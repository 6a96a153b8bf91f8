import Quackapi.Ddl.ParamReading

/-! The scanner on what stands behind the parameters, and on the statement as a whole. -/

namespace Quackapi.Ddl
open Library Params Http

theorem BodyAt.opens {b : BodyKind × Str} {text rest : Str} (h : BodyAt b text rest) :
    Opens "BODY".toList text := by
  obtain ⟨k, w, gap, mid, hk, -, -, hword, -⟩ := h
  rw [← hk]
  exact hword.opens (by rw [hk]; decide)

theorem ClauseAt.scheduleWord {cron text rest : Str} (h : ClauseAt (.schedule cron) text rest) :
    ∃ k mid, Begins (.word k) text mid ∧ upper k = "SCHEDULE".toList := by
  obtain ⟨xs, hs, hb⟩ := h
  cases hs with
  | schedule hk =>
    obtain _ | ⟨hword, -⟩ := hb
    exact ⟨_, _, hword, hk⟩

theorem ClauseAt.timeoutWord {d : Piece} {text rest : Str} (h : ClauseAt (.timeout d) text rest) :
    ∃ k mid, Begins (.word k) text mid ∧ upper k = "TIMEOUT".toList := by
  obtain ⟨xs, hs, hb⟩ := h
  cases hs with
  | timeout hk | timeoutLiteral hk _ =>
    obtain _ | ⟨hword, -⟩ := hb
    exact ⟨_, _, hword, hk⟩

theorem ClauseAt.opens_schedule {cron text rest : Str} (h : ClauseAt (.schedule cron) text rest) :
    Opens "SCHEDULE".toList text := by
  obtain ⟨k, mid, hword, hk⟩ := h.scheduleWord
  rw [← hk]
  exact hword.opens (by rw [hk]; decide)

theorem ClauseAt.opens_timeout {d : Piece} {text rest : Str} (h : ClauseAt (.timeout d) text rest) :
    Opens "TIMEOUT".toList text := by
  obtain ⟨k, mid, hword, hk⟩ := h.timeoutWord
  rw [← hk]
  exact hword.opens (by rw [hk]; decide)

theorem HandlerAt.opens {handler text : Str} (h : HandlerAt handler text) : Opens "AS".toList text := by
  obtain ⟨k, hk, hword⟩ := h
  rw [← hk]
  exact hword.opens (by rw [hk]; decide)

theorem lateClause_read {α : Type} {f : α → HeadClause} {keyword : Str} {clause : Clause} {o : Option α}
    {text rest : Str} (h : OptAt (fun a => ClauseAt (f a)) o text rest)
    (hat : ∀ a, ClauseAt (f a) text rest → atKeyword keyword text = true ∧ headClauseAt text = some clause)
    (hfollows : ∀ a, Follows (f a) rest) (hnone : o = none → atKeyword keyword text = false)
    (st : HeadState) :
    (if atKeyword keyword text then clause st text else .ok (st, text)).toOption =
      ((o.map f).toList.foldlM settle st).map (·, rest) := by
  cases h with
  | none =>
    rw [hnone rfl]
    rfl
  | @some a _ _ h =>
    obtain ⟨hkeyword, hclause⟩ := hat a h
    obtain ⟨clause', hclause', hread⟩ := clauseAt_read h (hfollows a) st
    have heq : clause' = clause := Option.some.inj (hclause'.symm.trans hclause)
    rw [if_pos hkeyword, ← heq, hread, Option.map_some, Option.toList_some, List.foldlM_cons]
    cases settle st (f a) <;> rfl

theorem lateSchedule_read {o : Option Str} {text rest : Str} {keywords : List Str}
    (h : OptAt (fun cron => ClauseAt (.schedule cron)) o text rest) (hrest : OpensOne keywords rest)
    (hnot : "SCHEDULE".toList ∉ keywords) (st : HeadState) :
    (if atKeyword "SCHEDULE".toList text then scheduleClause st text else .ok (st, text)).toOption =
      ((o.map HeadClause.schedule).toList.foldlM settle st).map (·, rest) := by
  refine lateClause_read h (fun cron hat => ?_) (fun cron => ⟨fun _ _ h => (nomatch h), fun _ h => (nomatch h)⟩)
    (fun ho => ?_) st
  · obtain ⟨k, mid, hword, hk⟩ := hat.scheduleWord
    rw [hword.atKeyword _ (by decide), headClauseAt_eq hword, hk]
    exact ⟨rfl, rfl⟩
  · subst ho
    cases h
    exact not_atKeyword (by decide) (hrest.leading_ne hnot (by decide))

theorem lateTimeout_read {o : Option Piece} {text rest : Str} {keywords : List Str}
    (h : OptAt (fun d => ClauseAt (.timeout d)) o text rest) (hrest : OpensOne keywords rest)
    (hnot : "TIMEOUT".toList ∉ keywords) (st : HeadState) :
    (if atKeyword "TIMEOUT".toList text then timeoutClause st text else .ok (st, text)).toOption =
      ((o.map HeadClause.timeout).toList.foldlM settle st).map (·, rest) := by
  refine lateClause_read h (fun d hat => ?_) (fun d => ⟨fun _ _ h => (nomatch h), fun _ h => (nomatch h)⟩)
    (fun ho => ?_) st
  · obtain ⟨k, mid, hword, hk⟩ := hat.timeoutWord
    rw [hword.atKeyword _ (by decide), headClauseAt_eq hword, hk]
    exact ⟨rfl, rfl⟩
  · subst ho
    cases h
    exact not_atKeyword (by decide) (hrest.leading_ne hnot (by decide))

theorem handlerClause_read {handler text : Str} (h : HandlerAt handler text) :
    handlerClause text = .ok handler := by
  obtain ⟨k, hk, hword⟩ := h
  have hat : atKeywordBlank "AS".toList text = true := by
    rw [hword.atKeywordBlank _ (by decide), hk]
    rfl
  have hne : handler.isEmpty = false := List.isEmpty_eq_false_iff.mpr hword.tight_rest.nonempty
  rw [handlerClause, hat, hword.afterKeyword hk, hne]
  rfl

theorem takeParenthesis_append {inner t : Str} (h : ')' ∉ inner) :
    takeParenthesis (inner ++ ')' :: t) = some (inner, t) := by
  rw [takeParenthesis, (cut_at h).1, (cut_at h).2]

theorem withClause_none {text : Str} (limits : Limits) (hstem : stem text ≠ "WITH".toList) :
    withClause limits text = .ok (limits, text) := by
  have hparen : "WITH(".toList.isPrefixOf (upper text) = false := by
    by_contra hat
    obtain ⟨t, ht⟩ := leading_of_isPrefixOf (by decide) (Bool.not_eq_false _ ▸ hat)
    refine hstem ?_
    rw [stem, ht]
    rfl
  have hword : atKeyword "WITH".toList text = false := not_atKeyword (by decide) (leading_ne hstem (by decide))
  rw [withClause, hword, hparen]
  rfl

theorem withClause_read (w : Written) {text rest : Str} (h : OptAt WithAt w.options text rest)
    (hstem : w.options = none → stem text ≠ "WITH".toList) (timeoutSec : Int) :
    (withClause ⟨timeoutSec, 0⟩ text).toOption = (w.limits timeoutSec).map (·, rest) := by
  rw [Written.limits]
  cases ho : w.options with
  | none =>
    rw [ho] at h
    cases h
    rw [withClause_none _ (hstem ho)]
    rfl
  | some inner =>
    rw [ho] at h
    cases h with
    | some h =>
      have hat : (atKeyword "WITH".toList text || "WITH(".toList.isPrefixOf (upper text)) = true := by
        rw [Bool.or_eq_true, atKeyword_iff (by decide)]
        exact h.keyword
      obtain ⟨k, gap, gap', hk, hgap, hgap', hinner, -, rfl, hrest⟩ := h
      have htight : IsRest ('(' :: (inner ++ ')' :: (gap' ++ rest))) := by
        have happ := hrest.append (t := '(' :: (inner ++ ')' :: gap')) (List.cons_ne_nil _ _)
          fun c hc => by rw [← Option.some.inj hc]; rfl
        simpa using happ
      have hafter : afterKeyword "WITH".toList (k ++ (gap ++ '(' :: (inner ++ ')' :: (gap' ++ rest)))) =
          '(' :: (inner ++ ')' :: (gap' ++ rest)) := by
        rw [afterKeyword, length_of_upper hk, List.drop_left]
        exact htight.strip_append hgap
      have hrest' : quackapiTrim (gap' ++ rest) = rest := hrest.strip_append hgap'
      simp only [withClause, hat, Bool.not_true, Bool.false_eq_true, if_false, hafter,
        takeParenthesis_append hinner, hrest']
      cases (quackapiTrim inner).isEmpty with
      | true => rfl
      | false => cases withOptions ⟨timeoutSec, 0⟩ (quackapiTrim inner) <;> rfl

section
variable {engine : DdlEngine} {w : Written} {text : Str}

theorem TailAt.opens (h : TailAt engine w text) :
    (w.body.isSome = true ∧ Opens "BODY".toList text) ∨
      (w.body = none ∧ OpensOne ["PARAM".toList, "WITH".toList, "AS".toList] text) := by
  obtain ⟨r₁, r₂, r₃, r₄, r₅, r₆, hbody, hparams, hlate, hschedule, htimeout, hwith, hhandler⟩ := h
  have hlast : OpensOne ["WITH".toList, "AS".toList] r₅ :=
    opens_optAt hwith (fun _ _ _ h => WithAt.opens h) ⟨_, List.mem_singleton.mpr rfl, hhandler.opens⟩
  cases hb : w.body with
  | some b =>
    rw [hb] at hbody
    cases hbody with
    | some hbody => exact .inl ⟨rfl, hbody.opens⟩
  | none =>
    rw [hb] at hbody
    cases hbody
    refine .inr ⟨rfl, ?_⟩
    cases hp : w.params with
    | nil =>
      -- Nothing stands in the late places.
      obtain ⟨hl, hs, ht⟩ := w.placed hb hp
      rw [hp] at hparams
      rw [hl] at hlate
      rw [hs] at hschedule
      rw [ht] at htimeout
      cases hparams
      cases hlate
      cases hschedule
      cases htimeout
      obtain ⟨word, hmem, hopens⟩ := hlast
      exact ⟨word, List.mem_cons_of_mem _ hmem, hopens⟩
    | cons p ps =>
      rw [hp] at hparams
      cases hparams with
      | cons h _ => exact ⟨_, List.mem_cons_self, h.opens⟩

theorem lateBody_read {b b' : Option (BodyKind × Str)} {rest : Str} (h : OptAt BodyAt b' text rest)
    (hnone : b' = none → leading text ≠ "BODY".toList) :
    lateBody (b.toList.foldl (fun st b => st.set b.1 b.2) {}) text =
      .ok ((b.toList ++ b'.toList).foldl (fun st b => st.set b.1 b.2) {}, rest) := by
  have hroom : ∀ st : BodyState, st = b.toList.foldl (fun st b => st.set b.1 b.2) {} →
      st.bodySchema.isEmpty = true ∨ st.bodyType.isEmpty = true := by
    rintro _ rfl
    cases b with
    | none => exact .inl rfl
    | some b =>
      obtain ⟨k, v⟩ := b
      cases k with
      | schema => exact .inr rfl
      | type => exact .inl rfl
  rw [lateBody, if_pos (hroom _ rfl), tryConsumeBodySchema_read h hnone, List.foldl_append]

theorem lateClauses_eq (st : HeadState) (rest : Str) :
    lateClauses st rest =
      (if atKeyword "SCHEDULE".toList rest then scheduleClause st rest else .ok (st, rest)).bind fun r =>
        if atKeyword "TIMEOUT".toList r.2 then timeoutClause r.1 r.2 else .ok (r.1, r.2) := by
  rw [lateClauses]
  cases atKeyword "SCHEDULE".toList rest <;> rfl

theorem lateClauses_read {r₃ r₄ r₅ : Str} {keywords : List Str}
    (hschedule : OptAt (fun cron => ClauseAt (.schedule cron)) w.lateSchedule r₃ r₄)
    (htimeout : OptAt (fun d => ClauseAt (.timeout d)) w.lateTimeout r₄ r₅) (hrest : OpensOne keywords r₅)
    (hnot : "TIMEOUT".toList ∉ keywords ∧ "SCHEDULE".toList ∉ keywords) (st : HeadState) :
    (lateClauses st r₃).toOption = (w.late.foldlM settle st).map (·, r₅) := by
  have hrest' : OpensOne ("TIMEOUT".toList :: keywords) r₄ :=
    opens_optAt htimeout (fun _ _ _ h => ClauseAt.opens_timeout h) hrest
  have hnot' : "SCHEDULE".toList ∉ "TIMEOUT".toList :: keywords := by
    rw [List.mem_cons, not_or]
    exact ⟨by decide, hnot.2⟩
  rw [lateClauses_eq, Written.late, List.foldlM_append]
  rcases toOption_step (lateSchedule_read hschedule hrest' hnot' st) with ⟨hsaid, e, he⟩ | ⟨st', hsaid, he⟩
  · rw [he, hsaid]
    rfl
  · rw [he, hsaid]
    exact lateTimeout_read htimeout hrest hnot.1 st'

theorem routeTail_read (hlit : ReadsLiterals engine) (h : TailAt engine w text) (st : HeadState) :
    (routeTail engine w.intro st text).toOption = (do
      let params ← w.params.mapM (ParamWritten.spec engine)
      let st ← w.late.foldlM settle st
      let limits ← w.limits st.timeoutSec
      return routeOf w.intro st (w.bodies.foldl (fun st b => st.set b.1 b.2) {}) params limits w.handler) := by
  have hopens := h.opens
  obtain ⟨r₁, r₂, r₃, r₄, r₅, r₆, hbody, hparams, hlate, hschedule, htimeout, hwith, hhandler⟩ := h
  have h₆ : OpensOne ["AS".toList] r₆ := ⟨_, List.mem_singleton.mpr rfl, hhandler.opens⟩
  have h₅ := opens_optAt hwith (fun _ _ _ h => WithAt.opens h) h₆
  have h₄ := opens_optAt htimeout (fun _ _ _ h => ClauseAt.opens_timeout h) h₅
  have h₃ := opens_optAt hschedule (fun _ _ _ h => ClauseAt.opens_schedule h) h₄
  have h₂ := opens_optAt hlate (fun _ _ _ h => BodyAt.opens h) h₃
  have hfirst : tryConsumeBodySchema {} text =
      .ok (w.body.toList.foldl (fun st b => st.set b.1 b.2) {}, r₁) := by
    refine tryConsumeBodySchema_read hbody (fun hnone => ?_) {}
    rcases hopens with ⟨hsome, -⟩ | ⟨-, hone⟩
    · rw [hnone] at hsome
      cases hsome
    · exact hone.leading_ne (by decide) (by decide)
  have hcount : w.params.length ≤ r₁.length := by
    have hle := hparams.length_le fun _ _ _ h => ParamAt.length_lt h
    omega
  have hsecond := paramClauses_read hlit hparams h₂ (by decide) hcount []
  have hthird := lateBody_read (b := w.body) hlate fun hnone => by
    rw [hnone] at hlate
    cases hlate
    exact h₃.leading_ne (by decide) (by decide)
  rw [routeTail, hfirst]
  show Except.toOption (Except.bind (paramClauses engine r₁.length [] r₁) _) = _
  rcases toOption_step hsecond with ⟨hsaid, e, he⟩ | ⟨params, hsaid, he⟩
  · rw [he, Option.map_eq_none_iff.mp hsaid]
    rfl
  · obtain ⟨specs, hspecs, rfl⟩ := Option.map_eq_some_iff.mp hsaid
    rw [he, hspecs]
    show Except.toOption (Except.bind (lateBody _ r₂) _) = _
    rw [hthird]
    show Except.toOption (Except.bind (lateClauses st r₃) _) = _
    rcases toOption_step (lateClauses_read hschedule htimeout h₅ (by decide) st) with
      ⟨hlate, e, he⟩ | ⟨st', hlate, he⟩
    · rw [he, hlate]
      rfl
    · rw [he, hlate]
      show Except.toOption (Except.bind (withClause ⟨st'.timeoutSec, 0⟩ r₅) _) = _
      have hwithout : w.options = none → stem r₅ ≠ "WITH".toList := by
        intro hnone
        rw [hnone] at hwith
        cases hwith
        obtain ⟨word, hmem, hopens⟩ := h₆
        rw [hopens.stem, List.mem_singleton.mp hmem]
        decide
      rcases toOption_step (withClause_read w hwith hwithout st'.timeoutSec) with
        ⟨hlimits, e, he⟩ | ⟨limits, hlimits, he⟩
      · rw [he]
        show _ = Option.bind (w.limits st'.timeoutSec) _
        rw [hlimits]
        rfl
      · rw [he]
        show Except.toOption (Except.bind (handlerClause r₆) _) = Option.bind (w.limits st'.timeoutSec) _
        rw [handlerClause_read hhandler, hlimits]
        rfl

end

theorem isKeyword_method {method : Str} (h : IsHttpMethod method = true) : IsKeyword method := by
  have hall : ∀ m ∈ ["GET".toList, "POST".toList, "PUT".toList, "DELETE".toList, "PATCH".toList,
      "HEAD".toList], IsKeyword m := by decide
  exact hall method (by simpa [IsHttpMethod] using h)

theorem isRest_cons {c : Char} {t rest : Str} (hrest : IsRest rest) (hc : isSpace c = false) :
    IsRest (c :: (t ++ rest)) :=
  hrest.append (t := c :: t) (List.cons_ne_nil c t) fun d hd => by rw [← Option.some.inj hd]; exact hc

theorem routeHead_read {head : RouteHead} {method gap₁ gap₂ gap₃ rest : Str}
    (hname : ' ' ∉ head.name) (hmethod : upper method = head.method)
    (hhttp : IsHttpMethod head.method = true) (hgap₁ : IsGapText gap₁) (hgap₂ : IsGapText gap₂)
    (hpattern : head.pattern ≠ [] ∧ '\'' ∉ head.pattern) (hgap₃ : IsGapText gap₃) (hrest : IsRest rest) :
    routeHead head.orReplace (head.name ++ ' ' :: (gap₁ ++ (method ++ ' ' :: (gap₂ ++
      '\'' :: (head.pattern ++ '\'' :: (gap₃ ++ rest)))))) = .ok (head, rest) := by
  have hplain := isKeyword_of_upper hmethod (isKeyword_method hhttp)
  have hspace : ∀ {s t : Str}, ¬ (' ' ∉ s ++ ' ' :: t) := fun h => h (by simp)
  have hnospace : ' ' ∉ method := fun hmem => by
    have hblank := hplain _ hmem
    cases hblank
  have hquoted : IsRest ('\'' :: (head.pattern ++ '\'' :: (gap₃ ++ rest))) := by
    have happ := isRest_cons (t := head.pattern ++ '\'' :: gap₃) hrest (show isSpace '\'' = false from rfl)
    simpa using happ
  have hrest₁ : IsRest (method ++ ' ' :: (gap₂ ++ '\'' :: (head.pattern ++ '\'' :: (gap₃ ++ rest)))) := by
    cases method with
    | nil =>
      rw [← hmethod] at hhttp
      cases hhttp
    | cons c method =>
      have happ := isRest_cons (t := method ++ ' ' :: gap₂) hquoted (hplain c List.mem_cons_self)
      simpa using happ
  have htrim₁ : ∀ t, IsRest t → quackapiTrim (' ' :: (gap₁ ++ t)) = t := fun t ht =>
    ht.strip_append (a := ' ' :: gap₁) (List.forall_mem_cons.mpr ⟨rfl, hgap₁⟩)
  have htrim₂ : ∀ t, IsRest t → quackapiTrim (' ' :: (gap₂ ++ t)) = t := fun t ht =>
    ht.strip_append (a := ' ' :: gap₂) (List.forall_mem_cons.mpr ⟨rfl, hgap₂⟩)
  have htrim₃ : quackapiTrim (gap₃ ++ rest) = rest := hrest.strip_append hgap₃
  have hpat : head.pattern.isEmpty = false := List.isEmpty_eq_false_iff.mpr hpattern.1
  simp only [routeHead, if_neg hspace, (cut_at hname).1, (cut_at hname).2, htrim₁ _ hrest₁,
    (cut_at hnospace).1, (cut_at hnospace).2, hmethod, hhttp, Bool.not_true, Bool.false_eq_true, if_false,
    htrim₂ _ hquoted, takeToQuote_append hpattern.2, hpat, htrim₃]

/-- What is done with the clauses, once the front of the statement is read. -/
def afterHead (engine : DdlEngine) (head : RouteHead) (text : Str) : Scan RouteDdl :=
  (headClauses clauseRounds {} text).bind fun r =>
    (checkHead head r.1).bind fun _ => routeTail engine head r.1 r.2

theorem createRoute_eq (engine : DdlEngine) {head : RouteHead} {orReplace : Bool} {text rest : Str}
    (h : routeHead orReplace text = .ok (head, rest)) :
    createRoute engine orReplace text = afterHead engine head rest := by
  rw [createRoute, h]
  rfl

theorem upper_append (a b : Str) : upper (a ++ b) = upper a ++ upper b := List.map_append

theorem createWords_front {create : Str} {orReplace : Bool} (h : upper create = createWords orReplace) :
    ∃ c t, create = c :: t ∧ isSpace c = false := by
  have hhead : (upper create).head? = some 'C' := by
    rw [h]
    cases orReplace <;> rfl
  cases create with
  | nil => cases hhead
  | cons c t =>
    have hupper : c.toUpper = 'C' := Option.some.inj hhead
    refine ⟨c, t, rfl, ?_⟩
    by_contra hspace
    rw [Bool.not_eq_false] at hspace
    rw [isSpace_toUpper hspace] at hupper
    rw [hupper] at hspace
    cases hspace

theorem routeDdlParse_create (engine : DdlEngine) {query create rest : Str} {orReplace : Bool}
    (hcreate : upper create = createWords orReplace) (hquery : quackapiTrim query = create ++ rest) :
    routeDdlParse engine query =
      some ((createRoute engine orReplace (quackapiTrim rest)).map .create) := by
  have hdrop : (create ++ rest).drop (createWords orReplace).length = rest := by
    rw [length_of_upper hcreate, List.drop_left]
  rw [routeDdlParse, hquery, upper_append, hcreate]
  cases orReplace with
  | false =>
    show some ((createRoute engine false (quackapiTrim ((create ++ rest).drop 13))).map _) = _
    exact congrArg (fun t => some ((createRoute engine false (quackapiTrim t)).map RouteStatement.create)) hdrop
  | true =>
    show some ((createRoute engine true (quackapiTrim ((create ++ rest).drop 24))).map _) = _
    exact congrArg (fun t => some ((createRoute engine true (quackapiTrim t)).map RouteStatement.create)) hdrop

theorem IntroAt.head_read {head : RouteHead} {query rest : Str} (h : IntroAt head query rest) :
    ∃ create t, upper create = createWords head.orReplace ∧ quackapiTrim query = create ++ t ∧
      routeHead head.orReplace (quackapiTrim t) = .ok (head, rest) := by
  obtain ⟨before, create, gap, method, gap₁, gap₂, gap₃, after, hbefore, hcreate, hgap,
    ⟨hname, hfront, hnospace, -⟩, hmethod, hhttp, hgap₁, hgap₂, hpattern, hgap₃, hafter, hrest, rfl⟩ := h
  have hhead := routeHead_read hnospace hmethod hhttp hgap₁ hgap₂ hpattern hgap₃ hrest
  set text := head.name ++ ' ' :: (gap₁ ++ (method ++ ' ' :: (gap₂ ++ '\'' :: (head.pattern ++
    '\'' :: (gap₃ ++ rest))))) with htext
  have htight : IsRest text := by
    obtain ⟨c, name, hcons⟩ := List.exists_cons_of_ne_nil hname
    have hc : isSpace c = false := hfront c (by rw [hcons]; rfl)
    have happ := isRest_cons (t := name ++ ' ' :: (gap₁ ++ (method ++ ' ' :: (gap₂ ++ '\'' :: (head.pattern ++
      '\'' :: gap₃))))) hrest hc
    rw [htext, hcons]
    simpa using happ
  have hskip : quackapiTrim (gap ++ text) = text := htight.strip_append hgap
  obtain ⟨c, t, rfl, hc⟩ := createWords_front hcreate
  have hwhole : IsRest (c :: t ++ (gap ++ text)) := by
    have happ := isRest_cons (t := t ++ gap) htight hc
    simpa using happ
  have hquery : quackapiTrim (before ++ (c :: t ++ (gap ++ (head.name ++ ' ' :: (gap₁ ++ (method ++ ' ' ::
      (gap₂ ++ '\'' :: (head.pattern ++ '\'' :: (gap₃ ++ (rest ++ after)))))))))) = c :: t ++ (gap ++ text) := by
    have hends : quackapiTrim (before ++ (c :: t ++ (gap ++ text) ++ after)) = c :: t ++ (gap ++ text) :=
      hwhole.strip_append_append hbefore hafter
    rw [htext] at hends ⊢
    simpa using hends
  exact ⟨_, _, hcreate, hquery, by rw [hskip]; exact hhead⟩

theorem routeDdlParse_intro (engine : DdlEngine) {head : RouteHead} {query rest : Str}
    (h : IntroAt head query rest) :
    routeDdlParse engine query = some ((afterHead engine head rest).map .create) := by
  obtain ⟨create, t, hcreate, hquery, hhead⟩ := h.head_read
  rw [routeDdlParse_create engine hcreate hquery, createRoute_eq engine hhead]

section
variable {engine : DdlEngine} {w : Written} {query text tail : Str}

theorem TailAt.leading_not_mem (h : TailAt engine w tail) : leading tail ∉ headWords := by
  intro hmem
  rcases h.opens with ⟨-, hbody⟩ | ⟨-, hone⟩
  · have hone : OpensOne ["BODY".toList] tail := ⟨_, List.mem_singleton.mpr rfl, hbody⟩
    have hall : ∀ word ∈ headWords, word ∉ ["BODY".toList] ∧ '(' ∉ word := by decide
    exact hone.leading_ne (hall _ hmem).1 (hall _ hmem).2 rfl
  · have hall : ∀ word ∈ headWords,
        word ∉ ["PARAM".toList, "WITH".toList, "AS".toList] ∧ '(' ∉ word := by decide
    exact hone.leading_ne (hall _ hmem).1 (hall _ hmem).2 rfl

theorem TailAt.endsHead (h : TailAt engine w tail) (hopen : ∀ c ∈ w.head.getLast?, OpenEnded c → w.body = none) :
    EndsHead w.head tail := by
  rcases h.opens with ⟨hsome, hbody⟩ | ⟨-, hone⟩
  · have hone : OpensOne ["BODY".toList] tail := ⟨_, List.mem_singleton.mpr rfl, hbody⟩
    refine ⟨h.leading_not_mem, hone.leading_ne (by decide) (by decide), fun c hc hend => ?_⟩
    rw [hopen c hc hend] at hsome
    cases hsome
  · exact ⟨h.leading_not_mem, hone.leading_ne (by decide) (by decide), fun _ _ _ =>
      hone.leading_ne (by decide) (by decide)⟩

theorem toOption_map {α β : Type} (s : Scan α) (f : α → β) : (s.map f).toOption = s.toOption.map f := by
  cases s <;> rfl

theorem routeDdlParse_read (hlit : ReadsLiterals engine) (h : Reads engine w query)
    (hopen : ∀ c ∈ w.head.getLast?, OpenEnded c → w.body = none) (hlength : w.head.length ≤ clauseRounds) :
    ∃ r, routeDdlParse engine query = some r ∧ r.toOption = (w.route engine).map .create := by
  obtain ⟨text, tail, hintro, hhead, htail⟩ := h
  refine ⟨_, routeDdlParse_intro engine hintro, ?_⟩
  rw [toOption_map]
  congr 1
  rw [afterHead, Written.route]
  rcases toOption_step (headClauses_read hhead (htail.endsHead hopen) hlength {}) with
    ⟨hsaid, e, he⟩ | ⟨st, hsaid, he⟩
  · rw [he, hsaid]
    rfl
  · rw [he, hsaid]
    show Except.toOption (Except.bind (checkHead w.intro st) _) = Option.bind (checkHead w.intro st).toOption _
    cases checkHead w.intro st with
    | error e => rfl
    | ok _ => exact routeTail_read hlit htail st

theorem routeDdlParse_take (h : Reads engine w query)
    (hopen : ∀ c ∈ w.head.getLast?, OpenEnded c → w.body = none) {s : RouteStatement}
    (hparse : routeDdlParse engine query = some (.ok s)) :
    ((w.head.take clauseRounds).foldlM settle {}).isSome = true := by
  obtain ⟨text, tail, hintro, hhead, htail⟩ := h
  rw [routeDdlParse_intro engine hintro] at hparse
  cases hclauses : headClauses clauseRounds {} text with
  | error e =>
    rw [afterHead, hclauses] at hparse
    cases hparse
  | ok r => exact headClauses_take hhead (htail.endsHead hopen) (Nat.le_refl _) hclauses

end

end Quackapi.Ddl
