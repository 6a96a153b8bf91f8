import Quackapi.Ddl.Statement

/-! The scanner on a text that is written as a statement says: keywords, operands and literals, and from
these the head clauses. -/

namespace Quackapi.Ddl
open Library Params Http

theorem isSpace_toUpper {c : Char} (h : isSpace c = true) : c.toUpper = c := by
  have hle : c.toNat ≤ 32 := by
    simp only [isSpace, Bool.or_eq_true, Bool.and_eq_true, decide_eq_true_eq] at h
    omega
  unfold Char.toUpper
  refine dif_neg fun hand => ?_
  have h97 : 97 ≤ c.toNat := hand.1
  omega

def IsKeyword (keyword : Str) : Prop := ∀ c ∈ keyword, isSpace c = false

instance (keyword : Str) : Decidable (IsKeyword keyword) := List.decidableBAll _ keyword

theorem nextToken_append {k t : Str} (hk : ∀ c ∈ k, isSpace c = false)
    (ht : ∀ c ∈ t.head?, isSpace c = true) : nextToken (k ++ t) = k := by
  have hpos : ∀ c ∈ k, (!isSpace c) = true := fun c hc => by simp [hk c hc]
  have hrest : t.takeWhile (fun c => !isSpace c) = [] := by
    cases t with
    | nil => rfl
    | cons c t => exact List.takeWhile_cons_of_neg (by simp [ht c rfl])
  rw [nextToken, List.takeWhile_append_of_pos hpos, hrest, List.append_nil]

theorem nextToken_append_dropWhile (s : Str) :
    nextToken s ++ s.dropWhile (fun c => !isSpace c) = s := List.takeWhile_append_dropWhile

theorem isSpace_head_dropWhile (s : Str) :
    ∀ c ∈ (s.dropWhile fun c => !isSpace c).head?, isSpace c = true := by
  intro c hc
  have hneg := List.head?_dropWhile_not (fun c => !isSpace c) s
  rw [Option.mem_def.mp hc] at hneg
  simpa using hneg

theorem isKeyword_of_upper {k keyword : Str} (h : upper k = keyword) (hkey : IsKeyword keyword) :
    ∀ c ∈ k, isSpace c = false := by
  intro c hc
  by_contra hspace
  have hspace' : isSpace c = true := by simpa using hspace
  have hmem : c ∈ keyword := by
    rw [← h, ← isSpace_toUpper hspace']
    exact List.mem_map_of_mem hc
  rw [hkey c hmem] at hspace'
  cases hspace'

theorem isPrefixOf_upper_iff {keyword text : Str} :
    keyword.isPrefixOf (upper text) = true ↔
      upper (text.take keyword.length) = keyword := by
  rw [List.isPrefixOf_iff_prefix, List.prefix_iff_eq_take, upper, upper, List.map_take]
  exact eq_comm

theorem all_head_iff {s : Str} : s.head?.all isSpace = true ↔ ∀ c ∈ s.head?, isSpace c = true := by
  cases s with
  | nil => exact iff_of_true rfl fun _ hc => nomatch hc
  | cons c s => exact ⟨fun h d hd => Option.some.inj hd ▸ h, fun h => h c rfl⟩

theorem take_nextToken (text : Str) :
    text.take (nextToken text).length = nextToken text ∧
      text.drop (nextToken text).length = text.dropWhile fun c => !isSpace c := by
  have hcut := nextToken_append_dropWhile text
  generalize nextToken text = k, text.dropWhile (fun c => !isSpace c) = t at hcut
  rw [← hcut]
  exact ⟨List.take_left, List.drop_left⟩

theorem length_of_upper {k keyword : Str} (h : upper k = keyword) : keyword.length = k.length := by
  rw [← h]
  exact List.length_map _

theorem atKeyword_iff {keyword text : Str} (hkey : IsKeyword keyword) :
    atKeyword keyword text = true ↔ upper (nextToken text) = keyword := by
  rw [atKeyword, Bool.and_eq_true, isPrefixOf_upper_iff, all_head_iff]
  constructor
  · rintro ⟨hupper, hend⟩
    have htoken := nextToken_append (isKeyword_of_upper hupper hkey) hend
    rw [List.take_append_drop] at htoken
    rw [htoken, hupper]
  · intro hupper
    rw [length_of_upper hupper, (take_nextToken text).1, (take_nextToken text).2]
    exact ⟨hupper, isSpace_head_dropWhile text⟩

theorem atKeyword_eq {keyword text : Str} (hkey : IsKeyword keyword) :
    atKeyword keyword text = decide (upper (nextToken text) = keyword) :=
  Bool.eq_iff_iff.mpr ((atKeyword_iff hkey).trans decide_eq_true_iff.symm)

theorem Begins.afterWord {k text rest : Str} (h : Begins (.word k) text rest) :
    nextToken text = k ∧ afterToken text = rest :=
  Starts.takeWhile_word h

theorem Begins.any_blank {k text rest : Str} (h : Begins (.word k) text rest) :
    (text.drop k.length).head?.any isSpace = true := by
  obtain ⟨-, b, hb, hne, rfl⟩ := h.word_eq
  obtain ⟨c, b, rfl⟩ := List.exists_cons_of_ne_nil hne
  rw [List.drop_left]
  exact hb c List.mem_cons_self

theorem Begins.afterKeyword {k keyword text rest : Str} (h : Begins (.word k) text rest)
    (hk : upper k = keyword) : afterKeyword keyword text = rest := by
  have hrest := h.tight_rest
  obtain ⟨-, b, hb, -, rfl⟩ := h.word_eq
  rw [Ddl.afterKeyword, length_of_upper hk, List.drop_left]
  exact hrest.strip_append hb

theorem Begins.atKeyword {k text rest : Str} (h : Begins (.word k) text rest) (keyword : Str)
    (hkey : IsKeyword keyword) : atKeyword keyword text = decide (upper k = keyword) := by
  rw [atKeyword_eq hkey, h.afterWord.1]

theorem Begins.atKeywordBlank {k text rest : Str} (h : Begins (.word k) text rest) (keyword : Str)
    (hkey : IsKeyword keyword) : atKeywordBlank keyword text = decide (upper k = keyword) := by
  have hblank := h.any_blank
  have hword := h.atKeyword keyword hkey
  by_cases hk : upper k = keyword
  · have hlen := length_of_upper hk
    rw [decide_eq_true hk, Ddl.atKeyword, Bool.and_eq_true] at hword
    rw [Ddl.atKeywordBlank, hword.1, hlen, hblank, decide_eq_true hk]
    rfl
  · rw [decide_eq_false hk, Ddl.atKeyword] at hword
    rw [decide_eq_false hk, Ddl.atKeywordBlank, Bool.and_eq_false_iff]
    rcases Bool.and_eq_false_iff.mp hword with h | h
    · exact .inl h
    · right
      cases hhead : (text.drop keyword.length).head? with
      | none => rfl
      | some c =>
        rw [hhead] at h
        exact h

theorem takeLiteral_doubled {v r : Str} (hr : ∀ c ∈ r.head?, c ≠ '\'') :
    takeLiteral (doubled '\'' v ++ '\'' :: r) = some (v, r) := by
  induction v with
  | nil =>
    cases r with
    | nil => rfl
    | cons c r =>
      have hc : c ≠ '\'' := hr c rfl
      show takeLiteral ('\'' :: c :: r) = _
      rw [takeLiteral]
      intro s hs
      exact hc (List.head_eq_of_cons_eq hs)
  | cons c v ih =>
    by_cases hc : c = '\''
    · have hcons : doubled '\'' (c :: v) ++ '\'' :: r = '\'' :: '\'' :: (doubled '\'' v ++ '\'' :: r) := by
        rw [doubled, List.flatMap_cons, if_pos hc]
        rfl
      rw [hcons, takeLiteral, ih, hc]
      rfl
    · have hcons : doubled '\'' (c :: v) ++ '\'' :: r = c :: (doubled '\'' v ++ '\'' :: r) := by
        rw [doubled, List.flatMap_cons, if_neg hc]
        rfl
      rw [hcons, takeLiteral, ih]
      · rfl
      · exact fun _ heq => absurd heq hc
      · exact fun heq => hc heq

theorem Begins.takeLiteral {v text rest : Str} (h : Begins (.literal v) text rest) :
    ∃ t after, text = '\'' :: t ∧ takeLiteral t = some (v, after) ∧ quackapiTrim after = rest := by
  have hrest := h.tight_rest
  obtain ⟨b, hb, hend, rfl⟩ := h.literal_eq
  refine ⟨doubled '\'' v ++ '\'' :: (b ++ rest), b ++ rest, by simp [quoted], ?_, hrest.strip_append hb⟩
  refine takeLiteral_doubled fun c hc => ?_
  cases b with
  | nil => exact hend rfl c hc
  | cons d b =>
    rw [← Option.some.inj hc]
    rintro rfl
    cases hb _ List.mem_cons_self

theorem takeToQuote_append {v r : Str} (hv : '\'' ∉ v) : takeToQuote (v ++ '\'' :: r) = some (v, r) := by
  rw [takeToQuote, (cut_at hv).1, (cut_at hv).2]

theorem Begins.takeToQuote {v text rest : Str} (h : Begins (.literal v) text rest) (hv : '\'' ∉ v) :
    ∃ t after, text = '\'' :: t ∧ takeToQuote t = some (v, after) ∧ quackapiTrim after = rest := by
  have hrest := h.tight_rest
  obtain ⟨b, hb, -, rfl⟩ := h.literal_eq
  refine ⟨v ++ '\'' :: (b ++ rest), b ++ rest, ?_, takeToQuote_append hv, hrest.strip_append hb⟩
  rw [quoted, doubled_of_not_mem hv]
  simp

/-- The clause with this first word, and the text behind the word. -/
def clauseOf (keyword rest : Str) : Option Clause :=
  if keyword = "SCHEDULE".toList then some scheduleClause
  else if keyword = "STATUS".toList then some statusClause
  else if keyword = "RATE".toList then some rateClause
  else if keyword = "REQUIRE".toList then some requireClause
  else if keyword = "FORMAT".toList then some formatClause
  else if keyword = "ENVELOPE".toList then some envelopeClause
  else if keyword = "EMPTY".toList then some emptyClause
  else if keyword = "TIMEOUT".toList then some timeoutClause
  else if keyword = "IN".toList ∧ atKeyword "GROUP".toList rest then some inGroupClause
  else if keyword = "GROUP".toList then some groupClause
  else none

theorem headClauseAt_eq {k text rest : Str} (h : Begins (.word k) text rest) :
    headClauseAt text = clauseOf (upper k) rest := by
  have hin : (atKeywordBlank "IN".toList text &&
      atKeyword "GROUP".toList (afterKeyword "IN".toList text)) = true ↔
      upper k = "IN".toList ∧ atKeyword "GROUP".toList rest = true := by
    rw [Bool.and_eq_true, h.atKeywordBlank _ (by decide), decide_eq_true_iff]
    exact and_congr_right fun hk => by rw [h.afterKeyword hk]
  simp only [headClauseAt, clauseOf, hin, h.atKeyword "SCHEDULE".toList (by decide),
    h.atKeyword "STATUS".toList (by decide),
    h.atKeywordBlank "RATE".toList (by decide),
    h.atKeyword "REQUIRE".toList (by decide),
    h.atKeyword "FORMAT".toList (by decide),
    h.atKeyword "ENVELOPE".toList (by decide),
    h.atKeyword "EMPTY".toList (by decide),
    h.atKeyword "TIMEOUT".toList (by decide),
    h.atKeyword "GROUP".toList (by decide), decide_eq_true_iff]

/-- A literal that what follows could be taken for belongs to the next clause. -/
structure Follows (c : HeadClause) (rest : Str) : Prop where
  noKey : ∀ n s, c = .rateLimit n s none → upper (nextToken rest) ≠ "BY".toList
  noBody : ∀ n, c = .emptyStatus n none → atKeywordBlank "BODY".toList rest = false

theorem isEmpty_of_word {w text rest : Str} (h : Begins (.word w) text rest) : w.isEmpty = false := by
  simpa using h.word_eq.1.1

theorem Begins.operand {w text rest : Str} (h : Begins (.word w) text rest) :
    nextToken text = w ∧ afterToken text = rest ∧ w.isEmpty = false :=
  ⟨h.afterWord.1, h.afterWord.2, isEmpty_of_word h⟩

section
variable {k n text mid rest : Str} (st : HeadState)

theorem settle_eq {c : HeadClause} {o : Option Setting} {b : Bool} (hc : c.setting = o)
    (hb : st.blocks c.kind = b) : settle st c = o.bind fun s => if b then none else some (st.set s) := by
  subst hc hb
  rfl

theorem statusClause_eq (hk : upper k = "STATUS".toList) (h : Begins (.word k) text mid)
    (hn : Begins (.word n) mid rest) :
    (statusClause st text).toOption = (settle st (.status n)).map (·, rest) := by
  obtain ⟨htoken, hafter, hne⟩ := hn.operand
  simp only [statusClause, h.afterKeyword hk, htoken, hafter, hne, Bool.false_eq_true, if_false, settle,
    HeadClause.setting, statusOf]
  cases isStatus (atoi n) <;> rfl

theorem requireClause_eq (hk : upper k = "REQUIRE".toList) (h : Begins (.word k) text mid)
    (hn : Begins (.word n) mid rest) :
    (requireClause st text).toOption = (settle st (.require n)).map (·, rest) := by
  obtain ⟨htoken, hafter, hne⟩ := hn.operand
  simp only [requireClause, h.afterKeyword hk, htoken, hafter, hne, Bool.false_eq_true, if_false]
  rfl

theorem formatClause_eq (hk : upper k = "FORMAT".toList) (h : Begins (.word k) text mid)
    (hn : Begins (.word n) mid rest) :
    (formatClause st text).toOption = (settle st (.format n)).map (·, rest) := by
  obtain ⟨htoken, hafter, hne⟩ := hn.operand
  simp only [formatClause, h.afterKeyword hk, htoken, hafter, hne, Bool.false_eq_true, if_false, settle,
    HeadClause.setting]
  by_cases hname : formatName n ∈ formatNames
  · rw [if_neg (not_not_intro hname), if_pos hname]
    rfl
  · rw [if_pos hname, if_neg hname]
    rfl

theorem envelopeClause_eq (hk : upper k = "ENVELOPE".toList) (h : Begins (.word k) text mid)
    (hn : Begins (.word n) mid rest) :
    (envelopeClause st text).toOption = (settle st (.envelope n)).map (·, rest) := by
  obtain ⟨htoken, hafter, hne⟩ := hn.operand
  simp only [envelopeClause, h.afterKeyword hk, htoken, hafter, hne, Bool.false_eq_true, if_false, settle,
    HeadClause.setting]
  by_cases hname : lower n ∈ envelopeNames
  · rw [if_neg (not_not_intro hname), if_pos hname]
    rfl
  · rw [if_pos hname, if_neg hname]
    rfl

theorem groupOperand_eq (missing : Str) (hn : Begins (.word n) mid rest) :
    (groupOperand missing st mid).toOption = (settle st (.group n)).map (·, rest) := by
  obtain ⟨htoken, hafter, hne⟩ := hn.operand
  rw [settle_eq st (b := !st.groupName.isEmpty) rfl rfl]
  simp only [groupOperand, htoken, hafter, hne, Bool.false_eq_true, if_false]
  cases (!st.groupName.isEmpty) <;> rfl

theorem groupClause_eq (hk : upper k = "GROUP".toList) (h : Begins (.word k) text mid)
    (hn : Begins (.word n) mid rest) :
    (groupClause st text).toOption = (settle st (.group n)).map (·, rest) := by
  rw [groupClause, h.afterKeyword hk]
  exact groupOperand_eq st _ hn

theorem scheduleClause_eq {v : Str} (hk : upper k = "SCHEDULE".toList) (h : Begins (.word k) text mid)
    (hv : Begins (.literal v) mid rest) :
    (scheduleClause st text).toOption = (settle st (.schedule v)).map (·, rest) := by
  obtain ⟨t, after, rfl, htake, hafter⟩ := hv.takeLiteral
  rw [settle_eq st (b := st.scheduleSeen) rfl rfl]
  simp only [scheduleClause, h.afterKeyword hk, htake, hafter, HeadClause.setting]
  cases st.scheduleSeen <;> cases validateRouteSchedule v <;> rfl

theorem parseTimeout_eq {tok : Str} {after : Str} {c : HeadClause}
    (hkind : c.kind = .timeout) (hc : c.setting = (parseRouteTimeoutSec tok).toOption.map .timeout)
    (htake : takeDuration mid = .ok (tok, after)) (hk : upper k = "TIMEOUT".toList)
    (h : Begins (.word k) text mid) :
    (timeoutClause st text).toOption = (settle st c).map (·, after) := by
  rw [settle_eq st hc (b := decide (0 < st.timeoutSec)) (by rw [hkind]; rfl)]
  simp only [timeoutClause, h.afterKeyword hk, htake]
  cases parseRouteTimeoutSec tok with
  | error e => rfl
  | ok sec => by_cases hset : 0 < st.timeoutSec <;> simp only [hset] <;> rfl

theorem takeDuration_word (hn : Begins (.word n) mid rest) : takeDuration mid = .ok (n, rest) := by
  obtain ⟨htoken, hafter, hne⟩ := hn.operand
  have hplain := hn.word_eq.1
  cases mid with
  | nil =>
    rw [show nextToken [] = [] from rfl] at htoken
    rw [← htoken] at hne
    cases hne
  | cons c t =>
    have hc : c ≠ '\'' := by
      rintro rfl
      have hmem : '\'' ∈ n := by
        rw [← htoken]
        exact List.mem_cons_self
      exact (hplain.2 _ hmem).2 rfl
    rw [takeDuration, htoken, hafter]
    · exact fun h => nomatch h
    · exact fun s heq => hc (List.head_eq_of_cons_eq heq)

theorem takeDuration_literal {v : Str} (hv : Begins (.literal v) mid rest) (hfree : '\'' ∉ v) :
    takeDuration mid = .ok ('\'' :: v ++ ['\''], rest) := by
  obtain ⟨t, after, rfl, htake, hafter⟩ := hv.takeToQuote hfree
  rw [takeDuration, htake, ← hafter]

theorem rateLimitBy_none (h : upper (nextToken rest) ≠ "BY".toList) :
    rateLimitBy st rest = .ok ({ st with rateLimitBy := "ip".toList }, rest) := by
  have hby : ¬ atKeyword "BY".toList rest = true := fun hat => h ((atKeyword_iff (by decide)).mp hat)
  rw [rateLimitBy, if_neg hby]

theorem rateLimitBy_some {key : Str} (hk : upper k = "BY".toList) (h : Begins (.word k) text mid)
    (hn : Begins (.word key) mid rest) :
    (rateLimitBy st text).toOption =
      (limitKey (some key)).map fun by' => ({ st with rateLimitBy := by' }, rest) := by
  obtain ⟨htoken, hafter, hne⟩ := hn.operand
  have hby : atKeyword "BY".toList text = true := by
    rw [h.atKeyword _ (by decide), hk]
    rfl
  simp only [rateLimitBy, hby, if_true, h.afterKeyword hk, htoken, hafter, hne, Bool.false_eq_true, if_false,
    limitKey]
  by_cases hkey : lower key = "key".toList
  · rw [if_pos hkey, if_neg fun hnot => hnot.2.2 hkey, if_pos hkey]
    rfl
  · rw [if_neg hkey, if_neg hkey]
    by_cases hother : lower key = "ip".toList ∨ lower key = "token".toList
    · rw [if_pos hother, if_neg fun hnot => hother.elim hnot.1 hnot.2.1]
      rfl
    · rw [if_neg hother, if_pos ⟨fun h => hother (.inl h), fun h => hother (.inr h), hkey⟩]
      rfl

theorem positive_eq {α : Type} {message : Str} {f : Int → Scan α} :
    (if atoi n ≤ 0 then fail message else f (atoi n)).toOption =
      (positive n).bind fun m => (f m).toOption := by
  rw [positive]
  by_cases hpos : 0 < atoi n
  · rw [if_pos hpos, if_neg (by omega)]
    rfl
  · rw [if_neg hpos, if_pos (by omega)]
    rfl

theorem rateLimitPer_eq {s : Str} (hp : upper k = "PER".toList) (h : Begins (.word k) text mid)
    (hs : Begins (.word s) mid rest) :
    (rateLimitPer st text).toOption = (positive s).bind fun m =>
      (rateLimitBy { st with rateLimitPerSec := m } rest).toOption := by
  obtain ⟨htoken, hafter, hne⟩ := hs.operand
  have hper : atKeyword "PER".toList text = true := by
    rw [h.atKeyword _ (by decide), hp]
    rfl
  rw [← @positive_eq _ _ "RATE LIMIT window (PER seconds) must be positive".toList]
  simp only [rateLimitPer, hper, Bool.not_true, Bool.false_eq_true, if_false, h.afterKeyword hp, htoken,
    hafter, hne]

theorem rateClause_eq {l r : Str} {afterLimit afterCount : Str} (hk : upper k = "RATE".toList)
    (h : Begins (.word k) text mid) (hl : upper l = "LIMIT".toList) (hlimit : Begins (.word l) mid afterLimit)
    (hn : Begins (.word r) afterLimit afterCount) :
    (rateClause st text).toOption = (positive r).bind fun m =>
      (rateLimitPer { st with rateLimitN := m } afterCount).toOption := by
  obtain ⟨htoken, hafter, hne⟩ := hn.operand
  have hat : atKeyword "LIMIT".toList mid = true := by
    rw [hlimit.atKeyword _ (by decide), hl]
    rfl
  rw [← @positive_eq _ _ "RATE LIMIT count must be a positive integer".toList]
  simp only [rateClause, h.afterKeyword hk, hat, Bool.not_true, Bool.false_eq_true, if_false,
    hlimit.afterKeyword hl, htoken, hafter, hne]

theorem settle_rateLimit (count window : Str) (key : Option Str) :
    settle st (.rateLimit count window key) = (positive count).bind fun n => (positive window).bind fun s =>
      (limitKey key).map fun by' => st.set (.rateLimit n s by') := by
  rw [settle_eq st rfl (b := false) rfl]
  simp only [HeadClause.setting, Option.bind_assoc, Bool.false_eq_true, if_false, Option.bind_map]
  congr 1
  funext n
  congr 1
  funext s
  cases limitKey key <;> rfl

theorem emptyBodyPart_none (h : atKeywordBlank "BODY".toList rest = false) :
    emptyBodyPart st rest = .ok (st, rest) := by
  rw [emptyBodyPart, if_neg (by rw [h]; decide)]

theorem emptyBodyPart_some {v : Str} (hk : upper k = "BODY".toList) (h : Begins (.word k) text mid)
    (hv : Begins (.literal v) mid rest) :
    emptyBodyPart st text = .ok ({ st with emptyBody := v }, rest) := by
  obtain ⟨t, after, rfl, htake, hafter⟩ := hv.takeLiteral
  have hbody : atKeywordBlank "BODY".toList text = true := by
    rw [h.atKeywordBlank _ (by decide), hk]
    rfl
  have hschema : "SCHEMA".toList.isPrefixOf (upper ('\'' :: t)) = false := rfl
  simp only [emptyBodyPart, hbody, if_true, h.afterKeyword hk, hschema, htake, hafter, Bool.false_eq_true,
    if_false]

theorem emptyClause_eq {s : Str} {afterStatus : Str} (hk : upper k = "EMPTY".toList)
    (h : Begins (.word k) text mid) (hs : upper s = "STATUS".toList) (hstatus : Begins (.word s) mid afterStatus)
    (hn : Begins (.word n) afterStatus rest) :
    (emptyClause st text).toOption = (statusOf n).bind fun m =>
      (emptyBodyPart { st with emptyStatus := m } rest).toOption := by
  obtain ⟨htoken, hafter, hne⟩ := hn.operand
  have hat : atKeyword "STATUS".toList mid = true := by
    rw [hstatus.atKeyword _ (by decide), hs]
    rfl
  simp only [emptyClause, h.afterKeyword hk, hat, Bool.not_true, Bool.false_eq_true, if_false,
    hstatus.afterKeyword hs, htoken, hafter, hne, statusOf]
  cases isStatus (atoi n) <;> rfl

theorem settle_emptyStatus (code : Str) (body : Option Str) :
    settle st (.emptyStatus code body) = (statusOf code).map fun n => st.set (.emptyStatus n body) := by
  rw [settle_eq st rfl (b := false) rfl]
  simp only [HeadClause.setting, Bool.false_eq_true, if_false, Option.bind_map]
  cases statusOf code <;> rfl

end

/-- A clause that is written in the text is the clause the loop finds there, and it does to the state what
it says. -/
theorem clauseAt_read {c : HeadClause} {text rest : Str} (h : ClauseAt c text rest) (hrest : Follows c rest)
    (st : HeadState) :
    ∃ clause, headClauseAt text = some clause ∧
      (clause st text).toOption = (settle st c).map (·, rest) := by
  obtain ⟨xs, hs, hb⟩ := h
  cases hs with
  | status hk =>
    obtain _ | ⟨h, _ | ⟨hn, ⟨⟩⟩⟩ := hb
    exact ⟨statusClause, by rw [headClauseAt_eq h, hk]; rfl, statusClause_eq st hk h hn⟩
  | @rateLimit k l n p s hk hl hp =>
    obtain _ | ⟨h, _ | ⟨hlimit, _ | ⟨hn, _ | ⟨hper, _ | ⟨hs, ⟨⟩⟩⟩⟩⟩⟩ := hb
    refine ⟨rateClause, by rw [headClauseAt_eq h, hk]; rfl, ?_⟩
    rw [rateClause_eq st hk h hl hlimit hn, settle_rateLimit]
    simp only [rateLimitPer_eq _ hp hper hs, rateLimitBy_none _ (hrest.noKey n s rfl)]
    cases positive n with
    | none => rfl
    | some m => cases positive s <;> rfl
  | @rateLimitBy k l n p s b key hk hl hp hby =>
    obtain _ | ⟨h, _ | ⟨hlimit, _ | ⟨hn, _ | ⟨hper, _ | ⟨hs, _ | ⟨hb, _ | ⟨hkey, ⟨⟩⟩⟩⟩⟩⟩⟩⟩ := hb
    refine ⟨rateClause, by rw [headClauseAt_eq h, hk]; rfl, ?_⟩
    rw [rateClause_eq st hk h hl hlimit hn, settle_rateLimit]
    simp only [rateLimitPer_eq _ hp hper hs, rateLimitBy_some _ hby hb hkey]
    cases positive n with
    | none => rfl
    | some m =>
      cases positive s with
      | none => rfl
      | some m' => cases limitKey (some key) <;> rfl
  | require hk =>
    obtain _ | ⟨h, _ | ⟨hn, ⟨⟩⟩⟩ := hb
    exact ⟨requireClause, by rw [headClauseAt_eq h, hk]; rfl, requireClause_eq st hk h hn⟩
  | format hk =>
    obtain _ | ⟨h, _ | ⟨hn, ⟨⟩⟩⟩ := hb
    exact ⟨formatClause, by rw [headClauseAt_eq h, hk]; rfl, formatClause_eq st hk h hn⟩
  | envelope hk =>
    obtain _ | ⟨h, _ | ⟨hn, ⟨⟩⟩⟩ := hb
    exact ⟨envelopeClause, by rw [headClauseAt_eq h, hk]; rfl, envelopeClause_eq st hk h hn⟩
  | @emptyStatus k s n hk hstatus =>
    obtain _ | ⟨h, _ | ⟨hs, _ | ⟨hn, ⟨⟩⟩⟩⟩ := hb
    refine ⟨emptyClause, by rw [headClauseAt_eq h, hk]; rfl, ?_⟩
    rw [emptyClause_eq st hk h hstatus hs hn, settle_emptyStatus]
    simp only [emptyBodyPart_none _ (hrest.noBody n rfl)]
    cases statusOf n <;> rfl
  | @emptyStatusBody k s n b v hk hstatus hbody =>
    obtain _ | ⟨h, _ | ⟨hs, _ | ⟨hn, _ | ⟨hb, _ | ⟨hv, ⟨⟩⟩⟩⟩⟩⟩ := hb
    refine ⟨emptyClause, by rw [headClauseAt_eq h, hk]; rfl, ?_⟩
    rw [emptyClause_eq st hk h hstatus hs hn, settle_emptyStatus]
    simp only [emptyBodyPart_some _ hbody hb hv]
    cases statusOf n <;> rfl
  | timeout hk =>
    obtain _ | ⟨h, _ | ⟨hn, ⟨⟩⟩⟩ := hb
    exact ⟨timeoutClause, by rw [headClauseAt_eq h, hk]; rfl,
      parseTimeout_eq st rfl rfl (takeDuration_word hn) hk h⟩
  | timeoutLiteral hk hv =>
    obtain _ | ⟨h, _ | ⟨hn, ⟨⟩⟩⟩ := hb
    exact ⟨timeoutClause, by rw [headClauseAt_eq h, hk]; rfl,
      parseTimeout_eq st rfl rfl (takeDuration_literal hn hv) hk h⟩
  | group hk =>
    obtain _ | ⟨h, _ | ⟨hn, ⟨⟩⟩⟩ := hb
    exact ⟨groupClause, by rw [headClauseAt_eq h, hk]; rfl, groupClause_eq st hk h hn⟩
  | inGroup hi hk =>
    obtain _ | ⟨h, _ | ⟨hgroup, _ | ⟨hn, ⟨⟩⟩⟩⟩ := hb
    refine ⟨inGroupClause, ?_, ?_⟩
    · have hat := Begins.atKeyword hgroup "GROUP".toList (by decide)
      rw [headClauseAt_eq h, hi, clauseOf, hat, hk]
      rfl
    · rw [inGroupClause, Begins.afterKeyword h hi, Begins.afterKeyword hgroup hk]
      exact groupOperand_eq st _ hn
  | schedule hk =>
    obtain _ | ⟨h, _ | ⟨hv, ⟨⟩⟩⟩ := hb
    exact ⟨scheduleClause, by rw [headClauseAt_eq h, hk]; rfl, scheduleClause_eq st hk h hv⟩

def leading (text : Str) : Str := upper (nextToken text)

theorem Begins.leading {k text rest : Str} (h : Begins (.word k) text rest) : leading text = upper k :=
  congrArg upper h.afterWord.1

theorem not_atKeywordBlank {keyword text : Str} (hkey : IsKeyword keyword) (h : leading text ≠ keyword) :
    atKeywordBlank keyword text = false := by
  by_contra hat
  rw [Bool.not_eq_false, atKeywordBlank, Bool.and_eq_true] at hat
  refine h ((atKeyword_iff hkey).mp ?_)
  rw [atKeyword, hat.1]
  cases hhead : (text.drop keyword.length).head? with
  | none => rfl
  | some c => rw [hhead] at hat; exact hat.2

theorem not_atKeyword {keyword text : Str} (hkey : IsKeyword keyword) (h : leading text ≠ keyword) :
    atKeyword keyword text = false :=
  Bool.eq_false_iff.mpr fun hat => h ((atKeyword_iff hkey).mp hat)

def headWords : List Str :=
  ["SCHEDULE".toList, "STATUS".toList, "RATE".toList, "REQUIRE".toList, "FORMAT".toList,
    "ENVELOPE".toList, "EMPTY".toList, "TIMEOUT".toList, "IN".toList, "GROUP".toList]

theorem headClauseAt_none {text : Str} (h : leading text ∉ headWords) : headClauseAt text = none := by
  have hne : ∀ w ∈ headWords, leading text ≠ w := fun w hw heq => h (heq ▸ hw)
  have hkey : ∀ w ∈ headWords, IsKeyword w := by decide
  have hat : ∀ w ∈ headWords, atKeyword w text = false := fun w hw => not_atKeyword (hkey w hw) (hne w hw)
  have hblank : ∀ w ∈ headWords, atKeywordBlank w text = false :=
    fun w hw => not_atKeywordBlank (hkey w hw) (hne w hw)
  rw [headClauseAt, hat "SCHEDULE".toList (by decide), hat "STATUS".toList (by decide),
    hblank "RATE".toList (by decide), hat "REQUIRE".toList (by decide), hat "FORMAT".toList (by decide),
    hat "ENVELOPE".toList (by decide), hat "EMPTY".toList (by decide), hat "TIMEOUT".toList (by decide),
    hblank "IN".toList (by decide), hat "GROUP".toList (by decide)]
  rfl

theorem ClauseAt.begins {c : HeadClause} {text rest : Str} (h : ClauseAt c text rest) :
    ∃ k mid, Begins (.word k) text mid ∧ upper k ∈ headWords := by
  obtain ⟨xs, hs, hb⟩ := h
  cases hs with
  | status hk | rateLimit hk | rateLimitBy hk | require hk | format hk | envelope hk | emptyStatus hk
  | emptyStatusBody hk | timeout hk | timeoutLiteral hk | group hk | inGroup hk | schedule hk =>
    cases hb with
    | cons h _ => exact ⟨_, _, h, by rw [hk]; decide⟩

theorem ClauseAt.leading {c : HeadClause} {text rest : Str} (h : ClauseAt c text rest) :
    leading text ∈ headWords := by
  obtain ⟨k, mid, hb, hk⟩ := h.begins
  rw [hb.leading]
  exact hk

theorem follows_of_leading {c : HeadClause} {rest : Str} (hby : leading rest ≠ "BY".toList)
    (hbody : (∃ n, c = .emptyStatus n none) → leading rest ≠ "BODY".toList) : Follows c rest where
  noKey := fun _ _ _ => hby
  noBody := fun n hc => not_atKeywordBlank (by decide) (hbody ⟨n, hc⟩)

theorem follows_clause {c d : HeadClause} {text rest : Str} (h : ClauseAt d text rest) : Follows c text := by
  have hword : ∀ w, w ∉ headWords → leading text ≠ w := fun w hw heq => hw (heq ▸ h.leading)
  exact follows_of_leading (hword _ (by decide)) fun _ => hword _ (by decide)

/-- An `EMPTY STATUS` clause without a body. -/
def OpenEnded (c : HeadClause) : Prop := ∃ n, c = .emptyStatus n none

/-- What stands behind the head clauses does not go on with the last one. -/
structure EndsHead (cs : List HeadClause) (tail : Str) : Prop where
  noClause : leading tail ∉ headWords
  noKey : leading tail ≠ "BY".toList
  noBody : ∀ c ∈ cs.getLast?, OpenEnded c → leading tail ≠ "BODY".toList

theorem EndsHead.of_cons {c : HeadClause} {cs : List HeadClause} {tail : Str} (hne : cs ≠ [])
    (h : EndsHead (c :: cs) tail) : EndsHead cs tail where
  noClause := h.noClause
  noKey := h.noKey
  noBody := fun d hd => h.noBody d (by rwa [List.getLast?_cons_of_ne_nil hne])

theorem EndsHead.nil {cs : List HeadClause} {tail : Str} (h : EndsHead cs tail) : EndsHead [] tail where
  noClause := h.noClause
  noKey := h.noKey
  noBody := fun _ hd => nomatch hd

theorem follows_of_endsHead {c : HeadClause} {cs : List HeadClause} {mid tail : Str}
    (hrest : ListAt ClauseAt cs mid tail) (hend : EndsHead (c :: cs) tail) :
    Follows c mid ∧ EndsHead cs tail := by
  cases hrest with
  | nil => exact ⟨follows_of_leading hend.noKey (hend.noBody c rfl), hend.nil⟩
  | cons hd _ => exact ⟨follows_clause hd, hend.of_cons (List.cons_ne_nil _ _)⟩

theorem toOption_step {α : Type} {scanned : Scan (α × Str)} {said : Option α} {rest : Str}
    (h : scanned.toOption = said.map (·, rest)) :
    (said = none ∧ ∃ e, scanned = .error e) ∨ ∃ a, said = some a ∧ scanned = .ok (a, rest) := by
  cases said with
  | none =>
    cases scanned with
    | error e => exact .inl ⟨rfl, e, rfl⟩
    | ok r => cases h
  | some a =>
    cases scanned with
    | error e => cases h
    | ok r => exact .inr ⟨a, rfl, congrArg _ (Option.some.inj h)⟩

theorem headClauses_read {cs : List HeadClause} {text tail : Str} (h : ListAt ClauseAt cs text tail)
    (hend : EndsHead cs tail) {rounds : Nat} (hrounds : cs.length ≤ rounds) (st : HeadState) :
    (headClauses rounds st text).toOption = (cs.foldlM settle st).map (·, tail) := by
  induction h generalizing rounds st with
  | nil =>
    cases rounds with
    | zero => rfl
    | succ rounds =>
      rw [headClauses, headClauseAt_none hend.noClause]
      rfl
  | @cons c cs text mid tail h hrest ih =>
    obtain ⟨rounds, rfl⟩ : ∃ n, rounds = n + 1 := ⟨rounds - 1, by rw [List.length_cons] at hrounds; omega⟩
    obtain ⟨hfollows, hend'⟩ := follows_of_endsHead hrest hend
    obtain ⟨clause, hat, hclause⟩ := clauseAt_read h hfollows st
    rw [headClauses, hat, List.foldlM_cons]
    rcases toOption_step hclause with ⟨hsettle, e, he⟩ | ⟨st', hsettle, he⟩
    · simp only [he, hsettle]
      rfl
    · simp only [he, hsettle]
      exact ih hend' (by rw [List.length_cons] at hrounds; omega) st'

theorem headClauses_take {cs : List HeadClause} {text tail : Str} (h : ListAt ClauseAt cs text tail)
    (hend : EndsHead cs tail) {rounds n : Nat} (hn : n ≤ rounds) {st : HeadState} {r : HeadState × Str}
    (hr : headClauses rounds st text = .ok r) : ((cs.take n).foldlM settle st).isSome = true := by
  induction h generalizing rounds n st with
  | nil => rw [List.take_nil]; rfl
  | @cons c cs text mid tail h hrest ih =>
    cases n with
    | zero => rfl
    | succ n =>
      obtain ⟨rounds, rfl⟩ : ∃ m, rounds = m + 1 := ⟨rounds - 1, by omega⟩
      obtain ⟨hfollows, hend'⟩ := follows_of_endsHead hrest hend
      obtain ⟨clause, hat, hclause⟩ := clauseAt_read h hfollows st
      rw [headClauses, hat] at hr
      rcases toOption_step hclause with ⟨-, e, he⟩ | ⟨st', hsettle, he⟩
      · simp only [he] at hr
        cases hr
      · simp only [he] at hr
        rw [List.take_succ_cons, List.foldlM_cons, hsettle]
        exact ih hend' (by omega) hr

end Quackapi.Ddl
