import Quackapi.Ddl.HeadReading

/-! The scanner on what stands behind the head clauses: body clauses and parameters with their options. -/

namespace Quackapi.Ddl
open Library Params Http

theorem leading_of_isPrefixOf {keyword text : Str} (hkey : IsKeyword keyword)
    (h : keyword.isPrefixOf (upper text) = true) : ∃ t, leading text = keyword ++ t := by
  have hupper := isPrefixOf_upper_iff.mp h
  have hpos : ∀ c ∈ text.take keyword.length, (!isSpace c) = true :=
    fun c hc => by simp [isKeyword_of_upper hupper hkey c hc]
  have htoken : nextToken text = text.take keyword.length ++ nextToken (text.drop keyword.length) := by
    conv_lhs => rw [← List.take_append_drop keyword.length text]
    exact List.takeWhile_append_of_pos hpos
  refine ⟨leading (text.drop keyword.length), ?_⟩
  rw [leading, htoken, upper, List.map_append]
  exact congrArg (· ++ _) hupper

theorem tryConsumeBodySchema_none {text : Str} (st : BodyState) (h : leading text ≠ "BODY".toList) :
    tryConsumeBodySchema st text = .ok (st, text) := by
  rw [tryConsumeBodySchema, not_atKeywordBlank (by decide) h]
  rfl

theorem bodyKindAt_append {k : BodyKind} {w t : Str} (hw : upper w = k.keyword) :
    bodyKindAt (w ++ t) = some k := by
  rw [bodyKindAt, upper, List.map_append, ← upper, hw]
  cases k <;> rfl

theorem bodyLiteral_eq {k : BodyKind} {v text rest : Str} (h : Begins (.literal v) text rest) :
    bodyLiteral k text = .ok (v, rest) := by
  obtain ⟨t, after, rfl, htake, hafter⟩ := h.takeLiteral
  rw [bodyLiteral, htake, ← hafter]

theorem tryConsumeBodySchema_some {b : BodyKind × Str} {text rest : Str} (h : BodyAt b text rest)
    (st : BodyState) : tryConsumeBodySchema st text = .ok (st.set b.1 b.2, rest) := by
  obtain ⟨k, w, gap, mid, hk, hw, hgap, hword, hlit⟩ := h
  have hat : atKeywordBlank "BODY".toList text = true := by
    rw [hword.atKeywordBlank _ (by decide), hk]
    rfl
  have hdrop : (w ++ (gap ++ mid)).drop b.1.keyword.length = gap ++ mid := by
    rw [length_of_upper hw, List.drop_left]
  obtain ⟨t, _, hmid, -⟩ := hlit.takeLiteral
  have htight : IsRest mid := hlit.tight rfl
  simp only [tryConsumeBodySchema, hat, Bool.not_true, Bool.false_eq_true, if_false, hword.afterKeyword hk,
    bodyKindAt_append hw, hdrop]
  cases gap with
  | nil =>
    have hquote : isSpace '\'' = false := rfl
    rw [hmid] at hlit ⊢
    simp only [List.nil_append, hquote, Bool.not_false, ne_eq, not_true_eq_false, if_false,
      Bool.false_eq_true, bodyLiteral_eq hlit]
    rfl
  | cons c gap =>
    have hspace : isSpace c = true := hgap c List.mem_cons_self
    have htrim : quackapiTrim (c :: (gap ++ mid)) = mid := htight.strip_append (a := c :: gap) hgap
    simp only [List.cons_append, hspace, Bool.not_true, if_true, htrim, bodyLiteral_eq hlit]
    rfl

theorem tryConsumeBodySchema_read {b : Option (BodyKind × Str)} {text rest : Str} (h : OptAt BodyAt b text rest)
    (hnone : b = none → leading text ≠ "BODY".toList) (st : BodyState) :
    tryConsumeBodySchema st text = .ok (b.toList.foldl (fun st b => st.set b.1 b.2) st, rest) := by
  cases h with
  | none => exact tryConsumeBodySchema_none st (hnone rfl)
  | some h => exact tryConsumeBodySchema_some h st

def sourceWords : List Str := ["HEADER".toList, "COOKIE".toList, "QUERY".toList]

def boundWords : List Str :=
  ["GE".toList, "GT".toList, "LE".toList, "LT".toList, "MIN_LENGTH".toList, "MAX_LENGTH".toList]

theorem sourceOf_eq_none {key : Str} (h : key ∉ sourceWords) : sourceOf key = none := by
  have hne : ∀ w ∈ sourceWords, key ≠ w := fun w hw heq => h (heq ▸ hw)
  rw [sourceOf, if_neg (hne _ (by decide)), if_neg (hne _ (by decide)), if_neg (hne _ (by decide))]

theorem mem_sourceWords {key : Str} {s : ParamSource} (h : sourceOf key = some s) : key ∈ sourceWords := by
  by_contra hnot
  rw [sourceOf_eq_none hnot] at h
  cases h

theorem mem_boundWords {key : Str} {b : BoundKey} (h : boundKeyOf key = some b) : key ∈ boundWords := by
  by_contra hnot
  have hne : ∀ w ∈ boundWords, key ≠ w := fun w hw heq => hnot (heq ▸ hw)
  rw [boundKeyOf, if_neg (hne _ (by decide)), if_neg (hne _ (by decide)), if_neg (hne _ (by decide)),
    if_neg (hne _ (by decide)), if_neg (hne _ (by decide)), if_neg (hne _ (by decide))] at h
  cases h

def optionStarts : List Str := "DEFAULT".toList :: (sourceWords ++ boundWords)

/-- The words that end the options, one of which a parenthesis may follow at once. -/
def endWords : List Str :=
  ["PARAM".toList, "BODY".toList, "AS".toList, "WITH".toList, "TIMEOUT".toList, "SCHEDULE".toList]

theorem not_endsOptions {text : Str} (h : leading text ∈ optionStarts) : endsOptions text = false := by
  have hne : ∀ w ∈ endWords, leading text ≠ w := by
    intro w hw heq
    have hfree : ∀ w ∈ endWords, w ∉ optionStarts := by decide
    exact hfree w hw (heq ▸ h)
  have hwith : "WITH(".toList.isPrefixOf (upper text) = false := by
    by_contra hat
    obtain ⟨t, ht⟩ := leading_of_isPrefixOf (by decide) (Bool.not_eq_false _ ▸ hat)
    have hfree : ∀ w ∈ optionStarts, w.take 5 ≠ "WITH(".toList := by decide
    refine hfree _ h ?_
    rw [ht]
    rfl
  rw [endsOptions, not_atKeyword (by decide) (hne _ (by decide)), hwith,
    not_atKeywordBlank (by decide) (hne "BODY".toList (by decide)),
    not_atKeywordBlank (by decide) (hne "AS".toList (by decide)),
    not_atKeyword (by decide) (hne "WITH".toList (by decide)),
    not_atKeyword (by decide) (hne "TIMEOUT".toList (by decide)),
    not_atKeyword (by decide) (hne "SCHEDULE".toList (by decide))]
  rfl

/-- The text goes on with a word, behind which there is a blank, a parenthesis or nothing. -/
def WordAhead (text : Str) : Prop :=
  ∃ w t, text = w ++ t ∧ w ≠ [] ∧ (∀ c ∈ w, c.isAlpha = true ∨ c = '_') ∧
    ∀ c ∈ t.head?, isSpace c = true ∨ c = '('

/-- What the engine's tokenizer and its parser make of literals, and of numbers with a sign in front. The
blanks behind one of these may in part go with it. -/
structure ReadsLiterals (engine : DdlEngine) : Prop where
  literal : ∀ v b rest, IsGapText b → WordAhead rest →
    ∃ b₁ b₂, b = b₁ ++ b₂ ∧
      (engine.tokenStarts (quoted '\'' v ++ (b ++ rest)))[1]? = some (quoted '\'' v ++ b₁).length ∧
      engine.parseExpression (quoted '\'' v ++ b₁) = some (some (v, .text v))
  number : ∀ s gap n b rest, s = '-' ∨ s = '+' → IsTokenGap gap → IsNumeral engine n → IsGapText b → b ≠ [] →
    WordAhead rest →
    ∃ b₁ b₂, b = b₁ ++ b₂ ∧
      (engine.tokenStarts (s :: (gap ++ (n ++ (b ++ rest)))))[2]? = some (s :: (gap ++ (n ++ b₁))).length ∧
      engine.numericLiteral (s :: (gap ++ (n ++ b₁))) = engine.numericLiteral (s :: n)

section
variable {engine : DdlEngine} {o : ParamOption} {text rest : Str}

theorem OptionAt.begins (h : OptionAt engine o text rest) :
    ∃ k mid, Begins (.word k) text mid ∧ upper k ∈ optionStarts := by
  have hsource : ∀ {key s}, sourceOf key = some s → key ∈ optionStarts := fun h =>
    List.mem_cons_of_mem _ (List.mem_append_left _ (mem_sourceWords h))
  have hbound : ∀ {key b}, boundKeyOf key = some b → key ∈ optionStarts := fun h =>
    List.mem_cons_of_mem _ (List.mem_append_right _ (mem_boundWords h))
  cases h with
  | source hk h _ => exact ⟨_, _, h, hsource hk⟩
  | sourceWord hk h _ | sourceLiteral hk h _ =>
    cases h with
    | cons h _ => exact ⟨_, _, h, hsource hk⟩
  | defaultWord hk h _ _ _ _ => exact ⟨_, _, h, by rw [hk]; exact List.mem_cons_self⟩
  | defaultLiteral hk h =>
    cases h with
    | cons h _ => exact ⟨_, _, h, by rw [hk]; exact List.mem_cons_self⟩
  | bound hk h _ =>
    cases h with
    | cons h _ => exact ⟨_, _, h, hbound hk⟩
  | signedBound hk h _ _ _ _ => exact ⟨_, _, h, hbound hk⟩

theorem OptionAt.leading (h : OptionAt engine o text rest) : leading text ∈ optionStarts := by
  obtain ⟨k, mid, h, hk⟩ := h.begins
  rw [h.leading]
  exact hk

theorem OptionAt.length_lt (h : OptionAt engine o text rest) : rest.length < text.length := by
  cases h with
  | source hk h _ => exact h.length_lt
  | sourceWord hk h _ | sourceLiteral hk h _ | defaultLiteral hk h | bound hk h _ =>
    have hle := h.length_le
    simp only [List.length_cons] at hle
    omega
  | defaultWord hk h _ _ _ _ =>
    have hlt := h.length_lt
    simp only [List.length_append] at hlt
    omega
  | signedBound hk h _ _ hmid _ =>
    have hlt := h.length_lt
    have hlt' := hmid.length_lt
    simp only [List.length_cons, List.length_append] at hlt
    omega

theorem Begins.word_cons {k text rest : Str} (h : Begins (.word k) text rest) :
    ∃ c t, text = c :: t ∧ c ≠ '\'' := by
  obtain ⟨⟨hne, hplain⟩, b, -, -, rfl⟩ := h.word_eq
  obtain ⟨c, k, rfl⟩ := List.exists_cons_of_ne_nil hne
  exact ⟨c, k ++ (b ++ rest), rfl, (hplain c List.mem_cons_self).2⟩

theorem takeWireName_none (spec : ParamSpec) (h : NoWireName rest) : takeWireName spec rest = (spec, rest) := by
  obtain ⟨hquote, hword⟩ := h
  cases rest with
  | nil => rfl
  | cons c t =>
    have hnot : ¬ (upper (nextToken (c :: t)) ∉ optionWords ∧ isParamTypeName (nextToken (c :: t)) = false) := by
      rintro ⟨hfree, htype⟩
      exact hword.elim hfree (fun h => by rw [htype] at h; cases h)
    rw [takeWireName]
    · exact if_neg hnot
    · exact List.cons_ne_nil c t
    · exact fun u heq => hquote (heq ▸ rfl)

theorem takeWireName_word {w : Str} (spec : ParamSpec) (h : Begins (.word w) text rest)
    (hw : upper w ∉ optionWords ∧ isParamTypeName w = false) :
    takeWireName spec text = ({ spec with externalName := w }, rest) := by
  obtain ⟨htoken, hafter, -⟩ := h.operand
  obtain ⟨c, t, rfl, hc⟩ := h.word_cons
  rw [takeWireName, htoken, hafter]
  · exact if_pos hw
  · exact List.cons_ne_nil c t
  · exact fun u heq => hc (List.head_eq_of_cons_eq heq)

theorem takeWireName_literal {v : Str} (spec : ParamSpec) (h : Begins (.literal v) text rest)
    (hv : '\'' ∉ v) : takeWireName spec text = ({ spec with externalName := v }, rest) := by
  obtain ⟨t, after, rfl, htake, hafter⟩ := h.takeToQuote hv
  rw [takeWireName, htake, ← hafter]

theorem tryConsumeSource_some {k mid : Str} {s : ParamSource} (spec : ParamSpec)
    (h : Begins (.word k) text mid) (hk : sourceOf (upper k) = some s) :
    tryConsumeSource spec text = some (takeWireName { spec with source := s } mid) := by
  rw [tryConsumeSource, h.afterWord.1, h.afterWord.2, hk]
  rfl

theorem tryConsumeSource_none (spec : ParamSpec) (h : Ddl.leading text ∉ sourceWords) :
    tryConsumeSource spec text = none := by
  have hsource : sourceOf (upper (nextToken text)) = none := sourceOf_eq_none h
  rw [tryConsumeSource, hsource]
  rfl

theorem tryConsumeSource_read {s : ParamSource} {wire : Option Piece} (spec : ParamSpec)
    (h : OptionAt engine (.source s wire) text rest) :
    ∃ spec', applyOption engine spec (.source s wire) = some spec' ∧
      tryConsumeSource spec text = some (spec', rest) := by
  cases h with
  | source hk h hrest => exact ⟨_, rfl, by rw [tryConsumeSource_some spec h hk, takeWireName_none _ hrest]⟩
  | sourceWord hk h hw =>
    obtain _ | ⟨h, _ | ⟨hword, ⟨⟩⟩⟩ := h
    exact ⟨_, rfl, by rw [tryConsumeSource_some spec h hk, takeWireName_word _ hword hw]; rfl⟩
  | sourceLiteral hk h hv =>
    obtain _ | ⟨h, _ | ⟨hlit, ⟨⟩⟩⟩ := h
    exact ⟨_, rfl, by rw [tryConsumeSource_some spec h hk, takeWireName_literal _ hlit hv]; rfl⟩

theorem OptionAt.isSource (h : OptionAt engine o text rest) (hsource : Ddl.leading text ∈ sourceWords) :
    ∃ s wire, o = .source s wire := by
  have hbound : ∀ w ∈ boundWords, w ∉ sourceWords := by decide
  cases h with
  | source _ _ _ | sourceWord _ _ _ | sourceLiteral _ _ _ => exact ⟨_, _, rfl⟩
  | defaultWord hk h _ _ _ _ =>
    rw [h.leading, hk] at hsource
    exact absurd hsource (by decide)
  | defaultLiteral hk h =>
    obtain _ | ⟨h, -⟩ := h
    rw [Begins.leading h, hk] at hsource
    exact absurd hsource (by decide)
  | bound hk h _ =>
    obtain _ | ⟨h, -⟩ := h
    rw [Begins.leading h] at hsource
    exact absurd hsource (hbound _ (mem_boundWords hk))
  | signedBound hk h _ _ _ _ =>
    rw [h.leading] at hsource
    exact absurd hsource (hbound _ (mem_boundWords hk))

theorem setBound_congr {n n' : Str} (spec : ParamSpec) (k : BoundKey)
    (h : engine.numericLiteral n = engine.numericLiteral n') :
    setBound engine spec k n = setBound engine spec k n' := by
  have hnum : parseNumericParamBound engine n = parseNumericParamBound engine n' := by
    rw [parseNumericParamBound, parseNumericParamBound, h]
  have hlen : parseLengthParamBound engine n = parseLengthParamBound engine n' := by
    rw [parseLengthParamBound, parseLengthParamBound, hnum]
  cases k <;> simp only [setBound, hnum, hlen]

theorem boundOption_eq {key number : Str} {k : BoundKey} (spec : ParamSpec) (hne : text ≠ [])
    (htake : text.take (numberEnd engine text) = number)
    (hafter : quackapiTrim (text.drop (numberEnd engine text)) = rest) :
    (boundOption engine key k spec text).toOption = (setBound engine spec k number).toOption.map (·, rest) := by
  have hempty : text.isEmpty = false := by simpa using hne
  simp only [boundOption, hempty, Bool.false_eq_true, if_false, htake, hafter]
  cases setBound engine spec k number <;> rfl

theorem defaultOption_word {w b : Str} (spec : ParamSpec) (hw : IsToken engine w) (hb : IsGapText b) (hne : b ≠ [])
    (hrest : IsRest rest) :
    (defaultOption engine spec (w ++ (b ++ rest))).toOption =
      (applyOption engine spec (.default (.word w))).map (·, rest) := by
  obtain ⟨hwne, hquote, hplain, -⟩ := hw
  have hblank : ∀ c ∈ (b ++ rest).head?, isSpace c = true := by
    obtain ⟨d, b, rfl⟩ := List.exists_cons_of_ne_nil hne
    exact fun c hc => Option.some.inj hc ▸ hb d List.mem_cons_self
  have htoken : nextToken (w ++ (b ++ rest)) = w := nextToken_append hplain hblank
  have hdrop : (w ++ (b ++ rest)).dropWhile (fun c => !isSpace c) = b ++ rest := by
    rw [← (take_nextToken _).2, htoken, List.drop_left]
  have hafter : afterToken (w ++ (b ++ rest)) = rest := by
    rw [afterToken, hdrop]
    exact hrest.strip_append hb
  obtain ⟨c, w, rfl⟩ := List.exists_cons_of_ne_nil hwne
  rw [List.cons_append] at htoken hafter ⊢
  rw [defaultOption, htoken, hafter, applyOption, defaultOf]
  · cases bareDefault engine (c :: w) <;> rfl
  · exact List.cons_ne_nil c _
  · exact fun u heq => hquote (congrArg some (List.head_eq_of_cons_eq heq))

theorem trim_drop {token b b₁ b₂ : Str} (hb : IsGapText b) (hsplit : b = b₁ ++ b₂) (hrest : IsRest rest) :
    (token ++ (b ++ rest)).take (token ++ b₁).length = token ++ b₁ ∧
      quackapiTrim ((token ++ (b ++ rest)).drop (token ++ b₁).length) = rest := by
  have happ : token ++ (b ++ rest) = token ++ b₁ ++ (b₂ ++ rest) := by simp [hsplit]
  rw [happ, List.take_left, List.drop_left]
  refine ⟨rfl, hrest.strip_append fun c hc => hb c ?_⟩
  rw [hsplit]
  exact List.mem_append_right b₁ hc

theorem defaultOption_literal {v : Str} (hlit : ReadsLiterals engine) (spec : ParamSpec)
    (h : Begins (.literal v) text rest) (hnext : WordAhead rest) :
    (defaultOption engine spec text).toOption =
      (applyOption engine spec (.default (.literal v))).map (·, rest) := by
  have hrest := h.tight_rest
  obtain ⟨b, hb, -, rfl⟩ := h.literal_eq
  obtain ⟨b₁, b₂, hsplit, hstart, hparse⟩ := hlit.literal v b rest hb hnext
  obtain ⟨htake, hdrop⟩ := @trim_drop _ (quoted '\'' v) _ _ _ hb hsplit hrest
  have htoken : tokenEnd engine 1 (quoted '\'' v ++ (b ++ rest)) = (quoted '\'' v ++ b₁).length := by
    rw [tokenEnd, hstart]
    rfl
  have hquoted : defaultOption engine spec (quoted '\'' v ++ (b ++ rest)) =
      quotedDefault engine spec (quoted '\'' v ++ (b ++ rest)) := rfl
  rw [hquoted, quotedDefault, htoken, htake, hparse, hdrop]
  rfl

theorem paramOption_default {k mid : Str} (spec : ParamSpec) (h : Begins (.word k) text mid)
    (hk : upper k = "DEFAULT".toList) : paramOption engine spec text = defaultOption engine spec mid := by
  obtain ⟨htoken, hafter⟩ := h.afterWord
  have hnone : tryConsumeSource spec text = none :=
    tryConsumeSource_none spec (by rw [h.leading, hk]; decide)
  simp only [paramOption, hnone, htoken, hafter, hk, if_true]

theorem paramOption_bound {k mid : Str} {b : BoundKey} (spec : ParamSpec) (h : Begins (.word k) text mid)
    (hk : boundKeyOf (upper k) = some b) :
    paramOption engine spec text = boundOption engine (upper k) b spec mid := by
  obtain ⟨htoken, hafter⟩ := h.afterWord
  have hmem := mem_boundWords hk
  have hsource : ∀ w ∈ boundWords, w ∉ sourceWords := by decide
  have hdefault : ∀ w ∈ boundWords, w ≠ "DEFAULT".toList := by decide
  have hnone : tryConsumeSource spec text = none :=
    tryConsumeSource_none spec (by rw [h.leading]; exact hsource _ hmem)
  simp only [paramOption, hnone, htoken, hafter, hk, hdefault _ hmem, if_false]

theorem boundOption_word {key n : Str} {k : BoundKey} (spec : ParamSpec) (h : Begins (.word n) text rest)
    (hn : n ≠ ['-'] ∧ n ≠ ['+']) :
    (boundOption engine key k spec text).toOption =
      (applyOption engine spec (.bound k n)).map (·, rest) := by
  have hrest := h.tight_rest
  have htoken := h.afterWord.1
  have hend : numberEnd engine text = n.length := by
    rw [numberEnd, htoken]
    exact if_neg (not_or.mpr hn)
  obtain ⟨c, t, htext, -⟩ := h.word_cons
  refine boundOption_eq spec (by rw [htext]; exact List.cons_ne_nil c t) ?_ ?_
  · rw [hend, ← htoken]
    exact (take_nextToken text).1
  · obtain ⟨-, b, hb, -, rfl⟩ := h.word_eq
    rw [hend, List.drop_left]
    exact hrest.strip_append hb

theorem boundOption_signed {key n gap mid : Str} {k : BoundKey} {s : Char} (hlit : ReadsLiterals engine)
    (spec : ParamSpec) (hs : s = '-' ∨ s = '+') (hgap : IsTokenGap gap) (hmid : Begins (.word n) mid rest)
    (hn : IsNumeral engine n) (hnext : WordAhead rest) :
    (boundOption engine key k spec (s :: (gap ++ mid))).toOption =
      (applyOption engine spec (.signedBound k s n)).map (·, rest) := by
  have hrest := hmid.tight_rest
  obtain ⟨-, b, hb, hbne, rfl⟩ := hmid.word_eq
  obtain ⟨b₁, b₂, hsplit, hstart, hnumber⟩ := hlit.number s gap n b rest hs hgap hn hb hbne hnext
  have hassoc : s :: (gap ++ (n ++ (b ++ rest))) = s :: (gap ++ n) ++ (b ++ rest) := by simp
  have hassoc' : s :: (gap ++ (n ++ b₁)) = s :: (gap ++ n) ++ b₁ := by simp
  obtain ⟨htake, hdrop⟩ := @trim_drop _ (s :: (gap ++ n)) _ _ _ hb hsplit hrest
  rw [← hassoc, ← hassoc'] at htake hdrop
  have htoken : nextToken (s :: (gap ++ (n ++ (b ++ rest)))) = [s] := by
    have hsign : ∀ c ∈ [s], isSpace c = false := by
      intro c hc
      rw [List.mem_singleton.mp hc]
      rcases hs with rfl | rfl <;> rfl
    have hblank : ∀ c ∈ (gap ++ (n ++ (b ++ rest))).head?, isSpace c = true := by
      have hspace : ∀ c ∈ [' ', '\t', '\n', '\r', '\x0c'], isSpace c = true :=
        List.all_eq_true.mp (by decide)
      obtain ⟨d, gap, rfl⟩ := List.exists_cons_of_ne_nil hgap.1
      exact fun c hc => Option.some.inj hc ▸ hspace d (hgap.2 d List.mem_cons_self)
    exact nextToken_append hsign hblank
  have hend : numberEnd engine (s :: (gap ++ (n ++ (b ++ rest)))) = (s :: (gap ++ (n ++ b₁))).length := by
    rw [numberEnd, htoken, if_pos (by rcases hs with rfl | rfl <;> decide), tokenEnd, hstart]
    rfl
  have hbound := setBound_congr spec k hnumber
  rw [boundOption_eq spec (List.cons_ne_nil _ _) rfl rfl, hend, htake, hdrop, hbound]
  rfl

theorem paramOption_read (hlit : ReadsLiterals engine) (h : OptionAt engine o text rest)
    (hnext : WordAhead rest) (spec : ParamSpec) :
    (paramOption engine spec text).toOption = (applyOption engine spec o).map (·, rest) := by
  have hsource : ∀ {s wire}, OptionAt engine (.source s wire) text rest →
      (paramOption engine spec text).toOption =
        (applyOption engine spec (.source s wire)).map (·, rest) := by
    intro s wire h
    obtain ⟨spec', happly, htry⟩ := tryConsumeSource_read spec h
    rw [paramOption, htry, happly]
    rfl
  cases h with
  | source hk h hrest => exact hsource (.source hk h hrest)
  | sourceWord hk h hw => exact hsource (.sourceWord hk h hw)
  | sourceLiteral hk h hv => exact hsource (.sourceLiteral hk h hv)
  | defaultWord hk h hw hb hne hrest =>
    rw [paramOption_default spec h hk]
    exact defaultOption_word spec hw hb hne hrest
  | defaultLiteral hk h =>
    obtain _ | ⟨h, _ | ⟨hv, ⟨⟩⟩⟩ := h
    rw [paramOption_default spec h hk]
    exact defaultOption_literal hlit spec hv hnext
  | bound hk h hn =>
    obtain _ | ⟨h, _ | ⟨hnum, ⟨⟩⟩⟩ := h
    rw [paramOption_bound spec h hk]
    exact boundOption_word spec hnum hn
  | signedBound hk h hs hgap hmid hn =>
    rw [paramOption_bound spec h hk]
    exact boundOption_signed hlit spec hs hgap hmid hn hnext

end

def InCapitals (keyword : Str) : Prop := ∀ c ∈ keyword, c.isUpper = true ∨ c = '_'

instance (keyword : Str) : Decidable (InCapitals keyword) := List.decidableBAll _ keyword

theorem isAlpha_of_toUpper {c : Char} (h : c.toUpper.isUpper = true ∨ c.toUpper = '_') :
    c.isAlpha = true ∨ c = '_' := by
  have halpha : c.isAlpha = (c.isUpper || c.isLower) := rfl
  by_cases hlower : c.isLower = true
  · exact .inl (by rw [halpha, hlower, Bool.or_true])
  · have hsame : c.toUpper = c := by
      unfold Char.toUpper
      refine dif_neg fun hand => hlower ?_
      have hrange : c.isLower = (decide (c.val ≥ 'a'.val) && decide (c.val ≤ 'z'.val)) := rfl
      rw [hrange]
      simpa using hand
    rw [hsame] at h
    refine h.imp_left fun hupper => ?_
    rw [halpha, hupper, Bool.true_or]

theorem wordAhead_of_capitals {k t : Str} (hk : InCapitals (upper k)) (hne : k ≠ [])
    (ht : ∀ c ∈ t.head?, isSpace c = true ∨ c = '(') : WordAhead (k ++ t) :=
  ⟨k, t, rfl, hne, fun _ hc => isAlpha_of_toUpper (hk _ (List.mem_map_of_mem hc)), ht⟩

theorem Begins.wordAhead {k text rest : Str} (h : Begins (.word k) text rest) (hk : InCapitals (upper k)) :
    WordAhead text := by
  obtain ⟨⟨hne, -⟩, b, hb, hbne, rfl⟩ := h.word_eq
  refine wordAhead_of_capitals hk hne fun c hc => .inl (hb c ?_)
  obtain ⟨d, b, rfl⟩ := List.exists_cons_of_ne_nil hbne
  exact Option.some.inj hc ▸ List.mem_cons_self

def stem (text : Str) : Str := (leading text).takeWhile (· ≠ '(')

theorem stem_of_leading {text keyword : Str} (h : leading text = keyword) (hfree : '(' ∉ keyword) :
    stem text = keyword := by
  rw [stem, h]
  exact List.takeWhile_eq_self_iff.mpr fun c hc => decide_eq_true fun heq => hfree (heq ▸ hc)

theorem leading_ne {text keyword : Str} (h : stem text ≠ keyword) (hfree : '(' ∉ keyword) :
    leading text ≠ keyword := fun heq => h (stem_of_leading heq hfree)

/-- The text goes on with a clause that ends the options of a parameter. -/
structure Opens (keyword text : Str) : Prop where
  stem : stem text = keyword
  ends : endsOptions text = true
  ahead : WordAhead text

theorem Begins.opens {k text rest : Str} (h : Begins (.word k) text rest) (hk : upper k ∈ endWords) :
    Opens (upper k) text where
  stem := by
    have hfree : ∀ w ∈ endWords, '(' ∉ w := by decide
    exact stem_of_leading h.leading (hfree _ hk)
  ends := by
    rw [endsOptions, h.atKeyword "PARAM".toList (by decide), h.atKeywordBlank "BODY".toList (by decide),
      h.atKeywordBlank "AS".toList (by decide), h.atKeyword "WITH".toList (by decide),
      h.atKeyword "TIMEOUT".toList (by decide), h.atKeyword "SCHEDULE".toList (by decide)]
    simp only [endWords, List.mem_cons, List.not_mem_nil, or_false] at hk
    simp only [Bool.or_eq_true, decide_eq_true_eq]
    rcases hk with hk | hk | hk | hk | hk | hk
    · exact .inl (.inl (.inl (.inl (.inl (.inl hk)))))
    · exact .inl (.inl (.inl (.inl (.inl (.inr hk)))))
    · exact .inl (.inl (.inl (.inl (.inr hk))))
    · exact .inl (.inl (.inl (.inr hk)))
    · exact .inl (.inr hk)
    · exact .inr hk
  ahead := by
    have hcap : ∀ w ∈ endWords, InCapitals w := by decide
    exact h.wordAhead (hcap _ hk)

theorem WithAt.keyword {inner text rest : Str} (h : WithAt inner text rest) :
    leading text = "WITH".toList ∨ "WITH(".toList.isPrefixOf (upper text) = true := by
  obtain ⟨k, gap, gap', hk, hgap, -, -, -, rfl, -⟩ := h
  cases gap with
  | nil =>
    right
    rw [upper, List.map_append, ← upper, hk]
    rfl
  | cons c gap =>
    left
    have hspace : isSpace c = true := hgap c List.mem_cons_self
    have htoken : nextToken (k ++ (c :: gap ++ '(' :: (inner ++ ')' :: (gap' ++ rest)))) = k :=
      nextToken_append (isKeyword_of_upper hk (by decide)) fun d hd => Option.some.inj hd ▸ hspace
    rw [leading, htoken, hk]

theorem WithAt.wordAhead {inner text rest : Str} (h : WithAt inner text rest) : WordAhead text := by
  obtain ⟨k, gap, gap', hk, hgap, -, -, -, rfl, -⟩ := h
  have hne : k ≠ [] := by
    rintro rfl
    cases hk
  refine wordAhead_of_capitals (by rw [hk]; decide) hne fun c hc => ?_
  cases gap with
  | nil => exact .inr (Option.some.inj hc).symm
  | cons d gap => exact .inl (hgap c (Option.some.inj hc ▸ List.mem_cons_self))

theorem WithAt.opens {inner text rest : Str} (h : WithAt inner text rest) : Opens "WITH".toList text where
  stem := by
    rcases h.keyword with hleading | hparen
    · exact stem_of_leading hleading (by decide)
    · obtain ⟨t, ht⟩ := leading_of_isPrefixOf (by decide) hparen
      rw [Ddl.stem, ht]
      rfl
  ends := by
    rcases h.keyword with hleading | hparen
    · rw [endsOptions, (atKeyword_iff (by decide)).mpr hleading]
      simp
    · rw [endsOptions, hparen]
      simp
  ahead := h.wordAhead

/-- The text goes on with one of the clauses. -/
def OpensOne (keywords : List Str) (text : Str) : Prop := ∃ w ∈ keywords, Opens w text

theorem OpensOne.ends {keywords : List Str} {text : Str} (h : OpensOne keywords text) :
    endsOptions text = true ∧ WordAhead text := by
  obtain ⟨w, -, hopens⟩ := h
  exact ⟨hopens.ends, hopens.ahead⟩

theorem OpensOne.leading_ne {keywords : List Str} {text keyword : Str} (h : OpensOne keywords text)
    (hnot : keyword ∉ keywords) (hfree : '(' ∉ keyword) : leading text ≠ keyword := by
  obtain ⟨w, hw, hopens⟩ := h
  refine Ddl.leading_ne (fun heq => hnot ?_) hfree
  rw [← heq, hopens.stem]
  exact hw

theorem opens_optAt {α : Type} {R : α → Str → Str → Prop} {o : Option α} {text rest keyword : Str}
    {keywords : List Str} (h : OptAt R o text rest) (hR : ∀ a text rest, R a text rest → Opens keyword text)
    (hrest : OpensOne keywords rest) : OpensOne (keyword :: keywords) text := by
  cases h with
  | none =>
    obtain ⟨w, hw, hopens⟩ := hrest
    exact ⟨w, List.mem_cons_of_mem _ hw, hopens⟩
  | some h => exact ⟨keyword, List.mem_cons_self, hR _ _ _ h⟩

theorem opens_listAt {α : Type} {R : α → Str → Str → Prop} {as : List α} {text rest keyword : Str}
    {keywords : List Str} (h : ListAt R as text rest) (hR : ∀ a text rest, R a text rest → Opens keyword text)
    (hrest : OpensOne keywords rest) : OpensOne (keyword :: keywords) text := by
  cases h with
  | nil =>
    obtain ⟨w, hw, hopens⟩ := hrest
    exact ⟨w, List.mem_cons_of_mem _ hw, hopens⟩
  | cons h _ => exact ⟨keyword, List.mem_cons_self, hR _ _ _ h⟩

section
variable {engine : DdlEngine} {text rest : Str}

theorem ListAt.length_le {α : Type} {R : α → Str → Str → Prop} {as : List α}
    (hR : ∀ a text rest, R a text rest → rest.length < text.length) (h : ListAt R as text rest) :
    rest.length + as.length ≤ text.length := by
  induction h with
  | nil => exact Nat.le_refl _
  | cons h _ ih =>
    have hlt := hR _ _ _ h
    rw [List.length_cons]
    omega

theorem wordAhead_options {os : List ParamOption} (h : ListAt (OptionAt engine) os text rest)
    (hrest : WordAhead rest) : WordAhead text := by
  cases h with
  | nil => exact hrest
  | cons h _ =>
    obtain ⟨k, mid, h, hk⟩ := h.begins
    have hcap : ∀ w ∈ optionStarts, InCapitals w := by decide
    exact h.wordAhead (hcap _ hk)

theorem paramOptions_read (hlit : ReadsLiterals engine) {os : List ParamOption}
    (h : ListAt (OptionAt engine) os text rest) (hend : endsOptions rest = true) (hnext : WordAhead rest)
    {fuel : Nat} (hfuel : os.length ≤ fuel) (spec : ParamSpec) :
    (paramOptions engine fuel spec text).toOption = (os.foldlM (applyOption engine) spec).map (·, rest) := by
  induction h generalizing fuel spec with
  | nil =>
    cases fuel with
    | zero => rfl
    | succ fuel =>
      rw [paramOptions, hend, Bool.or_true]
      rfl
  | @cons o os text mid rest h hrest ih =>
    obtain ⟨fuel, rfl⟩ : ∃ n, fuel = n + 1 := ⟨fuel - 1, by rw [List.length_cons] at hfuel; omega⟩
    have hmid := wordAhead_options hrest hnext
    have hoption := paramOption_read hlit h hmid spec
    obtain ⟨k, after, hbegins, -⟩ := h.begins
    have hne : text.isEmpty = false := by
      obtain ⟨c, t, rfl, -⟩ := hbegins.word_cons
      rfl
    rw [paramOptions, hne, not_endsOptions h.leading, List.foldlM_cons]
    rcases toOption_step hoption with ⟨happly, e, he⟩ | ⟨spec', happly, he⟩
    · rw [he, happly]
      rfl
    · rw [he, happly]
      exact ih hend hnext (by rw [List.length_cons] at hfuel; omega) spec'

theorem takeType_read {type : Option Str} (spec : ParamSpec) (h : TypeAt type text rest) (hne : text ≠ []) :
    takeType spec text = ({ spec with typeName := (type.map storedTypeName).getD spec.typeName }, rest) := by
  have hempty : text.isEmpty = false := by simpa using hne
  cases type with
  | none =>
    obtain ⟨rfl, htype⟩ := h
    rw [takeType, htype, Bool.and_false]
    rfl
  | some t =>
    obtain ⟨htype, h⟩ := h
    obtain ⟨htoken, hafter⟩ := h.afterWord
    rw [takeType, hempty, htoken, htype, hafter]
    rfl

theorem firstSource_read (hlit : ReadsLiterals engine) {os : List ParamOption}
    (h : ListAt (OptionAt engine) os text rest) (hend : endsOptions rest = true) (hnext : WordAhead rest)
    (spec : ParamSpec) :
    (paramOptions engine ((tryConsumeSource spec text).getD (spec, text)).2.length
        ((tryConsumeSource spec text).getD (spec, text)).1
        ((tryConsumeSource spec text).getD (spec, text)).2).toOption =
      (os.foldlM (applyOption engine) spec).map (·, rest) := by
  have hlength : ∀ {as : List ParamOption} {s t : Str}, ListAt (OptionAt engine) as s t → as.length ≤ s.length := by
    intro as s t h
    have hle := h.length_le fun _ _ _ h => OptionAt.length_lt h
    omega
  by_cases hsource : leading text ∈ sourceWords
  · cases h with
    | nil =>
      have hstart : leading text ∈ optionStarts := List.mem_cons_of_mem _ (List.mem_append_left _ hsource)
      rw [not_endsOptions hstart] at hend
      cases hend
    | @cons o os _ mid _ h hrest =>
      obtain ⟨s, wire, rfl⟩ := h.isSource hsource
      obtain ⟨spec', happly, htry⟩ := tryConsumeSource_read spec h
      rw [htry, List.foldlM_cons, happly]
      exact paramOptions_read hlit hrest hend hnext (hlength hrest) spec'
  · rw [tryConsumeSource_none spec hsource]
    exact paramOptions_read hlit h hend hnext (hlength h) spec

theorem paramClause_read (hlit : ReadsLiterals engine) {p : ParamWritten} (h : ParamAt engine p text rest)
    (hend : endsOptions rest = true) (hnext : WordAhead rest) :
    (paramClause engine text).toOption = (p.spec engine).map (·, rest) := by
  obtain ⟨k, mid, mid', hk, hb, htype, hoptions⟩ := h
  obtain _ | ⟨hword, _ | ⟨hname, ⟨⟩⟩⟩ := hb
  obtain ⟨htoken, hafter, -⟩ := Begins.operand hname
  have hne := (Starts.tight_rest hword).nonempty
  have hempty := List.isEmpty_eq_false_iff.mpr hne
  have htake := takeType_read { name := p.name } htype (Starts.tight_rest hname).nonempty
  simp only [paramClause, Begins.afterKeyword hword hk, hempty, Bool.false_eq_true, if_false, htoken, hafter,
    htake]
  exact firstSource_read hlit hoptions hend hnext _

theorem ParamAt.begins {p : ParamWritten} (h : ParamAt engine p text rest) :
    ∃ k mid, Begins (.word k) text mid ∧ upper k = "PARAM".toList := by
  obtain ⟨k, mid, mid', hk, hb, -⟩ := h
  obtain _ | ⟨hword, -⟩ := hb
  exact ⟨k, _, hword, hk⟩

theorem ParamAt.opens {p : ParamWritten} (h : ParamAt engine p text rest) : Opens "PARAM".toList text := by
  obtain ⟨k, mid, hword, hk⟩ := h.begins
  rw [← hk]
  exact hword.opens (by rw [hk]; decide)

theorem ParamAt.length_lt {p : ParamWritten} (h : ParamAt engine p text rest) : rest.length < text.length := by
  obtain ⟨k, mid, mid', -, hb, htype, hoptions⟩ := h
  have hpieces := hb.length_le
  have hle := hoptions.length_le fun _ _ _ h => OptionAt.length_lt h
  have hmid : mid'.length ≤ mid.length := by
    cases htype' : p.type with
    | none =>
      rw [htype'] at htype
      rw [htype.1]
    | some t =>
      rw [htype'] at htype
      exact Nat.le_of_lt htype.2.length_lt
  simp only [List.length_cons, List.length_nil] at hpieces
  omega

theorem paramClauses_read (hlit : ReadsLiterals engine) {ps : List ParamWritten}
    (h : ListAt (ParamAt engine) ps text rest) {keywords : List Str} (hrest : OpensOne keywords rest)
    (hnot : "PARAM".toList ∉ keywords) {fuel : Nat} (hfuel : ps.length ≤ fuel) (done : List ParamSpec) :
    (paramClauses engine fuel done text).toOption =
      ((ps.mapM (ParamWritten.spec engine)).map (done ++ ·)).map (·, rest) := by
  induction h generalizing fuel done with
  | @nil rest =>
    have hat : atKeyword "PARAM".toList rest = false :=
      not_atKeyword (by decide) (hrest.leading_ne hnot (by decide))
    cases fuel with
    | zero => simp [paramClauses, Except.toOption]
    | succ fuel =>
      rw [paramClauses, hat]
      simp [Except.toOption]
  | @cons p ps text mid rest h hlist ih =>
    obtain ⟨fuel, rfl⟩ : ∃ n, fuel = n + 1 := ⟨fuel - 1, by rw [List.length_cons] at hfuel; omega⟩
    obtain ⟨k, after, hword, hk⟩ := h.begins
    have hat : atKeyword "PARAM".toList text = true := by
      rw [hword.atKeyword _ (by decide), hk]
      rfl
    have hmid := (opens_listAt hlist (fun _ _ _ h => ParamAt.opens h) hrest).ends
    rw [paramClauses, hat, List.mapM_cons]
    rcases toOption_step (paramClause_read hlit h hmid.1 hmid.2) with ⟨hspec, e, he⟩ | ⟨spec, hspec, he⟩
    · simp only [he, hspec]
      rfl
    · have hgo := @ih hrest fuel (by rw [List.length_cons] at hfuel; omega) (done ++ [spec])
      simp only [he, hspec, Bool.not_true, Bool.false_eq_true, if_false, hgo]
      cases ps.mapM (ParamWritten.spec engine) with
      | none => rfl
      | some specs => simp

end

end Quackapi.Ddl
