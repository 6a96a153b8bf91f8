import Quackapi.Graphql.Execute

/-! The texts of the GraphQL subset, by its grammar: tokens with what is ignored between them, an
optional operation, and a selection set. -/

namespace Quackapi.Graphql

inductive Token
  | name (n : Str)
  /-- Any other character that is not ignored. -/
  | mark (c : Char)
deriving DecidableEq, Repr

/-- White space, commas, and comments up to their line break. -/
inductive Ignored : Str → Prop
  | nil : Ignored []
  | separator {c : Char} {s : Str} (hc : c ∈ [' ', '\t', '\n', '\r', ',']) (h : Ignored s) :
      Ignored (c :: s)
  | comment {text s : Str} (htext : '\n' ∉ text) (h : Ignored s) :
      Ignored ('#' :: (text ++ '\n' :: s))

/-- At the end of a text a comment may lack its line break. -/
def IgnoredEnd (s : Str) : Prop :=
  Ignored s ∨ ∃ before text, s = before ++ '#' :: text ∧ Ignored before ∧ '\n' ∉ text

/-- The character cannot be the next one of a name. -/
def EndsName (s : Str) : Prop := ∀ c t, s = c :: t → isGraphqlNameCont c = false

/-- The tokens of a text; a name is as long as it can be. -/
inductive Lexes : Str → List Token → Prop
  | done {s : Str} (h : IgnoredEnd s) : Lexes s []
  | name {before n s : Str} {ts : List Token} (hbefore : Ignored before)
      (hname : isGraphqlName n = true) (hends : EndsName s) (h : Lexes s ts) :
      Lexes (before ++ (n ++ s)) (.name n :: ts)
  | mark {before s : Str} {c : Char} {ts : List Token} (hbefore : Ignored before)
      (hc : isSignificant c = true) (hstart : isGraphqlNameStart c = false) (h : Lexes s ts) :
      Lexes (before ++ c :: s) (.mark c :: ts)

def fieldTokens (f : GraphqlField) : List Token :=
  .name f.name :: .mark '{' :: (f.columns.map .name ++ [.mark '}'])

def selectionTokens (roots : List GraphqlField) : List Token :=
  .mark '{' :: (roots.flatMap fieldTokens ++ [.mark '}'])

/-- `query`, with or without a name, or nothing. -/
inductive Operation : List Token → Prop
  | absent : Operation []
  | anonymous : Operation [.name "query".toList]
  | named (n : Str) : Operation [.name "query".toList, .name n]

structure FieldAccepted (f : GraphqlField) : Prop where
  introspection : f.name ≠ "__schema".toList ∧ f.name ≠ "__type".toList
  nonempty : f.columns ≠ []
  distinct : f.columns.Nodup
  limit : f.columns.length ≤ graphqlMaxColumnsPerField

/-- The names are distinct and the limits are kept. -/
structure RootsAccepted (roots : List GraphqlField) : Prop where
  fields : ∀ f ∈ roots, FieldAccepted f
  distinct : (roots.map GraphqlField.name).Nodup
  rootLimit : roots.length ≤ graphqlMaxRootFields
  totalLimit : totalFields roots ≤ graphqlMaxTotalFields

/-- The text is an operation and a selection set of these roots. -/
def IsDocument (doc : Str) (roots : List GraphqlField) : Prop :=
  roots ≠ [] ∧ RootsAccepted roots ∧
    ∃ operation, Operation operation ∧ Lexes doc (operation ++ selectionTokens roots)

theorem separator_iff (c : Char) :
    isGraphqlSeparator c = true ↔ c ∈ [' ', '\t', '\n', '\r', ','] := by
  simp only [isGraphqlSeparator, Bool.or_eq_true, beq_iff_eq, List.mem_cons, List.not_mem_nil, or_false,
    or_assoc]

theorem skipIgnored_comment {text : Str} (htext : '\n' ∉ text) (s : Str) :
    skipIgnored true (text ++ '\n' :: s) = skipIgnored false s := by
  induction text with
  | nil => rfl
  | cons c text ih =>
    obtain ⟨hc, htext⟩ := not_or.mp (List.mem_cons.not.mp htext)
    rw [List.cons_append, skipIgnored, if_pos rfl, decide_eq_false (Ne.symm hc)]
    exact ih htext

theorem skipWs_ignored {before : Str} (h : Ignored before) (s : Str) :
    skipWs (before ++ s) = skipWs s := by
  induction h with
  | nil => rfl
  | separator hc _ ih =>
    rw [List.cons_append, skipWs_separator ((separator_iff _).mpr hc)]
    exact ih
  | @comment text before htext _ ih =>
    have hskip : skipWs ('#' :: (text ++ '\n' :: (before ++ s))) = skipWs (before ++ s) :=
      skipIgnored_comment htext _
    rw [List.cons_append, List.append_assoc, List.cons_append, hskip]
    exact ih

theorem skipIgnored_true_nil {text : Str} (htext : '\n' ∉ text) : skipIgnored true text = [] := by
  induction text with
  | nil => rfl
  | cons c text ih =>
    obtain ⟨hc, htext⟩ := not_or.mp (List.mem_cons.not.mp htext)
    rw [skipIgnored, if_pos rfl, decide_eq_false (Ne.symm hc)]
    exact ih htext

theorem skipWs_ignoredEnd {s : Str} (h : IgnoredEnd s) : skipWs s = [] := by
  rcases h with h | ⟨before, text, rfl, hbefore, htext⟩
  · have hskip := skipWs_ignored h []
    rwa [List.append_nil] at hskip
  · rw [skipWs_ignored hbefore]
    exact skipIgnored_true_nil htext

theorem skipIgnored_spec (s : Str) :
    (∀ c r, skipIgnored false s = c :: r →
      ∃ before, s = before ++ c :: r ∧ Ignored before ∧ isSignificant c = true) ∧
    (skipIgnored false s = [] → IgnoredEnd s) ∧
    (∀ c r, skipIgnored true s = c :: r →
      ∃ text before, s = text ++ '\n' :: (before ++ c :: r) ∧ '\n' ∉ text ∧ Ignored before ∧
        isSignificant c = true) ∧
    (skipIgnored true s = [] →
      '\n' ∉ s ∨ ∃ text rest, s = text ++ '\n' :: rest ∧ '\n' ∉ text ∧ IgnoredEnd rest) := by
  induction s with
  | nil => exact ⟨nofun, fun _ => .inl .nil, nofun, fun _ => .inl nofun⟩
  | cons d s ih =>
    obtain ⟨ihcons, ihnil, ihcommentCons, ihcommentNil⟩ := ih
    refine ⟨fun c r h => ?_, fun h => ?_, fun c r h => ?_, fun h => ?_⟩
    · rw [skipIgnored, if_neg Bool.false_ne_true] at h
      split at h
      · next hd =>
        obtain ⟨before, rfl, hbefore, hc⟩ := ihcons c r h
        exact ⟨d :: before, rfl, .separator ((separator_iff d).mp hd) hbefore, hc⟩
      split at h
      · next hd =>
        obtain ⟨text, before, rfl, htext, hbefore, hc⟩ := ihcommentCons c r h
        refine ⟨'#' :: (text ++ '\n' :: before), ?_, .comment htext hbefore, hc⟩
        rw [hd, List.cons_append, List.append_assoc, List.cons_append]
      · next hsep hcomment =>
        cases h
        refine ⟨[], rfl, .nil, ?_⟩
        rw [isSignificant, Bool.eq_false_iff.mpr hsep, decide_eq_false hcomment]
        rfl
    · rw [skipIgnored, if_neg Bool.false_ne_true] at h
      split at h
      · next hd =>
        have hd' := (separator_iff d).mp hd
        rcases ihnil h with hs | ⟨before, text, rfl, hbefore, htext⟩
        · exact .inl (.separator hd' hs)
        · exact .inr ⟨d :: before, text, rfl, .separator hd' hbefore, htext⟩
      split at h
      · next hd =>
        rcases ihcommentNil h with hs | ⟨text, rest, rfl, htext, hrest⟩
        · exact .inr ⟨[], s, congrArg (· :: s) hd, .nil, hs⟩
        · rcases hrest with hrest | ⟨before, text', rfl, hbefore, htext'⟩
          · exact .inl (hd ▸ .comment htext hrest)
          · refine .inr ⟨'#' :: (text ++ '\n' :: before), text', ?_, .comment htext hbefore, htext'⟩
            rw [hd, List.cons_append, List.append_assoc, List.cons_append]
      · cases h
    · rw [skipIgnored, if_pos rfl] at h
      by_cases hd : d = '\n'
      · rw [decide_eq_true hd] at h
        obtain ⟨before, rfl, hbefore, hc⟩ := ihcons c r h
        exact ⟨[], before, congrArg (· :: _) hd, nofun, hbefore, hc⟩
      · rw [decide_eq_false hd] at h
        obtain ⟨text, before, rfl, htext, hbefore, hc⟩ := ihcommentCons c r h
        exact ⟨d :: text, before, rfl, List.not_mem_cons_of_ne_of_not_mem (Ne.symm hd) htext, hbefore, hc⟩
    · rw [skipIgnored, if_pos rfl] at h
      by_cases hd : d = '\n'
      · rw [decide_eq_true hd] at h
        exact .inr ⟨[], s, congrArg (· :: s) hd, nofun, ihnil h⟩
      · rw [decide_eq_false hd] at h
        rcases ihcommentNil h with hs | ⟨text, rest, rfl, htext, hrest⟩
        · exact .inl (List.not_mem_cons_of_ne_of_not_mem (Ne.symm hd) hs)
        · exact .inr ⟨d :: text, rest, rfl, List.not_mem_cons_of_ne_of_not_mem (Ne.symm hd) htext, hrest⟩

theorem lexes_mark_of_matchChar {expected : Char} {s rest : Str} {ts : List Token}
    (hexpected : isGraphqlNameStart expected = false) (h : matchChar expected s = some rest)
    (hrest : Lexes rest ts) : Lexes s (.mark expected :: ts) := by
  rw [matchChar] at h
  rcases hs : skipWs s with _ | ⟨c, r⟩
  · rw [hs] at h
    cases h
  rw [hs] at h
  dsimp only at h
  rw [Option.ite_none_right_eq_some] at h
  obtain ⟨rfl, h⟩ := h
  cases h
  obtain ⟨before, rfl, hbefore, hc⟩ := (skipIgnored_spec s).1 _ _ hs
  exact .mark hbefore hc hexpected hrest

theorem lexes_name_of_readName {s n rest : Str} {ts : List Token} (h : readName s = some (n, rest))
    (hrest : Lexes rest ts) : Lexes s (.name n :: ts) := by
  rw [readName] at h
  rcases hs : skipWs s with _ | ⟨c, r⟩
  · rw [hs] at h
    cases h
  rw [hs] at h
  dsimp only at h
  rw [Option.ite_none_right_eq_some] at h
  obtain ⟨hstart, h⟩ := h
  cases h
  obtain ⟨before, hs', hbefore, _⟩ := (skipIgnored_spec s).1 c r hs
  have hname : isGraphqlName (c :: r.takeWhile isGraphqlNameCont) = true := by
    rw [isGraphqlName, hstart, Bool.true_and]
    exact List.all_takeWhile
  have hends : EndsName (r.dropWhile isGraphqlNameCont) := by
    intro d t hd
    have hhead := List.head?_dropWhile_not isGraphqlNameCont r
    rw [hd] at hhead
    simpa using hhead
  have htext : s = before ++ (c :: r.takeWhile isGraphqlNameCont ++ r.dropWhile isGraphqlNameCont) := by
    rw [List.cons_append, List.takeWhile_append_dropWhile]
    exact hs'
  rw [htext]
  exact .name hbefore hname hends hrest

theorem Lexes.of_nil {s : Str} (h : Lexes s []) : skipWs s = [] := by
  cases h with
  | done hend => exact skipWs_ignoredEnd hend

theorem Lexes.of_mark {s : Str} {c : Char} {ts : List Token} (h : Lexes s (.mark c :: ts)) :
    ∃ rest, skipWs s = c :: rest ∧ isGraphqlNameStart c = false ∧ Lexes rest ts := by
  cases h with
  | @mark before rest _ _ hbefore hc hstart hrest =>
    exact ⟨rest, by rw [skipWs_ignored hbefore, skipWs_significant hc], hstart, hrest⟩

theorem Lexes.of_name {s n : Str} {ts : List Token} (h : Lexes s (.name n :: ts)) :
    ∃ c tail rest, n = c :: tail ∧ skipWs s = c :: (tail ++ rest) ∧ isGraphqlNameStart c = true ∧
      (tail ++ rest).takeWhile isGraphqlNameCont = tail ∧
      (tail ++ rest).dropWhile isGraphqlNameCont = rest ∧ Lexes rest ts := by
  cases h with
  | @name before _ rest _ hbefore hname hends hrest =>
    rcases n with _ | ⟨c, tail⟩
    · cases hname
    obtain ⟨hstart, htail⟩ := Bool.and_eq_true_iff.mp hname
    have hcont : ∀ d ∈ tail, isGraphqlNameCont d = true := List.all_eq_true.mp htail
    refine ⟨c, tail, rest, rfl, ?_, hstart, ?_, ?_, hrest⟩
    · rw [skipWs_ignored hbefore, List.cons_append,
        skipWs_significant (isSignificant_of_nameStart hstart)]
    · rw [List.takeWhile_append_of_pos hcont]
      cases rest with
      | nil => exact List.append_nil _
      | cons d rest => rw [List.takeWhile_cons, hends d rest rfl]; exact List.append_nil _
    · rw [List.dropWhile_append_of_pos hcont]
      cases rest with
      | nil => rfl
      | cons d rest => rw [List.dropWhile_cons, hends d rest rfl]; rfl

theorem Lexes.matchChar {s : Str} {c : Char} {ts : List Token} (h : Lexes s (.mark c :: ts)) :
    ∃ rest, matchChar c s = some rest ∧ Lexes rest ts := by
  obtain ⟨rest, hs, _, hrest⟩ := h.of_mark
  refine ⟨rest, ?_, hrest⟩
  rw [Graphql.matchChar, hs]
  exact if_pos rfl

theorem Lexes.readName {s n : Str} {ts : List Token} (h : Lexes s (.name n :: ts)) :
    ∃ rest, readName s = some (n, rest) ∧ Lexes rest ts := by
  obtain ⟨c, tail, rest, rfl, hs, hstart, htake, hdrop, hrest⟩ := h.of_name
  refine ⟨rest, ?_, hrest⟩
  rw [Graphql.readName, hs]
  dsimp only
  rw [if_pos hstart, htake, hdrop]

theorem Lexes.readName_mark {s : Str} {c : Char} {ts : List Token} (h : Lexes s (.mark c :: ts)) :
    Graphql.readName s = none := by
  obtain ⟨rest, hs, hstart, _⟩ := h.of_mark
  rw [Graphql.readName, hs]
  exact if_neg (Bool.eq_false_iff.mp hstart)

theorem Lexes.matchChar_mark {s : Str} {c : Char} {ts : List Token} (h : Lexes s (.mark c :: ts))
    {expected : Char} (hne : c ≠ expected) : Graphql.matchChar expected s = none := by
  obtain ⟨rest, hs, _, _⟩ := h.of_mark
  rw [Graphql.matchChar, hs]
  exact if_neg hne

theorem Lexes.matchChar_name {s n : Str} {ts : List Token} (h : Lexes s (.name n :: ts))
    {expected : Char} (hexpected : isGraphqlNameStart expected = false) :
    Graphql.matchChar expected s = none := by
  obtain ⟨c, tail, rest, _, hs, hstart, _⟩ := h.of_name
  rw [Graphql.matchChar, hs]
  refine if_neg ?_
  rintro rfl
  rw [hexpected] at hstart
  cases hstart

theorem readColumns_sound {field : Str} {columns cols : List Str} {s rest : Str}
    (h : readColumns field columns s = .ok (cols, rest)) (hdistinct : columns.Nodup)
    (hlimit : columns.length ≤ graphqlMaxColumnsPerField) :
    ∃ new, cols = columns ++ new ∧ cols.Nodup ∧ cols.length ≤ graphqlMaxColumnsPerField ∧
      ∀ ts, Lexes rest ts → Lexes s (new.map .name ++ .mark '}' :: ts) := by
  fun_induction readColumns field columns s with
  | case1 columns s tail hend =>
    cases h
    exact ⟨[], (List.append_nil _).symm, hdistinct, hlimit,
      fun ts hrest => lexes_mark_of_matchChar rfl hend hrest⟩
  | case2 | case3 | case4 | case5 | case6 => cases h
  | case7 columns s hend col tail hname hnested hargs hdup hmax ih =>
    have hnew : col ∉ columns := fun hmem => hdup (List.contains_iff_mem.mpr hmem)
    have hlength : (columns ++ [col]).length ≤ graphqlMaxColumnsPerField := by
      rw [List.length_append, List.length_singleton]
      exact Nat.not_lt.mp hmax
    have hmore : (columns ++ [col]).Nodup := by
      refine List.nodup_append.mpr ⟨hdistinct, List.nodup_singleton col, ?_⟩
      rintro a ha b hb rfl
      exact hnew (List.mem_singleton.mp hb ▸ ha)
    obtain ⟨new, rfl, hcols, hlimit', htokens⟩ := ih h hmore hlength
    exact ⟨col :: new, List.append_assoc _ _ _, hcols, hlimit',
      fun ts hrest => lexes_name_of_readName hname (htokens ts hrest)⟩

theorem readColumns_complete {field : Str} {new columns : List Str} {s : Str} {ts : List Token}
    (h : Lexes s (new.map .name ++ .mark '}' :: ts)) (hdistinct : (columns ++ new).Nodup)
    (hlimit : (columns ++ new).length ≤ graphqlMaxColumnsPerField) :
    ∃ rest, readColumns field columns s = .ok (columns ++ new, rest) ∧ Lexes rest ts := by
  induction new generalizing columns s with
  | nil =>
    obtain ⟨rest, hend, hrest⟩ := h.matchChar
    refine ⟨rest, ?_, hrest⟩
    rw [readColumns, hend, List.append_nil]
  | cons col new ih =>
    obtain ⟨tail, hname, htail⟩ := h.readName
    have hend : matchChar '}' s = none := h.matchChar_name rfl
    have hnested : ∀ c, c ≠ '}' → isGraphqlNameStart c = false → matchChar c tail = none := by
      intro c hc hstart
      cases new with
      | nil => exact htail.matchChar_mark hc.symm
      | cons n new => exact htail.matchChar_name hstart
    have hnew : columns.contains col = false := by
      apply Bool.eq_false_iff.mpr
      intro hmem
      have hdisjoint := (List.nodup_append.mp hdistinct).2.2
      exact hdisjoint col (List.contains_iff_mem.mp hmem) col List.mem_cons_self rfl
    have hmax : ¬ graphqlMaxColumnsPerField < columns.length + 1 := by
      rw [List.length_append, List.length_cons] at hlimit
      omega
    have happend : columns ++ col :: new = columns ++ [col] ++ new := by
      rw [List.append_assoc, List.singleton_append]
    rw [happend] at hdistinct hlimit ⊢
    obtain ⟨rest, hread, hrest⟩ := ih htail hdistinct hlimit
    refine ⟨rest, ?_, hrest⟩
    rw [readColumns, hend]
    dsimp only
    split
    · next hnone =>
      rw [hname] at hnone
      cases hnone
    · next col' tail' hsome =>
      rw [hname] at hsome
      cases hsome
      rw [hnested '{' (by decide) rfl, hnested '(' (by decide) rfl, hnew, if_neg hmax]
      exact hread

theorem totalFields_append (roots more : List GraphqlField) :
    totalFields (roots ++ more) = totalFields roots + totalFields more := by
  rw [totalFields, List.map_append, List.sum_append]
  rfl

theorem RootsAccepted.of_append {roots more : List GraphqlField} (h : RootsAccepted (roots ++ more)) :
    RootsAccepted roots := by
  constructor
  · exact fun f hf => h.fields f (List.mem_append_left _ hf)
  · have hnames := h.distinct
    rw [List.map_append] at hnames
    exact (List.nodup_append.mp hnames).1
  · have hlength := h.rootLimit
    rw [List.length_append] at hlength
    omega
  · have htotal := h.totalLimit
    rw [totalFields_append] at htotal
    omega

theorem rootsAccepted_nil : RootsAccepted [] :=
  ⟨nofun, List.nodup_nil, Nat.zero_le _, Nat.zero_le _⟩

theorem addRoot_iff {roots roots' : List GraphqlField} {field : GraphqlField}
    (hroots : RootsAccepted roots)
    (hfield : field.name ≠ "__schema".toList ∧ field.name ≠ "__type".toList)
    (hdistinct : field.columns.Nodup) (hlimit : field.columns.length ≤ graphqlMaxColumnsPerField) :
    addRoot roots field = .ok roots' ↔
      roots' = roots ++ [field] ∧ RootsAccepted (roots ++ [field]) := by
  have hduplicate : (roots.any fun existing => decide (existing.name = field.name)) = true ↔
      field.name ∈ roots.map GraphqlField.name := by
    rw [List.any_eq_true, List.mem_map]
    simp only [decide_eq_true_eq]
  rw [addRoot]
  split
  · next hempty =>
    refine iff_of_false nofun fun ⟨_, h⟩ => ?_
    have haccepted := h.fields field (List.mem_append_right _ (List.mem_singleton_self field))
    exact haccepted.nonempty (List.isEmpty_iff.mp hempty)
  next hempty =>
  split
  · next hany =>
    refine iff_of_false nofun fun ⟨_, h⟩ => ?_
    have hnames := h.distinct
    rw [List.map_append] at hnames
    exact (List.nodup_append.mp hnames).2.2 _ (hduplicate.mp hany) _ (List.mem_singleton_self _) rfl
  next hany =>
  split
  · next hcount =>
    refine iff_of_false nofun fun ⟨_, h⟩ => ?_
    have hlength := h.rootLimit
    rw [List.length_append, List.length_singleton] at hlength
    omega
  next hcount =>
  split
  · next htotal => exact iff_of_false nofun fun ⟨_, h⟩ => absurd h.totalLimit (Nat.not_le.mpr htotal)
  next htotal =>
  constructor
  · intro h
    cases h
    refine ⟨rfl, ⟨?_, ?_, ?_, Nat.not_lt.mp htotal⟩⟩
    · refine List.forall_mem_append.mpr ⟨hroots.fields, List.forall_mem_singleton.mpr ?_⟩
      exact ⟨hfield, fun h => hempty (List.isEmpty_iff.mpr h), hdistinct, hlimit⟩
    · rw [List.map_append]
      refine List.nodup_append.mpr ⟨hroots.distinct, List.nodup_singleton _, ?_⟩
      rintro a ha b hb rfl
      rw [List.mem_singleton.mp hb] at ha
      exact hany (hduplicate.mpr ha)
    · rw [List.length_append, List.length_singleton]
      exact Nat.not_lt.mp hcount
  · rintro ⟨rfl, _⟩
    rfl

theorem isIntrospection_iff (name : Str) :
    isIntrospection name = false ↔ name ≠ "__schema".toList ∧ name ≠ "__type".toList := by
  rw [isIntrospection, Bool.or_eq_false_iff, decide_eq_false_iff_not, decide_eq_false_iff_not]

theorem readRoots_sound {roots roots' : List GraphqlField} {s rest : Str}
    (h : readRoots roots s = .ok (roots', rest)) (hroots : RootsAccepted roots) :
    ∃ new, roots' = roots ++ new ∧ RootsAccepted roots' ∧
      ∀ ts, Lexes rest ts → Lexes s (new.flatMap fieldTokens ++ .mark '}' :: ts) := by
  fun_induction readRoots roots s with
  | case1 roots s tail hend =>
    cases h
    exact ⟨[], (List.append_nil _).symm, hroots,
      fun ts hrest => lexes_mark_of_matchChar rfl hend hrest⟩
  | case2 | case3 | case4 | case5 | case6 => cases h
  | case7 roots s hend fieldName afterName hname hintrospection body hbrace columns tail hcolumns roots₁
      hadd ih =>
    obtain ⟨cols, rfl, hdistinct, hlimit, hfieldTokens⟩ :=
      readColumns_sound hcolumns List.nodup_nil (Nat.zero_le _)
    have hname' := (isIntrospection_iff fieldName).mp (Bool.eq_false_iff.mpr hintrospection)
    obtain ⟨rfl, hroots₁⟩ := (addRoot_iff hroots hname' hdistinct hlimit).mp hadd
    obtain ⟨new, rfl, hroots', htokens⟩ := ih h hroots₁
    refine ⟨⟨fieldName, columns⟩ :: new, List.append_assoc _ _ _, hroots', fun ts hrest => ?_⟩
    have hfield := hfieldTokens _ (htokens ts hrest)
    have hopen := lexes_name_of_readName hname (lexes_mark_of_matchChar rfl hbrace hfield)
    simpa only [List.flatMap_cons, fieldTokens, List.cons_append, List.append_assoc,
      List.nil_append] using hopen

theorem readRoots_complete {new roots : List GraphqlField} {s : Str} {ts : List Token}
    (h : Lexes s (new.flatMap fieldTokens ++ .mark '}' :: ts)) (hroots : RootsAccepted (roots ++ new)) :
    ∃ rest, readRoots roots s = .ok (roots ++ new, rest) ∧ Lexes rest ts := by
  induction new generalizing roots s with
  | nil =>
    obtain ⟨rest, hend, hrest⟩ := h.matchChar
    refine ⟨rest, ?_, hrest⟩
    rw [readRoots, hend, List.append_nil]
  | cons f new ih =>
    obtain ⟨fieldName, cols⟩ := f
    have hfield := hroots.fields ⟨fieldName, cols⟩ (List.mem_append_right _ List.mem_cons_self)
    have hopen : Lexes s (.name fieldName :: .mark '{' ::
        (cols.map .name ++ .mark '}' :: (new.flatMap fieldTokens ++ .mark '}' :: ts))) := by
      simpa only [List.flatMap_cons, fieldTokens, List.cons_append, List.append_assoc,
        List.nil_append] using h
    obtain ⟨afterName, hname, hafterName⟩ := hopen.readName
    have hend : matchChar '}' s = none := hopen.matchChar_name rfl
    obtain ⟨body, hbrace, hbody⟩ := hafterName.matchChar
    obtain ⟨tail, hcolumns, htail⟩ := @readColumns_complete fieldName _ [] _ _ hbody
      hfield.distinct hfield.limit
    have happend : roots ++ ⟨fieldName, cols⟩ :: new = roots ++ [⟨fieldName, cols⟩] ++ new := by
      rw [List.append_assoc, List.singleton_append]
    rw [happend] at hroots ⊢
    obtain ⟨rest, hread, hrest⟩ := ih htail hroots
    have hadd : addRoot roots ⟨fieldName, cols⟩ = .ok (roots ++ [⟨fieldName, cols⟩]) :=
      (addRoot_iff hroots.of_append.of_append hfield.introspection hfield.distinct hfield.limit).mpr
        ⟨rfl, hroots.of_append⟩
    refine ⟨rest, ?_, hrest⟩
    rw [readRoots, hend]
    dsimp only
    split
    · next hnone =>
      rw [hname] at hnone
      cases hnone
    next fieldName' afterName' hsome =>
    rw [hname] at hsome
    cases hsome
    rw [(isIntrospection_iff fieldName).mpr hfield.introspection, if_neg Bool.false_ne_true]
    split
    · next hnone =>
      rw [hbrace] at hnone
      cases hnone
    next body' hsome =>
    rw [hbrace] at hsome
    cases hsome
    split
    · next herror =>
      rw [hcolumns] at herror
      cases herror
    next columns' tail' hok =>
    rw [hcolumns] at hok
    cases hok
    rw [List.nil_append, hadd]
    exact hread

theorem matchChar_of_readName {s : Str} {r : Str × Str} (h : readName s = some r) {expected : Char}
    (hexpected : isGraphqlNameStart expected = false) : matchChar expected s = none := by
  rw [readName] at h
  rw [matchChar]
  rcases hs : skipWs s with _ | ⟨c, rest⟩
  · rfl
  rw [hs] at h
  dsimp only at h ⊢
  rw [Option.ite_none_right_eq_some] at h
  refine if_neg ?_
  rintro rfl
  rw [hexpected] at h
  exact absurd h.1 Bool.false_ne_true

theorem readOperation_sound {doc s body : Str} {ts : List Token} (h : readOperation doc = .ok s)
    (hbrace : matchChar '{' s = some body) (hbody : Lexes body ts) :
    ∃ operation, Operation operation ∧ Lexes doc (operation ++ .mark '{' :: ts) := by
  have hs := @lexes_mark_of_matchChar '{' _ _ _ rfl hbrace hbody
  rw [readOperation] at h
  split at h
  · cases h
    exact ⟨[], .absent, hs⟩
  next first afterFirst hfirst =>
  split at h
  · next hquery =>
    subst hquery
    split at h
    · cases h
      exact ⟨_, .anonymous, lexes_name_of_readName hfirst hs⟩
    next n afterName hname =>
    split at h
    · cases h
      exact ⟨_, .named n, lexes_name_of_readName hfirst (lexes_name_of_readName hname hs)⟩
    · cases h
  split at h
  · cases h
  · cases h
    -- a document that begins with another name is no selection set
    rw [matchChar_of_readName hfirst rfl] at hbrace
    cases hbrace

theorem readOperation_complete {doc : Str} {operation ts : List Token} (hoperation : Operation operation)
    (h : Lexes doc (operation ++ .mark '{' :: ts)) :
    ∃ s body, readOperation doc = .ok s ∧ matchChar '{' s = some body ∧ Lexes body ts := by
  cases hoperation with
  | absent =>
    obtain ⟨body, hbrace, hbody⟩ := h.matchChar
    refine ⟨doc, body, ?_, hbrace, hbody⟩
    rw [readOperation, Lexes.readName_mark h]
  | anonymous =>
    obtain ⟨s, hquery, hs⟩ := h.readName
    obtain ⟨body, hbrace, hbody⟩ := hs.matchChar
    refine ⟨s, body, ?_, hbrace, hbody⟩
    rw [readOperation, hquery]
    dsimp only
    rw [if_pos rfl, hs.readName_mark]
  | named n =>
    obtain ⟨afterQuery, hquery, hafter⟩ := h.readName
    obtain ⟨s, hname, hs⟩ := hafter.readName
    obtain ⟨body, hbrace, hbody⟩ := hs.matchChar
    refine ⟨s, body, ?_, hbrace, hbody⟩
    rw [readOperation, hquery]
    dsimp only
    rw [if_pos rfl, hname]
    dsimp only
    rw [hbrace]
    rfl

theorem lexes_done {s : Str} (h : skipWs s = []) : Lexes s [] :=
  .done ((skipIgnored_spec s).2.1 h)

theorem parse_ok_iff (doc : Str) (roots : List GraphqlField) :
    parseThinGraphql doc = .ok roots ↔
      doc.length ≤ graphqlMaxDocumentBytes ∧ IsDocument doc roots := by
  rw [parseThinGraphql]
  split
  · next hlong =>
    refine iff_of_false ?_ fun h => absurd h.1 (Nat.not_le.mpr hlong)
    intro h
    cases h
  next hlong =>
  rw [and_iff_right (Nat.not_lt.mp hlong)]
  split
  · next hempty =>
    refine iff_of_false ?_ ?_
    · intro h
      cases h
    rintro ⟨_, _, operation, hoperation, htokens⟩
    have hskip := List.isEmpty_iff.mp hempty
    obtain ⟨s, body, hread, hbrace, _⟩ := readOperation_complete hoperation htokens
    have hname : readName doc = none := by rw [readName, hskip]
    rw [readOperation, hname] at hread
    cases hread
    rw [matchChar, hskip] at hbrace
    cases hbrace
  simp only [Library.bind_eq_ok]
  constructor
  · rintro ⟨s, hoperation, h⟩
    split at h
    · cases h
    next body hbrace =>
    simp only [Library.bind_eq_ok] at h
    obtain ⟨⟨roots', rest⟩, hroots, h⟩ := h
    dsimp only at h
    split at h
    · cases h
    next htrailing =>
    split at h
    · cases h
    next hnonempty =>
    cases h
    have hrest : Lexes rest [] := lexes_done (by simpa using htrailing)
    obtain ⟨new, rfl, haccepted, htokens⟩ := readRoots_sound hroots rootsAccepted_nil
    obtain ⟨operation, hkind, hdoc⟩ := readOperation_sound hoperation hbrace (htokens [] hrest)
    exact ⟨by simpa using hnonempty, haccepted, operation, hkind, hdoc⟩
  · rintro ⟨hne, haccepted, operation, hkind, hdoc⟩
    obtain ⟨s, body, hoperation, hbrace, hbody⟩ := readOperation_complete hkind hdoc
    obtain ⟨rest, hroots, hrest⟩ := @readRoots_complete _ [] _ _ hbody haccepted
    have htrailing : (!(skipWs rest).isEmpty) = false := by rw [hrest.of_nil]; rfl
    have hnonempty : roots.isEmpty = false := by simpa using hne
    refine ⟨s, hoperation, ?_⟩
    rw [hbrace]
    refine Library.bind_eq_ok.mpr ⟨_, hroots, ?_⟩
    dsimp only
    rw [htrailing, if_neg Bool.false_ne_true, List.nil_append, hnonempty]
    rfl

theorem text_ne_nil {s : String} (h : s ≠ "") : s.toList ≠ [] := mt String.toList_eq_nil_iff.mp h

theorem text_append_ne_nil {s : String} (h : s ≠ "") (rest : Str) : s.toList ++ rest ≠ [] :=
  List.append_ne_nil_of_left_ne_nil (text_ne_nil h) rest

theorem readColumns_error {field : Str} {columns : List Str} {s e : Str}
    (h : readColumns field columns s = .error e) : e ≠ [] := by
  fun_induction readColumns field columns s with
  | case1 => cases h
  | case7 columns s hend col tail hname hnested hargs hdup hmax ih => exact ih h
  | case2 =>
    cases h
    exact text_append_ne_nil (by decide) _
  | case3 | case4 =>
    cases h
    exact text_ne_nil (by decide)
  | case5 =>
    cases h
    rw [List.append_assoc, List.append_assoc]
    exact text_append_ne_nil (by decide) _
  | case6 =>
    cases h
    rw [List.append_assoc]
    exact text_append_ne_nil (by decide) _

theorem addRoot_error {roots : List GraphqlField} {field : GraphqlField} {e : Str}
    (h : addRoot roots field = .error e) : e ≠ [] := by
  revert e
  change Library.FailsIn (· ≠ []) (addRoot roots field)
  refine iteInduction (fun _ => Library.failsIn_error ?_) fun _ => ?_
  · rw [List.append_assoc]
    exact text_append_ne_nil (by decide) _
  refine iteInduction (fun _ => Library.failsIn_error ?_) fun _ => ?_
  · rw [List.append_assoc]
    exact text_append_ne_nil (by decide) _
  refine iteInduction (fun _ => Library.failsIn_error (text_ne_nil (by decide))) fun _ => ?_
  refine iteInduction (fun _ => Library.failsIn_error (text_ne_nil (by decide))) fun _ => ?_
  exact Library.failsIn_ok

theorem readRoots_error {roots : List GraphqlField} {s e : Str} (h : readRoots roots s = .error e) :
    e ≠ [] := by
  fun_induction readRoots roots s with
  | case1 => cases h
  | case2 | case3 =>
    cases h
    exact text_ne_nil (by decide)
  | case4 =>
    cases h
    rw [List.append_assoc]
    exact text_append_ne_nil (by decide) _
  | case5 roots s hend fieldName afterName hname hintrospection body hbrace e' hcolumns =>
    cases h
    exact readColumns_error hcolumns
  | case6 roots s hend fieldName afterName hname hintrospection body hbrace columns tail hcolumns e' hadd =>
    cases h
    exact addRoot_error hadd
  | case7 roots s hend fieldName afterName hname hintrospection body hbrace columns tail hcolumns roots₁
      hadd ih => exact ih h

theorem readOperation_error {s e : Str} (h : readOperation s = .error e) : e ≠ [] := by
  revert e
  change Library.FailsIn (· ≠ []) (readOperation s)
  unfold readOperation
  split
  · exact Library.failsIn_ok
  · refine iteInduction (fun _ => ?_) fun _ => ?_
    · split
      · exact Library.failsIn_ok
      · refine iteInduction (fun _ => Library.failsIn_ok) fun _ => ?_
        exact Library.failsIn_error (text_ne_nil (by decide))
    · refine iteInduction (fun _ => ?_) fun _ => Library.failsIn_ok
      exact Library.failsIn_error (text_ne_nil (by decide))

theorem parse_error {doc e : Str} (h : parseThinGraphql doc = .error e) : e ≠ [] := by
  revert e
  change Library.FailsIn (· ≠ []) (parseThinGraphql doc)
  refine iteInduction (fun _ => Library.failsIn_error (text_ne_nil (by decide))) fun _ => ?_
  refine iteInduction (fun _ => Library.failsIn_error (text_ne_nil (by decide))) fun _ => ?_
  refine Library.FailsIn.bind (fun _ => readOperation_error) fun s => ?_
  split
  · exact Library.failsIn_error (text_ne_nil (by decide))
  · refine Library.FailsIn.bind (fun _ => readRoots_error) fun r => ?_
    refine iteInduction (fun _ => Library.failsIn_error (text_ne_nil (by decide))) fun _ => ?_
    refine iteInduction (fun _ => Library.failsIn_error (text_ne_nil (by decide))) fun _ => ?_
    exact Library.failsIn_pure

theorem rows_le_total (options : GraphqlExecOptions) (roots : List GraphqlField) :
    (roots.map fun _ => rowLimit options roots).sum ≤ graphqlMaxTotalRows := by
  calc (roots.map fun _ => rowLimit options roots).sum = roots.length * rowLimit options roots := by
        rw [List.map_const', List.sum_replicate_nat]
    _ ≤ roots.length * (graphqlMaxTotalRows / roots.length) :=
        Nat.mul_le_mul_left _ (Nat.min_le_right _ _)
    _ ≤ graphqlMaxTotalRows := Nat.mul_div_le _ _

/-- A document parses exactly as the grammar says, any other one is an error with a text, and the rows
of its roots are never more than the total. -/
theorem graphql_subset_parsed (options : GraphqlExecOptions) (doc : Str)
    (hlength : doc.length ≤ graphqlMaxDocumentBytes) :
    (∀ roots, parseThinGraphql doc = .ok roots ↔ IsDocument doc roots) ∧
      ((∀ roots, ¬ IsDocument doc roots) → ∃ e, e ≠ [] ∧ parseThinGraphql doc = .error e) ∧
      ∀ roots, parseThinGraphql doc = .ok roots →
        (roots.map fun _ => rowLimit options roots).sum ≤ graphqlMaxTotalRows := by
  refine ⟨fun roots => ?_, fun hnone => ?_, fun roots _ => rows_le_total options roots⟩
  · rw [parse_ok_iff, and_iff_right hlength]
  · rcases hparse : parseThinGraphql doc with e | roots
    · exact ⟨e, parse_error hparse, rfl⟩
    · exact absurd ((parse_ok_iff doc roots).mp hparse).2 (hnone roots)

theorem graphql_subset_parsed_query :
    let doc := "query Q \x7b # one root\n t \x7b id, name \x7d \x7d".toList
    let options : GraphqlExecOptions := ⟨none, 0, false, 1000, [], []⟩
    (∀ roots, parseThinGraphql doc = .ok roots ↔ IsDocument doc roots) ∧
      ((∀ roots, ¬ IsDocument doc roots) → ∃ e, e ≠ [] ∧ parseThinGraphql doc = .error e) ∧
      ∀ roots, parseThinGraphql doc = .ok roots →
        (roots.map fun _ => rowLimit options roots).sum ≤ graphqlMaxTotalRows :=
  graphql_subset_parsed ⟨none, 0, false, 1000, [], []⟩ _ (by decide)

end Quackapi.Graphql
