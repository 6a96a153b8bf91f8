import Mathlib.Data.List.Basic

/-! Texts cut into lexemes. A lexeme may have a name, and the keys of some names are to be written
over. Two cuts of one text come out alike, whatever is written for the keys, exactly where they have
the same lexemes with a key at the same places. -/

namespace Library
variable {α ν ι : Type*}

structure Lexeme (α ν : Type*) where
  text : List α
  name : Option ν
deriving DecidableEq

def spell (ls : List (Lexeme α ν)) : List α := ls.flatMap Lexeme.text

def Lexeme.key (key : ν → Option ι) (l : Lexeme α ν) : Option ι := l.name.bind key

/-- Write `column i` for each lexeme whose key is `i`. -/
def substitute (key : ν → Option ι) (column : ι → List α) (ls : List (Lexeme α ν)) : List α :=
  ls.flatMap fun l => ((l.key key).map column).getD l.text

/-- The lexemes with a key, each with the length of the text before it. -/
def marked (key : ν → Option ι) : Nat → List (Lexeme α ν) → List (Nat × Lexeme α ν)
  | _, [] => []
  | n, l :: ls =>
    if (l.key key).isSome then (n, l) :: marked key (n + l.text.length) ls
    else marked key (n + l.text.length) ls

section
variable {key : ν → Option ι} {column : ι → List α} {l : Lexeme α ν} {ls ls' : List (Lexeme α ν)}

@[simp] theorem spell_nil : spell ([] : List (Lexeme α ν)) = [] := rfl

@[simp] theorem spell_cons : spell (l :: ls) = l.text ++ spell ls := List.flatMap_cons

@[simp] theorem spell_append : spell (ls ++ ls') = spell ls ++ spell ls' := List.flatMap_append

theorem substitute_cons : substitute key column (l :: ls) =
    ((l.key key).map column).getD l.text ++ substitute key column ls := List.flatMap_cons

theorem substitute_append : substitute key column (ls ++ ls') =
    substitute key column ls ++ substitute key column ls' := List.flatMap_append

theorem marked_cons_none {n : Nat} (h : l.key key = none) :
    marked key n (l :: ls) = marked key (n + l.text.length) ls := by
  rw [marked, h]
  rfl

theorem marked_cons_some {n : Nat} {i : ι} (h : l.key key = some i) :
    marked key n (l :: ls) = (n, l) :: marked key (n + l.text.length) ls := by
  rw [marked, h]
  rfl

theorem substitute_of_marked_nil {n : Nat} (h : marked key n ls = []) :
    substitute key column ls = spell ls := by
  induction ls generalizing n with
  | nil => rfl
  | cons l ls ih =>
    rcases hkey : l.key key with _ | i
    · rw [marked_cons_none hkey] at h
      rw [substitute_cons, spell_cons, ih h, hkey]
      rfl
    · rw [marked_cons_some hkey] at h
      cases h

theorem exists_of_marked_cons {n p : Nat} {os : List (Nat × Lexeme α ν)}
    (h : marked key n ls = (p, l) :: os) :
    ∃ before after i, ls = before ++ l :: after ∧ marked key n before = [] ∧ l.key key = some i ∧
      p = n + (spell before).length ∧ os = marked key (p + l.text.length) after := by
  induction ls generalizing n with
  | nil => cases h
  | cons l' ls ih =>
    rcases hkey : l'.key key with _ | i
    · rw [marked_cons_none hkey] at h
      obtain ⟨before, after, i, hls, hbefore, hi, hp, hos⟩ := ih h
      refine ⟨l' :: before, after, i, by rw [hls]; rfl, ?_, hi, ?_, hos⟩
      · rw [marked_cons_none hkey, hbefore]
      · rw [hp, spell_cons, List.length_append, Nat.add_assoc]
    · rw [marked_cons_some hkey] at h
      cases h
      exact ⟨[], ls, i, rfl, rfl, hkey, rfl, rfl⟩

theorem substitute_split {before after : List (Lexeme α ν)} {n : Nat} {i : ι}
    (hbefore : marked key n before = []) (hi : l.key key = some i) :
    substitute key column (before ++ l :: after) =
      spell before ++ (column i ++ substitute key column after) := by
  rw [substitute_append, substitute_cons, substitute_of_marked_nil hbefore, hi]
  rfl

theorem substitute_eq_of_marked {n : Nat} (hspell : spell ls = spell ls')
    (h : marked key n ls = marked key n ls') :
    substitute key column ls = substitute key column ls' := by
  generalize hos : marked key n ls = os at h
  induction os generalizing n ls ls' with
  | nil => rw [substitute_of_marked_nil hos, substitute_of_marked_nil h.symm, hspell]
  | cons o os ih =>
    obtain ⟨before, after, i, rfl, hbefore, hi, hp, hafter⟩ := exists_of_marked_cons hos
    obtain ⟨before', after', i', rfl, hbefore', hi', hp', hafter'⟩ := exists_of_marked_cons h.symm
    rw [hi] at hi'
    cases hi'
    have hlength : (spell before).length = (spell before').length :=
      Nat.add_left_cancel (hp.symm.trans hp')
    rw [spell_append, spell_append, spell_cons, spell_cons] at hspell
    obtain ⟨hfirst, hrest⟩ := List.append_inj hspell hlength
    rw [substitute_split hbefore hi, substitute_split hbefore' hi, hfirst,
      ih (List.append_cancel_left hrest) hafter.symm hafter']

/-- No text of at most `N` letters can be taken for a column, nor one column for another. -/
structure Revealing (N : Nat) (column : ι → List α) : Prop where
  long : ∀ i, N < (column i).length
  apart : ∀ i j s u v, column i ++ u = s ++ (column j ++ v) → s.length ≤ N → s = [] ∧ i = j

theorem replicate_append_cons_inj {x q : α} (hne : x ≠ q) {a b : Nat} {u v : List α}
    (h : List.replicate a x ++ q :: u = List.replicate b x ++ q :: v) : a = b := by
  induction a generalizing b with
  | zero =>
    cases b with
    | zero => rfl
    | succ b => exact absurd (List.head_eq_of_cons_eq h).symm hne
  | succ a ih =>
    cases b with
    | zero => exact absurd (List.head_eq_of_cons_eq h) hne
    | succ b => exact congrArg Nat.succ (ih (List.tail_eq_of_cons_eq h))

theorem revealing_runs {x q : α} (hne : x ≠ q) (N : Nat) :
    Revealing N fun i : Nat => q :: (List.replicate (N + i) x ++ [q]) := by
  constructor
  · intro i
    rw [List.length_cons, List.length_append, List.length_replicate, List.length_singleton]
    omega
  · intro i j s u v h hlength
    cases s with
    | nil =>
      refine ⟨rfl, ?_⟩
      have hruns : List.replicate (N + i) x ++ q :: u = List.replicate (N + j) x ++ q :: v := by
        simpa using List.tail_eq_of_cons_eq h
      exact Nat.add_left_cancel (replicate_append_cons_inj hne hruns)
    | cons c s =>
      -- The second column's quote stands within the first one's run.
      have hat := congrArg (fun text => text[s.length + 1]?) h
      have hrun : s.length < N + i := by
        rw [List.length_cons] at hlength
        omega
      have hleft : (q :: (List.replicate (N + i) x ++ [q]) ++ u)[s.length + 1]? = some x := by
        rw [List.cons_append, List.getElem?_cons_succ, List.append_assoc,
          List.getElem?_append_left (by rwa [List.length_replicate]),
          List.getElem?_replicate_of_lt hrun]
      have hright : (c :: s ++ (q :: (List.replicate (N + j) x ++ [q]) ++ v))[s.length + 1]? =
          some q := by
        rw [List.cons_append, List.getElem?_cons_succ, List.getElem?_append_right (Nat.le_refl _),
          Nat.sub_self]
        rfl
      rw [hleft, hright] at hat
      exact absurd (Option.some_inj.mp hat) hne

theorem marked_eq_of_substitute {N n : Nat} (hcolumn : Revealing N column)
    (hspell : spell ls = spell ls') (hlength : (spell ls).length ≤ N)
    (hsame : ∀ p m m', (p, m) ∈ marked key n ls → (p, m') ∈ marked key n ls' →
      m.key key = m'.key key → m = m')
    (h : substitute key column ls = substitute key column ls') :
    marked key n ls = marked key n ls' := by
  generalize hos : marked key n ls = os at hsame
  generalize hos' : marked key n ls' = os' at hsame
  induction os generalizing n ls ls' os' with
  | nil =>
    cases os' with
    | nil => rfl
    | cons o' os' =>
      obtain ⟨before', after', i', rfl, hbefore', hi', -, -⟩ := exists_of_marked_cons hos'
      rw [substitute_of_marked_nil hos, substitute_split hbefore' hi'] at h
      have hlong := hcolumn.long i'
      rw [h, List.length_append, List.length_append] at hlength
      omega
  | cons o os ih =>
    obtain ⟨p, m⟩ := o
    obtain ⟨before, after, i, rfl, hbefore, hi, hp, hafter⟩ := exists_of_marked_cons hos
    cases os' with
    | nil =>
      rw [substitute_split hbefore hi, substitute_of_marked_nil hos'] at h
      have hlong := hcolumn.long i
      rw [hspell, ← h, List.length_append, List.length_append] at hlength
      omega
    | cons o' os' =>
      obtain ⟨p', m'⟩ := o'
      obtain ⟨before', after', i', rfl, hbefore', hi', hp', hafter'⟩ := exists_of_marked_cons hos'
      rw [substitute_split hbefore hi, substitute_split hbefore' hi'] at h
      have hle : (spell before).length ≤ N := by
        rw [spell_append, List.length_append] at hlength
        omega
      have hle' : (spell before').length ≤ N := by
        rw [hspell, spell_append, List.length_append] at hlength
        omega
      obtain ⟨hfirst, rfl⟩ : spell before = spell before' ∧ i = i' := by
        rcases List.append_eq_append_iff.mp h with ⟨s, hs, hrest⟩ | ⟨s, hs, hrest⟩
        · have hslength : s.length ≤ N := by
            rw [hs, List.length_append] at hle'
            omega
          obtain ⟨rfl, hij⟩ := hcolumn.apart i i' s _ _ hrest hslength
          exact ⟨by rw [hs, List.append_nil], hij⟩
        · have hslength : s.length ≤ N := by
            rw [hs, List.length_append] at hle
            omega
          obtain ⟨rfl, hij⟩ := hcolumn.apart i' i s _ _ hrest hslength
          exact ⟨by rw [hs, List.append_nil], hij.symm⟩
      have hpp : p = p' := by rw [hp, hp', hfirst]
      subst hpp
      have hmm : m = m' :=
        hsame p m m' List.mem_cons_self List.mem_cons_self (hi.trans hi'.symm)
      subst hmm
      rw [spell_append, spell_append, spell_cons, spell_cons, hfirst] at hspell
      have hrest := List.append_cancel_left (List.append_cancel_left hspell)
      have hresult : substitute key column after = substitute key column after' := by
        rw [hfirst] at h
        exact List.append_cancel_left (List.append_cancel_left h)
      have hlengthAfter : (spell after).length ≤ N := by
        rw [spell_append, spell_cons, List.length_append, List.length_append] at hlength
        omega
      rw [ih hrest hlengthAfter hresult hafter.symm os' hafter'.symm fun p m m' hm hm' =>
        hsame p m m' (List.mem_cons_of_mem _ hm) (List.mem_cons_of_mem _ hm')]

end

/-- Lexemes one after the other; `next c s` is the one that begins with `c`, before `s`. -/
def lex (next : α → List α → Lexeme α ν) : Nat → List α → List (Lexeme α ν)
  | 0, _ => []
  | _, [] => []
  | fuel + 1, c :: s => next c s :: lex next fuel ((c :: s).drop (next c s).text.length)

/-- A lexeme is a nonempty part of the text it begins. -/
def Advances (next : α → List α → Lexeme α ν) : Prop :=
  ∀ c s, (next c s).text ≠ [] ∧ (next c s).text <+: c :: s

section
variable {next next' : α → List α → Lexeme α ν}

theorem spell_lex (hnext : Advances next) {fuel : Nat} {s : List α} (hfuel : s.length ≤ fuel) :
    spell (lex next fuel s) = s := by
  induction fuel generalizing s with
  | zero => exact (List.length_eq_zero_iff.mp (Nat.le_zero.mp hfuel)).symm
  | succ fuel ih =>
    cases s with
    | nil => rfl
    | cons c s =>
      obtain ⟨hne, hpre⟩ := hnext c s
      have hpos := List.length_pos_iff.mpr hne
      have hrest : ((c :: s).drop (next c s).text.length).length ≤ fuel := by
        rw [List.length_drop, List.length_cons]
        rw [List.length_cons] at hfuel
        omega
      rw [lex, spell_cons, ih hrest]
      exact List.prefix_iff_eq_append.mp hpre

theorem eq_next_of_mem_marked {key : ν → Option ι} {fuel n p : Nat} {s : List α} {l : Lexeme α ν}
    (h : (p, l) ∈ marked key n (lex next fuel s)) :
    n ≤ p ∧ (l.key key).isSome ∧ ∃ c t, s.drop (p - n) = c :: t ∧ l = next c t := by
  induction fuel generalizing n s with
  | zero => cases h
  | succ fuel ih =>
    cases s with
    | nil => cases h
    | cons c s =>
      have hlater : (p, l) ∈ marked key (n + (next c s).text.length)
          (lex next fuel ((c :: s).drop (next c s).text.length)) →
          n ≤ p ∧ (l.key key).isSome ∧ ∃ c' t, (c :: s).drop (p - n) = c' :: t ∧ l = next c' t := by
        intro hmem
        obtain ⟨hle, hkey, c', t, hdrop, hl⟩ := ih hmem
        refine ⟨by omega, hkey, c', t, ?_, hl⟩
        rw [List.drop_drop] at hdrop
        rw [← hdrop]
        congr 1
        omega
      rw [lex] at h
      rcases hkey : (next c s).key key with _ | i
      · rw [marked_cons_none hkey] at h
        exact hlater h
      · rw [marked_cons_some hkey] at h
        rcases List.mem_cons.mp h with hhead | htail
        · cases hhead
          refine ⟨Nat.le_refl _, by rw [hkey]; rfl, c, s, ?_, rfl⟩
          rw [Nat.sub_self]
          rfl
        · exact hlater htail

/-- Two lexers that agree on what begins at a place if it has the same key for both: over one text
they come out alike for revealing columns only with the same lexemes with a key. -/
theorem marked_lex_eq {key : ν → Option ι} {column : ι → List α} {s : List α}
    (hnext : Advances next) (hnext' : Advances next')
    (hsame : ∀ c t i, (next c t).key key = some i → (next' c t).key key = some i →
      next c t = next' c t)
    (hcolumn : Revealing s.length column)
    (h : substitute key column (lex next s.length s) =
      substitute key column (lex next' s.length s)) :
    marked key 0 (lex next s.length s) = marked key 0 (lex next' s.length s) := by
  have hspell : spell (lex next s.length s) = s := spell_lex hnext (Nat.le_refl _)
  have hspell' : spell (lex next' s.length s) = s := spell_lex hnext' (Nat.le_refl _)
  have hlength : (spell (lex next s.length s)).length ≤ s.length :=
    Nat.le_of_eq (congrArg List.length hspell)
  apply marked_eq_of_substitute hcolumn (hspell.trans hspell'.symm) hlength ?_ h
  intro p m m' hm hm' hkey
  obtain ⟨-, hsome, c, t, hdrop, rfl⟩ := eq_next_of_mem_marked hm
  obtain ⟨-, -, c', t', hdrop', rfl⟩ := eq_next_of_mem_marked hm'
  obtain ⟨i, hi⟩ := Option.isSome_iff_exists.mp hsome
  obtain ⟨rfl, rfl⟩ := List.cons_eq_cons.mp (hdrop.symm.trans hdrop')
  exact hsame c t i hi (hkey.symm.trans hi)

theorem substitute_lex_eq {key : ν → Option ι} {column : ι → List α} {s : List α}
    (hnext : Advances next) (hnext' : Advances next')
    (h : marked key 0 (lex next s.length s) = marked key 0 (lex next' s.length s)) :
    substitute key column (lex next s.length s) =
      substitute key column (lex next' s.length s) :=
  substitute_eq_of_marked ((spell_lex hnext (Nat.le_refl _)).trans
    (spell_lex hnext' (Nat.le_refl _)).symm) h

end

/-- What stands where, said of the text alone. `Boundary prior s`: a lexeme begins between `prior` and
`s`; `Stands prior s l`: so does the lexeme `l`, and it has a key. -/
structure Describes (key : ν → Option ι) (next : α → List α → Lexeme α ν)
    (Boundary : List α → List α → Prop) (Stands : List α → List α → Lexeme α ν → Prop) : Prop where
  nil : ∀ prior l, ¬ Stands prior [] l
  start : ∀ prior c s l, Boundary prior (c :: s) → (l.key key).isSome →
    (Stands prior (c :: s) l ↔ l = next c s)
  inside : ∀ prior c s first d last after l, Boundary prior (c :: s) →
    (next c s).text = first ++ d :: last → c :: s = (next c s).text ++ after → first ≠ [] →
      ¬ Stands (prior ++ first) (d :: (last ++ after)) l
  step : ∀ prior c s d after, Boundary prior (c :: s) → c :: s = (next c s).text ++ d :: after →
    Boundary (prior ++ (next c s).text) (d :: after)

section
variable {key : ν → Option ι} {next : α → List α → Lexeme α ν}
  {Boundary : List α → List α → Prop} {Stands : List α → List α → Lexeme α ν → Prop}

theorem Describes.nil_iff (h : Describes key next Boundary Stands) {p : Nat} {prior : List α}
    {l : Lexeme α ν} :
    (p, l) ∈ ([] : List (Nat × Lexeme α ν)) ↔ ∃ before rest, [] = before ++ rest ∧
      p = (prior ++ before).length ∧ Stands (prior ++ before) rest l := by
  constructor
  · intro hmem
    cases hmem
  · rintro ⟨before, rest, hs, -, hstands⟩
    obtain ⟨rfl, rfl⟩ := List.append_eq_nil_iff.mp hs.symm
    exact absurd hstands (h.nil _ _)

/-- The first lexeme, where it has a key, or one of those after it. -/
theorem mem_marked_lex_cons {fuel p n : Nat} {c : α} {s after : List α} {l : Lexeme α ν}
    (hafter : (next c s).text ++ after = c :: s) (hkey : (l.key key).isSome) :
    (p, l) ∈ marked key n (lex next (fuel + 1) (c :: s)) ↔ (p = n ∧ l = next c s) ∨
      (p, l) ∈ marked key (n + (next c s).text.length) (lex next fuel after) := by
  have hrest : (c :: s).drop (next c s).text.length = after := by
    rw [← hafter, List.drop_left]
  rw [lex, hrest]
  rcases hnone : (next c s).key key with _ | i
  · rw [marked_cons_none hnone]
    refine ⟨Or.inr, ?_⟩
    rintro (⟨-, rfl⟩ | hmem)
    · rw [hnone] at hkey
      cases hkey
    · exact hmem
  · rw [marked_cons_some hnone, List.mem_cons, Prod.mk.injEq]

theorem Describes.mem_marked_iff (h : Describes key next Boundary Stands) (hnext : Advances next)
    {fuel p : Nat} {prior s : List α} {l : Lexeme α ν} (hfuel : s.length ≤ fuel)
    (hboundary : s ≠ [] → Boundary prior s) (hkey : (l.key key).isSome) :
    (p, l) ∈ marked key prior.length (lex next fuel s) ↔
      ∃ before rest, s = before ++ rest ∧ p = (prior ++ before).length ∧
        Stands (prior ++ before) rest l := by
  induction fuel generalizing prior s with
  | zero =>
    rw [List.length_eq_zero_iff.mp (Nat.le_zero.mp hfuel)]
    exact h.nil_iff
  | succ fuel ih =>
    cases s with
    | nil => exact h.nil_iff
    | cons c s =>
      obtain ⟨hne, after, hafter⟩ := hnext c s
      have hb := hboundary (List.cons_ne_nil c s)
      have hlength : after.length ≤ fuel := by
        have hpos := List.length_pos_iff.mpr hne
        have hsum := congrArg List.length hafter
        rw [List.length_append, List.length_cons] at hsum
        rw [List.length_cons] at hfuel
        omega
      have hlater := @ih (prior ++ (next c s).text) after hlength fun hafterNe => by
        obtain ⟨d, after', rfl⟩ := List.exists_cons_of_ne_nil hafterNe
        exact h.step prior c s d after' hb hafter.symm
      rw [mem_marked_lex_cons hafter hkey, ← List.length_append, hlater]
      constructor
      · rintro (⟨rfl, hl⟩ | ⟨before, rest, rfl, hp, hstands⟩)
        · refine ⟨[], c :: s, rfl, by rw [List.append_nil], ?_⟩
          rw [List.append_nil]
          exact (h.start prior c s l hb hkey).mpr hl
        · rw [List.append_assoc] at hp hstands
          exact ⟨_, rest, by rw [List.append_assoc]; exact hafter.symm, hp, hstands⟩
      · rintro ⟨before, rest, hs, hp, hstands⟩
        -- The place is the lexeme's own, within it or after it.
        rw [← hafter] at hs
        rcases List.append_eq_append_iff.mp hs with ⟨more, rfl, hmore⟩ | ⟨last, htext, rfl⟩
        · refine Or.inr ⟨more, rest, hmore, ?_, ?_⟩
          · rw [hp, List.append_assoc]
          · rwa [List.append_assoc]
        · cases last with
          | nil =>
            rw [List.append_nil] at htext
            refine Or.inr ⟨[], after, rfl, ?_, ?_⟩
            · rw [hp, htext, List.append_nil]
            · rw [List.append_nil, htext]
              exact hstands
          | cons d last =>
            cases before with
            | nil =>
              rw [List.append_nil] at hp hstands
              rw [← htext.trans (List.nil_append _), hafter] at hstands
              exact Or.inl ⟨hp, (h.start prior c s l hb hkey).mp hstands⟩
            | cons b before =>
              exact absurd hstands
                (h.inside prior c s _ d last after l hb htext hafter.symm (List.cons_ne_nil b before))

theorem le_of_mem_marked {n p : Nat} {l : Lexeme α ν} {ls : List (Lexeme α ν)}
    (h : (p, l) ∈ marked key n ls) : n ≤ p := by
  induction ls generalizing n with
  | nil => cases h
  | cons m ls ih =>
    rcases hkey : m.key key with _ | i
    · rw [marked_cons_none hkey] at h
      exact Nat.le_of_add_right_le (ih h)
    · rw [marked_cons_some hkey, List.mem_cons, Prod.mk.injEq] at h
      rcases h with ⟨rfl, -⟩ | h
      · exact Nat.le_refl _
      · exact Nat.le_of_add_right_le (ih h)

theorem pairwise_marked {n : Nat} {ls : List (Lexeme α ν)} (h : ∀ l ∈ ls, l.text ≠ []) :
    (marked key n ls).Pairwise fun a b => a.1 < b.1 := by
  induction ls generalizing n with
  | nil => exact List.Pairwise.nil
  | cons l ls ih =>
    obtain ⟨hl, hls⟩ := List.forall_mem_cons.mp h
    rcases hkey : l.key key with _ | i
    · rw [marked_cons_none hkey]
      exact ih hls
    · rw [marked_cons_some hkey]
      refine List.pairwise_cons.mpr ⟨?_, ih hls⟩
      rintro ⟨p, m⟩ hmem
      have hle := le_of_mem_marked hmem
      have hpos := List.length_pos_iff.mpr hl
      dsimp only
      omega

theorem text_ne_nil_of_mem_lex (hnext : Advances next) {fuel : Nat} {s : List α} {l : Lexeme α ν}
    (h : l ∈ lex next fuel s) : l.text ≠ [] := by
  induction fuel generalizing s with
  | zero => cases h
  | succ fuel ih =>
    cases s with
    | nil => cases h
    | cons c s =>
      rcases List.mem_cons.mp h with rfl | hmem
      · exact (hnext c s).1
      · exact ih hmem

theorem marked_lex_ext {next' : α → List α → Lexeme α ν} (hnext : Advances next)
    (hnext' : Advances next') {fuel fuel' : Nat} {s : List α}
    (h : ∀ p l, (p, l) ∈ marked key 0 (lex next fuel s) ↔ (p, l) ∈ marked key 0 (lex next' fuel' s)) :
    marked key 0 (lex next fuel s) = marked key 0 (lex next' fuel' s) := by
  have hsorted : (marked key 0 (lex next fuel s)).Pairwise fun a b => a.1 < b.1 :=
    pairwise_marked fun l hl => text_ne_nil_of_mem_lex hnext hl
  have hsorted' : (marked key 0 (lex next' fuel' s)).Pairwise fun a b => a.1 < b.1 :=
    pairwise_marked fun l hl => text_ne_nil_of_mem_lex hnext' hl
  have hperm : (marked key 0 (lex next fuel s)).Perm (marked key 0 (lex next' fuel' s)) := by
    refine (List.perm_ext_iff_of_nodup ?_ ?_).mpr fun m => h m.1 m.2
    · exact hsorted.imp fun hlt heq => absurd (heq ▸ hlt) (Nat.lt_irrefl _)
    · exact hsorted'.imp fun hlt heq => absurd (heq ▸ hlt) (Nat.lt_irrefl _)
  exact hperm.eq_of_pairwise (fun a b _ _ hab hba => absurd hab (Nat.lt_asymm hba)) hsorted hsorted'

end

end Library
