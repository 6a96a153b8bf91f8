import Quackapi.Util.Str

/-! UTF-8: which byte strings are text, how many code points a text has, and what a cut leaves of it. -/

namespace Quackapi

def isContinuation (c : Char) : Bool := decide (0x80 ≤ c.toNat) && decide (c.toNat ≤ 0xBF)

/-- A lead byte and the continuation of a two-byte code point, none of them overlong. -/
def isPair (a b : Char) : Bool :=
  decide (0xC2 ≤ a.toNat) && decide (a.toNat ≤ 0xDF) && isContinuation b

def isTriple (a b c : Char) : Bool :=
  ((decide (a.toNat = 0xE0) && decide (0xA0 ≤ b.toNat) && decide (b.toNat ≤ 0xBF)) ||
    (decide (a.toNat = 0xED) && decide (0x80 ≤ b.toNat) && decide (b.toNat ≤ 0x9F)) ||
    (decide (0xE1 ≤ a.toNat) && decide (a.toNat ≤ 0xEF) && decide (a.toNat ≠ 0xED) &&
      isContinuation b)) && isContinuation c

def isQuad (a b c d : Char) : Bool :=
  ((decide (a.toNat = 0xF0) && decide (0x90 ≤ b.toNat) && decide (b.toNat ≤ 0xBF)) ||
    (decide (a.toNat = 0xF4) && decide (0x80 ≤ b.toNat) && decide (b.toNat ≤ 0x8F)) ||
    (decide (0xF1 ≤ a.toNat) && decide (a.toNat ≤ 0xF3) && isContinuation b)) &&
    isContinuation c && isContinuation d

/-- The number of code points of a text, or nothing for a string that is no UTF-8. -/
def codePoints : Str → Option Nat
  | [] => some 0
  | a :: s =>
    if a.toNat < 0x80 then (codePoints s).map (· + 1)
    else
      match s with
      | [] => none
      | b :: s =>
        if isPair a b then (codePoints s).map (· + 1)
        else
          match s with
          | [] => none
          | c :: s =>
            if isTriple a b c then (codePoints s).map (· + 1)
            else
              match s with
              | [] => none
              | d :: s => if isQuad a b c d then (codePoints s).map (· + 1) else none

def isUtf8 (s : Str) : Bool := (codePoints s).isSome

def characterCount (s : Str) : Nat := s.countP fun c => !isContinuation c

theorem characterCount_lead {c : Char} {s : Str} (h : isContinuation c = false) :
    characterCount (c :: s) = characterCount s + 1 :=
  List.countP_cons_of_pos (by simp [h])

theorem characterCount_continuation {c : Char} {s : Str} (h : isContinuation c = true) :
    characterCount (c :: s) = characterCount s :=
  List.countP_cons_of_neg (by simp [h])

theorem isPair_spec {a b : Char} (h : isPair a b = true) :
    isContinuation a = false ∧ isContinuation b = true := by
  simp only [isPair, Bool.and_eq_true, decide_eq_true_eq] at h
  obtain ⟨⟨ha, _⟩, hb⟩ := h
  refine ⟨?_, hb⟩
  simp only [isContinuation, Bool.and_eq_false_iff, decide_eq_false_iff_not]
  omega

theorem isTriple_spec {a b c : Char} (h : isTriple a b c = true) :
    isContinuation a = false ∧ isContinuation b = true ∧ isContinuation c = true := by
  simp only [isTriple, isContinuation, Bool.and_eq_true, Bool.or_eq_true, Bool.and_eq_false_iff,
    decide_eq_true_eq, decide_eq_false_iff_not] at h ⊢
  omega

theorem isQuad_spec {a b c d : Char} (h : isQuad a b c d = true) :
    isContinuation a = false ∧ isContinuation b = true ∧ isContinuation c = true ∧
      isContinuation d = true := by
  simp only [isQuad, isContinuation, Bool.and_eq_true, Bool.or_eq_true, Bool.and_eq_false_iff,
    decide_eq_true_eq, decide_eq_false_iff_not] at h ⊢
  omega

section
variable {a b c d : Char} {s : Str}

theorem codePoints_ascii (ha : a.toNat < 0x80) : codePoints (a :: s) = (codePoints s).map (· + 1) :=
  (codePoints.eq_def _).trans (if_pos ha)

theorem codePoints_pair (ha : ¬ a.toNat < 0x80) (h : isPair a b = true) :
    codePoints (a :: b :: s) = (codePoints s).map (· + 1) :=
  (codePoints.eq_def _).trans <| (if_neg ha).trans (if_pos h)

theorem codePoints_triple (ha : ¬ a.toNat < 0x80) (hb : ¬ isPair a b = true)
    (h : isTriple a b c = true) : codePoints (a :: b :: c :: s) = (codePoints s).map (· + 1) :=
  (codePoints.eq_def _).trans <| (if_neg ha).trans ((if_neg hb).trans (if_pos h))

theorem codePoints_rest (ha : ¬ a.toNat < 0x80) (hb : ¬ isPair a b = true)
    (hc : ¬ isTriple a b c = true) :
    codePoints (a :: b :: c :: d :: s) =
      if isQuad a b c d then (codePoints s).map (· + 1) else none :=
  (if_neg ha).trans ((if_neg hb).trans (if_neg hc))

theorem codePoints_short (ha : ¬ a.toNat < 0x80) : codePoints [a] = none := if_neg ha

theorem codePoints_short₂ (ha : ¬ a.toNat < 0x80) (hb : ¬ isPair a b = true) :
    codePoints [a, b] = none :=
  (if_neg ha).trans (if_neg hb)

theorem codePoints_short₃ (ha : ¬ a.toNat < 0x80) (hb : ¬ isPair a b = true)
    (hc : ¬ isTriple a b c = true) : codePoints [a, b, c] = none :=
  (if_neg ha).trans ((if_neg hb).trans (if_neg hc))

end

theorem codePoints_quad {a b c d : Char} {s : Str} (ha : ¬ a.toNat < 0x80) (hb : ¬ isPair a b = true)
    (hc : ¬ isTriple a b c = true) (hd : isQuad a b c d = true) :
    codePoints (a :: b :: c :: d :: s) = (codePoints s).map (· + 1) :=
  (codePoints_rest ha hb hc).trans (if_pos hd)

theorem codePoints_induction {motive : Str → Prop} (nil : motive [])
    (ascii : ∀ a s, a.toNat < 0x80 → motive s → motive (a :: s))
    (short : ∀ a, ¬ a.toNat < 0x80 → motive [a])
    (pair : ∀ a b s, ¬ a.toNat < 0x80 → isPair a b = true → motive s → motive (a :: b :: s))
    (short₂ : ∀ a b, ¬ a.toNat < 0x80 → ¬ isPair a b = true → motive [a, b])
    (triple : ∀ a b c s, ¬ a.toNat < 0x80 → ¬ isPair a b = true → isTriple a b c = true →
      motive s → motive (a :: b :: c :: s))
    (short₃ : ∀ a b c, ¬ a.toNat < 0x80 → ¬ isPair a b = true → ¬ isTriple a b c = true →
      motive [a, b, c])
    (quad : ∀ a b c d s, ¬ a.toNat < 0x80 → ¬ isPair a b = true → ¬ isTriple a b c = true →
      isQuad a b c d = true → motive s → motive (a :: b :: c :: d :: s))
    (broken : ∀ a b c d s, ¬ a.toNat < 0x80 → ¬ isPair a b = true → ¬ isTriple a b c = true →
      ¬ isQuad a b c d = true → motive (a :: b :: c :: d :: s))
    (s : Str) : motive s := by
  fun_induction codePoints s with
  | case1 => exact nil
  | case2 a s ha ih => exact ascii a s ha ih
  | case3 a ha => exact short a ha
  | case4 a ha b s hp ih => exact pair a b s ha hp ih
  | case5 a ha b hp => exact short₂ a b ha hp
  | case6 a ha b hp c s ht ih => exact triple a b c s ha hp ht ih
  | case7 a ha b hp c ht => exact short₃ a b c ha hp ht
  | case8 a ha b hp c ht d s hq ih => exact quad a b c d s ha hp ht hq ih
  | case9 a ha b hp c ht d s hq => exact broken a b c d s ha hp ht hq

theorem characterCount_eq {s : Str} {n : Nat} (h : codePoints s = some n) :
    characterCount s = n := by
  induction s using codePoints_induction generalizing n with
  | nil =>
    cases h
    rfl
  | ascii a s ha ih =>
    rw [codePoints_ascii ha] at h
    obtain ⟨m, hm, rfl⟩ := Option.map_eq_some_iff.mp h
    have hlead : isContinuation a = false := by
      simp only [isContinuation, Bool.and_eq_false_iff, decide_eq_false_iff_not]
      omega
    rw [characterCount_lead hlead, ih hm]
  | short a ha => cases (codePoints_short ha).symm.trans h
  | pair a b s ha hp ih =>
    rw [codePoints_pair ha hp] at h
    obtain ⟨m, hm, rfl⟩ := Option.map_eq_some_iff.mp h
    obtain ⟨hlead, hb⟩ := isPair_spec hp
    rw [characterCount_lead hlead, characterCount_continuation hb, ih hm]
  | short₂ a b ha hp => cases (codePoints_short₂ ha hp).symm.trans h
  | triple a b c s ha hp ht ih =>
    rw [codePoints_triple ha hp ht] at h
    obtain ⟨m, hm, rfl⟩ := Option.map_eq_some_iff.mp h
    obtain ⟨hlead, hb, hc⟩ := isTriple_spec ht
    rw [characterCount_lead hlead, characterCount_continuation hb, characterCount_continuation hc,
      ih hm]
  | short₃ a b c ha hp ht => cases (codePoints_short₃ ha hp ht).symm.trans h
  | quad a b c d s ha hp ht hq ih =>
    rw [codePoints_quad ha hp ht hq] at h
    obtain ⟨m, hm, rfl⟩ := Option.map_eq_some_iff.mp h
    obtain ⟨hlead, hb, hc, hd⟩ := isQuad_spec hq
    rw [characterCount_lead hlead, characterCount_continuation hb, characterCount_continuation hc,
      characterCount_continuation hd, ih hm]
  | broken a b c d s ha hp ht hq =>
    rw [codePoints_rest ha hp ht, if_neg hq] at h
    cases h

theorem codePoints_broken {a b : Char} (ha : ¬ a.toNat < 0x80) (hb : isContinuation b = false)
    (s : Str) : codePoints (a :: b :: s) = none := by
  have hpair : ¬ isPair a b = true := fun h => by
    rw [(isPair_spec h).2] at hb
    cases hb
  rcases s with _ | ⟨c, s⟩
  · exact codePoints_short₂ ha hpair
  · have htriple : ¬ isTriple a b c = true := fun h => by
      rw [(isTriple_spec h).2.1] at hb
      cases hb
    rcases s with _ | ⟨d, s⟩
    · exact codePoints_short₃ ha hpair htriple
    · have hquad : ¬ isQuad a b c d = true := fun h => by
        rw [(isQuad_spec h).2.1] at hb
        cases hb
      rw [codePoints_rest ha hpair htriple, if_neg hquad]

theorem codePoints_append_ascii {c : Char} (hc : c.toNat < 0x80) (s t : Str) :
    codePoints (s ++ c :: t) = (codePoints s).bind fun n => (codePoints t).map (n + 1 + ·) := by
  have hcont : isContinuation c = false := by
    simp only [isContinuation, Bool.and_eq_false_iff, decide_eq_false_iff_not]
    omega
  -- one more code point before both
  have hstep : ∀ m : Option Nat,
      (m.bind fun n => (codePoints t).map (n + 1 + ·)).map (· + 1) =
        (m.map (· + 1)).bind fun n => (codePoints t).map (n + 1 + ·) := by
    intro m
    rcases m with _ | n
    · rfl
    · simp only [Option.bind_some, Option.map_some, Option.map_map]
      congr 1
      funext k
      simp only [Function.comp_apply]
      omega
  induction s using codePoints_induction with
  | nil =>
    rw [List.nil_append, codePoints_ascii hc]
    change (codePoints t).map (· + 1) = (codePoints t).map (0 + 1 + ·)
    simp only [Nat.zero_add, Nat.add_comm]
  | ascii a s ha ih =>
    rw [List.cons_append, codePoints_ascii ha, codePoints_ascii ha, ih, hstep]
  | short a ha =>
    rw [codePoints_short ha]
    exact codePoints_broken ha hcont t
  | pair a b s ha hp ih =>
    rw [List.cons_append, List.cons_append, codePoints_pair ha hp, codePoints_pair ha hp, ih, hstep]
  | short₂ a b ha hp =>
    have htriple : ¬ isTriple a b c = true := fun h => by
      rw [(isTriple_spec h).2.2] at hcont
      cases hcont
    rw [codePoints_short₂ ha hp]
    rcases t with _ | ⟨d, t⟩
    · exact codePoints_short₃ ha hp htriple
    · have hquad : ¬ isQuad a b c d = true := fun h => by
        rw [(isQuad_spec h).2.2.1] at hcont
        cases hcont
      exact (codePoints_rest ha hp htriple).trans (if_neg hquad)
  | triple a b c' s ha hp ht ih =>
    rw [List.cons_append, List.cons_append, List.cons_append, codePoints_triple ha hp ht,
      codePoints_triple ha hp ht, ih, hstep]
  | short₃ a b c' ha hp ht =>
    have hquad : ¬ isQuad a b c' c = true := fun h => by
      rw [(isQuad_spec h).2.2.2] at hcont
      cases hcont
    rw [codePoints_short₃ ha hp ht]
    exact (codePoints_rest ha hp ht).trans (if_neg hquad)
  | quad a b c' d s ha hp ht hq ih =>
    rw [List.cons_append, List.cons_append, List.cons_append, List.cons_append,
      codePoints_quad ha hp ht hq, codePoints_quad ha hp ht hq, ih, hstep]
  | broken a b c' d s ha hp ht hq =>
    rw [codePoints_rest ha hp ht, if_neg hq]
    exact (codePoints_rest ha hp ht).trans (if_neg hq)

theorem isUtf8_append_ascii {c : Char} (hc : c.toNat < 0x80) (s t : Str) :
    isUtf8 (s ++ c :: t) = true ↔ isUtf8 s = true ∧ isUtf8 t = true := by
  rw [isUtf8, isUtf8, isUtf8, codePoints_append_ascii hc]
  cases codePoints s <;> cases codePoints t <;> simp

theorem isUtf8_ascii {s : Str} (h : ∀ c ∈ s, c.toNat < 0x80) : isUtf8 s = true := by
  induction s with
  | nil => rfl
  | cons c s ih =>
    rw [isUtf8, codePoints_ascii (h c List.mem_cons_self), Option.isSome_map]
    exact ih fun d hd => h d (List.mem_cons_of_mem c hd)

theorem forall_ascii {s : Str} (h : (s.all fun c => decide (c.toNat < 0x80)) = true) :
    ∀ c ∈ s, c.toNat < 0x80 :=
  fun c hc => of_decide_eq_true (List.all_eq_true.mp h c hc)

theorem isUtf8_of_all_ascii {s : Str} (h : (s.all fun c => decide (c.toNat < 0x80)) = true) :
    isUtf8 s = true :=
  isUtf8_ascii (forall_ascii h)

theorem isUtf8_take {s : Str} (h : isUtf8 s = true) (n : Nat) :
    isUtf8 (s.take n) = true ↔ ∀ c, s[n]? = some c → isContinuation c = false := by
  have hzero : ∀ {a : Char} {t : Str}, isContinuation a = false →
      (isUtf8 ((a :: t).take 0) = true ↔ ∀ c, (a :: t)[0]? = some c → isContinuation c = false) := by
    intro a t ha
    refine iff_of_true rfl fun c hc => ?_
    rw [← Option.some.inj hc]
    exact ha
  have hinside : ∀ {k : Nat} {s : Str} {b : Char}, isContinuation b = true → s[k]? = some b →
      codePoints (s.take k) = none →
      (isUtf8 (s.take k) = true ↔ ∀ c, s[k]? = some c → isContinuation c = false) := by
    intro k s b hb hk hnone
    refine iff_of_false (fun hu => ?_) fun hall => ?_
    · rw [isUtf8, hnone] at hu
      cases hu
    · rw [hall b hk] at hb
      cases hb
  induction s using codePoints_induction generalizing n with
  | nil => simp [isUtf8, codePoints]
  | ascii a s ha ih =>
    cases n with
    | zero =>
      refine hzero ?_
      simp only [isContinuation, Bool.and_eq_false_iff, decide_eq_false_iff_not]
      omega
    | succ n =>
      rw [isUtf8, codePoints_ascii ha, Option.isSome_map] at h
      rw [List.take_succ_cons, isUtf8, codePoints_ascii ha, Option.isSome_map]
      exact ih h n
  | short a ha =>
    rw [isUtf8, codePoints_short ha] at h
    cases h
  | pair a b s ha hp ih =>
    obtain ⟨hlead, hb⟩ := isPair_spec hp
    match n with
    | 0 => exact hzero hlead
    | 1 => exact hinside hb rfl (codePoints_short ha)
    | n + 2 =>
      rw [isUtf8, codePoints_pair ha hp, Option.isSome_map] at h
      rw [List.take_succ_cons, List.take_succ_cons, isUtf8, codePoints_pair ha hp, Option.isSome_map]
      exact ih h n
  | short₂ a b ha hp =>
    rw [isUtf8, codePoints_short₂ ha hp] at h
    cases h
  | triple a b c s ha hp ht ih =>
    obtain ⟨hlead, hb, hc⟩ := isTriple_spec ht
    match n with
    | 0 => exact hzero hlead
    | 1 => exact hinside hb rfl (codePoints_short ha)
    | 2 => exact hinside hc rfl (codePoints_short₂ ha hp)
    | n + 3 =>
      rw [isUtf8, codePoints_triple ha hp ht, Option.isSome_map] at h
      rw [List.take_succ_cons, List.take_succ_cons, List.take_succ_cons, isUtf8,
        codePoints_triple ha hp ht, Option.isSome_map]
      exact ih h n
  | short₃ a b c ha hp ht =>
    rw [isUtf8, codePoints_short₃ ha hp ht] at h
    cases h
  | quad a b c d s ha hp ht hq ih =>
    obtain ⟨hlead, hb, hc, hd⟩ := isQuad_spec hq
    match n with
    | 0 => exact hzero hlead
    | 1 => exact hinside hb rfl (codePoints_short ha)
    | 2 => exact hinside hc rfl (codePoints_short₂ ha hp)
    | 3 => exact hinside hd rfl (codePoints_short₃ ha hp ht)
    | n + 4 =>
      rw [isUtf8, codePoints_quad ha hp ht hq, Option.isSome_map] at h
      rw [List.take_succ_cons, List.take_succ_cons, List.take_succ_cons, List.take_succ_cons, isUtf8,
        codePoints_quad ha hp ht hq, Option.isSome_map]
      exact ih h n
  | broken a b c d s ha hp ht hq =>
    rw [isUtf8, codePoints_rest ha hp ht, if_neg hq] at h
    cases h

/-- Whole code points fill the first `n` bytes, or all the bytes there are when they are fewer: none of
them is broken and the cut goes through none. -/
def TextUpTo (n : Nat) (s : Str) : Prop :=
  ∃ whole rest, s = whole ++ rest ∧ isUtf8 whole = true ∧
    (whole.length = n ∨ (rest = [] ∧ whole.length < n))

theorem textUpTo_iff {n : Nat} {s : Str} : TextUpTo n s ↔ isUtf8 (s.take n) = true := by
  constructor
  · rintro ⟨whole, rest, rfl, hwhole, hlength | ⟨rfl, hshort⟩⟩
    · rwa [← hlength, List.take_left]
    · rwa [List.append_nil, List.take_of_length_le (Nat.le_of_lt hshort)]
  · intro h
    refine ⟨s.take n, s.drop n, (List.take_append_drop n s).symm, h, ?_⟩
    rcases Nat.lt_or_ge s.length n with hgt | hle
    · refine .inr ⟨List.drop_eq_nil_of_le (Nat.le_of_lt hgt), ?_⟩
      rwa [List.take_of_length_le (Nat.le_of_lt hgt)]
    · exact .inl (List.length_take_of_le hle)

theorem textUpTo_of_isUtf8 {n : Nat} {s : Str} (h : isUtf8 s = true) :
    TextUpTo n s ↔ ∀ c, s[n]? = some c → isContinuation c = false :=
  textUpTo_iff.trans (isUtf8_take h n)

end Quackapi
