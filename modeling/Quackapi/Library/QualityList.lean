import Quackapi.Library.QuotedWords
import Mathlib.Algebra.Order.Ring.Rat

/-! Lists of names with weights between zero and one, as request headers use them to say what a
client prefers: the grammar of such a list, and the reading of it piece by piece. -/

namespace Library

def digitsNat (digits : List Char) : Nat :=
  digits.foldl (fun n c => 10 * n + (c.toNat - '0'.toNat)) 0

/-- A weight has at most three decimals, and none of them above one. -/
inductive QValue : List Char → ℚ → Prop
  | zero : QValue ['0'] 0
  | below {digits : List Char} (hlen : digits.length ≤ 3) (h : ∀ c ∈ digits, c.isDigit = true) :
      QValue ('0' :: '.' :: digits) (mkRat (digitsNat digits) (10 ^ digits.length))
  | one : QValue ['1'] 1
  | whole {zeros : List Char} (hlen : zeros.length ≤ 3) (h : ∀ c ∈ zeros, c = '0') :
      QValue ('1' :: '.' :: zeros) 1

def IsPadding (c : Char) : Prop := c = ' ' ∨ c = '\t'

def Padding (s : List Char) : Prop := ∀ c ∈ s, IsPadding c

/-- A name, and the weight it has unless that is one. -/
inductive Weighted (name : List Char) : List Char → ℚ → Prop
  | bare : Weighted name name 1
  | weight {b c v : List Char} {k : Char} {q : ℚ} (hb : Padding b) (hc : Padding c)
      (hk : k = 'q' ∨ k = 'Q') (hv : QValue v q) :
      Weighted name (name ++ (b ++ ';' :: (c ++ k :: '=' :: v))) q

/-- What stands between two commas. It may be nothing. -/
inductive Element (Name : List Char → Prop) : List Char → List (List Char × ℚ) → Prop
  | blank {s : List Char} (h : Padding s) : Element Name s []
  | member {a b name text : List Char} {q : ℚ} (ha : Padding a) (hb : Padding b) (hname : Name name)
      (h : Weighted name text q) : Element Name (a ++ text ++ b) [(name, q)]

inductive QualityList (Name : List Char → Prop) : List Char → List (List Char × ℚ) → Prop
  | last {s : List Char} {es : List (List Char × ℚ)} (h : Element Name s es) : QualityList Name s es
  | more {s rest : List Char} {es more : List (List Char × ℚ)} (h : Element Name s es)
      (hrest : QualityList Name rest more) : QualityList Name (s ++ ',' :: rest) (es ++ more)

/-- What a name is made of: neither a blank nor a character the list itself uses. -/
def IsNameChar (c : Char) : Prop := 32 < c.toNat ∧ c ≠ ',' ∧ c ≠ ';'

instance : DecidablePred IsNameChar := fun c => inferInstanceAs (Decidable (32 < c.toNat ∧ c ≠ ',' ∧ c ≠ ';'))

def IsName (name : List Char) : Prop := name ≠ [] ∧ ∀ c ∈ name, IsNameChar c

instance : DecidablePred IsName := fun name =>
  have := List.decidableBAll IsNameChar name
  inferInstanceAs (Decidable (name ≠ [] ∧ ∀ c ∈ name, IsNameChar c))

section
variable {v : List Char} {q : ℚ}

theorem digitsNat_lt_of_foldl {digits : List Char} (h : ∀ c ∈ digits, c.isDigit = true) (n : Nat) :
    digits.foldl (fun n c => 10 * n + (c.toNat - '0'.toNat)) n < (n + 1) * 10 ^ digits.length := by
  induction digits generalizing n with
  | nil => simp
  | cons c digits ih =>
    obtain ⟨hc, hdigits⟩ := List.forall_mem_cons.mp h
    have hrec := ih hdigits (10 * n + (c.toNat - '0'.toNat))
    have hdigit : c.toNat - '0'.toNat < 10 := by
      simp only [Char.isDigit, Bool.and_eq_true, decide_eq_true_eq] at hc
      have h57 : c.toNat ≤ 57 := hc.2
      have h48 : '0'.toNat = 48 := rfl
      omega
    have hstep : (10 * n + (c.toNat - '0'.toNat) + 1) * 10 ^ digits.length ≤
        (n + 1) * 10 ^ (digits.length + 1) := by
      rw [Nat.pow_succ, Nat.mul_comm (10 ^ digits.length) 10, ← Nat.mul_assoc]
      exact Nat.mul_le_mul_right _ (by omega)
    rw [List.foldl_cons, List.length_cons]
    exact lt_of_lt_of_le hrec hstep

theorem digitsNat_lt {digits : List Char} (h : ∀ c ∈ digits, c.isDigit = true) :
    digitsNat digits < 10 ^ digits.length := by
  have hlt := digitsNat_lt_of_foldl h 0
  rwa [Nat.zero_add, Nat.one_mul] at hlt

theorem QValue.nonneg (h : QValue v q) : 0 ≤ q := by
  cases h with
  | zero => exact le_rfl
  | below hlen hdigits => exact Rat.mkRat_nonneg (Int.natCast_nonneg _) _
  | one => decide
  | whole hlen hzeros => decide

theorem QValue.le_one (h : QValue v q) : q ≤ 1 := by
  cases h with
  | zero => decide
  | @below digits hlen hdigits =>
    have hlt := digitsNat_lt hdigits
    have hpos : (0 : ℤ) < ((10 ^ digits.length : ℕ) : ℤ) := by omega
    rw [← Rat.divInt_ofNat, show (1 : ℚ) = Rat.divInt 1 1 by rfl,
      Rat.divInt_le_divInt hpos (by decide)]
    omega
  | one => exact le_rfl
  | whole hlen hzeros => exact le_rfl

theorem isNameChar_of_isDigit {c : Char} (h : c.isDigit = true) : IsNameChar c := by
  simp only [Char.isDigit, Bool.and_eq_true, decide_eq_true_eq] at h
  have h48 : 48 ≤ c.toNat := h.1
  have h57 : c.toNat ≤ 57 := h.2
  refine ⟨by omega, ?_, ?_⟩
  · rintro rfl
    exact absurd h48 (by decide)
  · rintro rfl
    exact absurd h57 (by decide)

theorem QValue.isName (h : QValue v q) : IsName v := by
  have hdot : IsNameChar '.' := ⟨by decide, by decide, by decide⟩
  have hzero : IsNameChar '0' := isNameChar_of_isDigit (by decide)
  have hone : IsNameChar '1' := isNameChar_of_isDigit (by decide)
  cases h with
  | zero => exact ⟨List.cons_ne_nil _ _, by simpa using hzero⟩
  | below hlen hdigits =>
    refine ⟨List.cons_ne_nil _ _, List.forall_mem_cons.mpr ⟨hzero, List.forall_mem_cons.mpr ⟨hdot, ?_⟩⟩⟩
    exact fun c hc => isNameChar_of_isDigit (hdigits c hc)
  | one => exact ⟨List.cons_ne_nil _ _, by simpa using hone⟩
  | whole hlen hzeros =>
    refine ⟨List.cons_ne_nil _ _, List.forall_mem_cons.mpr ⟨hone, List.forall_mem_cons.mpr ⟨hdot, ?_⟩⟩⟩
    intro c hc
    rw [hzeros c hc]
    exact hzero

end

/-- What the two ends of a piece lose: every blank, and nothing that a name is made of. -/
structure Strips (p q : Char → Bool) : Prop where
  front : ∀ c, IsPadding c → p c = true
  back : ∀ c, IsPadding c → q c = true
  keepFront : ∀ c, IsNameChar c → p c = false
  keepBack : ∀ c, IsNameChar c → q c = false

namespace Strips
variable {p q : Char → Bool} (h : Strips p q) {a b s : List Char}

include h in
theorem padding (hs : Padding s) : strip p q s = [] := by
  have hdrop : s.dropWhile p = [] := List.dropWhile_eq_nil_iff.mpr fun c hc => h.front c (hs c hc)
  rw [strip, hdrop]
  rfl

include h in
theorem piece (ha : Padding a) (hb : Padding b) (hhead : ∀ c ∈ s.head?, IsNameChar c)
    (hlast : ∀ c ∈ s.getLast?, IsNameChar c) (hne : s ≠ []) : strip p q (a ++ s ++ b) = s := by
  have hfront : (a ++ (s ++ b)).dropWhile p = s ++ b := by
    refine dropWhile_append_of_all (fun c hc => h.front c (ha c hc)) fun c hc => ?_
    rw [List.head?_append_of_ne_nil _ hne] at hc
    exact h.keepFront c (hhead c hc)
  have hback : (b.reverse ++ s.reverse).dropWhile q = s.reverse := by
    refine dropWhile_append_of_all (fun c hc => ?_) fun c hc => ?_
    · exact h.back c (hb c (List.mem_reverse.mp hc))
    · rw [List.head?_reverse] at hc
      exact h.keepBack c (hlast c hc)
  rw [strip, List.append_assoc, hfront, List.reverse_append, hback, List.reverse_reverse]

end Strips

theorem IsName.head {name : List Char} (h : IsName name) : ∀ c ∈ name.head?, IsNameChar c :=
  fun c hc => h.2 c (List.mem_of_mem_head? hc)

theorem IsName.last {name : List Char} (h : IsName name) : ∀ c ∈ name.getLast?, IsNameChar c :=
  fun c hc => h.2 c (List.mem_of_mem_getLast? hc)

namespace Strips
variable {p q : Char → Bool} (h : Strips p q) {a b c name text v : List Char} {k : Char} {w : ℚ}

include h in
theorem name_padding (hname : IsName name) (hb : Padding b) : strip p q (name ++ b) = name :=
  h.piece (a := []) (fun _ hc => nomatch hc) hb hname.head hname.last hname.1

include h in
theorem parameter (hc : Padding c) (hk : IsNameChar k) (hv : QValue v w) :
    strip p q (c ++ k :: '=' :: v) = k :: '=' :: v := by
  have hlast : ∀ x ∈ (k :: '=' :: v).getLast?, IsNameChar x := by
    rw [List.getLast?_cons_cons, List.getLast?_cons_of_ne_nil hv.isName.1]
    exact hv.isName.last
  simpa using h.piece (b := []) hc (fun _ hx => nomatch hx)
    (fun x hx => by rw [← Option.some.inj hx]; exact hk) hlast (List.cons_ne_nil _ _)

include h in
theorem weighted (ha : Padding a) (hb : Padding b) (hname : IsName name) (ht : Weighted name text w) :
    strip p q (a ++ text ++ b) = text := by
  cases ht with
  | bare => exact h.piece ha hb hname.head hname.last hname.1
  | weight hb' hc hk hv =>
    refine h.piece ha hb ?_ ?_ ?_
    · rw [List.head?_append_of_ne_nil _ hname.1]
      exact hname.head
    · rw [← List.append_assoc, ← List.cons_append, ← List.append_assoc,
        List.getLast?_append_of_ne_nil _ (List.cons_ne_nil _ _), List.getLast?_cons_cons,
        List.getLast?_cons_of_ne_nil hv.isName.1]
      exact hv.isName.last
    · simp [hname.1]

end Strips

theorem Padding.not_mem {s : List Char} {c : Char} (hs : Padding s) (hc : ¬ IsPadding c) : c ∉ s :=
  fun hmem => hc (hs c hmem)

theorem IsName.not_mem {name : List Char} {c : Char} (hname : IsName name) (hc : ¬ IsNameChar c) :
    c ∉ name :=
  fun hmem => hc (hname.2 c hmem)

theorem not_isPadding_comma : ¬ IsPadding ',' := by rintro (h | h) <;> cases h

theorem not_isPadding_semicolon : ¬ IsPadding ';' := by rintro (h | h) <;> cases h

theorem not_isNameChar_comma : ¬ IsNameChar ',' := fun h => h.2.1 rfl

theorem not_isNameChar_semicolon : ¬ IsNameChar ';' := fun h => h.2.2 rfl

theorem isNameChar_weightKey {k : Char} (hk : k = 'q' ∨ k = 'Q') : IsNameChar k := by
  rcases hk with rfl | rfl <;> exact ⟨by decide, by decide, by decide⟩

section
variable {a b c name text v : List Char} {k : Char} {w : ℚ}

theorem parameter_not_mem {x : Char} (hblank : ¬ IsPadding x) (hx : ¬ IsNameChar x) (hc : Padding c)
    (hk : k = 'q' ∨ k = 'Q') (hv : QValue v w) : x ∉ c ++ k :: '=' :: v := by
  have hequals : IsNameChar '=' := ⟨by decide, by decide, by decide⟩
  rw [List.mem_append, List.mem_cons, List.mem_cons]
  rintro (h | rfl | rfl | h)
  · exact hc.not_mem hblank h
  · exact hx (isNameChar_weightKey hk)
  · exact hx hequals
  · exact hv.isName.not_mem hx h

theorem Weighted.comma_not_mem (hname : IsName name) (h : Weighted name text w) : ',' ∉ text := by
  cases h with
  | bare => exact hname.not_mem not_isNameChar_comma
  | weight hb hc hk hv =>
    rw [List.mem_append, List.mem_append, List.mem_cons]
    rintro (h | h | h | h)
    · exact hname.not_mem not_isNameChar_comma h
    · exact hb.not_mem not_isPadding_comma h
    · cases h
    · exact parameter_not_mem not_isPadding_comma not_isNameChar_comma hc hk hv h

theorem semicolon_not_mem_name (hname : IsName name) (hb : Padding b) : ';' ∉ name ++ b := by
  rw [List.mem_append]
  rintro (h | h)
  · exact hname.not_mem not_isNameChar_semicolon h
  · exact hb.not_mem not_isPadding_semicolon h

theorem splitOn_bare (hname : IsName name) : name.splitOn ';' = [name] :=
  List.splitOn_eq_singleton (hname.not_mem not_isNameChar_semicolon)

theorem splitOn_weight (hname : IsName name) (hb : Padding b) (hc : Padding c) (hk : k = 'q' ∨ k = 'Q')
    (hv : QValue v w) : (name ++ (b ++ ';' :: (c ++ k :: '=' :: v))).splitOn ';' =
      [name ++ b, c ++ k :: '=' :: v] := by
  have hparameter := parameter_not_mem not_isPadding_semicolon not_isNameChar_semicolon hc hk hv
  rw [← List.append_assoc,
    List.splitOn_append_cons_self_of_not_mem (semicolon_not_mem_name hname hb) _,
    List.splitOn_eq_singleton hparameter]

theorem takeWhile_weight (hname : IsName name) (hb : Padding b) (t : List Char) :
    (name ++ (b ++ ';' :: t)).takeWhile (· ≠ ';') = name ++ b := by
  have hfree := semicolon_not_mem_name hname hb
  rw [← List.append_assoc, List.takeWhile_append_of_pos]
  · simp
  · intro c hc
    exact decide_eq_true fun heq => hfree (heq ▸ hc)

end

section
variable {Name : List Char → Prop} (hnames : ∀ name, Name name → IsName name)
  {s text : List Char} {es : List (List Char × ℚ)}

include hnames in
theorem Element.comma_not_mem (h : Element Name s es) : ',' ∉ s := by
  cases h with
  | blank hs => exact hs.not_mem not_isPadding_comma
  | member ha hb hname h =>
    rw [List.mem_append, List.mem_append]
    rintro ((hmem | hmem) | hmem)
    · exact ha.not_mem not_isPadding_comma hmem
    · exact h.comma_not_mem (hnames _ hname) hmem
    · exact hb.not_mem not_isPadding_comma hmem

variable {σ : Type} {p q : Char → Bool} (hstrip : Strips p q) {step : σ → List Char → σ}
  {choose : σ → List Char × ℚ → σ} (hblank : ∀ s, step s [] = s)
  (hstep : ∀ s name text w, Name name → Weighted name text w → step s text = choose s (name, w))

include hnames hstrip hblank hstep

theorem Element.foldl (h : Element Name s es) (st : σ) : step st (strip p q s) = es.foldl choose st := by
  cases h with
  | blank hs =>
    rw [hstrip.padding hs, hblank]
    rfl
  | member ha hb hname h =>
    rw [hstrip.weighted ha hb (hnames _ hname) h, hstep st _ _ _ hname h]
    rfl

/-- A loop over the pieces between the commas, each with the blanks around it taken away, is one over
the members of the list. -/
theorem QualityList.foldl (h : QualityList Name text es) (st : σ) :
    (text.splitOn ',').foldl (fun st piece => step st (strip p q piece)) st = es.foldl choose st := by
  induction h generalizing st with
  | last h =>
    rw [List.splitOn_eq_singleton (h.comma_not_mem hnames)]
    exact h.foldl hnames hstrip hblank hstep st
  | more h hrest ih =>
    rw [List.splitOn_append_cons_self_of_not_mem (h.comma_not_mem hnames), List.foldl_cons,
      List.foldl_append, h.foldl hnames hstrip hblank hstep st]
    exact ih _

end

theorem Weighted.bounds {name text : List Char} {w : ℚ} (h : Weighted name text w) : 0 ≤ w ∧ w ≤ 1 := by
  cases h with
  | bare => exact ⟨by decide, le_rfl⟩
  | weight hb hc hk hv => exact ⟨hv.nonneg, hv.le_one⟩

theorem QualityList.entry {Name : List Char → Prop} {text : List Char} {es : List (List Char × ℚ)}
    (h : QualityList Name text es) : ∀ e ∈ es, Name e.1 ∧ 0 ≤ e.2 ∧ e.2 ≤ 1 := by
  have helement : ∀ {s : List Char} {es : List (List Char × ℚ)}, Element Name s es →
      ∀ e ∈ es, Name e.1 ∧ 0 ≤ e.2 ∧ e.2 ≤ 1 := by
    intro s es h e he
    cases h with
    | blank hs => cases he
    | member ha hb hname h =>
      rw [List.mem_singleton] at he
      rw [he]
      exact ⟨hname, h.bounds⟩
  induction h with
  | last h => exact helement h
  | more h hrest ih =>
    intro e he
    rcases List.mem_append.mp he with he | he
    · exact helement h e he
    · exact ih e he

end Library
