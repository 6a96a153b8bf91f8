import Mathlib.Data.List.Basic
import Mathlib.Data.Nat.Init

/-! The standard base64 code. Bytes are characters below 256; three of them make four digits of an
alphabet of 64, and a last group that is short is padded. -/

namespace Library.Base64

def alphabet : List Char := "ABCDEFGHIJKLMNOPQRSTUVWXYZabcdefghijklmnopqrstuvwxyz0123456789+/".toList

def IsBytes (s : List Char) : Prop := ∀ c ∈ s, c.toNat < 256

instance (s : List Char) : Decidable (IsBytes s) :=
  List.decidableBAll (fun c : Char => c.toNat < 256) s

/-- Digits in groups of four, of which the last may end in one or two signs of padding. -/
def IsBase64 (s : List Char) : Prop :=
  ∃ body pad, s = body ++ List.replicate pad '=' ∧ (∀ c ∈ body, c ∈ alphabet) ∧ pad ≤ 2 ∧
    s.length % 4 = 0

/-- A codec that takes what the grammar allows, and its own texts back. -/
structure IsCodec (encode : List Char → List Char) (decode : List Char → Option (List Char)) : Prop where
  accepts : ∀ s, (decode s).isSome = true ↔ IsBase64 s
  roundTrip : ∀ x, IsBytes x → decode (encode x) = some x

def digit (n : Nat) : Char := alphabet.getD n 'A'

def value (c : Char) : Option Nat := alphabet.idxOf? c

def encode : List Char → List Char
  | [] => []
  | [a] => [digit (a.toNat / 4), digit (a.toNat % 4 * 16), '=', '=']
  | [a, b] =>
    [digit (a.toNat / 4), digit (a.toNat % 4 * 16 + b.toNat / 16), digit (b.toNat % 16 * 4), '=']
  | a :: b :: c :: s =>
    digit (a.toNat / 4) :: digit (a.toNat % 4 * 16 + b.toNat / 16) ::
      digit (b.toNat % 16 * 4 + c.toNat / 64) :: digit (c.toNat % 64) :: encode s

def first (x y : Nat) : Char := Char.ofNat (x * 4 + y / 16)

def second (y z : Nat) : Char := Char.ofNat (y % 16 * 16 + z / 4)

def third (z w : Nat) : Char := Char.ofNat (z % 4 * 64 + w)

def decode : List Char → Option (List Char)
  | [] => some []
  | a :: b :: c :: d :: s =>
    (value a).bind fun x => (value b).bind fun y =>
      if s = [] ∧ d = '=' then
        if c = '=' then some [first x y]
        else (value c).map fun z => [first x y, second y z]
      else
        (value c).bind fun z => (value d).bind fun w =>
          (decode s).map fun rest => first x y :: second y z :: third z w :: rest
  | _ => none

theorem value_digit : ∀ n < 64, value (digit n) = some n := by decide +kernel

theorem digit_ne_pad : ∀ n < 64, digit n ≠ '=' := by decide +kernel

theorem isSome_value_iff (c : Char) : (value c).isSome = true ↔ c ∈ alphabet := List.isSome_idxOf?

theorem ofNat_eq {c : Char} {n : Nat} (h : n = c.toNat) : Char.ofNat n = c := by
  rw [h]
  exact Char.ofNat_toNat c

theorem decode_encode {x : List Char} (hx : IsBytes x) : decode (encode x) = some x := by
  induction x using encode.induct with
  | case1 => rfl
  | case2 a =>
    have ha := hx a List.mem_cons_self
    have hfirst : first (a.toNat / 4) (a.toNat % 4 * 16) = a := ofNat_eq (by omega)
    rw [encode, decode, value_digit _ (by omega), value_digit _ (by omega), Option.bind_some,
      Option.bind_some, if_pos ⟨rfl, rfl⟩, if_pos rfl, hfirst]
  | case3 a b =>
    have ha := hx a List.mem_cons_self
    have hb := hx b (List.mem_cons_of_mem a List.mem_cons_self)
    have hfirst : first (a.toNat / 4) (a.toNat % 4 * 16 + b.toNat / 16) = a := ofNat_eq (by omega)
    have hsecond : second (a.toNat % 4 * 16 + b.toNat / 16) (b.toNat % 16 * 4) = b :=
      ofNat_eq (by omega)
    rw [encode, decode, value_digit _ (by omega), value_digit _ (by omega), Option.bind_some,
      Option.bind_some, if_pos ⟨rfl, rfl⟩, if_neg (digit_ne_pad _ (by omega)),
      value_digit _ (by omega), Option.map_some, hfirst, hsecond]
  | case4 a b c s ih =>
    have ha := hx a List.mem_cons_self
    have hb := hx b (List.mem_cons_of_mem a List.mem_cons_self)
    have hc := hx c (List.mem_cons_of_mem a (List.mem_cons_of_mem b List.mem_cons_self))
    have hs : decode (encode s) = some s := ih fun d hd =>
      hx d (List.mem_cons_of_mem a (List.mem_cons_of_mem b (List.mem_cons_of_mem c hd)))
    have hfirst : first (a.toNat / 4) (a.toNat % 4 * 16 + b.toNat / 16) = a := ofNat_eq (by omega)
    have hsecond : second (a.toNat % 4 * 16 + b.toNat / 16) (b.toNat % 16 * 4 + c.toNat / 64) = b :=
      ofNat_eq (by omega)
    have hthird : third (b.toNat % 16 * 4 + c.toNat / 64) (c.toNat % 64) = c := ofNat_eq (by omega)
    rw [encode, decode, value_digit _ (by omega), value_digit _ (by omega), Option.bind_some,
      Option.bind_some, if_neg fun h => digit_ne_pad _ (by omega) h.2, value_digit _ (by omega),
      value_digit _ (by omega), Option.bind_some, Option.bind_some, hs, Option.map_some, hfirst,
      hsecond, hthird]

theorem IsBase64.length_mod {s : List Char} : IsBase64 s → s.length % 4 = 0 :=
  fun ⟨_, _, _, _, _, h⟩ => h

theorem isBase64_nil : IsBase64 [] := ⟨[], 0, rfl, nofun, by decide, rfl⟩

theorem pad_not_mem : '=' ∉ alphabet := by decide

/-- A text of which the rest has its length in fours ends in padding only if the rest does, or is empty. -/
theorem isBase64_group {a b c d : Char} {s : List Char} (h : ¬ (s = [] ∧ d = '=')) :
    IsBase64 (a :: b :: c :: d :: s) ↔
      a ∈ alphabet ∧ b ∈ alphabet ∧ c ∈ alphabet ∧ d ∈ alphabet ∧ IsBase64 s := by
  constructor
  · rintro ⟨body, pad, hs, hbody, hpad, hlength⟩
    have hsum : s.length + 1 + 1 + 1 + 1 = body.length + pad := by
      simpa only [List.length_cons, List.length_append, List.length_replicate] using
        congrArg List.length hs
    simp only [List.length_cons] at hlength
    have hlong : 4 ≤ body.length := by
      by_contra hshort
      have hnil : s = [] := List.length_eq_zero_iff.mp (by omega)
      have hlast : (a :: b :: c :: d :: s).getLast? = some '=' := by
        have hpos : pad ≠ 0 := by omega
        rw [hs, List.getLast?_append, List.getLast?_replicate, if_neg hpos, Option.some_or]
      subst hnil
      exact h ⟨rfl, by simpa using hlast⟩
    match body, hlong with
    | a' :: b' :: c' :: d' :: body, _ =>
      simp only [List.cons_append, List.cons.injEq] at hs
      obtain ⟨rfl, rfl, rfl, rfl, hs⟩ := hs
      simp only [List.forall_mem_cons] at hbody
      obtain ⟨ha, hb, hc, hd, hbody⟩ := hbody
      exact ⟨ha, hb, hc, hd, body, pad, hs, hbody, hpad, by omega⟩
  · rintro ⟨ha, hb, hc, hd, body, pad, rfl, hbody, hpad, hlength⟩
    refine ⟨a :: b :: c :: d :: body, pad, rfl, ?_, hpad, ?_⟩
    · simp only [List.forall_mem_cons]
      exact ⟨ha, hb, hc, hd, hbody⟩
    · simp only [List.length_cons]
      omega

theorem isBase64_last {a b c : Char} :
    IsBase64 [a, b, c, '='] ↔ a ∈ alphabet ∧ b ∈ alphabet ∧ (c = '=' ∨ c ∈ alphabet) := by
  constructor
  · rintro ⟨body, pad, hs, hbody, hpad, _⟩
    have hsum : 4 = body.length + pad := by simpa using congrArg List.length hs
    match body, pad with
    | [], _ | [_], _ =>
      simp only [List.length_cons, List.length_nil] at hsum
      omega
    | [a', b'], 2 =>
      simp only [List.cons_append, List.nil_append, List.replicate, List.cons.injEq] at hs
      obtain ⟨rfl, rfl, rfl, -⟩ := hs
      exact ⟨hbody a (by simp), hbody b (by simp), .inl rfl⟩
    | [a', b', c'], 1 =>
      simp only [List.cons_append, List.nil_append, List.replicate, List.cons.injEq] at hs
      obtain ⟨rfl, rfl, rfl, -⟩ := hs
      exact ⟨hbody a (by simp), hbody b (by simp), .inr (hbody c (by simp))⟩
    | [a', b', c', d'], 0 =>
      simp only [List.replicate, List.append_nil, List.cons.injEq] at hs
      exact absurd (hs.2.2.2.1 ▸ hbody d' (by simp)) pad_not_mem
  · rintro ⟨ha, hb, rfl | hc⟩
    · exact ⟨[a, b], 2, rfl, by simp [ha, hb], by decide, by simp⟩
    · exact ⟨[a, b, c], 1, rfl, by simp [ha, hb, hc], by decide, by simp⟩

theorem decode_last (a b c : Char) : (decode [a, b, c, '=']).isSome = true ↔
    (value a).isSome = true ∧ (value b).isSome = true ∧ (c = '=' ∨ (value c).isSome = true) := by
  have hif : ∀ x y, (if c = '=' then some [first x y]
      else (value c).map fun z => [first x y, second y z]).isSome = true ↔
      c = '=' ∨ (value c).isSome = true := by
    intro x y
    split
    · case isTrue h => exact iff_of_true rfl (.inl h)
    · case isFalse h => simp [h]
  rw [decode]
  cases value a with
  | none => simp
  | some x =>
    cases value b with
    | none => simp
    | some y => simpa using hif x y

theorem decode_group {a b c d : Char} {s : List Char} (h : ¬ (s = [] ∧ d = '=')) :
    (decode (a :: b :: c :: d :: s)).isSome = true ↔ (value a).isSome = true ∧
      (value b).isSome = true ∧ (value c).isSome = true ∧ (value d).isSome = true ∧
      (decode s).isSome = true := by
  rw [decode]
  cases value a <;> cases value b <;> cases value c <;> cases value d <;> simp [h]

theorem decode_isSome_iff (s : List Char) : (decode s).isSome = true ↔ IsBase64 s := by
  induction s using decode.induct with
  | case1 => exact iff_of_true rfl isBase64_nil
  | case2 a b c d s ih =>
    by_cases h : s = [] ∧ d = '='
    · obtain ⟨rfl, rfl⟩ := h
      simp only [decode_last, isBase64_last, isSome_value_iff]
    · simp only [decode_group h, isBase64_group h, isSome_value_iff, ih]
  | case3 s hnil hcons =>
    match s with
    | [] => exact absurd rfl hnil
    | [_] | [_, _] | [_, _, _] =>
      exact iff_of_false Bool.false_ne_true fun h => absurd h.length_mod (by simp)
    | a :: b :: c :: d :: s => exact absurd rfl (hcons a b c d s)

theorem isCodec : IsCodec encode decode := ⟨decode_isSome_iff, fun _ => decode_encode⟩

end Library.Base64
