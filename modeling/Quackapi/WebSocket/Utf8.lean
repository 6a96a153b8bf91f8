import Quackapi.Library.Bytes
import Quackapi.Util.Utf8

/-! The HTTP library's check of UTF-8, which computes code points, and the engine's, which compares
bytes. They accept the same strings. -/

namespace Quackapi.WebSocket
open Library

def charOf (b : UInt8) : Char := Char.ofNat b.toNat

def textOf (bytes : Bytes) : Str := bytes.map charOf

def bytesOf (text : Str) : Bytes := text.map fun c => UInt8.ofNat c.toNat

def isTail (b : UInt8) : Bool := b &&& 0xC0 == 0x80

/-- The bits of the bytes after the first one, shifted in. -/
def codePointOf (lead : UInt8) (tail : Bytes) : Nat :=
  tail.foldl (fun cp b => cp <<< 6 ||| (b &&& 0x3F).toNat) lead.toNat

def isCodePoint (least cp : Nat) : Bool :=
  decide (least ≤ cp) && !(decide (0xD800 ≤ cp) && decide (cp ≤ 0xDFFF)) && decide (cp ≤ 0x10FFFF)

def isValidUtf8 : Bytes → Bool
  | [] => true
  | a :: s =>
    if a < 0x80 then isValidUtf8 s
    else if a &&& 0xE0 = 0xC0 then
      match s with
      | b :: s => isTail b && isCodePoint 0x80 (codePointOf (a &&& 0x1F) [b]) && isValidUtf8 s
      | _ => false
    else if a &&& 0xF0 = 0xE0 then
      match s with
      | b :: c :: s =>
        isTail b && isTail c && isCodePoint 0x800 (codePointOf (a &&& 0x0F) [b, c]) && isValidUtf8 s
      | _ => false
    else if a &&& 0xF8 = 0xF0 then
      match s with
      | b :: c :: d :: s =>
        isTail b && isTail c && isTail d &&
          isCodePoint 0x10000 (codePointOf (a &&& 0x07) [b, c, d]) && isValidUtf8 s
      | _ => false
    else false

theorem byte_ext {P : UInt8 → Prop} (h : ∀ n : Fin 256, P (UInt8.ofNat n)) (b : UInt8) : P b := by
  have hb := h ⟨b.toNat, b.toNat_lt⟩
  rwa [UInt8.ofNat_toNat] at hb

@[simp] theorem toNat_charOf (b : UInt8) : (charOf b).toNat = b.toNat := by
  refine byte_ext (P := fun b => (charOf b).toNat = b.toNat) ?_ b
  decide +kernel

@[simp] theorem textOf_cons (b : UInt8) (s : Bytes) : textOf (b :: s) = charOf b :: textOf s := rfl

theorem lead_pair (a : UInt8) : a &&& 0xE0 = 0xC0 ↔ 192 ≤ a.toNat ∧ a.toNat < 224 := by
  refine byte_ext (P := fun a => a &&& 0xE0 = 0xC0 ↔ 192 ≤ a.toNat ∧ a.toNat < 224) ?_ a
  decide +kernel

theorem lead_triple (a : UInt8) : a &&& 0xF0 = 0xE0 ↔ 224 ≤ a.toNat ∧ a.toNat < 240 := by
  refine byte_ext (P := fun a => a &&& 0xF0 = 0xE0 ↔ 224 ≤ a.toNat ∧ a.toNat < 240) ?_ a
  decide +kernel

theorem lead_quad (a : UInt8) : a &&& 0xF8 = 0xF0 ↔ 240 ≤ a.toNat ∧ a.toNat < 248 := by
  refine byte_ext (P := fun a => a &&& 0xF8 = 0xF0 ↔ 240 ≤ a.toNat ∧ a.toNat < 248) ?_ a
  decide +kernel

theorem low_bits (a : UInt8) : (a &&& 0x1F).toNat = a.toNat % 32 ∧ (a &&& 0x0F).toNat = a.toNat % 16 ∧
    (a &&& 0x07).toNat = a.toNat % 8 ∧ (a &&& 0x3F).toNat = a.toNat % 64 := by
  refine byte_ext (P := fun a => (a &&& 0x1F).toNat = a.toNat % 32 ∧
    (a &&& 0x0F).toNat = a.toNat % 16 ∧ (a &&& 0x07).toNat = a.toNat % 8 ∧
    (a &&& 0x3F).toNat = a.toNat % 64) ?_ a
  decide +kernel

theorem isTail_eq (b : UInt8) : isTail b = isContinuation (charOf b) := by
  refine byte_ext (P := fun b => isTail b = isContinuation (charOf b)) ?_ b
  decide +kernel

theorem isContinuation_charOf (b : UInt8) :
    isContinuation (charOf b) = true ↔ 128 ≤ b.toNat ∧ b.toNat ≤ 191 := by
  simp [isContinuation]

theorem shiftIn_six (cp : Nat) (b : UInt8) :
    cp <<< 6 ||| (b &&& 0x3F).toNat = cp * 64 + b.toNat % 64 := by
  have hlow : b.toNat % 64 < 2 ^ 6 := Nat.mod_lt _ (by decide)
  rw [(low_bits b).2.2.2, ← Nat.shiftLeft_add_eq_or_of_lt hlow, Nat.shiftLeft_eq]

theorem pair_iff {a b : UInt8} (ha : 192 ≤ a.toNat ∧ a.toNat < 224) :
    (isTail b && isCodePoint 0x80 (codePointOf (a &&& 0x1F) [b])) = isPair (charOf a) (charOf b) := by
  have hlow := (low_bits a).1
  simp only [codePointOf, List.foldl_cons, List.foldl_nil, shiftIn_six, hlow]
  rw [Bool.eq_iff_iff, isTail_eq]
  simp only [isPair, isCodePoint, Bool.and_eq_true, isContinuation_charOf, decide_eq_true_eq,
    toNat_charOf, Bool.not_eq_true', Bool.and_eq_false_iff, decide_eq_false_iff_not]
  omega

theorem triple_iff {a b c : UInt8} (ha : 224 ≤ a.toNat ∧ a.toNat < 240) :
    (isTail b && isTail c && isCodePoint 0x800 (codePointOf (a &&& 0x0F) [b, c])) =
      isTriple (charOf a) (charOf b) (charOf c) := by
  have hlow := (low_bits a).2.1
  simp only [codePointOf, List.foldl_cons, List.foldl_nil, shiftIn_six, hlow]
  rw [Bool.eq_iff_iff, isTail_eq, isTail_eq]
  simp only [isTriple, isCodePoint, Bool.and_eq_true, Bool.or_eq_true, isContinuation_charOf,
    decide_eq_true_eq, toNat_charOf, Bool.not_eq_true', Bool.and_eq_false_iff, decide_eq_false_iff_not]
  omega

theorem quad_iff {a b c d : UInt8} (ha : 240 ≤ a.toNat ∧ a.toNat < 248) :
    (isTail b && isTail c && isTail d && isCodePoint 0x10000 (codePointOf (a &&& 0x07) [b, c, d])) =
      isQuad (charOf a) (charOf b) (charOf c) (charOf d) := by
  have hlow := (low_bits a).2.2.1
  simp only [codePointOf, List.foldl_cons, List.foldl_nil, shiftIn_six, hlow]
  rw [Bool.eq_iff_iff, isTail_eq, isTail_eq, isTail_eq]
  simp only [isQuad, isCodePoint, Bool.and_eq_true, Bool.or_eq_true, isContinuation_charOf,
    decide_eq_true_eq, toNat_charOf, Bool.not_eq_true', Bool.and_eq_false_iff, decide_eq_false_iff_not]
  omega

theorem isUtf8_ascii {a : Char} {s : Str} (ha : a.toNat < 0x80) : isUtf8 (a :: s) = isUtf8 s := by
  rw [isUtf8, codePoints_ascii ha, Option.isSome_map, isUtf8]

theorem isUtf8_eq_false {a : Char} {s : Str} (ha : ¬ a.toNat < 0x80)
    (hp : ∀ b t, s = b :: t → ¬ isPair a b = true)
    (ht : ∀ b c t, s = b :: c :: t → ¬ isTriple a b c = true)
    (hq : ∀ b c d t, s = b :: c :: d :: t → ¬ isQuad a b c d = true) : isUtf8 (a :: s) = false := by
  have hnone : codePoints (a :: s) = none := by
    obtain _ | ⟨b, _ | ⟨c, _ | ⟨d, t⟩⟩⟩ := s
    · exact codePoints_short ha
    · exact codePoints_short₂ ha (hp b _ rfl)
    · exact codePoints_short₃ ha (hp b _ rfl) (ht b c _ rfl)
    · rw [codePoints_rest ha (hp b _ rfl) (ht b c _ rfl), if_neg (hq b c d _ rfl)]
  rw [isUtf8, hnone]
  rfl

theorem isPair_lead {a b : Char} (h : isPair a b = true) : 192 ≤ a.toNat ∧ a.toNat < 224 := by
  simp only [isPair, Bool.and_eq_true, decide_eq_true_eq] at h
  omega

theorem isTriple_lead {a b c : Char} (h : isTriple a b c = true) : 224 ≤ a.toNat ∧ a.toNat < 240 := by
  simp only [isTriple, Bool.and_eq_true, Bool.or_eq_true, decide_eq_true_eq] at h
  omega

theorem isQuad_lead {a b c d : Char} (h : isQuad a b c d = true) : 240 ≤ a.toNat ∧ a.toNat < 248 := by
  simp only [isQuad, Bool.and_eq_true, Bool.or_eq_true, decide_eq_true_eq] at h
  omega

theorem isUtf8_pair {a b : Char} {s : Str} (ha : 192 ≤ a.toNat ∧ a.toNat < 224) :
    isUtf8 (a :: b :: s) = (isPair a b && isUtf8 s) := by
  have hlead : ¬ a.toNat < 0x80 := by omega
  by_cases hp : isPair a b = true
  · rw [hp, isUtf8, codePoints_pair hlead hp, Option.isSome_map, Bool.true_and, isUtf8]
  · rw [isUtf8_eq_false hlead, Bool.eq_false_iff.mpr hp, Bool.false_and]
    · intro b' t heq
      cases heq
      exact hp
    · intro b' c t _ ht
      have := isTriple_lead ht
      omega
    · intro b' c d t _ hq
      have := isQuad_lead hq
      omega

theorem isUtf8_triple {a b c : Char} {s : Str} (ha : 224 ≤ a.toNat ∧ a.toNat < 240) :
    isUtf8 (a :: b :: c :: s) = (isTriple a b c && isUtf8 s) := by
  have hlead : ¬ a.toNat < 0x80 := by omega
  have hp : ∀ b, ¬ isPair a b = true := by
    intro b h
    have := isPair_lead h
    omega
  by_cases ht : isTriple a b c = true
  · rw [ht, isUtf8, codePoints_triple hlead (hp b) ht, Option.isSome_map, Bool.true_and, isUtf8]
  · rw [isUtf8_eq_false hlead fun b' _ _ => hp b', Bool.eq_false_iff.mpr ht, Bool.false_and]
    · intro b' c' t heq
      cases heq
      exact ht
    · intro b' c' d t _ hq
      have := isQuad_lead hq
      omega

theorem isUtf8_quad {a b c d : Char} {s : Str} (ha : 240 ≤ a.toNat ∧ a.toNat < 248) :
    isUtf8 (a :: b :: c :: d :: s) = (isQuad a b c d && isUtf8 s) := by
  have hlead : ¬ a.toNat < 0x80 := by omega
  have hp : ¬ isPair a b = true := fun h => by have := isPair_lead h; omega
  have ht : ¬ isTriple a b c = true := fun h => by have := isTriple_lead h; omega
  rw [isUtf8, codePoints_rest hlead hp ht]
  by_cases hq : isQuad a b c d = true
  · rw [if_pos hq, hq, Option.isSome_map, Bool.true_and, isUtf8]
  · rw [if_neg hq, Bool.eq_false_iff.mpr hq, Bool.false_and]
    rfl

theorem isUtf8_single {a : Char} (ha : 192 ≤ a.toNat) : isUtf8 [a] = false :=
  isUtf8_eq_false (by omega) (fun _ _ heq => by cases heq) (fun _ _ _ heq => by cases heq)
    fun _ _ _ _ heq => by cases heq

theorem isUtf8_two {a b : Char} (ha : 224 ≤ a.toNat) : isUtf8 [a, b] = false := by
  refine isUtf8_eq_false (by omega) (fun b t _ h => ?_) (fun _ _ _ heq => by cases heq)
    fun _ _ _ _ heq => by cases heq
  have hlead := isPair_lead h
  omega

theorem isUtf8_three {a b c : Char} (ha : 240 ≤ a.toNat) : isUtf8 [a, b, c] = false := by
  refine isUtf8_eq_false (by omega) (fun b t _ h => ?_) (fun b c t _ h => ?_)
    fun _ _ _ _ heq => by cases heq
  · have hlead := isPair_lead h
    omega
  · have hlead := isTriple_lead h
    omega

theorem isValidUtf8_eq_isUtf8 (s : Bytes) : isValidUtf8 s = isUtf8 (textOf s) := by
  fun_induction isValidUtf8 s with
  | case1 => rfl
  | case2 a s ha ih =>
    have hlt : (charOf a).toNat < 0x80 := by
      rw [toNat_charOf]
      exact UInt8.lt_iff_toNat_lt.mp ha
    rw [textOf_cons, isUtf8_ascii hlt, ih]
  | case3 a ha hlead b s ih =>
    have hrange := (lead_pair a).mp hlead
    rw [pair_iff hrange, ih, textOf_cons, textOf_cons, isUtf8_pair (by rwa [toNat_charOf])]
  | case4 a s ha hlead hshort =>
    have hrange := (lead_pair a).mp hlead
    obtain _ | ⟨b, s⟩ := s
    · exact (isUtf8_single (by rw [toNat_charOf]; omega)).symm
    · exact absurd rfl (hshort b s)
  | case5 a ha _ hlead b c s ih =>
    have hrange := (lead_triple a).mp hlead
    rw [triple_iff hrange, ih, textOf_cons, textOf_cons, textOf_cons,
      isUtf8_triple (by rwa [toNat_charOf])]
  | case6 a s ha _ hlead hshort =>
    have hrange := (lead_triple a).mp hlead
    obtain _ | ⟨b, _ | ⟨c, s⟩⟩ := s
    · exact (isUtf8_single (by rw [toNat_charOf]; omega)).symm
    · exact (isUtf8_two (by rw [toNat_charOf]; omega)).symm
    · exact absurd rfl (hshort b c s)
  | case7 a ha _ _ hlead b c d s ih =>
    have hrange := (lead_quad a).mp hlead
    rw [quad_iff hrange, ih, textOf_cons, textOf_cons, textOf_cons, textOf_cons,
      isUtf8_quad (by rwa [toNat_charOf])]
  | case8 a s ha _ _ hlead hshort =>
    have hrange := (lead_quad a).mp hlead
    obtain _ | ⟨b, _ | ⟨c, _ | ⟨d, s⟩⟩⟩ := s
    · exact (isUtf8_single (by rw [toNat_charOf]; omega)).symm
    · exact (isUtf8_two (by rw [toNat_charOf]; omega)).symm
    · exact (isUtf8_three (by rw [toNat_charOf]; omega)).symm
    · exact absurd rfl (hshort b c d s)
  | case9 a s ha hp ht hq =>
    have hlow : 128 ≤ a.toNat := UInt8.not_lt.mp ha
    rw [lead_pair] at hp
    rw [lead_triple] at ht
    rw [lead_quad] at hq
    rw [textOf_cons, isUtf8_eq_false (by rw [toNat_charOf]; omega)]
    · intro b t _ h
      have hlead := isPair_lead h
      rw [toNat_charOf] at hlead
      exact hp hlead
    · intro b c t _ h
      have hlead := isTriple_lead h
      rw [toNat_charOf] at hlead
      exact ht hlead
    · intro b c d t _ h
      have hlead := isQuad_lead h
      rw [toNat_charOf] at hlead
      exact hq hlead

theorem textOf_bytesOf {t : Str} (h : ∀ c ∈ t, c.toNat < 256) : textOf (bytesOf t) = t := by
  rw [textOf, bytesOf, List.map_map]
  have hchar : ∀ c ∈ t, (charOf ∘ fun c : Char => UInt8.ofNat c.toNat) c = c := by
    intro c hc
    show Char.ofNat (UInt8.ofNat c.toNat).toNat = c
    rw [UInt8.toNat_ofNat_of_lt' (h c hc), Char.ofNat_toNat]
  rw [List.map_congr_left hchar]
  exact List.map_id t

/-- Of bytes and of the texts that are bytes, one check says what the other says. -/
theorem utf8_checks_agree :
    (∀ s : Bytes, isValidUtf8 s = isUtf8 (textOf s)) ∧
      ∀ t : Str, (∀ c ∈ t, c.toNat < 256) → isUtf8 t = isValidUtf8 (bytesOf t) := by
  refine ⟨isValidUtf8_eq_isUtf8, fun t h => ?_⟩
  rw [isValidUtf8_eq_isUtf8, textOf_bytesOf h]

end Quackapi.WebSocket
