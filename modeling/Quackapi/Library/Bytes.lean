import Mathlib.Algebra.Ring.Nat
import Mathlib.Data.List.Basic

/-! Byte strings: numbers written most significant byte first, a key that masks a text, and reading a
fixed number of bytes off the front of an input. -/

namespace Library

abbrev Bytes := List UInt8

/-- The last `n` bytes of a number, most significant first. -/
def bigEndian : Nat → Nat → Bytes
  | 0, _ => []
  | n + 1, v => UInt8.ofNat (v >>> (8 * n)) :: bigEndian n v

def fromBigEndian (bytes : Bytes) : Nat := bytes.foldl (fun v b => v <<< 8 ||| b.toNat) 0

@[simp] theorem length_bigEndian (n v : Nat) : (bigEndian n v).length = n := by
  induction n with
  | zero => rfl
  | succ n ih => simp [bigEndian, ih]

theorem shiftIn_eq (v : Nat) (b : UInt8) : v <<< 8 ||| b.toNat = v * 256 + b.toNat := by
  have hb : b.toNat < 2 ^ 8 := b.toNat_lt
  rw [← Nat.shiftLeft_add_eq_or_of_lt hb, Nat.shiftLeft_eq]

theorem foldl_bigEndian (n v w : Nat) :
    (bigEndian n v).foldl (fun v b => v <<< 8 ||| b.toNat) w = w * 256 ^ n + v % 256 ^ n := by
  induction n generalizing w with
  | zero => simp [bigEndian, Nat.mod_one]
  | succ n ih =>
    rw [bigEndian, List.foldl_cons, ih, shiftIn_eq, UInt8.toNat_ofNat', Nat.shiftRight_eq_div_pow,
      Nat.pow_mul]
    have hdigit : v / 256 ^ n % 256 * 256 ^ n + v % 256 ^ n = v % 256 ^ (n + 1) := by
      rw [Nat.pow_succ, Nat.mod_mul, Nat.mul_comm]
      exact Nat.add_comm _ _
    have hpow : w * 256 ^ (n + 1) = w * 256 * 256 ^ n := by
      rw [Nat.pow_succ, Nat.mul_comm _ 256, Nat.mul_assoc]
    rw [← hdigit, hpow, Nat.add_mul, Nat.add_assoc]

theorem fromBigEndian_bigEndian {n v : Nat} (h : v < 256 ^ n) :
    fromBigEndian (bigEndian n v) = v := by
  rw [fromBigEndian, foldl_bigEndian, Nat.zero_mul, Nat.zero_add, Nat.mod_eq_of_lt h]

theorem bigEndian_mod (n v : Nat) : bigEndian n (v % 256 ^ n) = bigEndian n v := by
  induction n generalizing v with
  | zero => rfl
  | succ n ih =>
    have hhead : UInt8.ofNat ((v % 256 ^ (n + 1)) >>> (8 * n)) = UInt8.ofNat (v >>> (8 * n)) := by
      apply UInt8.toNat_inj.mp
      have hpow : (2 : Nat) ^ (8 * n) = 256 ^ n := Nat.pow_mul 2 8 n
      rw [UInt8.toNat_ofNat', UInt8.toNat_ofNat', Nat.shiftRight_eq_div_pow,
        Nat.shiftRight_eq_div_pow, hpow, Nat.pow_succ, Nat.mod_mul_right_div_self, Nat.mod_mod]
    have htail : bigEndian n (v % 256 ^ (n + 1)) = bigEndian n v := by
      rw [← ih, Nat.mod_mod_of_dvd _ (Nat.pow_dvd_pow 256 (Nat.le_succ n)), ih]
    rw [bigEndian, hhead, htail, bigEndian]

theorem fromBigEndian_cons (b : UInt8) (bytes : Bytes) :
    fromBigEndian (b :: bytes) = b.toNat * 256 ^ bytes.length + fromBigEndian bytes := by
  -- what is shifted in first is worth the most
  have hfold : ∀ w, bytes.foldl (fun v b => v <<< 8 ||| b.toNat) w =
      w * 256 ^ bytes.length + fromBigEndian bytes := by
    induction bytes with
    | nil => intro w; simp [fromBigEndian]
    | cons c bytes ih =>
      intro w
      rw [fromBigEndian, List.foldl_cons, List.foldl_cons, ih, ih, shiftIn_eq, shiftIn_eq,
        List.length_cons, Nat.pow_succ, Nat.zero_mul, Nat.zero_add, Nat.add_mul, Nat.add_assoc,
        Nat.mul_assoc, Nat.mul_comm 256]
  rw [fromBigEndian, List.foldl_cons, hfold, shiftIn_eq, Nat.zero_mul, Nat.zero_add]

theorem fromBigEndian_lt (bytes : Bytes) : fromBigEndian bytes < 256 ^ bytes.length := by
  induction bytes with
  | nil => simp [fromBigEndian]
  | cons b bytes ih =>
    have hb : b.toNat + 1 ≤ 256 := b.toNat_lt
    have hle : (b.toNat + 1) * 256 ^ bytes.length ≤ 256 * 256 ^ bytes.length :=
      Nat.mul_le_mul_right _ hb
    rw [fromBigEndian_cons, List.length_cons, Nat.pow_succ, Nat.mul_comm _ 256]
    rw [Nat.add_mul, Nat.one_mul] at hle
    omega

theorem bigEndian_fromBigEndian (bytes : Bytes) :
    bigEndian bytes.length (fromBigEndian bytes) = bytes := by
  induction bytes with
  | nil => rfl
  | cons b bytes ih =>
    have hlt := fromBigEndian_lt bytes
    have hpos : 0 < 256 ^ bytes.length := Nat.pow_pos (by decide)
    have hpow : (2 : Nat) ^ (8 * bytes.length) = 256 ^ bytes.length := Nat.pow_mul 2 8 _
    have hhead : UInt8.ofNat (fromBigEndian (b :: bytes) >>> (8 * bytes.length)) = b := by
      rw [fromBigEndian_cons, Nat.shiftRight_eq_div_pow, hpow, Nat.mul_comm,
        Nat.mul_add_div hpos, Nat.div_eq_of_lt hlt, Nat.add_zero, UInt8.ofNat_toNat]
    have htail : bigEndian bytes.length (fromBigEndian (b :: bytes)) = bytes := by
      rw [← bigEndian_mod, fromBigEndian_cons, Nat.mul_comm, Nat.mul_add_mod,
        Nat.mod_eq_of_lt hlt, ih]
    rw [List.length_cons, bigEndian, hhead, htail]

def maskWith (key : Nat → UInt8) (bytes : Bytes) : Bytes := bytes.mapIdx fun i b => b ^^^ key i

@[simp] theorem length_maskWith (key : Nat → UInt8) (bytes : Bytes) :
    (maskWith key bytes).length = bytes.length := List.length_mapIdx

theorem maskWith_maskWith (key : Nat → UInt8) (bytes : Bytes) :
    maskWith key (maskWith key bytes) = bytes := by
  rw [maskWith, maskWith, List.mapIdx_mapIdx]
  have hid : (fun i => (fun b => b ^^^ key i) ∘ fun b => b ^^^ key i) = fun _ => id := by
    funext i b
    rw [Function.comp_apply, UInt8.xor_assoc, UInt8.xor_self, UInt8.xor_zero]
    rfl
  rw [hid]
  apply List.ext_getElem
  · simp
  · intro i h₁ h₂
    simp

end Library
