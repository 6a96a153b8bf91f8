import Quackapi.Library.Segments
import Quackapi.WebSocket.Utf8

/-! Frames of the WebSocket protocol as the bundled HTTP library writes and reads them: what a writer
sends a reader takes back, and the reader accepts nothing that is not a frame. It fails where a segment
of the stream ends within the header, the length or the mask. -/

namespace Quackapi.WebSocket
open Library

/-- The four bits of a frame's first byte; some of them name no `Opcode`. -/
abbrev Opcode := BitVec 4

namespace Opcode

def continuation : Opcode := 0x0#4
def text : Opcode := 0x1#4
def binary : Opcode := 0x2#4
def close : Opcode := 0x8#4
def ping : Opcode := 0x9#4
def pong : Opcode := 0xA#4

def isControl (opcode : Opcode) : Bool := opcode &&& 0x8#4 != 0#4

end Opcode

structure Frame where
  fin : Bool
  opcode : Opcode
  payload : Bytes
deriving DecidableEq

structure MaskKey where
  k0 : UInt8
  k1 : UInt8
  k2 : UInt8
  k3 : UInt8
deriving DecidableEq

namespace MaskKey

def bytes (key : MaskKey) : Bytes := [key.k0, key.k1, key.k2, key.k3]

/-- `mask_key[i % 4]`. -/
def at' (key : MaskKey) (i : Nat) : UInt8 := key.bytes.getD (i % 4) 0

end MaskKey

def firstByte (fin : Bool) (opcode : Opcode) : UInt8 :=
  (if fin then 0x80 else 0) ||| UInt8.ofNat opcode.toNat

def maskBit (mask : Bool) : UInt8 := if mask then 0x80 else 0

def lengthBytes (mask : Bool) (len : Nat) : Bytes :=
  if len < 126 then [UInt8.ofNat len ||| maskBit mask]
  else if len ≤ 0xFFFF then (126 ||| maskBit mask) :: bigEndian 2 len
  else (127 ||| maskBit mask) :: bigEndian 8 len

def maskedPayload : Option MaskKey → Bytes → Bytes
  | none, data => data
  | some key, data => key.bytes ++ maskWith key.at' data

/-- The key is there where the frame is to be masked. -/
def writeWebsocketFrame (key : Option MaskKey) (f : Frame) : Bytes :=
  firstByte f.fin f.opcode :: lengthBytes key.isSome f.payload.length ++ maskedPayload key f.payload

abbrev Stream := Segments UInt8

/-- The payload's length, from the seven bits of the second byte. -/
def readLength (short : UInt8) (strm : Stream) : Option (Nat × Stream) :=
  if short = 126 then (readExactly 2 strm).map fun r => (fromBigEndian r.1, r.2)
  else if short = 127 then
    (readExactly 8 strm).bind fun r =>
      if r.1.headD 0 &&& 0x80 ≠ 0 then none else some (fromBigEndian r.1, r.2)
  else some (short.toNat, strm)

def readMaskKey (masked : Bool) (strm : Stream) : Option (Option MaskKey × Stream) :=
  if masked then
    (readExactly 4 strm).bind fun (bytes, strm) =>
      match bytes with
      | [k0, k1, k2, k3] => some (some ⟨k0, k1, k2, k3⟩, strm)
      | _ => none
  else some (none, strm)

def unmask : Option MaskKey → Bytes → Bytes
  | none, data => data
  | some key, data => maskWith key.at' data

/-- What follows the two bytes of the header. Only the payload is read in a loop. -/
def readBody (masked : Bool) (maxLen : Nat) (fin : Bool) (opcode : Opcode) (short : UInt8)
    (strm : Stream) : Option (Frame × Stream) :=
  (readLength short strm).bind fun (len, strm) =>
    if maxLen < len then none
    else
      (readMaskKey masked strm).bind fun (key, strm) =>
        (readUntil len len strm).map fun (payload, strm) =>
          (⟨fin, opcode, unmask key payload⟩, strm)

/-- A frame off the front of what the peer has sent; nothing where there is none, or not all of it. -/
def readWebsocketFrame (expectMasked : Bool) (maxLen : Nat) (strm : Stream) : Option (Frame × Stream) :=
  (readExactly 2 strm).bind fun (header, strm) =>
    match header with
    | [b0, b1] =>
      let fin := b0 &&& 0x80 != 0
      let opcode : Opcode := BitVec.ofNat 4 (b0 &&& 0x0F).toNat
      let masked := b1 &&& 0x80 != 0
      let short := b1 &&& 0x7F
      if b0 &&& 0x70 ≠ 0 then none
      else if opcode.isControl && (!fin || decide (125 < short)) then none
      else if masked != expectMasked then none
      else readBody masked maxLen fin opcode short strm
    | _ => none

theorem firstByte_fin (fin : Bool) (opcode : Opcode) :
    (firstByte fin opcode &&& 0x80 != 0) = fin ∧ firstByte fin opcode &&& 0x70 = 0 ∧
      BitVec.ofNat 4 (firstByte fin opcode &&& 0x0F).toNat = opcode := by
  revert fin opcode
  decide

theorem eq_firstByte {b : UInt8} (h : b &&& 0x70 = 0) :
    b = firstByte (b &&& 0x80 != 0) (BitVec.ofNat 4 (b &&& 0x0F).toNat) := by
  revert h
  refine byte_ext (P := fun b => b &&& 0x70 = 0 →
    b = firstByte (b &&& 0x80 != 0) (BitVec.ofNat 4 (b &&& 0x0F).toNat)) ?_ b
  decide +kernel

theorem eq_secondByte (b : UInt8) : b = (b &&& 0x7F) ||| maskBit (b &&& 0x80 != 0) := by
  refine byte_ext (P := fun b => b = (b &&& 0x7F) ||| maskBit (b &&& 0x80 != 0)) ?_ b
  decide +kernel

theorem low_lt (b : UInt8) : (b &&& 0x7F).toNat < 128 := by
  refine byte_ext (P := fun b => (b &&& 0x7F).toNat < 128) ?_ b
  decide +kernel

theorem secondByte_parts {short : UInt8} (h : short.toNat < 128) (mask : Bool) :
    (short ||| maskBit mask) &&& 0x7F = short ∧ ((short ||| maskBit mask) &&& 0x80 != 0) = mask := by
  revert mask h
  refine byte_ext (P := fun short => short.toNat < 128 → ∀ mask,
    (short ||| maskBit mask) &&& 0x7F = short ∧ ((short ||| maskBit mask) &&& 0x80 != 0) = mask) ?_ short
  decide +kernel

/-- The seven bits and the bytes after them that stand for a length. The reader does not ask for the
shortest form. -/
inductive LengthCode (len : Nat) : UInt8 → Bytes → Prop
  | short (h : len < 126) : LengthCode len (UInt8.ofNat len) []
  | medium (h : len < 256 ^ 2) : LengthCode len 126 (bigEndian 2 len)
  | long (h : len < 2 ^ 63) : LengthCode len 127 (bigEndian 8 len)

theorem LengthCode.short_lt {len : Nat} {short : UInt8} {ext : Bytes} (h : LengthCode len short ext) :
    short.toNat < 128 := by
  cases h with
  | short h =>
    rw [UInt8.toNat_ofNat']
    omega
  | medium => decide
  | long => decide

theorem lengthBytes_code (mask : Bool) {len : Nat} (h : len < 2 ^ 63) :
    ∃ short ext, LengthCode len short ext ∧ lengthBytes mask len = (short ||| maskBit mask) :: ext ∧
      (len ≤ 125 → short ≤ 125) := by
  unfold lengthBytes
  by_cases hshort : len < 126
  · refine ⟨_, _, .short hshort, if_pos hshort, fun hle => ?_⟩
    rw [UInt8.le_iff_toNat_le, UInt8.toNat_ofNat']
    have hbyte : (125 : UInt8).toNat = 125 := rfl
    omega
  · rw [if_neg hshort]
    by_cases hmedium : len ≤ 0xFFFF
    · exact ⟨_, _, .medium (by omega), if_pos hmedium, fun hle => by omega⟩
    · exact ⟨_, _, .long h, if_neg hmedium, fun hle => by omega⟩

theorem top_bit {bytes : Bytes} (h : bytes.length = 8) :
    bytes.headD 0 &&& 0x80 = 0 ↔ fromBigEndian bytes < 2 ^ 63 := by
  obtain ⟨b, rest, rfl⟩ := List.exists_cons_of_length_eq_add_one h
  have hrest : rest.length = 7 := by simpa using h
  have hlt := fromBigEndian_lt rest
  have hbit : b &&& 0x80 = 0 ↔ b.toNat < 128 := by
    refine byte_ext (P := fun b => b &&& 0x80 = 0 ↔ b.toNat < 128) ?_ b
    decide +kernel
  rw [List.headD_cons, hbit, fromBigEndian_cons]
  rw [hrest] at hlt ⊢
  omega

theorem ofNat_ne {len n : Nat} (h : len < n) (hn : n < 2 ^ 8) : UInt8.ofNat len ≠ UInt8.ofNat n := by
  intro heq
  have hnat := congrArg UInt8.toNat heq
  rw [UInt8.toNat_ofNat', UInt8.toNat_ofNat', Nat.mod_eq_of_lt (by omega), Nat.mod_eq_of_lt hn] at hnat
  omega

theorem lengthCode_of_readLength {short : UInt8} (hshort : short.toNat < 128) {strm rest : Stream}
    {len : Nat} (h : readLength short strm = some (len, rest)) :
    ∃ ext, LengthCode len short ext ∧ InSegment ext strm rest := by
  unfold readLength at h
  split at h
  · next h126 =>
    obtain ⟨⟨ext, rest'⟩, hread, heq⟩ := Option.map_eq_some_iff.mp h
    cases heq
    obtain ⟨hlength, hext⟩ := (readExactly_eq_some_iff (by decide)).mp hread
    have hlt := fromBigEndian_lt ext
    have hbytes := bigEndian_fromBigEndian ext
    rw [hlength] at hlt hbytes
    refine ⟨ext, ?_, hext⟩
    have hcode := LengthCode.medium hlt
    rwa [hbytes, ← h126] at hcode
  · split at h
    · next h127 =>
      obtain ⟨⟨ext, rest'⟩, hread, heq⟩ := Option.bind_eq_some_iff.mp h
      obtain ⟨hlength, hext⟩ := (readExactly_eq_some_iff (by decide)).mp hread
      split at heq
      · cases heq
      · next htop =>
        cases heq
        have hlt := (top_bit hlength).mp (by simpa using htop)
        have hbytes := bigEndian_fromBigEndian ext
        rw [hlength] at hbytes
        refine ⟨ext, ?_, hext⟩
        have hcode := LengthCode.long hlt
        rwa [hbytes, ← h127] at hcode
    · next h126 h127 =>
      cases h
      refine ⟨[], ?_, .nothing⟩
      have hlt : short.toNat < 126 := by
        have hne126 : short.toNat ≠ 126 := fun heq => h126 (UInt8.toNat_inj.mp heq)
        have hne127 : short.toNat ≠ 127 := fun heq => h127 (UInt8.toNat_inj.mp heq)
        omega
      have hcode := LengthCode.short hlt
      rwa [UInt8.ofNat_toNat] at hcode

theorem readLength_eq_some_iff {short : UInt8} (hshort : short.toNat < 128) {strm rest : Stream}
    {len : Nat} :
    readLength short strm = some (len, rest) ↔
      ∃ ext, LengthCode len short ext ∧ InSegment ext strm rest := by
  refine ⟨lengthCode_of_readLength hshort, ?_⟩
  rintro ⟨ext, hcode, hext⟩
  unfold readLength
  cases hcode with
  | short h =>
    have h126 : UInt8.ofNat len ≠ 126 := ofNat_ne h (by decide)
    have h127 : UInt8.ofNat len ≠ 127 := ofNat_ne (Nat.lt_succ_of_lt h) (by decide)
    rw [if_neg h126, if_neg h127, UInt8.toNat_ofNat', Nat.mod_eq_of_lt (by omega),
      inSegment_nil_iff.mp hext]
  | medium h =>
    have hread := (readExactly_eq_some_iff (by decide)).mpr ⟨length_bigEndian 2 len, hext⟩
    rw [if_pos rfl, hread, Option.map_some, fromBigEndian_bigEndian h]
  | long h =>
    have hread := (readExactly_eq_some_iff (by decide)).mpr ⟨length_bigEndian 8 len, hext⟩
    have hvalue : fromBigEndian (bigEndian 8 len) = len := fromBigEndian_bigEndian (by omega)
    have htop : ¬ (bigEndian 8 len).headD 0 &&& 0x80 ≠ 0 := by
      rw [not_not, top_bit (length_bigEndian 8 len), hvalue]
      exact h
    rw [if_neg (by decide), if_pos rfl, hread, Option.bind_some, if_neg htop, hvalue]

/-- The bytes of a frame, with a length that takes `short` and `ext`. -/
def frameText (key : Option MaskKey) (f : Frame) (short : UInt8) (ext : Bytes) : Bytes :=
  firstByte f.fin f.opcode :: (short ||| maskBit key.isSome) :: (ext ++ maskedPayload key f.payload)

def ControlKept (f : Frame) (short : UInt8) : Prop :=
  f.opcode.isControl = true → f.fin = true ∧ short ≤ 125

structure Sendable (maxLen : Nat) (f : Frame) : Prop where
  bounded : f.payload.length ≤ maxLen
  representable : f.payload.length < 2 ^ 63
  control : f.opcode.isControl = true → f.fin = true ∧ f.payload.length ≤ 125

def maskBytes (key : Option MaskKey) : Bytes := (key.map MaskKey.bytes).getD []

/-- A frame at the front of a stream: its payload may come in segments, but its header, its length and
its mask lie each in one. -/
inductive FrameOn (key : Option MaskKey) (f : Frame) (short : UInt8) (ext : Bytes) :
    Stream → Stream → Prop
  | intro {strm s₀ s₁ s₂ rest : Stream}
    (header : InSegment [firstByte f.fin f.opcode, short ||| maskBit key.isSome] strm s₀)
    (length : InSegment ext s₀ s₁) (mask : InSegment (maskBytes key) s₁ s₂)
    (payload : InSegments (unmask key f.payload) s₂ rest) : FrameOn key f short ext strm rest

theorem readMaskKey_eq_some_iff {masked : Bool} {strm rest : Stream} {key : Option MaskKey} :
    readMaskKey masked strm = some (key, rest) ↔
      key.isSome = masked ∧ InSegment (maskBytes key) strm rest := by
  cases masked with
  | false =>
    constructor
    · intro h
      cases h
      exact ⟨rfl, .nothing⟩
    · rintro ⟨hnone, h⟩
      have hkey : key = none := by simpa using hnone
      rw [hkey] at h ⊢
      rw [inSegment_nil_iff.mp h]
      rfl
  | true =>
    rw [readMaskKey, if_pos rfl]
    constructor
    · intro h
      obtain ⟨⟨bytes, rest'⟩, hread, heq⟩ := Option.bind_eq_some_iff.mp h
      obtain ⟨hlength, hbytes⟩ := (readExactly_eq_some_iff (by decide)).mp hread
      dsimp only at heq
      split at heq
      · cases heq
        exact ⟨rfl, hbytes⟩
      · cases heq
    · rintro ⟨hsome, h⟩
      obtain ⟨key, rfl⟩ := Option.isSome_iff_exists.mp hsome
      have hread := (readExactly_eq_some_iff (by decide : 4 ≠ 0)).mpr ⟨rfl, h⟩
      rw [hread]
      rfl

theorem maskedPayload_eq (key : Option MaskKey) (data : Bytes) :
    maskedPayload key data = maskBytes key ++ unmask key data := by
  cases key <;> rfl

theorem FrameOn.flatten {key : Option MaskKey} {f : Frame} {short : UInt8} {ext : Bytes}
    {strm rest : Stream} (h : FrameOn key f short ext strm rest) :
    strm.flatten = frameText key f short ext ++ rest.flatten := by
  obtain ⟨header, length, mask, payload⟩ := h
  rw [header.flatten, length.flatten, mask.flatten, payload.flatten, frameText, maskedPayload_eq]
  simp

theorem frameOn_inOneSegment (key : Option MaskKey) (f : Frame) (short : UInt8) (ext more : Bytes) :
    FrameOn key f short ext (inOneSegment (frameText key f short ext ++ more)) (inOneSegment more) := by
  have htext : frameText key f short ext ++ more =
      [firstByte f.fin f.opcode, short ||| maskBit key.isSome] ++
        (ext ++ (maskBytes key ++ (unmask key f.payload ++ more))) := by
    rw [frameText, maskedPayload_eq]
    simp
  rw [htext]
  exact ⟨inSegment_inOneSegment _ _, inSegment_inOneSegment _ _, inSegment_inOneSegment _ _,
    inSegments_inOneSegment _ _⟩

theorem unmask_unmask (key : Option MaskKey) (data : Bytes) : unmask key (unmask key data) = data := by
  cases key with
  | none => rfl
  | some key => exact maskWith_maskWith key.at' data

@[simp] theorem length_unmask (key : Option MaskKey) (data : Bytes) :
    (unmask key data).length = data.length := by
  cases key <;> simp [unmask]

theorem readBody_eq_some_iff {masked : Bool} {maxLen : Nat} {fin : Bool} {opcode : Opcode}
    {short : UInt8} (hshort : short.toNat < 128) {strm rest : Stream} {f : Frame} :
    readBody masked maxLen fin opcode short strm = some (f, rest) ↔
      f.fin = fin ∧ f.opcode = opcode ∧ f.payload.length ≤ maxLen ∧
        ∃ key ext s₁ s₂, key.isSome = masked ∧ LengthCode f.payload.length short ext ∧
          InSegment ext strm s₁ ∧ InSegment (maskBytes key) s₁ s₂ ∧
          InSegments (unmask key f.payload) s₂ rest := by
  unfold readBody
  constructor
  · intro h
    obtain ⟨⟨len, s₁⟩, hlen, hrest⟩ := Option.bind_eq_some_iff.mp h
    obtain ⟨hmax, hrest⟩ := Option.ite_none_left_eq_some.mp hrest
    obtain ⟨⟨key, s₂⟩, hkey, hrest⟩ := Option.bind_eq_some_iff.mp hrest
    obtain ⟨⟨payload, s₃⟩, hpayload, hrest⟩ := Option.map_eq_some_iff.mp hrest
    cases hrest
    obtain ⟨ext, hcode, hext⟩ := (readLength_eq_some_iff hshort).mp hlen
    obtain ⟨hmasked, hmask⟩ := readMaskKey_eq_some_iff.mp hkey
    obtain ⟨rfl, hspread⟩ := (readUntil_eq_some_iff (Nat.le_refl len)).mp hpayload
    refine ⟨rfl, rfl, ?_, key, ext, s₁, s₂, hmasked, ?_, hext, hmask, ?_⟩
    · rw [length_unmask]
      omega
    · rwa [length_unmask]
    · rwa [unmask_unmask]
  · rintro ⟨rfl, rfl, hmax, key, ext, s₁, s₂, hmasked, hcode, hext, hmask, hpayload⟩
    have hlen := (readLength_eq_some_iff hshort).mpr ⟨ext, hcode, hext⟩
    have hkey := readMaskKey_eq_some_iff.mpr ⟨hmasked, hmask⟩
    have hread := (readUntil_eq_some_iff (Nat.le_refl f.payload.length)).mpr
      ⟨length_unmask key f.payload, hpayload⟩
    have hfits : ¬ maxLen < f.payload.length := by omega
    rw [hlen, Option.bind_some]
    dsimp only
    rw [if_neg hfits, hkey, Option.bind_some]
    dsimp only
    rw [hread, Option.map_some, unmask_unmask]

/-- The reader takes exactly the frames within the limit, in any form of their length, with the mask
that is expected, whose parts before the payload are not split. -/
theorem readWebsocketFrame_eq_some_iff {expectMasked : Bool} {maxLen : Nat} {strm rest : Stream}
    {f : Frame} :
    readWebsocketFrame expectMasked maxLen strm = some (f, rest) ↔
      f.payload.length ≤ maxLen ∧ ∃ key short ext, key.isSome = expectMasked ∧
        LengthCode f.payload.length short ext ∧ ControlKept f short ∧
        FrameOn key f short ext strm rest := by
  unfold readWebsocketFrame
  constructor
  · intro h
    obtain ⟨⟨header, s₀⟩, hread, h⟩ := Option.bind_eq_some_iff.mp h
    obtain ⟨hlength, hheader⟩ := (readExactly_eq_some_iff (by decide)).mp hread
    obtain ⟨b0, b1, rfl⟩ := List.length_eq_two.mp hlength
    dsimp only at h
    obtain ⟨hrsv, h⟩ := Option.ite_none_left_eq_some.mp h
    obtain ⟨hcontrol, h⟩ := Option.ite_none_left_eq_some.mp h
    obtain ⟨hmask, h⟩ := Option.ite_none_left_eq_some.mp h
    obtain ⟨hfin, hop, hmax, key, ext, s₁, s₂, hmasked, hcode, hext, hkey, hpayload⟩ :=
      (readBody_eq_some_iff (low_lt b1)).mp h
    have hexpect : (b1 &&& 0x80 != 0) = expectMasked := by simpa using hmask
    have hfirst := eq_firstByte (b := b0) (by simpa using hrsv)
    have hsecond := eq_secondByte b1
    rw [← hfin, ← hop] at hfirst
    rw [← hmasked] at hsecond
    refine ⟨hmax, key, b1 &&& 0x7F, ext, hmasked.trans hexpect, hcode, fun hc => ?_, ?_⟩
    · rw [← hop, ← hfin, hc] at hcontrol
      simpa using hcontrol
    · rw [hfirst, hsecond] at hheader
      exact ⟨hheader, hext, hkey, hpayload⟩
  · rintro ⟨hmax, key, short, ext, hmasked, hcode, hcontrol, hheader, hext, hmask, hpayload⟩
    have hshort := hcode.short_lt
    obtain ⟨hfin, hrsv, hop⟩ := firstByte_fin f.fin f.opcode
    obtain ⟨hlow, hbit⟩ := secondByte_parts hshort key.isSome
    have hread := (readExactly_eq_some_iff (by decide : 2 ≠ 0)).mpr ⟨rfl, hheader⟩
    have hbody : readBody key.isSome maxLen f.fin f.opcode short _ = some (f, rest) :=
      (readBody_eq_some_iff hshort).mpr
        ⟨rfl, rfl, hmax, key, ext, _, _, rfl, hcode, hext, hmask, hpayload⟩
    have hkept : ¬ (f.opcode.isControl && (!f.fin || decide (125 < short))) = true := by
      rw [Bool.and_eq_true]
      rintro ⟨hc, hbad⟩
      obtain ⟨hwhole, hle⟩ := hcontrol hc
      simp only [hwhole, Bool.not_true, Bool.false_or, decide_eq_true_eq] at hbad
      exact absurd hle (UInt8.not_le.mpr hbad)
    rw [hread, Option.bind_some]
    simp only [hfin, hrsv, hop, hlow, hbit, ne_eq, not_true_eq_false, if_false]
    rw [if_neg hkept, if_neg (by simp [hmasked]), hbody]

theorem writeWebsocketFrame_text {maxLen : Nat} {f : Frame} (h : Sendable maxLen f)
    (key : Option MaskKey) :
    ∃ short ext, LengthCode f.payload.length short ext ∧ ControlKept f short ∧
      writeWebsocketFrame key f = frameText key f short ext := by
  obtain ⟨short, ext, hcode, hbytes, hle⟩ := lengthBytes_code key.isSome h.representable
  refine ⟨short, ext, hcode, fun hc => ?_, ?_⟩
  · exact ⟨(h.control hc).1, hle (h.control hc).2⟩
  · rw [writeWebsocketFrame, hbytes, frameText]
    simp

theorem read_write {maxLen : Nat} {f : Frame} (h : Sendable maxLen f) (key : Option MaskKey)
    (rest : Bytes) :
    readWebsocketFrame key.isSome maxLen (inOneSegment (writeWebsocketFrame key f ++ rest)) =
      some (f, inOneSegment rest) := by
  obtain ⟨short, ext, hcode, hcontrol, hbytes⟩ := writeWebsocketFrame_text h key
  apply readWebsocketFrame_eq_some_iff.mpr
  refine ⟨h.bounded, key, short, ext, rfl, hcode, hcontrol, ?_⟩
  rw [hbytes]
  exact frameOn_inOneSegment key f short ext rest

/-- The format from both ends: what the reader takes, of any segments, and that it takes what the writer
writes, to the last byte. -/
theorem websocketFrame_exact (maxLen : Nat) (f : Frame) :
    (∀ expectMasked strm rest, readWebsocketFrame expectMasked maxLen strm = some (f, rest) ↔
      f.payload.length ≤ maxLen ∧ ∃ key short ext, key.isSome = expectMasked ∧
        LengthCode f.payload.length short ext ∧ ControlKept f short ∧
        FrameOn key f short ext strm rest) ∧
    (Sendable maxLen f → ∀ key rest,
      readWebsocketFrame key.isSome maxLen (inOneSegment (writeWebsocketFrame key f ++ rest)) =
        some (f, inOneSegment rest)) ∧
    ∀ expectMasked strm rest, readWebsocketFrame expectMasked maxLen strm = some (f, rest) →
      ∃ key short ext, strm.flatten = frameText key f short ext ++ rest.flatten := by
  refine ⟨fun expectMasked strm rest => readWebsocketFrame_eq_some_iff,
    fun h key rest => read_write h key rest, fun expectMasked strm rest hread => ?_⟩
  obtain ⟨-, key, short, ext, -, -, -, hon⟩ := readWebsocketFrame_eq_some_iff.mp hread
  exact ⟨key, short, ext, hon.flatten⟩

end Quackapi.WebSocket
