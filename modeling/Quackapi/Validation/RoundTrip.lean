import Quackapi.Validation.Reader

/-! Round trips of JSON documents. What the writer makes of a node is the shortest text of the node but
for its booleans, for which it writes nothing; so it is read back as the node where there are none, and
only there. -/

namespace Quackapi.Validation
open Params

theorem hexValue_digitChar : ∀ d < 16, hexValue (Nat.digitChar d) = some d := by decide

theorem appendUtf8_toNat {c : Char} (h : c.toNat < 0x20) : appendUtf8 c.toNat = [c] := by
  rw [appendUtf8, if_pos (by omega), Char.ofNat_toNat]

theorem readUnicode_control {c : Char} (h : c.toNat < 0x20) (s : Str) :
    readUnicode ('0' :: '0' :: Nat.digitChar (c.toNat / 16) :: Nat.digitChar (c.toNat % 16) :: s) =
      some ([c], s) := by
  have hzero : hexValue '0' = some 0 := by decide
  have hhigh := hexValue_digitChar (c.toNat / 16) (by omega)
  have hlow := hexValue_digitChar (c.toNat % 16) (by omega)
  have hcode : ((0 * 16 + 0) * 16 + c.toNat / 16) * 16 + c.toNat % 16 = c.toNat := by omega
  have hescape : parseUnicodeEscape
      ('0' :: '0' :: Nat.digitChar (c.toNat / 16) :: Nat.digitChar (c.toNat % 16) :: s) =
        some (c.toNat, s) := by
    simp only [parseUnicodeEscape, hzero, hhigh, hlow, Option.bind_eq_bind, Option.bind_some, hcode]
    rfl
  rw [readUnicode, hescape]
  dsimp only [Option.bind_eq_bind, Option.bind_some]
  rw [if_neg (by omega), appendUtf8_toNat h]
  rfl

theorem readString_escapeChar (fuel : Nat) (c : Char) (s : Str) :
    readString (fuel + 1) (jsonEscapeChar c ++ s) =
      (readString fuel s).map fun r => (c :: r.1, r.2) := by
  have hescape : ∀ e : Char, ∀ rest, readEscape (e :: rest) = some ([c], s) →
      readString (fuel + 1) ('\\' :: e :: rest) =
        (readString fuel s).map fun r => (c :: r.1, r.2) := by
    intro e rest h
    rw [readString, if_neg (by decide), if_neg (by decide), if_pos rfl, h]
    dsimp only [Option.bind_eq_bind, Option.bind_some]
    rcases readString fuel s with _ | r
    · rfl
    · rfl
  rcases jsonEscapeChar_cases c with ⟨e, he, htext⟩ | ⟨-, -, hcontrol, htext⟩ |
    ⟨hquote, hbackslash, hcontrol, htext⟩
  · rw [htext]
    refine hescape e s ?_
    simp only [letterEscapes, List.mem_cons, Prod.mk.injEq, List.not_mem_nil, or_false] at he
    rcases he with ⟨rfl, rfl⟩ | ⟨rfl, rfl⟩ | ⟨rfl, rfl⟩ | ⟨rfl, rfl⟩ | ⟨rfl, rfl⟩ | ⟨rfl, rfl⟩ |
      ⟨rfl, rfl⟩ <;> rfl
  · rw [htext, unicodeEscape_eq]
    exact hescape 'u' _ (readUnicode_control hcontrol s)
  · rw [htext, List.singleton_append, readString, if_neg hquote, if_neg hcontrol, if_neg hbackslash]
    rcases readString fuel s with _ | r
    · rfl
    · rfl

theorem jsonEscape_cons (c : Char) (s : Str) : jsonEscape (c :: s) = jsonEscapeChar c ++ jsonEscape s :=
  List.flatMap_cons

theorem length_le_jsonEscape (s : Str) : s.length ≤ (jsonEscape s).length := by
  induction s with
  | nil => exact Nat.le_refl _
  | cons c s ih =>
    have hpos := List.length_pos_iff.mpr (jsonEscapeChar_ne_nil c)
    rw [jsonEscape_cons, List.length_append, List.length_cons]
    omega

theorem readString_escape {fuel : Nat} {s : Str} (h : s.length < fuel) (rest : Str) :
    readString fuel (jsonEscape s ++ '"' :: rest) = some (s, rest) := by
  induction s generalizing fuel with
  | nil =>
    obtain ⟨fuel, rfl⟩ := Nat.exists_eq_succ_of_ne_zero (Nat.ne_of_gt h)
    rfl
  | cons c s ih =>
    obtain ⟨fuel, rfl⟩ := Nat.exists_eq_succ_of_ne_zero (Nat.ne_of_gt (Nat.zero_lt_of_lt h))
    rw [jsonEscape_cons, List.append_assoc, readString_escapeChar, ih (Nat.lt_of_succ_lt_succ h)]
    rfl

theorem consume_cons {c : Char} (hc : isJsonSpace c = false) (s : Str) :
    consume c (c :: s) = some s := by
  have hskip : skipWhitespace (c :: s) = c :: s := by
    rw [skipWhitespace, List.dropWhile_cons, hc]
    rfl
  rw [consume, hskip]
  exact if_pos rfl

theorem parseString_jsonString (s rest : Str) :
    parseString (jsonString s ++ rest) = some (s, rest) := by
  have htext : jsonString s ++ rest = '"' :: (jsonEscape s ++ '"' :: rest) := by
    rw [jsonString, List.append_assoc, List.append_assoc]
    rfl
  have hfuel : s.length < (jsonEscape s ++ '"' :: rest).length := by
    have hle := length_le_jsonEscape s
    rw [List.length_append, List.length_cons]
    omega
  rw [htext, parseString, consume_cons (by decide)]
  exact readString_escape hfuel rest

theorem jsonEscape_high {n : Nat} (hlow : 0x80 ≤ n) (hhigh : n < 2 ^ 8) :
    jsonEscapeChar (Char.ofNat n) = [Char.ofNat n] := by
  have hnat : (Char.ofNat n).toNat = n := by
    rw [Char.ofNat, dif_pos (.inl (by omega))]
    rfl
  have hne : ∀ d : Char, d.toNat < 0x80 → Char.ofNat n ≠ d := by
    rintro d hd rfl
    omega
  exact jsonEscape_plain (hne _ (by decide)) (hne _ (by decide)) (by omega)

theorem appendUtf8_length (codepoint : Nat) (h : codepoint < 2 ^ 21) :
    (jsonEscape (appendUtf8 codepoint)).length ≤ 6 := by
  have hlead : ∀ lead x, 0x80 ≤ lead → lead < 2 ^ 8 → x < 2 ^ 8 →
      jsonEscapeChar (Char.ofNat (lead ||| x)) = [Char.ofNat (lead ||| x)] := by
    intro lead x hle hlt hx
    exact jsonEscape_high (Nat.le_trans hle Nat.left_le_or) (Nat.or_lt_two_pow hlt hx)
  have htail : ∀ x, jsonEscapeChar (Char.ofNat (0x80 ||| (x &&& 0x3f))) =
      [Char.ofNat (0x80 ||| (x &&& 0x3f))] := by
    intro x
    exact hlead 0x80 _ (Nat.le_refl _) (by decide) (Nat.and_lt_two_pow _ (by decide))
  unfold appendUtf8
  split
  · rw [jsonEscape_cons, List.length_append]
    exact jsonEscapeChar_length_le _
  split
  · rw [jsonEscape_cons, jsonEscape_cons, htail, hlead _ _ (by decide) (by decide)
      (by rw [Nat.shiftRight_eq_div_pow]; omega)]
    exact Nat.le_of_ble_eq_true rfl
  split
  · rw [jsonEscape_cons, jsonEscape_cons, jsonEscape_cons, htail, htail,
      hlead _ _ (by decide) (by decide) (by rw [Nat.shiftRight_eq_div_pow]; omega)]
    exact Nat.le_of_ble_eq_true rfl
  · rw [jsonEscape_cons, jsonEscape_cons, jsonEscape_cons, jsonEscape_cons, htail, htail, htail,
      hlead _ _ (by decide) (by decide) (by rw [Nat.shiftRight_eq_div_pow]; omega)]
    exact Nat.le_of_ble_eq_true rfl

theorem hexValue_lt {c : Char} {d : Nat} (h : hexValue c = some d) : d < 16 := by
  have hnine : '9'.toNat = 57 := rfl
  have hf : 'f'.toNat = 102 := rfl
  have hF : 'F'.toNat = 70 := rfl
  unfold hexValue at h
  split_ifs at h with hdigit hlower hupper
  · cases h
    have hle : c.toNat ≤ '9'.toNat := hdigit.2
    have hzero : '0'.toNat = 48 := rfl
    omega
  · cases h
    have hle : c.toNat ≤ 'f'.toNat := hlower.2
    have ha : 'a'.toNat = 97 := rfl
    omega
  · cases h
    have hle : c.toNat ≤ 'F'.toNat := hupper.2
    have hA : 'A'.toNat = 65 := rfl
    omega

theorem parseUnicodeEscape_spec {s r : Str} {codepoint : Nat}
    (h : parseUnicodeEscape s = some (codepoint, r)) :
    codepoint < 2 ^ 16 ∧ s.length = r.length + 4 := by
  unfold parseUnicodeEscape at h
  split at h
  · next a b c d rest =>
    simp only [Option.bind_eq_bind, Option.bind_eq_some_iff] at h
    obtain ⟨a, ha, b, hb, c, hc, d, hd, h⟩ := h
    cases h
    have ha := hexValue_lt ha
    have hb := hexValue_lt hb
    have hc := hexValue_lt hc
    have hd := hexValue_lt hd
    exact ⟨by omega, rfl⟩
  · cases h

theorem readUnicode_length {s text r : Str} (h : readUnicode s = some (text, r)) :
    (jsonEscape text).length + r.length ≤ s.length + 2 ∧ r.length ≤ s.length := by
  unfold readUnicode at h
  simp only [Option.bind_eq_bind, Option.bind_eq_some_iff] at h
  obtain ⟨⟨codepoint, s'⟩, hcode, h⟩ := h
  obtain ⟨hlt, hlength⟩ := parseUnicodeEscape_spec hcode
  dsimp only at h
  split at h
  · next hpair =>
    simp only [Option.bind_eq_some_iff] at h
    obtain ⟨⟨low, s''⟩, hlow, h⟩ := h
    obtain ⟨hlowLt, hlowLength⟩ := parseUnicodeEscape_spec hlow
    dsimp only at h
    split at h
    · cases h
    · obtain ⟨rfl, rfl⟩ := Prod.mk.injEq .. ▸ Option.some_inj.mp h
      have hshift : (codepoint - 0xd800) <<< 10 = (codepoint - 0xd800) * 2 ^ 10 :=
        Nat.shiftLeft_eq _ _
      have htext := appendUtf8_length (0x10000 + ((codepoint - 0xd800) <<< 10) + (low - 0xdc00))
        (by omega)
      rw [List.length_drop] at hlowLength
      exact ⟨by omega, by omega⟩
  · obtain ⟨rfl, rfl⟩ := Prod.mk.injEq .. ▸ Option.some_inj.mp h
    have htext := appendUtf8_length codepoint (by omega)
    exact ⟨by omega, by omega⟩

theorem readEscape_length {s text r : Str} (h : readEscape s = some (text, r)) :
    (jsonEscape text).length + r.length ≤ s.length + 1 ∧ r.length ≤ s.length := by
  cases s with
  | nil => cases h
  | cons escaped s =>
    have hone : ∀ c : Char, (jsonEscape [c]).length ≤ 2 → some ([c], s) = some (text, r) →
        (jsonEscape text).length + r.length ≤ (escaped :: s).length + 1 ∧
          r.length ≤ (escaped :: s).length := by
      intro c hc heq
      cases heq
      rw [List.length_cons]
      exact ⟨by omega, by omega⟩
    rw [readEscape] at h
    split at h
    · next hself =>
      refine hone escaped ?_ h
      rcases hself with rfl | rfl | rfl <;> decide
    split at h
    · exact hone _ (by decide) h
    split at h
    · exact hone _ (by decide) h
    split at h
    · exact hone _ (by decide) h
    split at h
    · exact hone _ (by decide) h
    split at h
    · exact hone _ (by decide) h
    split at h
    · have hunicode := readUnicode_length h
      rw [List.length_cons]
      exact ⟨hunicode.1, by omega⟩
    · cases h

theorem jsonEscape_append (s s' : Str) : jsonEscape (s ++ s') = jsonEscape s ++ jsonEscape s' :=
  List.flatMap_append

theorem readString_length {fuel : Nat} {s text r : Str} (h : readString fuel s = some (text, r)) :
    (jsonEscape text).length + 1 + r.length ≤ s.length := by
  induction fuel generalizing s text r with
  | zero => cases h
  | succ fuel ih =>
    cases s with
    | nil => cases h
    | cons c s =>
      rw [List.length_cons]
      unfold readString at h
      split at h
      · cases h
        exact Nat.le_of_eq (by rw [jsonEscape, List.flatMap_nil, List.length_nil]; omega)
      split at h
      · cases h
      split at h
      · simp only [Option.bind_eq_bind, Option.bind_eq_some_iff] at h
        obtain ⟨⟨first, s'⟩, hfirst, ⟨more, r'⟩, hmore, h⟩ := h
        dsimp only at hmore h
        cases h
        have hescape := (readEscape_length hfirst).1
        have hrest := ih hmore
        rw [jsonEscape_append, List.length_append]
        omega
      · next hquote hcontrol hbackslash =>
        simp only [Option.bind_eq_bind, Option.bind_eq_some_iff] at h
        obtain ⟨⟨more, r'⟩, hmore, h⟩ := h
        dsimp only at h
        cases h
        have hrest := ih hmore
        rw [jsonEscape_cons, jsonEscape_plain hquote hbackslash hcontrol, List.length_append,
          List.length_singleton]
        omega

theorem skipWhitespace_length (s : Str) : (skipWhitespace s).length ≤ s.length :=
  List.length_dropWhile_le _ _

theorem consume_length {c : Char} {s r : Str} (h : consume c s = some r) :
    r.length + 1 ≤ s.length := by
  have hle := skipWhitespace_length s
  unfold consume at h
  split at h
  · next c' s' hs =>
    rw [Option.ite_none_right_eq_some] at h
    obtain ⟨-, h⟩ := h
    cases h
    rw [hs, List.length_cons] at hle
    exact hle
  · cases h

theorem parseString_length {s text r : Str} (h : parseString s = some (text, r)) :
    (jsonString text).length + r.length ≤ s.length := by
  unfold parseString at h
  rw [Option.bind_eq_bind, Option.bind_eq_some_iff] at h
  obtain ⟨s', hs', h⟩ := h
  have hconsume := consume_length hs'
  have hread := readString_length h
  rw [jsonString, List.length_append, List.length_append]
  have hquote : "\"".toList.length = 1 := rfl
  omega

section
variable {α : Type} {item : Str → Option (α × Str)} {closing : Char} {write : α → Str}

/-- Texts with commas between them; with `first`, none before the first one. -/
def joined (first : Bool) : List Str → Str
  | [] => []
  | text :: texts => comma first ++ text ++ joined false texts

/-- What stands behind an item or at the end of a text. -/
def EndsValue (rest : Str) : Prop := ∀ c t, rest = c :: t → c = ',' ∨ c = ']' ∨ c = '\x7d'

def total (extra : α → Nat) : List α → Nat
  | [] => 0
  | x :: xs => extra x + total extra xs

theorem length_joined_le (first : Bool) (texts : List Str) :
    (joined first texts).length ≤ 1 + (joined true texts).length := by
  cases texts with
  | nil => exact Nat.zero_le _
  | cons text texts =>
    have hcomma : (comma first).length ≤ 1 := by
      cases first <;> exact Nat.le_of_ble_eq_true rfl
    rw [joined, joined, List.length_append, List.length_append, List.length_append,
      List.length_append]
    omega

theorem parseItems_length {extra : α → Nat}
    (hitem : ∀ s x r, item s = some (x, r) → (write x).length + extra x + r.length ≤ s.length)
    {fuel : Nat} {s r : Str} {xs : List α} (h : parseItems item closing fuel s = some (xs, r)) :
    (joined true (xs.map write)).length + total extra xs + 1 + r.length ≤ s.length := by
  induction fuel generalizing s xs r with
  | zero => cases h
  | succ fuel ih =>
    unfold parseItems at h
    rw [Option.bind_eq_bind, Option.bind_eq_some_iff] at h
    obtain ⟨⟨x, s'⟩, hx, h⟩ := h
    have hfirst := hitem s x s' hx
    have hskip := skipWhitespace_length s'
    dsimp only at h
    split at h
    · cases h
    next c t ht =>
    rw [ht, List.length_cons] at hskip
    split at h
    · cases h
      simp only [List.map_cons, List.map_nil, joined, total, comma, if_true, List.nil_append,
        List.append_nil]
      omega
    split at h
    · rw [Option.bind_eq_bind, Option.bind_eq_some_iff] at h
      obtain ⟨⟨more, r'⟩, hmore, h⟩ := h
      cases h
      have hrest := ih hmore
      have hjoined := length_joined_le false (more.map write)
      simp only [List.map_cons, joined, total, comma, if_true, List.nil_append, List.length_append]
      omega
    · cases h

theorem parseItems_fuel (hitem : ∀ s x r, item s = some (x, r) → r.length ≤ s.length)
    (hnil : item [] = none) {fuel : Nat} {s : Str} (h : s.length ≤ fuel) :
    parseItems item closing (fuel + 1) s = parseItems item closing fuel s := by
  induction fuel generalizing s with
  | zero =>
    rw [List.length_eq_zero_iff.mp (Nat.le_zero.mp h), parseItems, parseItems, hnil]
    rfl
  | succ fuel ih =>
    rw [parseItems, parseItems]
    rcases hx : item s with _ | ⟨x, s'⟩
    · rfl
    · have hlength := hitem s x s' hx
      have hskip := skipWhitespace_length s'
      dsimp only [Option.bind_eq_bind, Option.bind_some]
      rcases hs : skipWhitespace s' with _ | ⟨c, r⟩
      · rfl
      · rw [hs, List.length_cons] at hskip
        dsimp only
        rw [ih (by omega)]

theorem parseSequence_length {extra : α → Nat} {opening : Char}
    (hitem : ∀ s x r, item s = some (x, r) → (write x).length + extra x + r.length ≤ s.length)
    {s r : Str} {xs : List α} (h : parseSequence item opening closing s = some (xs, r)) :
    (joined true (xs.map write)).length + total extra xs + 2 + r.length ≤ s.length := by
  unfold parseSequence at h
  rw [Option.bind_eq_bind, Option.bind_eq_some_iff] at h
  obtain ⟨s', hs', h⟩ := h
  have hconsume := consume_length hs'
  have hskip := skipWhitespace_length s'
  split at h
  · cases h
  next c t ht =>
  rw [ht, List.length_cons] at hskip
  split at h
  · cases h
    simp only [List.map_nil, joined, total, List.length_nil]
    omega
  · have hitems := parseItems_length hitem h
    rw [List.length_cons] at hitems
    omega

theorem eq_zero_of_total {extra : α → Nat} {xs : List α} (h : total extra xs = 0) {x : α}
    (hx : x ∈ xs) : extra x = 0 := by
  induction xs with
  | nil => cases hx
  | cons y ys ih =>
    rw [total] at h
    rcases List.mem_cons.mp hx with rfl | hys
    · omega
    · exact ih (by omega) hys

theorem parseItems_mem {fuel : Nat} {s r : Str} {xs : List α}
    (h : parseItems item closing fuel s = some (xs, r)) {x : α} (hx : x ∈ xs) :
    ∃ s' r', item s' = some (x, r') := by
  induction fuel generalizing s xs r with
  | zero => cases h
  | succ fuel ih =>
    unfold parseItems at h
    rw [Option.bind_eq_bind, Option.bind_eq_some_iff] at h
    obtain ⟨⟨first, s'⟩, hfirst, h⟩ := h
    dsimp only at h
    split at h
    · cases h
    split at h
    · cases h
      rw [List.mem_singleton.mp hx]
      exact ⟨s, s', hfirst⟩
    split at h
    · rw [Option.bind_eq_bind, Option.bind_eq_some_iff] at h
      obtain ⟨⟨more, r'⟩, hmore, h⟩ := h
      cases h
      rcases List.mem_cons.mp hx with rfl | hx
      · exact ⟨s, s', hfirst⟩
      · exact ih hmore hx
    · cases h

theorem parseSequence_mem {opening : Char} {s r : Str} {xs : List α}
    (h : parseSequence item opening closing s = some (xs, r)) {x : α} (hx : x ∈ xs) :
    ∃ s' r', item s' = some (x, r') := by
  unfold parseSequence at h
  rw [Option.bind_eq_bind, Option.bind_eq_some_iff] at h
  obtain ⟨s', -, h⟩ := h
  split at h
  · cases h
  split at h
  · cases h
    cases hx
  · exact parseItems_mem h hx

/-- The item is read back from its text, whatever ends it. -/
structure ReadsBack (item : Str → Option (α × Str)) (write : α → Str) (x : α) : Prop where
  read : ∀ rest, EndsValue rest → item (write x ++ rest) = some (x, rest)
  starts : ∃ c t, write x = c :: t ∧ isJsonSpace c = false ∧ c ≠ ']' ∧ c ≠ '\x7d'

theorem skipWhitespace_of_not {c : Char} (hc : isJsonSpace c = false) (s : Str) :
    skipWhitespace (c :: s) = c :: s := by
  rw [skipWhitespace, List.dropWhile_cons, hc]
  rfl

def IsClosing (c : Char) : Prop := c = ']' ∨ c = '\x7d'

theorem IsClosing.not_space (h : IsClosing closing) : isJsonSpace closing = false := by
  rcases h with rfl | rfl <;> decide

theorem IsClosing.endsValue (h : IsClosing closing) (rest : Str) : EndsValue (closing :: rest) := by
  rintro c t heq
  rw [← List.head_eq_of_cons_eq heq]
  exact .inr h

theorem parseItems_joined (hclosing : IsClosing closing) {xs : List α} (hne : xs ≠ [])
    (hread : ∀ x ∈ xs, ReadsBack item write x) {fuel : Nat} (hfuel : xs.length ≤ fuel) (rest : Str) :
    parseItems item closing fuel (joined true (xs.map write) ++ closing :: rest) =
      some (xs, rest) := by
  induction xs generalizing fuel with
  | nil => exact absurd rfl hne
  | cons x more ih =>
    rw [List.length_cons] at hfuel
    obtain ⟨fuel, rfl⟩ : ∃ n, fuel = n + 1 := ⟨fuel - 1, by omega⟩
    have hx := hread x List.mem_cons_self
    cases more with
    | nil =>
      have htext : joined true ([x].map write) ++ closing :: rest = write x ++ closing :: rest := by
        simp only [List.map_cons, List.map_nil, joined, comma, if_true, List.nil_append,
          List.append_nil]
      rw [htext, parseItems, hx.read _ (hclosing.endsValue rest)]
      dsimp only [Option.bind_eq_bind, Option.bind_some]
      rw [skipWhitespace_of_not hclosing.not_space]
      dsimp only
      rw [if_pos rfl]
      rfl
    | cons y zs =>
      have htext : joined true ((x :: y :: zs).map write) ++ closing :: rest =
          write x ++ ',' :: (joined true ((y :: zs).map write) ++ closing :: rest) := by
        simp only [List.map_cons, joined, comma, if_true, Bool.false_eq_true, if_false,
          List.nil_append, List.append_assoc, List.cons_append]
      have hends : EndsValue (',' :: (joined true ((y :: zs).map write) ++ closing :: rest)) := by
        rintro c t heq
        exact .inl (List.head_eq_of_cons_eq heq).symm
      have hcomma : ',' ≠ closing := by
        rcases hclosing with rfl | rfl <;> decide
      have hrest := ih (List.cons_ne_nil _ _) (fun z hz => hread z (List.mem_cons_of_mem _ hz))
        (Nat.le_of_succ_le_succ hfuel)
      rw [htext, parseItems, hx.read _ hends]
      dsimp only [Option.bind_eq_bind, Option.bind_some]
      rw [skipWhitespace_of_not (by decide)]
      dsimp only
      rw [if_neg hcomma, if_pos rfl, hrest]
      rfl

theorem length_le_joined (texts : List Str) : texts.length ≤ (joined false texts).length := by
  induction texts with
  | nil => exact Nat.le_refl _
  | cons text texts ih =>
    have hcomma : (comma false).length = 1 := rfl
    rw [joined, List.length_append, List.length_append, List.length_cons]
    omega

theorem parseSequence_joined {opening : Char} (hopening : isJsonSpace opening = false)
    (hclosing : IsClosing closing) {xs : List α} (hread : ∀ x ∈ xs, ReadsBack item write x)
    (rest : Str) :
    parseSequence item opening closing
      (opening :: joined true (xs.map write) ++ closing :: rest) = some (xs, rest) := by
  rw [parseSequence, List.cons_append, consume_cons hopening]
  dsimp only [Option.bind_eq_bind, Option.bind_some]
  cases xs with
  | nil =>
    have htext : joined true ([].map write) ++ closing :: rest = closing :: rest := rfl
    rw [htext, skipWhitespace_of_not hclosing.not_space]
    exact if_pos rfl
  | cons x more =>
    obtain ⟨c, t, htext, hspace, hbracket, hbrace⟩ := (hread x List.mem_cons_self).starts
    have hne : c ≠ closing := by
      rcases hclosing with rfl | rfl
      · exact hbracket
      · exact hbrace
    have hlength := length_joined_le false ((x :: more).map write)
    have hcount := length_le_joined ((x :: more).map write)
    have hfuel : (x :: more).length ≤
        (joined true ((x :: more).map write) ++ closing :: rest).length := by
      have hclosed : (closing :: rest).length = rest.length + 1 := rfl
      rw [List.length_map] at hcount
      rw [List.length_append]
      omega
    have hitems := parseItems_joined hclosing (List.cons_ne_nil x more) hread hfuel rest
    obtain ⟨t', ht'⟩ : ∃ t', joined true ((x :: more).map write) ++ closing :: rest = c :: t' := by
      refine ⟨t ++ (joined false (more.map write) ++ closing :: rest), ?_⟩
      rw [List.map_cons, joined, htext, comma, if_pos rfl, List.nil_append, List.cons_append,
        List.cons_append, List.append_assoc]
    rw [ht'] at hitems ⊢
    rw [skipWhitespace_of_not hspace]
    dsimp only
    rw [if_neg hne]
    exact hitems

end

theorem serializeChildren_eq (replaceVariant first : Bool) (children : List JsonNode) :
    serializeChildren replaceVariant first children =
      joined first (children.map (serializeTransformNode replaceVariant)) := by
  induction children generalizing first with
  | nil => rfl
  | cons child children ih =>
    rw [serializeChildren, ih]
    rfl

theorem serializeMembers_eq (replaceVariant first : Bool) (members : List (Str × JsonNode)) :
    serializeMembers replaceVariant first members =
      joined first (members.map (serializeMember replaceVariant)) := by
  induction members generalizing first with
  | nil => rfl
  | cons member members ih =>
    rw [serializeMembers, ih]
    rfl

theorem childrenBools_eq (children : List JsonNode) :
    childrenBools children = total JsonNode.bools children := by
  induction children with
  | nil => rfl
  | cons child children ih =>
    rw [childrenBools, ih]
    rfl

theorem membersBools_eq (members : List (Str × JsonNode)) :
    membersBools members = total memberBools members := by
  induction members with
  | nil => rfl
  | cons member members ih =>
    rw [membersBools, ih]
    rfl

theorem serialize_string (scalar : Str) :
    serializeTransformNode false (.string scalar) = jsonString scalar := by
  rw [serializeTransformNode, Bool.false_and]
  rfl

theorem serialize_array (replaceVariant : Bool) (children : List JsonNode) :
    serializeTransformNode replaceVariant (.array children) =
      '[' :: joined true (children.map (serializeTransformNode replaceVariant)) ++ [']'] := by
  rw [serializeTransformNode, serializeChildren_eq]

theorem serialize_object (replaceVariant : Bool) (members : List (Str × JsonNode)) :
    serializeTransformNode replaceVariant (.object members) =
      '\x7b' :: joined true (members.map (serializeMember replaceVariant)) ++ ['\x7d'] := by
  rw [serializeTransformNode, serializeMembers_eq]

/-- The text read for a node is no shorter than the one written, and longer by its booleans. -/
def Shortens (value : Reader) : Prop := ∀ s node r, value s = some (node, r) →
  (serializeTransformNode false node).length + node.bools + r.length ≤ s.length

theorem parseMember_length {value : Reader} (hvalue : Shortens value) (s : Str)
    (member : Str × JsonNode) (r : Str) (h : parseMember value s = some (member, r)) :
    (serializeMember false member).length + memberBools member + r.length ≤ s.length := by
  unfold parseMember at h
  simp only [Option.bind_eq_bind, Option.bind_eq_some_iff] at h
  obtain ⟨⟨key, s₁⟩, hkey, s₂, hcolon, ⟨node, r'⟩, hnode, h⟩ := h
  cases h
  have hkey := parseString_length hkey
  have hcolon := consume_length hcolon
  have hnode := hvalue s₂ node r' hnode
  rw [serializeMember, memberBools, List.length_append, List.length_cons]
  dsimp only at hcolon hnode ⊢
  omega

theorem parseValueWith_length {nested : Option Reader}
    (hnested : ∀ value, nested = some value → Shortens value) : Shortens (parseValueWith nested) := by
  intro s node r h
  have hskip := skipWhitespace_length s
  unfold parseValueWith at h
  split at h
  · cases h
  next c rest hs =>
  rw [hs, List.length_cons] at hskip
  have hword : ∀ {word : Str}, word.isPrefixOf (c :: rest) = true → word.length ≤ rest.length + 1 := by
    intro word hword
    exact (List.isPrefixOf_iff_prefix.mp hword).length_le
  split at h
  · obtain ⟨⟨text, r'⟩, htext, heq⟩ := Option.map_eq_some_iff.mp h
    cases heq
    have hlength := parseString_length htext
    rw [serialize_string, JsonNode.bools]
    rw [List.length_cons] at hlength
    dsimp only
    omega
  split at h
  · obtain ⟨value, hvalue, h⟩ := Option.bind_eq_some_iff.mp h
    obtain ⟨⟨members, r'⟩, hmembers, heq⟩ := Option.map_eq_some_iff.mp h
    cases heq
    have hlength := parseSequence_length (parseMember_length (hnested value hvalue)) hmembers
    rw [serialize_object, JsonNode.bools, membersBools_eq, List.length_append, List.length_cons]
    rw [List.length_cons] at hlength
    dsimp only [List.length_cons, List.length_nil]
    omega
  split at h
  · obtain ⟨value, hvalue, h⟩ := Option.bind_eq_some_iff.mp h
    obtain ⟨⟨children, r'⟩, hchildren, heq⟩ := Option.map_eq_some_iff.mp h
    cases heq
    have hlength := parseSequence_length (hnested value hvalue) hchildren
    rw [serialize_array, JsonNode.bools, childrenBools_eq, List.length_append, List.length_cons]
    rw [List.length_cons] at hlength
    dsimp only [List.length_cons, List.length_nil]
    omega
  split at h
  · cases h
    rw [serializeTransformNode, JsonNode.bools, List.length_drop]
    dsimp only [List.length_nil]
    omega
  split at h
  · cases h
    rw [serializeTransformNode, JsonNode.bools, List.length_drop]
    dsimp only [List.length_nil]
    omega
  split at h
  · next hnull =>
    have hfour : "null".toList.length = 4 := rfl
    have hle := hword hnull
    cases h
    rw [serializeTransformNode, JsonNode.bools, List.length_drop]
    omega
  split at h
  · have hsplit := congrArg List.length (List.takeWhile_append_dropWhile (p := isNumberChar) (l := rest))
    rw [List.length_append] at hsplit
    cases h
    rw [serializeTransformNode, JsonNode.bools, List.length_cons]
    omega
  · cases h

theorem parseValue_length (levels : Nat) : Shortens (parseValue levels) := by
  induction levels with
  | zero => exact parseValueWith_length fun _ h => nomatch h
  | succ levels ih =>
    refine parseValueWith_length fun value h => ?_
    cases h
    exact ih

theorem parseValueWith_cons (nested : Option Reader) {c : Char} (hc : isJsonSpace c = false)
    (rest : Str) : parseValueWith nested (c :: rest) =
      if c = '"' then (parseString (c :: rest)).map fun r => (.string r.1, r.2)
      else if c = '\x7b' then nested.bind fun value => parseObject value (c :: rest)
      else if c = '[' then nested.bind fun value => parseArray value (c :: rest)
      else if "true".toList.isPrefixOf (c :: rest) then some (.bool [], rest.drop 3)
      else if "false".toList.isPrefixOf (c :: rest) then some (.bool [], rest.drop 4)
      else if "null".toList.isPrefixOf (c :: rest) then some (.nil, rest.drop 3)
      else if c = '-' ∨ c.isDigit then
        some (.number (c :: rest.takeWhile isNumberChar), rest.dropWhile isNumberChar)
      else none := by
  unfold parseValueWith
  rw [skipWhitespace_of_not hc]

/-- A value of the nested reader is read back by it. -/
def ReadsBackAll (value : Reader) : Prop := ∀ s node r, value s = some (node, r) → node.bools = 0 →
  ReadsBack value (serializeTransformNode false) node

section
variable {nested : Option Reader}

theorem readsBack_nil : ReadsBack (parseValueWith nested) (serializeTransformNode false) .nil := by
  constructor
  · intro rest _
    show parseValueWith nested ('n' :: 'u' :: 'l' :: 'l' :: rest) = _
    rw [parseValueWith_cons nested (by decide)]
    rfl
  · exact ⟨'n', "ull".toList, rfl, by decide, by decide, by decide⟩

theorem readsBack_string (scalar : Str) :
    ReadsBack (parseValueWith nested) (serializeTransformNode false) (.string scalar) := by
  have htext : ∀ rest, jsonString scalar ++ rest = '"' :: (jsonEscape scalar ++ '"' :: rest) := by
    intro rest
    rw [jsonString, List.append_assoc, List.append_assoc]
    rfl
  constructor
  · intro rest _
    have hread := parseString_jsonString scalar rest
    rw [serialize_string, htext]
    rw [htext] at hread
    rw [parseValueWith_cons nested (by decide), if_pos rfl, hread]
    rfl
  · refine ⟨'"', jsonEscape scalar ++ ['"'], ?_, by decide, by decide, by decide⟩
    rw [serialize_string]
    exact (List.append_nil _).symm.trans (htext [])

theorem isPrefixOf_cons_ne {a c : Char} (h : a ≠ c) (word rest : Str) :
    ¬ (a :: word).isPrefixOf (c :: rest) = true := by
  rw [List.isPrefixOf_cons_cons, beq_false_of_ne h]
  exact Bool.false_ne_true

theorem not_number_of_ends {rest : Str} (h : EndsValue rest) :
    rest.takeWhile isNumberChar = [] ∧ rest.dropWhile isNumberChar = rest := by
  cases rest with
  | nil => exact ⟨rfl, rfl⟩
  | cons c t =>
    have hc : isNumberChar c = false := by
      rcases h c t rfl with rfl | rfl | rfl <;> decide
    rw [List.takeWhile_cons, List.dropWhile_cons, hc]
    exact ⟨rfl, rfl⟩

theorem readsBack_number {c : Char} (hc : c = '-' ∨ c.isDigit = true) {digits : Str}
    (hdigits : ∀ d ∈ digits, isNumberChar d = true) :
    ReadsBack (parseValueWith nested) (serializeTransformNode false) (.number (c :: digits)) := by
  have hne : ∀ d : Char, ¬ (d = '-' ∨ d.isDigit = true) → c ≠ d := by
    rintro d hd rfl
    exact hd hc
  have hspace : isJsonSpace c = false := by
    rw [← Bool.not_eq_true]
    simp only [isJsonSpace, Bool.or_eq_true, beq_iff_eq]
    rintro (((h | h) | h) | h)
    · exact hne _ (by decide) h
    · exact hne _ (by decide) h
    · exact hne _ (by decide) h
    · exact hne _ (by decide) h
  constructor
  · intro rest hrest
    obtain ⟨htake, hdrop⟩ := not_number_of_ends hrest
    have htrue : ¬ "true".toList.isPrefixOf (c :: (digits ++ rest)) = true :=
      isPrefixOf_cons_ne (hne 't' (by decide)).symm "rue".toList _
    have hfalse : ¬ "false".toList.isPrefixOf (c :: (digits ++ rest)) = true :=
      isPrefixOf_cons_ne (hne 'f' (by decide)).symm "alse".toList _
    have hnull : ¬ "null".toList.isPrefixOf (c :: (digits ++ rest)) = true :=
      isPrefixOf_cons_ne (hne 'n' (by decide)).symm "ull".toList _
    show parseValueWith nested (c :: (digits ++ rest)) = _
    rw [parseValueWith_cons nested hspace, if_neg (hne _ (by decide)), if_neg (hne _ (by decide)),
      if_neg (hne _ (by decide)), if_neg htrue, if_neg hfalse, if_neg hnull, if_pos hc,
      List.takeWhile_append_of_pos hdigits, List.dropWhile_append_of_pos hdigits, htake, hdrop,
      List.append_nil]
  · exact ⟨c, digits, rfl, hspace, hne _ (by decide), hne _ (by decide)⟩

theorem readsBack_array {value : Reader} {children : List JsonNode}
    (h : ∀ child ∈ children, ReadsBack value (serializeTransformNode false) child) :
    ReadsBack (parseValueWith (some value)) (serializeTransformNode false) (.array children) := by
  have htext : ∀ rest, serializeTransformNode false (.array children) ++ rest =
      '[' :: joined true (children.map (serializeTransformNode false)) ++ ']' :: rest := by
    intro rest
    rw [serialize_array, List.append_assoc, List.singleton_append]
  constructor
  · intro rest _
    have hopening : isJsonSpace '[' = false := by decide
    have hread := parseSequence_joined hopening (.inl rfl) h rest
    rw [htext, List.cons_append, parseValueWith_cons (some value) (by decide), if_neg (by decide),
      if_neg (by decide), if_pos rfl, Option.bind_some, parseArray, ← List.cons_append, hread]
    rfl
  · refine ⟨'[', joined true (children.map (serializeTransformNode false)) ++ [']'], ?_, by decide,
      by decide, by decide⟩
    rw [serialize_array, List.cons_append]

theorem readsBack_member {value : Reader} {member : Str × JsonNode}
    (h : ReadsBack value (serializeTransformNode false) member.2) :
    ReadsBack (parseMember value) (serializeMember false) member := by
  obtain ⟨key, node⟩ := member
  constructor
  · intro rest hrest
    have hkey := parseString_jsonString key (':' :: (serializeTransformNode false node ++ rest))
    have hcolon : consume ':' (':' :: (serializeTransformNode false node ++ rest)) =
        some (serializeTransformNode false node ++ rest) := consume_cons (by decide) _
    have hnode := h.read rest hrest
    dsimp only at hnode
    rw [serializeMember, List.append_assoc, List.cons_append, parseMember, hkey]
    dsimp only [Option.bind_eq_bind, Option.bind_some]
    rw [hcolon, Option.bind_some, hnode]
    rfl
  · refine ⟨'"', jsonEscape key ++ '"' :: ':' :: serializeTransformNode false node, ?_, by decide,
      by decide, by decide⟩
    rw [serializeMember, jsonString, List.append_assoc, List.append_assoc]
    rfl

theorem readsBack_object {value : Reader} {members : List (Str × JsonNode)}
    (h : ∀ member ∈ members, ReadsBack value (serializeTransformNode false) member.2) :
    ReadsBack (parseValueWith (some value)) (serializeTransformNode false) (.object members) := by
  have htext : ∀ rest, serializeTransformNode false (.object members) ++ rest =
      '\x7b' :: joined true (members.map (serializeMember false)) ++ '\x7d' :: rest := by
    intro rest
    rw [serialize_object, List.append_assoc, List.singleton_append]
  constructor
  · intro rest _
    have hopening : isJsonSpace '\x7b' = false := by decide
    have hread := parseSequence_joined hopening (.inr rfl)
      (fun member hmember => readsBack_member (h member hmember)) rest
    rw [htext, List.cons_append, parseValueWith_cons (some value) (by decide), if_neg (by decide),
      if_pos rfl, Option.bind_some, parseObject, ← List.cons_append, hread]
    rfl
  · refine ⟨'\x7b', joined true (members.map (serializeMember false)) ++ ['\x7d'], ?_, by decide,
      by decide, by decide⟩
    rw [serialize_object, List.cons_append]

end

theorem readsBackAll_parseValueWith {nested : Option Reader}
    (hnested : ∀ value, nested = some value → ReadsBackAll value) :
    ReadsBackAll (parseValueWith nested) := by
  intro s node r h hbools
  unfold parseValueWith at h
  split at h
  · cases h
  next c rest hs =>
  split at h
  · obtain ⟨text, -, heq⟩ := Option.map_eq_some_iff.mp h
    cases heq
    exact readsBack_string text.1
  split at h
  · obtain ⟨value, rfl, h⟩ := Option.bind_eq_some_iff.mp h
    obtain ⟨⟨members, r'⟩, hmembers, heq⟩ := Option.map_eq_some_iff.mp h
    cases heq
    refine readsBack_object fun member hmember => ?_
    obtain ⟨s', r'', hmemberRead⟩ := parseSequence_mem hmembers hmember
    unfold parseMember at hmemberRead
    simp only [Option.bind_eq_bind, Option.bind_eq_some_iff] at hmemberRead
    obtain ⟨⟨key, s₁⟩, -, s₂, -, ⟨node, r₂⟩, hnode, heq⟩ := hmemberRead
    cases heq
    rw [JsonNode.bools, membersBools_eq] at hbools
    exact hnested value rfl s₂ node r₂ hnode (eq_zero_of_total hbools hmember)
  split at h
  · obtain ⟨value, rfl, h⟩ := Option.bind_eq_some_iff.mp h
    obtain ⟨⟨children, r'⟩, hchildren, heq⟩ := Option.map_eq_some_iff.mp h
    cases heq
    refine readsBack_array fun child hchild => ?_
    obtain ⟨s', r'', hread⟩ := parseSequence_mem hchildren hchild
    rw [JsonNode.bools, childrenBools_eq] at hbools
    exact hnested value rfl s' child r'' hread (eq_zero_of_total hbools hchild)
  split at h
  · cases h
    cases hbools
  split at h
  · cases h
    cases hbools
  split at h
  · cases h
    exact readsBack_nil
  split at h
  · next hc =>
    cases h
    exact readsBack_number hc fun d hd => List.mem_takeWhile_imp hd
  · cases h

theorem readsBackAll_parseValue (levels : Nat) : ReadsBackAll (parseValue levels) := by
  induction levels with
  | zero => exact readsBackAll_parseValueWith fun _ h => nomatch h
  | succ levels ih =>
    refine readsBackAll_parseValueWith fun value h => ?_
    cases h
    exact ih

theorem parseDocument_spec {input : Str} {node : JsonNode} (h : parseDocument input = some node) :
    ∃ r, parseValue maxNestingDepth input = some (node, r) := by
  unfold parseDocument at h
  split at h
  · next node' r hvalue =>
    rw [Option.ite_none_right_eq_some] at h
    obtain ⟨-, h⟩ := h
    cases h
    exact ⟨r, hvalue⟩
  · cases h

theorem parseDocument_of_levels {input : Str} {node : JsonNode}
    (h : ∀ value, parseValueWith (some (parseValueWith (some (parseValueWith (some value))))) input =
      some (node, [])) : parseDocument input = some node := by
  have hvalue : parseValue maxNestingDepth input = some (node, []) := h (parseValue 125)
  rw [parseDocument, hvalue]
  exact if_pos rfl

/-- A tree that was read is read back from the writer's text exactly where it has no boolean, and every
string is read back from its escaped text. -/
theorem json_round_trip (input s : Str) :
    (∀ node, parseDocument input = some node →
      (parseDocument (serializeTransformNode false node) = some node ↔ node.bools = 0)) ∧
    parseString (jsonString s) = some (s, []) := by
  constructor
  · intro node h
    obtain ⟨r, hvalue⟩ := parseDocument_spec h
    constructor
    · intro hround
      -- The text would be longer than itself by the booleans of the node.
      obtain ⟨r', hvalue'⟩ := parseDocument_spec hround
      have hlength := parseValue_length maxNestingDepth _ node r' hvalue'
      omega
    · intro hbools
      have hread := (readsBackAll_parseValue maxNestingDepth input node r hvalue hbools).read []
        fun c t heq => nomatch heq
      rw [List.append_nil] at hread
      rw [parseDocument, hread]
      exact if_pos rfl
  · have hread := parseString_jsonString s []
    rwa [List.append_nil] at hread

/-- The declaration of a list of identifiers. -/
theorem json_round_trip_identifiers :
    let node : JsonNode := .object [("ids".toList, .array [.string "BIGINT".toList])]
    parseDocument (serializeTransformNode false node) = some node := by
  intro node
  have hread : parseDocument "\x7b\"ids\": [\"BIGINT\"]\x7d".toList = some node :=
    parseDocument_of_levels fun _ => rfl
  exact ((json_round_trip _ []).1 node hread).mpr rfl

/-- Of a boolean nothing is written. -/
theorem boolean_not_read_back :
    parseDocument "true".toList = some (.bool []) ∧
      parseDocument (serializeTransformNode false (.bool [])) = none ∧
      ¬ ∀ input node, parseDocument input = some node →
        parseDocument (serializeTransformNode false node) = some node := by
  have hread : parseDocument "true".toList = some (.bool []) := parseDocument_of_levels fun _ => rfl
  have hempty : parseValue maxNestingDepth [] = none :=
    (rfl : parseValueWith (some (parseValue 127)) [] = none)
  have hround : parseDocument (serializeTransformNode false (.bool [])) = none := by
    rw [serializeTransformNode, parseDocument, hempty]
  refine ⟨hread, hround, fun h => ?_⟩
  rw [h _ _ hread] at hround
  cases hround

/-- Of `[true]` another document is written. -/
example : serializeTransformNode false (.array [.bool []]) = "[]".toList := rfl

end Quackapi.Validation
