import Quackapi.Util.Str

/-! Text inside a JSON string. -/

namespace Quackapi

/-- `\u00` and two digits. -/
def unicodeEscape (c : Char) : Str :=
  "\\u00".toList ++ [Nat.digitChar (c.toNat / 16), Nat.digitChar (c.toNat % 16)]

def jsonEscapeChar (c : Char) : Str :=
  if c = '"' then "\\\"".toList
  else if c = '\\' then "\\\\".toList
  else if c = '\x08' then "\\b".toList
  else if c = '\x0c' then "\\f".toList
  else if c = '\n' then "\\n".toList
  else if c = '\r' then "\\r".toList
  else if c = '\t' then "\\t".toList
  else if c.toNat < 0x20 then unicodeEscape c
  else [c]

def jsonEscape (s : Str) : Str := s.flatMap jsonEscapeChar

/-- The characters with an escape of one letter, and the letter. -/
def letterEscapes : List (Char × Char) :=
  [('"', '"'), ('\\', '\\'), ('\x08', 'b'), ('\x0c', 'f'), ('\n', 'n'), ('\r', 'r'), ('\t', 't')]

theorem unicodeEscape_eq (c : Char) : unicodeEscape c =
    ['\\', 'u', '0', '0', Nat.digitChar (c.toNat / 16), Nat.digitChar (c.toNat % 16)] := rfl

theorem jsonEscape_plain {c : Char} (hquote : c ≠ '"') (hbackslash : c ≠ '\\')
    (hcontrol : ¬ c.toNat < 0x20) : jsonEscapeChar c = [c] := by
  have hne : ∀ d : Char, d.toNat < 0x20 → c ≠ d := by
    rintro d hd rfl
    exact hcontrol hd
  rw [jsonEscapeChar, if_neg hquote, if_neg hbackslash, if_neg (hne _ (by decide)),
    if_neg (hne _ (by decide)), if_neg (hne _ (by decide)), if_neg (hne _ (by decide)),
    if_neg (hne _ (by decide)), if_neg hcontrol]

theorem jsonEscapeChar_cases (c : Char) :
    (∃ e, (c, e) ∈ letterEscapes ∧ jsonEscapeChar c = ['\\', e]) ∨
      (c ≠ '"' ∧ c ≠ '\\' ∧ c.toNat < 0x20 ∧ jsonEscapeChar c = unicodeEscape c) ∨
      (c ≠ '"' ∧ c ≠ '\\' ∧ ¬ c.toNat < 0x20 ∧ jsonEscapeChar c = [c]) := by
  by_cases hletter : ∃ e, (c, e) ∈ letterEscapes ∧ jsonEscapeChar c = ['\\', e]
  · exact .inl hletter
  · have hne : ∀ d e : Char, (d, e) ∈ letterEscapes → jsonEscapeChar d = ['\\', e] → c ≠ d := by
      rintro d e hd htext rfl
      exact hletter ⟨e, hd, htext⟩
    have hquote := hne '"' '"' (by decide) rfl
    have hbackslash := hne '\\' '\\' (by decide) rfl
    by_cases hcontrol : c.toNat < 0x20
    · refine .inr (.inl ⟨hquote, hbackslash, hcontrol, ?_⟩)
      rw [jsonEscapeChar, if_neg hquote, if_neg hbackslash, if_neg (hne '\x08' 'b' (by decide) rfl),
        if_neg (hne '\x0c' 'f' (by decide) rfl), if_neg (hne '\n' 'n' (by decide) rfl),
        if_neg (hne '\r' 'r' (by decide) rfl), if_neg (hne '\t' 't' (by decide) rfl), if_pos hcontrol]
    · exact .inr (.inr ⟨hquote, hbackslash, hcontrol, jsonEscape_plain hquote hbackslash hcontrol⟩)

theorem jsonEscapeChar_ne_nil (c : Char) : jsonEscapeChar c ≠ [] := by
  rcases jsonEscapeChar_cases c with ⟨e, -, h⟩ | ⟨-, -, -, h⟩ | ⟨-, -, -, h⟩ <;> rw [h] <;>
    exact List.cons_ne_nil _ _

theorem jsonEscapeChar_length_le (c : Char) : (jsonEscapeChar c).length ≤ 6 := by
  rcases jsonEscapeChar_cases c with ⟨e, -, h⟩ | ⟨-, -, -, h⟩ | ⟨-, -, -, h⟩ <;> rw [h] <;>
    exact Nat.le_of_ble_eq_true rfl

def jsonString (s : Str) : Str := "\"".toList ++ jsonEscape s ++ "\"".toList

end Quackapi
