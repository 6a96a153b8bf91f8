import Quackapi.Telemetry.Record
import Quackapi.Validation.RoundTrip

/-! The message of an error, taken back from the body that was made of it. -/

namespace Quackapi.Telemetry
open Http

/-- An error body: the detail, escaped, and whatever follows its quote. -/
def detailBody (detail rest : Str) : Str := detailPrefix ++ (jsonEscape detail ++ '"' :: rest)

theorem detailText_plain {text : Str} (htext : '"' ∉ text) (previous : Option Char) (rest : Str) :
    detailText previous (text ++ rest) = text ++ detailText (text.getLast?.or previous) rest := by
  induction text generalizing previous with
  | nil => rfl
  | cons c text ih =>
    have hc : ¬ (c = '"' ∧ previous ≠ some '\\') := fun h => htext (h.1 ▸ List.mem_cons_self)
    have hlast : text.getLast?.or (some c) = (c :: text).getLast?.or previous := by
      rw [List.getLast?_cons]
      cases text.getLast? <;> rfl
    rw [List.cons_append, detailText, if_neg hc, ih fun hmem => htext (List.mem_cons_of_mem c hmem),
      hlast, List.cons_append]

theorem digitChar_plain : ∀ d < 16, Nat.digitChar d ≠ '"' ∧ Nat.digitChar d ≠ '\\' := by decide

theorem letterEscapes_plain : ∀ p ∈ letterEscapes,
    (p.2 = '"' → p.1 = '"') ∧ (p.2 = '\\' → p.1 = '\\') := by decide

theorem quote_not_mem_escape {c : Char} (hc : c ≠ '"') : '"' ∉ jsonEscapeChar c := by
  rcases jsonEscapeChar_cases c with ⟨e, he, htext⟩ | ⟨-, -, hcontrol, htext⟩ | ⟨-, -, -, htext⟩ <;>
    rw [htext]
  · have hletter : e ≠ '"' := fun h => hc ((letterEscapes_plain _ he).1 h)
    simp [hletter.symm]
  · have hhigh := (digitChar_plain (c.toNat / 16) (by omega)).1
    have hlow := (digitChar_plain (c.toNat % 16) (by omega)).1
    simp [unicodeEscape_eq, hhigh.symm, hlow.symm]
  · exact fun h => hc (List.mem_singleton.mp h).symm

theorem getLast_escape (c : Char) : (jsonEscapeChar c).getLast? = some '\\' ↔ c = '\\' := by
  by_cases hslash : c = '\\'
  · rw [hslash]
    exact iff_of_true rfl rfl
  refine iff_of_false ?_ hslash
  rcases jsonEscapeChar_cases c with ⟨e, he, htext⟩ | ⟨-, -, hcontrol, htext⟩ | ⟨-, -, -, htext⟩ <;>
    rw [htext]
  · have hletter : e ≠ '\\' := fun h => hslash ((letterEscapes_plain _ he).2 h)
    exact fun h => hletter (Option.some.inj h)
  · have hlow := (digitChar_plain (c.toNat % 16) (Nat.mod_lt _ (by decide))).2
    simp [unicodeEscape_eq, hlow]
  · exact fun h => hslash (Option.some.inj h)

theorem getLast_escape_isSome (c : Char) (previous : Option Char) :
    (jsonEscapeChar c).getLast?.or previous = (jsonEscapeChar c).getLast? := by
  rcases hlast : (jsonEscapeChar c).getLast? with _ | d
  · exact absurd (List.getLast?_eq_none_iff.mp hlast) (jsonEscapeChar_ne_nil c)
  · rfl

theorem detailText_escapeChar (c : Char) (previous : Option Char) (rest : Str) :
    detailText previous (jsonEscapeChar c ++ rest) =
      jsonEscapeChar c ++ detailText (jsonEscapeChar c).getLast? rest := by
  by_cases hquote : c = '"'
  · subst hquote
    show detailText previous ('\\' :: '"' :: rest) = '\\' :: '"' :: detailText (some '"') rest
    rw [detailText, if_neg (by simp), detailText, if_neg (by simp)]
  · rw [detailText_plain (quote_not_mem_escape hquote), getLast_escape_isSome]

def lastEscaped (detail : Str) : Option Char :=
  detail.getLast?.bind fun c => (jsonEscapeChar c).getLast?

theorem detailText_escape (detail rest : Str) :
    detailText none (jsonEscape detail ++ rest) =
      jsonEscape detail ++ detailText (lastEscaped detail) rest := by
  induction detail using List.reverseRecOn generalizing rest with
  | nil => rfl
  | append_singleton detail c ih =>
    have hescape : jsonEscape (detail ++ [c]) = jsonEscape detail ++ jsonEscapeChar c := by
      rw [jsonEscape, List.flatMap_append, List.flatMap_singleton]
      rfl
    rw [hescape, List.append_assoc, ih, detailText_escapeChar, lastEscaped, List.getLast?_concat,
      Option.bind_some, List.append_assoc]

theorem lastEscaped_eq_backslash (detail : Str) :
    lastEscaped detail = some '\\' ↔ detail.getLast? = some '\\' := by
  rw [lastEscaped]
  rcases detail.getLast? with _ | c
  · exact Iff.rfl
  · rw [Option.bind_some, getLast_escape, Option.some.injEq]

theorem errorText_detailBody (detail rest : Str) :
    errorText (detailBody detail rest) = detailText none (jsonEscape detail ++ '"' :: rest) := by
  have hprefix : detailPrefix.isPrefixOf (detailBody detail rest) = true := by
    rw [List.isPrefixOf_iff_prefix]
    exact List.prefix_append _ _
  rw [errorText, if_pos hprefix, detailBody, List.drop_left]

/-- The message is the detail as it was escaped, cut to its length, unless the detail ends in a backslash
and is not cut: then the closing quote is taken for an escaped one. -/
theorem errorMessage_exact_iff (detail rest : Str) :
    errorMessageFromResponse (detailBody detail rest) = (jsonEscape detail).take 512 ↔
      detail.getLast? ≠ some '\\' ∨ 512 ≤ (jsonEscape detail).length := by
  rw [errorMessageFromResponse, errorText_detailBody, detailText_escape]
  by_cases hlast : detail.getLast? = some '\\'
  · have hopen : detailText (lastEscaped detail) ('"' :: rest) = '"' :: detailText (some '"') rest := by
      rw [(lastEscaped_eq_backslash detail).mpr hlast, detailText, if_neg (by simp)]
    rw [hopen, or_iff_right (not_not_intro hlast)]
    constructor
    · intro h
      have hlength := congrArg List.length h
      simp only [List.length_take, List.length_append, List.length_cons] at hlength
      omega
    · exact fun hlong => List.take_append_of_le_length hlong
  · have hclosed : detailText (lastEscaped detail) ('"' :: rest) = [] := by
      rw [detailText, if_pos ⟨rfl, fun h => hlast ((lastEscaped_eq_backslash detail).mp h)⟩]
    rw [hclosed, List.append_nil]
    exact iff_of_true rfl (.inl hlast)

/-- What follows a directory's name is taken for a part of it. -/
theorem trailing_backslash_runs_on :
    errorMessageFromResponse (detailBody "C:\\".toList ",\"code\":5\x7d".toList) ≠
      (jsonEscape "C:\\".toList).take 512 := by
  decide

end Quackapi.Telemetry
