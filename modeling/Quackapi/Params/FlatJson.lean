import Quackapi.Library.JsonReading
import Quackapi.Params.Request
import Mathlib.Data.List.Induction

/-! The short way for a JSON body: an object of scalars without escapes is read in place, anything else
is left to the engine. -/

namespace Quackapi.Params
open Library

def skipWs (s : Str) : Str := s.dropWhile fun c => c == ' ' || c == '\t' || c == '\n' || c == '\r'

def digitNext (s : Str) : Bool := s.head?.any Char.isDigit

def plainChars : Str → Option (Str × Str)
  | [] => none
  | c :: s =>
    if c = '"' then some ([], s)
    else if c.toNat < 0x20 ∨ c = '\\' then none
    else (plainChars s).map fun r => (c :: r.1, r.2)

def parsePlainString : Str → Option (Str × Str)
  | [] => none
  | c :: s => if c = '"' then plainChars s else none

def parseDigits (s : Str) : Option (Str × Str) :=
  if digitNext s then some (s.takeWhile Char.isDigit, s.dropWhile Char.isDigit) else none

def parseWhole : Str → Option (Str × Str)
  | [] => none
  | c :: s =>
    if c = '0' then if digitNext s then none else some (['0'], s)
    else if '1' ≤ c ∧ c ≤ '9' then some (c :: s.takeWhile Char.isDigit, s.dropWhile Char.isDigit)
    else none

def parseFraction : Str → Option (Str × Str)
  | [] => some ([], [])
  | c :: s => if c = '.' then (parseDigits s).map fun r => (c :: r.1, r.2) else some ([], c :: s)

def takeSign : Str → Str × Str
  | [] => ([], [])
  | c :: s => if c = '+' ∨ c = '-' then ([c], s) else ([], c :: s)

def parseExponent : Str → Option (Str × Str)
  | [] => some ([], [])
  | c :: s =>
    if c = 'e' ∨ c = 'E' then
      (parseDigits (takeSign s).2).map fun r => (c :: ((takeSign s).1 ++ r.1), r.2)
    else some ([], c :: s)

def takeMinus : Str → Str × Str
  | [] => ([], [])
  | c :: s => if c = '-' then (['-'], s) else ([], c :: s)

/-- The text of a number, and what stands behind it. -/
def parseNumber (s : Str) : Option (Str × Str) :=
  (parseWhole (takeMinus s).2).bind fun whole =>
    (parseFraction whole.2).bind fun fraction =>
      (parseExponent fraction.2).map fun exponent =>
        ((takeMinus s).1 ++ whole.1 ++ fraction.1 ++ exponent.1, exponent.2)

/-- A field whose JSON is the text up to where the scanner stands. -/
def fieldUpTo (s value : Str) (explicitNull : Bool) (rest : Str) : JsonBodyField × Str :=
  (⟨value, s.take (s.length - rest.length), explicitNull⟩, rest)

def parseField : Str → Option (JsonBodyField × Str)
  | [] => none
  | c :: s =>
    if c = '"' then (parsePlainString (c :: s)).map fun r => fieldUpTo (c :: s) r.1 false r.2
    else if (c :: s).take 4 = "null".toList then some (fieldUpTo (c :: s) [] true ((c :: s).drop 4))
    else if (c :: s).take 4 = "true".toList then
      some (fieldUpTo (c :: s) "true".toList false ((c :: s).drop 4))
    else if (c :: s).take 5 = "false".toList then
      some (fieldUpTo (c :: s) "false".toList false ((c :: s).drop 5))
    else if c = '-' ∨ c.isDigit then
      (parseNumber (c :: s)).map fun r => fieldUpTo (c :: s) r.1 false r.2
    else none

/-- A key, its value and the space behind it. -/
def parseMember (s : Str) : Option ((Str × JsonBodyField) × Str) :=
  (parsePlainString (skipWs s)).bind fun key =>
    match skipWs key.2 with
    | [] => none
    | c :: s =>
      if c = ':' then (parseField (skipWs s)).map fun r => ((key.1, r.1), skipWs r.2) else none

/-- The loop over the members; each takes at least one character. -/
def extractMembers : Nat → CiMap JsonBodyField → Str → Option (CiMap JsonBodyField)
  | 0, _, _ => none
  | fuel + 1, fields, s =>
    (parseMember s).bind fun r =>
      let fields := fields.set r.1.1 r.1.2
      match r.2 with
      | [] => none
      | c :: s =>
        if c = ',' then extractMembers fuel fields s
        else if c = '\x7d' then if skipWs s = [] then some fields else none
        else none

def tryExtractFlatJsonObject (rawBody : Str) : Option (CiMap JsonBodyField) :=
  match skipWs rawBody with
  | [] => none
  | c :: s =>
    if c = '\x7b' then
      match skipWs s with
      | [] => none
      | d :: t =>
        if d = '\x7d' then if skipWs t = [] then some .empty else none
        else extractMembers rawBody.length .empty (d :: t)
    else none

def IsFlat : Json → Prop
  | .scalar _ => True
  | .string _ => True
  | _ => False

/-- The field of a member's value: a string's characters, a word or number as it stands. -/
def fieldOf : Json → JsonBodyField
  | .string s => ⟨s, '"' :: (s ++ ['"']), false⟩
  | .scalar text => if text = "null".toList then ⟨[], text, true⟩ else ⟨text, text, false⟩
  | _ => ⟨[], [], false⟩

/-- Under every name the last member that has it, in any case. -/
def referenceFields (members : List (Str × Json)) : CiMap JsonBodyField :=
  fun key => (members.reverse.find? fun m => lower m.1 = key).map fun m => fieldOf m.2

theorem setAll_eq_referenceFields (members : List (Str × Json)) :
    CiMap.empty.setAll (members.map fun m => (m.1, fieldOf m.2)) = referenceFields members := by
  induction members using List.reverseRecOn with
  | nil => rfl
  | append_singleton members m ih =>
    have hset : CiMap.empty.setAll ((members ++ [m]).map fun m => (m.1, fieldOf m.2)) =
        (CiMap.empty.setAll (members.map fun m => (m.1, fieldOf m.2))).set m.1 (fieldOf m.2) := by
      rw [CiMap.setAll, List.map_append, List.foldl_append]
      rfl
    funext key
    rw [hset, ih, CiMap.set, referenceFields, referenceFields, List.reverse_append,
      List.reverse_singleton, List.singleton_append, List.find?_cons]
    by_cases hkey : lower m.1 = key
    · rw [if_pos hkey.symm, decide_eq_true hkey]
      rfl
    · rw [if_neg (Ne.symm hkey), decide_eq_false hkey]

theorem skipWs_eq (s : Str) : skipWs s = skipBlank s := by
  have hchar : (fun c => c == ' ' || c == '\t' || c == '\n' || c == '\r') = isBlankChar := by
    funext c
    simp only [isBlankChar, Bool.or_left_comm, Bool.or_comm]
  rw [skipWs, hchar, skipBlank]

theorem skipWs_spec (s : Str) : ∃ pad, IsBlank pad ∧ s = pad ++ skipWs s := by
  refine ⟨s.takeWhile isBlankChar, fun c hc => ?_, ?_⟩
  · exact (isBlankChar_iff c).mp (List.all_eq_true.mp List.all_takeWhile c hc)
  · rw [skipWs_eq, skipBlank, List.takeWhile_append_dropWhile]

theorem skipWs_pad {pad : Str} (hpad : IsBlank pad) (s : Str) : skipWs (pad ++ s) = skipWs s := by
  rw [skipWs_eq, skipWs_eq, skipBlank_append hpad]

theorem skipWs_cons {c : Char} (hc : isBlankChar c = false) (s : Str) : skipWs (c :: s) = c :: s := by
  rw [skipWs_eq, skipBlank_cons hc]

theorem skipWs_blank {pad : Str} (hpad : IsBlank pad) : skipWs pad = [] := by
  rw [← List.append_nil pad, skipWs_pad hpad]
  rfl

/-- Nothing in the text ends a string or is escaped. -/
def IsPlain (s : Str) : Prop := ∀ c ∈ s, c ≠ '"' ∧ c ≠ '\\' ∧ 0x20 ≤ c.toNat

theorem plainChars_iff {s t r : Str} :
    plainChars s = some (t, r) ↔ IsPlain t ∧ s = t ++ '"' :: r := by
  induction s generalizing t with
  | nil => exact iff_of_false nofun fun h => nomatch (List.append_eq_nil_iff.mp h.2.symm).2
  | cons c s ih =>
    rw [plainChars]
    split
    · next hquote =>
      constructor
      · intro h
        cases h
        exact ⟨nofun, congrArg (· :: _) hquote⟩
      · rintro ⟨hplain, htext⟩
        cases t with
        | nil => rw [(List.cons.inj htext).2]
        | cons d t =>
          rw [List.cons_append, List.cons.injEq] at htext
          exact absurd (htext.1.symm.trans hquote) (hplain d List.mem_cons_self).1
    · next hquote =>
      split
      · next hrefused =>
        refine iff_of_false nofun fun ⟨hplain, htext⟩ => ?_
        cases t with
        | nil => exact hquote (List.cons.inj htext).1
        | cons d t =>
          obtain ⟨_, hbackslash, hcontrol⟩ := hplain d List.mem_cons_self
          rw [← (List.cons.inj htext).1] at hbackslash hcontrol
          exact hrefused.elim (fun h => absurd h (Nat.not_lt.mpr hcontrol)) hbackslash
      · next hplainChar =>
        rw [not_or, Nat.not_lt] at hplainChar
        constructor
        · intro h
          obtain ⟨⟨t', r'⟩, hrest, h⟩ := Option.map_eq_some_iff.mp h
          cases h
          obtain ⟨hplain, rfl⟩ := ih.mp hrest
          exact ⟨List.forall_mem_cons.mpr ⟨⟨hquote, hplainChar.2, hplainChar.1⟩, hplain⟩, rfl⟩
        · rintro ⟨hplain, htext⟩
          cases t with
          | nil => exact absurd (List.cons.inj htext).1 hquote
          | cons d t =>
            obtain ⟨rfl, hrest⟩ := List.cons.inj htext
            rw [ih.mpr ⟨(List.forall_mem_cons.mp hplain).2, hrest⟩]
            rfl

theorem parsePlainString_iff {s t r : Str} :
    parsePlainString s = some (t, r) ↔ IsPlain t ∧ s = '"' :: (t ++ '"' :: r) := by
  cases s with
  | nil => exact iff_of_false nofun fun h => nomatch h.2
  | cons c s =>
    rw [parsePlainString, List.cons.injEq]
    split
    · next hquote => rw [plainChars_iff, and_iff_right hquote]
    · next hquote => exact iff_of_false nofun fun h => hquote h.2.1

theorem charsText_plain {encode : Nat → Str} {s : Str} (h : IsPlain s) : CharsText encode s s := by
  induction s with
  | nil => exact .nil
  | cons c s ih =>
    obtain ⟨⟨hquote, hbackslash, hcontrol⟩, hs⟩ := List.forall_mem_cons.mp h
    exact .plain hquote hbackslash hcontrol (ih hs)

theorem isPlain_of_charsText {encode : Nat → Str} {raw s : Str} (h : CharsText encode raw s)
    (hraw : '\\' ∉ raw) : raw = s ∧ IsPlain s := by
  induction h with
  | nil => exact ⟨rfl, nofun⟩
  | plain hquote hbackslash hcontrol _ ih =>
    obtain ⟨rfl, hplain⟩ := ih fun hmem => hraw (List.mem_cons_of_mem _ hmem)
    exact ⟨rfl, List.forall_mem_cons.mpr ⟨⟨hquote, hbackslash, hcontrol⟩, hplain⟩⟩
  | escape => exact absurd List.mem_cons_self hraw
  | code => exact absurd List.mem_cons_self hraw
  | pair => exact absurd List.mem_cons_self hraw

theorem parseDigits_sound {s d r : Str} (h : parseDigits s = some (d, r)) : s = d ++ r ∧ IsDigits d := by
  rw [parseDigits, Option.ite_none_right_eq_some] at h
  obtain ⟨hnext, h⟩ := h
  cases h
  refine ⟨List.takeWhile_append_dropWhile.symm, ?_, List.all_eq_true.mp List.all_takeWhile⟩
  cases s with
  | nil => cases hnext
  | cons c s =>
    rw [List.takeWhile_cons, show c.isDigit = true from hnext]
    exact List.cons_ne_nil _ _

theorem takeWhile_digits {d : Str} (hd : ∀ c ∈ d, c.isDigit = true) {r : Str}
    (hr : digitNext r = false) :
    (d ++ r).takeWhile Char.isDigit = d ∧ (d ++ r).dropWhile Char.isDigit = r := by
  rw [List.takeWhile_append_of_pos hd, List.dropWhile_append_of_pos hd]
  cases r with
  | nil => exact ⟨List.append_nil d, rfl⟩
  | cons c r =>
    rw [List.takeWhile_cons, List.dropWhile_cons, show c.isDigit = false from hr]
    exact ⟨List.append_nil d, rfl⟩

theorem parseDigits_complete {d : Str} (hd : IsDigits d) {r : Str} (hr : digitNext r = false) :
    parseDigits (d ++ r) = some (d, r) := by
  obtain ⟨htake, hdrop⟩ := takeWhile_digits hd.2 hr
  obtain ⟨c, d', rfl⟩ := List.exists_cons_of_ne_nil hd.1
  have hnext : digitNext (c :: d' ++ r) = true := hd.2 c List.mem_cons_self
  rw [parseDigits, if_pos hnext, htake, hdrop]

theorem one_to_nine {c : Char} (hc : c ≠ '0') : ('1' ≤ c ∧ c ≤ '9') ↔ c.isDigit = true := by
  have hzero : c.toNat ≠ 48 := fun h => hc (Char.toNat_inj.mp h)
  have hone : '1' ≤ c ↔ 49 ≤ c.toNat := Iff.rfl
  have hnine : c ≤ '9' ↔ c.toNat ≤ 57 := Iff.rfl
  have hdigit : c.isDigit = true ↔ 48 ≤ c.toNat ∧ c.toNat ≤ 57 := by
    rw [Char.isDigit, Bool.and_eq_true, decide_eq_true_eq, decide_eq_true_eq]
    exact Iff.rfl
  rw [hone, hnine, hdigit]
  omega

theorem parseWhole_sound {s w r : Str} (h : parseWhole s = some (w, r)) : s = w ++ r ∧ IsWhole w := by
  cases s with
  | nil => cases h
  | cons c s =>
    rw [parseWhole] at h
    split at h
    · next hc =>
      split at h
      · cases h
      · cases h
        rw [hc]
        refine ⟨rfl, ⟨List.cons_ne_nil _ _, ?_⟩, fun _ => rfl⟩
        exact List.forall_mem_singleton.mpr (by decide)
    · next hc =>
      split at h
      · next hrange =>
        cases h
        refine ⟨congrArg (c :: ·) List.takeWhile_append_dropWhile.symm,
          ⟨List.cons_ne_nil _ _, ?_⟩, fun h => absurd (Option.some.inj h) hc⟩
        exact List.forall_mem_cons.mpr
          ⟨(one_to_nine hc).mp hrange, List.all_eq_true.mp List.all_takeWhile⟩
      · cases h

theorem parseWhole_complete {w : Str} (hw : IsWhole w) {r : Str} (hr : digitNext r = false) :
    parseWhole (w ++ r) = some (w, r) := by
  obtain ⟨⟨hne, hdigits⟩, hzero⟩ := hw
  obtain ⟨c, w, rfl⟩ := List.exists_cons_of_ne_nil hne
  rw [List.cons_append, parseWhole]
  by_cases hc : c = '0'
  · obtain rfl : w = [] := (List.cons.inj (hzero (congrArg some hc))).2
    rw [if_pos hc, List.nil_append, hr, hc]
    rfl
  · obtain ⟨hdigit, hrest⟩ := List.forall_mem_cons.mp hdigits
    obtain ⟨htake, hdrop⟩ := takeWhile_digits hrest hr
    rw [if_neg hc, if_pos ((one_to_nine hc).mpr hdigit), htake, hdrop]

theorem parseFraction_sound {s f r : Str} (h : parseFraction s = some (f, r)) :
    s = f ++ r ∧ IsFraction f := by
  cases s with
  | nil =>
    cases h
    exact ⟨rfl, .inl rfl⟩
  | cons c s =>
    rw [parseFraction] at h
    split at h
    · next hc =>
      obtain ⟨⟨d, r'⟩, hd, h⟩ := Option.map_eq_some_iff.mp h
      cases h
      obtain ⟨rfl, hdigits⟩ := parseDigits_sound hd
      exact ⟨rfl, .inr ⟨d, congrArg (· :: d) hc, hdigits⟩⟩
    · cases h
      exact ⟨rfl, .inl rfl⟩

theorem parseFraction_complete {f : Str} (hf : IsFraction f) {r : Str} (hr : digitNext r = false)
    (hdot : ∀ t, r ≠ '.' :: t) : parseFraction (f ++ r) = some (f, r) := by
  rcases hf with rfl | ⟨digits, rfl, hdigits⟩
  · cases r with
    | nil => rfl
    | cons c r =>
      have hc : c ≠ '.' := fun h => hdot r (congrArg (· :: r) h)
      exact if_neg hc
  · rw [List.cons_append, parseFraction, if_pos rfl, parseDigits_complete hdigits hr]
    rfl

theorem takeSign_sound (s : Str) : s = (takeSign s).1 ++ (takeSign s).2 ∧
    ((takeSign s).1 = [] ∨ (takeSign s).1 = ['+'] ∨ (takeSign s).1 = ['-']) := by
  cases s with
  | nil => exact ⟨rfl, .inl rfl⟩
  | cons c s =>
    rw [takeSign]
    split
    · next hc =>
      refine ⟨rfl, .inr ?_⟩
      rcases hc with rfl | rfl
      · exact .inl rfl
      · exact .inr rfl
    · exact ⟨rfl, .inl rfl⟩

theorem takeSign_complete {sign : Str} (hsign : sign = [] ∨ sign = ['+'] ∨ sign = ['-']) {d : Str}
    (hd : IsDigits d) (r : Str) : takeSign (sign ++ (d ++ r)) = (sign, d ++ r) := by
  obtain ⟨c, d, rfl⟩ := List.exists_cons_of_ne_nil hd.1
  have hdigit := hd.2 c List.mem_cons_self
  have hne : ∀ a : Char, a.isDigit = false → c ≠ a := by
    rintro a ha rfl
    rw [ha] at hdigit
    cases hdigit
  rcases hsign with rfl | rfl | rfl
  · exact if_neg (not_or.mpr ⟨hne '+' (by decide), hne '-' (by decide)⟩)
  · rfl
  · rfl

theorem parseExponent_sound {s e r : Str} (h : parseExponent s = some (e, r)) :
    s = e ++ r ∧ IsExponent e := by
  cases s with
  | nil =>
    cases h
    exact ⟨rfl, .inl rfl⟩
  | cons c s =>
    rw [parseExponent] at h
    split at h
    · next hc =>
      obtain ⟨⟨d, r'⟩, hd, h⟩ := Option.map_eq_some_iff.mp h
      cases h
      obtain ⟨hsign, hkind⟩ := takeSign_sound s
      obtain ⟨hrest, hdigits⟩ := parseDigits_sound hd
      refine ⟨?_, .inr ⟨c, (takeSign s).1, d, rfl, hc, hkind, hdigits⟩⟩
      rw [List.cons_append, List.append_assoc, ← hrest, ← hsign]
    · cases h
      exact ⟨rfl, .inl rfl⟩

theorem parseExponent_complete {e : Str} (he : IsExponent e) {r : Str} (hr : digitNext r = false)
    (hletter : ∀ t, r ≠ 'e' :: t ∧ r ≠ 'E' :: t) : parseExponent (e ++ r) = some (e, r) := by
  rcases he with rfl | ⟨c, sign, digits, rfl, hc, hsign, hdigits⟩
  · cases r with
    | nil => rfl
    | cons c r =>
      have hc : ¬ (c = 'e' ∨ c = 'E') := by
        rintro (rfl | rfl)
        · exact (hletter r).1 rfl
        · exact (hletter r).2 rfl
      exact if_neg hc
  · rw [List.cons_append, List.append_assoc, parseExponent, if_pos hc,
      takeSign_complete hsign hdigits, parseDigits_complete hdigits hr]
    rfl

theorem takeMinus_sound (s : Str) : s = (takeMinus s).1 ++ (takeMinus s).2 ∧
    ((takeMinus s).1 = [] ∨ (takeMinus s).1 = ['-']) := by
  cases s with
  | nil => exact ⟨rfl, .inl rfl⟩
  | cons c s =>
    rw [takeMinus]
    split
    · next hc => exact ⟨congrArg (· :: s) hc, .inr rfl⟩
    · exact ⟨rfl, .inl rfl⟩

theorem takeMinus_complete {sign : Str} (hsign : sign = [] ∨ sign = ['-']) {w : Str} (hw : IsDigits w)
    (r : Str) : takeMinus (sign ++ (w ++ r)) = (sign, w ++ r) := by
  obtain ⟨c, w, rfl⟩ := List.exists_cons_of_ne_nil hw.1
  have hc : c ≠ '-' := by
    rintro rfl
    exact absurd (hw.2 '-' List.mem_cons_self) (by decide)
  rcases hsign with rfl | rfl
  · exact if_neg hc
  · rfl

theorem parseNumber_sound {s t r : Str} (h : parseNumber s = some (t, r)) : s = t ++ r ∧ IsNumber t := by
  rw [parseNumber] at h
  obtain ⟨⟨whole, s₁⟩, hwhole, h⟩ := Option.bind_eq_some_iff.mp h
  obtain ⟨⟨fraction, s₂⟩, hfraction, h⟩ := Option.bind_eq_some_iff.mp h
  obtain ⟨⟨exponent, s₃⟩, hexponent, h⟩ := Option.map_eq_some_iff.mp h
  cases h
  obtain ⟨hsign, hkind⟩ := takeMinus_sound s
  obtain ⟨htext₁, hwhole⟩ := parseWhole_sound hwhole
  obtain ⟨htext₂, hfraction⟩ := parseFraction_sound hfraction
  obtain ⟨htext₃, hexponent⟩ := parseExponent_sound hexponent
  dsimp only at htext₂ htext₃ ⊢
  refine ⟨?_, _, whole, fraction, exponent, rfl, hkind, hwhole, hfraction, hexponent⟩
  rw [List.append_assoc, List.append_assoc, List.append_assoc, ← htext₃, ← htext₂, ← htext₁, ← hsign]

theorem ne_of_follows {r : Str} (h : Follows r) {c : Char} (hc : endsScalar c = false) (t : Str) :
    r ≠ c :: t := by
  intro hr
  rw [h c t hr] at hc
  cases hc

theorem digitNext_of_follows {r : Str} (h : Follows r) : digitNext r = false := by
  cases r with
  | nil => rfl
  | cons c r =>
    have hall : (structural.take 7).all (fun d => !d.isDigit) = true := by decide
    have hnot : ∀ d ∈ structural.take 7, d.isDigit = false := fun d hd => by
      simpa using List.all_eq_true.mp hall d hd
    exact hnot c ((endsScalar_iff c).mp (h c r rfl))

theorem parseNumber_complete {t : Str} (ht : IsNumber t) {r : Str} (hr : Follows r) :
    parseNumber (t ++ r) = some (t, r) := by
  obtain ⟨sign, whole, fraction, exponent, rfl, hsign, hwhole, hfraction, hexponent⟩ := ht
  have hdigit := digitNext_of_follows hr
  have hletter : ∀ t, r ≠ 'e' :: t ∧ r ≠ 'E' :: t := fun t =>
    ⟨ne_of_follows hr (by decide) t, ne_of_follows hr (by decide) t⟩
  -- what stands behind the fraction, and behind the whole part, does not go on with them
  have hbehind : digitNext (exponent ++ r) = false ∧ ∀ t, exponent ++ r ≠ '.' :: t := by
    rcases hexponent with rfl | ⟨c, esign, digits, rfl, hc, _, _⟩
    · exact ⟨hdigit, ne_of_follows hr (by decide)⟩
    · rcases hc with rfl | rfl
      · exact ⟨rfl, fun _ h => absurd (List.cons.inj h).1 (by decide)⟩
      · exact ⟨rfl, fun _ h => absurd (List.cons.inj h).1 (by decide)⟩
  have hwholeBehind : digitNext (fraction ++ (exponent ++ r)) = false := by
    rcases hfraction with rfl | ⟨digits, rfl, _⟩
    · exact hbehind.1
    · rfl
  have htext : sign ++ whole ++ fraction ++ exponent ++ r =
      sign ++ (whole ++ (fraction ++ (exponent ++ r))) := by
    simp only [List.append_assoc]
  rw [htext, parseNumber, takeMinus_complete hsign hwhole.1]
  dsimp only
  rw [parseWhole_complete hwhole hwholeBehind, Option.bind_some]
  dsimp only
  rw [parseFraction_complete hfraction hbehind.1 hbehind.2, Option.bind_some]
  dsimp only
  rw [parseExponent_complete hexponent hdigit hletter]
  rfl

/-- The text of a flat value, without space around it. -/
inductive FlatText : Str → Json → Prop
  | string {s : Str} (h : IsPlain s) : FlatText ('"' :: (s ++ ['"'])) (.string s)
  | scalar {text : Str} (h : IsScalar text) : FlatText text (.scalar text)

theorem fieldUpTo_eq {s text r : Str} (h : s = text ++ r) (value : Str) (explicitNull : Bool) :
    fieldUpTo s value explicitNull r = (⟨value, text, explicitNull⟩, r) := by
  rw [fieldUpTo, h, List.length_append, Nat.add_sub_cancel, List.take_left]

theorem append_of_take {s word : Str} {n : Nat} (h : s.take n = word) : s = word ++ s.drop n := by
  rw [← h, List.take_append_drop]

theorem fieldOf_word {word : Str} (h : word ≠ "null".toList) :
    fieldOf (.scalar word) = ⟨word, word, false⟩ :=
  if_neg h

theorem parseField_sound {s r : Str} {f : JsonBodyField} (h : parseField s = some (f, r)) :
    ∃ text j, s = text ++ r ∧ FlatText text j ∧ f = fieldOf j := by
  cases s with
  | nil => cases h
  | cons c s =>
    rw [parseField] at h
    split at h
    · obtain ⟨⟨t, r'⟩, ht, h⟩ := Option.map_eq_some_iff.mp h
      obtain ⟨hplain, htext⟩ := parsePlainString_iff.mp ht
      have htext' : c :: s = '"' :: (t ++ ['"']) ++ r' := by
        rw [htext, List.cons_append, List.append_assoc]
        rfl
      rw [fieldUpTo_eq htext'] at h
      cases h
      exact ⟨_, _, htext', .string hplain, rfl⟩
    split at h
    · next hword =>
      have htext := append_of_take hword
      rw [fieldUpTo_eq htext] at h
      cases h
      exact ⟨_, _, htext, .scalar (.inr (.inr (.inl rfl))), rfl⟩
    split at h
    · next hword =>
      have htext := append_of_take hword
      rw [fieldUpTo_eq htext] at h
      cases h
      exact ⟨_, _, htext, .scalar (.inl rfl), rfl⟩
    split at h
    · next hword =>
      have htext := append_of_take hword
      rw [fieldUpTo_eq htext] at h
      cases h
      exact ⟨_, _, htext, .scalar (.inr (.inl rfl)), rfl⟩
    split at h
    · obtain ⟨⟨t, r'⟩, ht, h⟩ := Option.map_eq_some_iff.mp h
      obtain ⟨htext, hnumber⟩ := parseNumber_sound ht
      rw [fieldUpTo_eq htext] at h
      cases h
      have hnull : t ≠ "null".toList := hnumber.ne_word (by decide) "ull".toList
      exact ⟨_, _, htext, .scalar (.inr (.inr (.inr hnumber))), (fieldOf_word hnull).symm⟩
    · cases h

theorem parseField_number {t : Str} (ht : IsNumber t) {r : Str} (hr : Follows r) :
    parseField (t ++ r) = some (fieldOf (.scalar t), r) := by
  have hread := parseNumber_complete ht hr
  have hnull : t ≠ "null".toList := ht.ne_word (by decide) "ull".toList
  obtain ⟨c, t', rfl, hc⟩ := ht.head
  have hne : ∀ d : Char, ¬ (d = '-' ∨ d.isDigit = true) → c ≠ d := by
    rintro d hd rfl
    exact hd hc
  have hword : ∀ (n : Nat) (d : Char) (word : Str), ¬ (d = '-' ∨ d.isDigit = true) →
      (c :: (t' ++ r)).take (n + 1) ≠ d :: word :=
    fun n d word hd heq => hne d hd (List.cons.inj heq).1
  have hnull' : (c :: (t' ++ r)).take 4 ≠ "null".toList := hword 3 'n' "ull".toList (by decide)
  have htrue : (c :: (t' ++ r)).take 4 ≠ "true".toList := hword 3 't' "rue".toList (by decide)
  have hfalse : (c :: (t' ++ r)).take 5 ≠ "false".toList := hword 4 'f' "alse".toList (by decide)
  rw [List.cons_append] at hread ⊢
  rw [parseField, if_neg (hne '"' (by decide)), if_neg hnull', if_neg htrue, if_neg hfalse, if_pos hc,
    hread, fieldOf_word hnull]
  exact congrArg some (fieldUpTo_eq (List.cons_append ..).symm (c :: t') false)

theorem parseField_complete {text : Str} {j : Json} (h : FlatText text j) {r : Str} (hr : Follows r) :
    parseField (text ++ r) = some (fieldOf j, r) := by
  cases h with
  | @string s hplain =>
    have htext : '"' :: (s ++ ['"']) ++ r = '"' :: (s ++ '"' :: r) := by
      rw [List.cons_append, List.append_assoc]
      rfl
    have hread : parsePlainString ('"' :: (s ++ '"' :: r)) = some (s, r) :=
      parsePlainString_iff.mpr ⟨hplain, rfl⟩
    rw [htext, parseField, if_pos rfl, hread]
    exact congrArg some (fieldUpTo_eq htext.symm s false)
  | scalar hscalar =>
    rcases hscalar with rfl | rfl | rfl | hnumber
    · exact congrArg some (@fieldUpTo_eq _ "true".toList _ rfl "true".toList false)
    · exact congrArg some (@fieldUpTo_eq _ "false".toList _ rfl "false".toList false)
    · exact congrArg some (@fieldUpTo_eq _ "null".toList _ rfl [] true)
    · exact parseField_number hnumber hr

/-- A member with a plain key and a flat value, and the space around them. -/
structure FlatMember (m : MemberText) : Prop where
  key : ∃ before after, m.rawKey = before ++ '"' :: (m.key ++ '"' :: after) ∧ IsBlank before ∧
    IsBlank after ∧ IsPlain m.key
  value : ∃ before text after, m.rawValue = before ++ text ++ after ∧ IsBlank before ∧
    IsBlank after ∧ FlatText text m.value

def fieldEntry (m : MemberText) : Str × JsonBodyField := (m.key, fieldOf m.value)

theorem parseMember_sound {s r : Str} {entry : Str × JsonBodyField}
    (h : parseMember s = some (entry, r)) :
    ∃ m : MemberText, s = m.raw ++ r ∧ FlatMember m ∧ entry = fieldEntry m := by
  rw [parseMember] at h
  obtain ⟨⟨key, s₁⟩, hkey, h⟩ := Option.bind_eq_some_iff.mp h
  obtain ⟨hplain, htext⟩ := parsePlainString_iff.mp hkey
  obtain ⟨pad, hpad, hs⟩ := skipWs_spec s
  obtain ⟨pad₁, hpad₁, hs₁⟩ := skipWs_spec s₁
  dsimp only at h
  split at h
  · cases h
  next c s₂ hcolon =>
  split at h
  · next hc =>
    obtain ⟨pad₂, hpad₂, hs₂⟩ := skipWs_spec s₂
    obtain ⟨⟨f, s₃⟩, hfield, h⟩ := Option.map_eq_some_iff.mp h
    cases h
    obtain ⟨pad₃, hpad₃, hs₃⟩ := skipWs_spec s₃
    obtain ⟨text, j, htext₂, hflat, rfl⟩ := parseField_sound hfield
    refine ⟨⟨pad ++ '"' :: (key ++ '"' :: pad₁), key, pad₂ ++ text ++ pad₃, j⟩, ?_,
      ⟨⟨pad, pad₁, rfl, hpad, hpad₁, hplain⟩, ⟨pad₂, text, pad₃, rfl, hpad₂, hpad₃, hflat⟩⟩, rfl⟩
    dsimp only at htext ⊢
    calc s = pad ++ '"' :: (key ++ '"' :: (pad₁ ++ ':' :: s₂)) := by
          rw [← hc, ← hcolon, ← hs₁, ← htext, ← hs]
      _ = pad ++ '"' :: (key ++ '"' :: (pad₁ ++ ':' :: (pad₂ ++ (text ++ (pad₃ ++ skipWs s₃))))) := by
          rw [← hs₃, ← htext₂, ← hs₂]
      _ = _ := by
          simp only [MemberText.raw, List.append_assoc, List.cons_append]
  · cases h

theorem FlatText.head {text : Str} {j : Json} (h : FlatText text j) :
    ∃ c t, text = c :: t ∧ isBlankChar c = false := by
  cases h with
  | string => exact ⟨'"', _, rfl, by decide⟩
  | scalar hscalar =>
    rcases hscalar with rfl | rfl | rfl | hnumber
    · exact ⟨'t', _, rfl, by decide⟩
    · exact ⟨'f', _, rfl, by decide⟩
    · exact ⟨'n', _, rfl, by decide⟩
    · obtain ⟨c, t, rfl, hc⟩ := hnumber.head
      refine ⟨c, t, rfl, Bool.eq_false_iff.mpr fun hblank => ?_⟩
      rcases (isBlankChar_iff c).mp hblank with rfl | rfl | rfl | rfl <;> exact absurd hc (by decide)

theorem parseMember_complete {m : MemberText} (hm : FlatMember m) {r : Str} (hr : Follows r) :
    parseMember (m.raw ++ r) = some (fieldEntry m, skipWs r) := by
  obtain ⟨rawKey, key, rawValue, j⟩ := m
  obtain ⟨⟨before, after, hkey, hbefore, hafter, hplain⟩, ⟨before', text, after', hvalue, hbefore',
    hafter', hflat⟩⟩ := hm
  dsimp only at hkey hvalue hplain hflat
  subst hkey hvalue
  have htext : MemberText.raw ⟨before ++ '"' :: (key ++ '"' :: after), key, before' ++ text ++ after', j⟩
      ++ r = before ++ '"' :: (key ++ '"' :: (after ++ ':' :: (before' ++ (text ++ (after' ++ r))))) := by
    simp only [MemberText.raw, List.append_assoc, List.cons_append]
  have hread : parsePlainString ('"' :: (key ++ '"' ::
      (after ++ ':' :: (before' ++ (text ++ (after' ++ r)))))) =
      some (key, after ++ ':' :: (before' ++ (text ++ (after' ++ r)))) :=
    parsePlainString_iff.mpr ⟨hplain, rfl⟩
  have hfield := parseField_complete hflat (follows_append hafter' hr)
  have hskip : skipWs (text ++ (after' ++ r)) = text ++ (after' ++ r) := by
    obtain ⟨c, t, rfl, hc⟩ := hflat.head
    exact skipWs_cons hc _
  rw [htext, parseMember, skipWs_pad hbefore, skipWs_cons (by decide), hread, Option.bind_some]
  dsimp only
  rw [skipWs_pad hafter, skipWs_cons (by decide)]
  dsimp only
  rw [if_pos rfl, skipWs_pad hbefore', hskip, hfield, Option.map_some, skipWs_pad hafter']
  rfl

theorem extractMembers_sound {fuel : Nat} {fields fields' : CiMap JsonBodyField} {s : Str}
    (h : extractMembers fuel fields s = some fields') :
    ∃ (ms : List MemberText) (pad : Str), s = commaed (ms.map MemberText.raw) ++ '\x7d' :: pad ∧
      IsBlank pad ∧ (∀ m ∈ ms, FlatMember m) ∧ ms ≠ [] ∧ fields' = fields.setAll (ms.map fieldEntry) := by
  induction fuel generalizing fields s with
  | zero => cases h
  | succ fuel ih =>
    rw [extractMembers] at h
    obtain ⟨⟨entry, r⟩, hmember, h⟩ := Option.bind_eq_some_iff.mp h
    obtain ⟨m, rfl, hm, rfl⟩ := parseMember_sound hmember
    rcases r with _ | ⟨c, s'⟩
    · cases h
    dsimp only at h
    split at h
    · next hc =>
      obtain ⟨ms, pad, rfl, hpad, hms, hne, rfl⟩ := ih h
      obtain ⟨m', ms, rfl⟩ := List.exists_cons_of_ne_nil hne
      refine ⟨m :: m' :: ms, pad, ?_, hpad, List.forall_mem_cons.mpr ⟨hm, hms⟩,
        List.cons_ne_nil _ _, rfl⟩
      rw [hc, List.map_cons, List.map_cons, List.map_cons, commaed_cons_cons, List.append_assoc,
        List.cons_append]
    · split at h
      · next hc =>
        split at h
        · next hend =>
          cases h
          obtain ⟨pad, hpad, hs'⟩ := skipWs_spec s'
          rw [hend, List.append_nil] at hs'
          refine ⟨[m], s', ?_, hs' ▸ hpad, List.forall_mem_singleton.mpr hm, List.cons_ne_nil _ _, rfl⟩
          rw [List.map_singleton, commaed_singleton, hc]
        · cases h
      · cases h

theorem extractMembers_complete {ms : List MemberText} (hne : ms ≠ []) (hms : ∀ m ∈ ms, FlatMember m)
    {fuel : Nat} (hfuel : ms.length ≤ fuel) {pad : Str} (hpad : IsBlank pad)
    (fields : CiMap JsonBodyField) :
    extractMembers fuel fields (commaed (ms.map MemberText.raw) ++ '\x7d' :: pad) =
      some (fields.setAll (ms.map fieldEntry)) := by
  induction ms generalizing fuel fields with
  | nil => exact absurd rfl hne
  | cons m ms ih =>
    rw [List.length_cons] at hfuel
    obtain ⟨fuel, rfl⟩ : ∃ n, fuel = n + 1 := ⟨fuel - 1, by omega⟩
    obtain ⟨hm, hrest⟩ := List.forall_mem_cons.mp hms
    cases ms with
    | nil =>
      have hread := parseMember_complete hm (follows_cons (c := '\x7d') (by decide) pad)
      rw [List.map_singleton, commaed_singleton, extractMembers, hread, skipWs_cons (by decide)]
      dsimp only [Option.bind_some]
      rw [if_neg (by decide), if_pos rfl, skipWs_blank hpad, if_pos rfl]
      rfl
    | cons m' ms =>
      have htext : commaed ((m :: m' :: ms).map MemberText.raw) ++ '\x7d' :: pad =
          m.raw ++ ',' :: (commaed ((m' :: ms).map MemberText.raw) ++ '\x7d' :: pad) := by
        rw [List.map_cons, List.map_cons, commaed_cons_cons, List.append_assoc, List.cons_append]
      have hread := parseMember_complete hm (follows_cons (c := ',') (by decide)
        (commaed ((m' :: ms).map MemberText.raw) ++ '\x7d' :: pad))
      rw [htext, extractMembers, hread, skipWs_cons (by decide)]
      dsimp only [Option.bind_some]
      rw [if_pos rfl, ih (List.cons_ne_nil _ _) hrest (Nat.le_of_succ_le_succ hfuel)]
      rfl

theorem skipWs_skipWs (s : Str) : skipWs (skipWs s) = skipWs s := by
  obtain ⟨pad, hpad, hs⟩ := skipWs_spec s
  calc skipWs (skipWs s) = skipWs (pad ++ skipWs s) := (skipWs_pad hpad _).symm
    _ = skipWs s := by rw [← hs]

theorem extractMembers_ne {fuel : Nat} {fields fields' : CiMap JsonBodyField} {s : Str}
    (h : extractMembers fuel fields (skipWs s) = some fields') : ∃ t, skipWs s = '"' :: t := by
  cases fuel with
  | zero => cases h
  | succ fuel =>
    obtain ⟨_, hmember, _⟩ := Option.bind_eq_some_iff.mp h
    obtain ⟨_, hkey, _⟩ := Option.bind_eq_some_iff.mp hmember
    rw [skipWs_skipWs] at hkey
    exact ⟨_, (parsePlainString_iff.mp hkey).2⟩

theorem extractMembers_skipWs (fuel : Nat) (fields : CiMap JsonBodyField) (s : Str) :
    extractMembers fuel fields (skipWs s) = extractMembers fuel fields s := by
  cases fuel with
  | zero => rfl
  | succ fuel => rw [extractMembers, extractMembers, parseMember, parseMember, skipWs_skipWs]

section
variable {encode : Nat → Str}

theorem isFlat_of_flatText {text : Str} {j : Json} (h : FlatText text j) :
    IsFlat j ∧ JsonText encode text j := by
  cases h with
  | string hplain => exact ⟨trivial, .string (charsText_plain hplain)⟩
  | scalar hscalar => exact ⟨trivial, .scalar hscalar⟩

theorem FlatMember.texts {m : MemberText} (h : FlatMember m) :
    KeyText encode m.rawKey m.key ∧ JsonText encode m.rawValue m.value ∧ IsFlat m.value := by
  obtain ⟨⟨before, after, hkey, hbefore, hafter, hplain⟩, ⟨before', text, after', hvalue, hbefore',
    hafter', hflat⟩⟩ := h
  obtain ⟨hkind, htext⟩ := @isFlat_of_flatText encode _ _ hflat
  refine ⟨⟨before, m.key, after, hkey, hbefore, hafter, charsText_plain hplain⟩, ?_, hkind⟩
  rw [hvalue]
  exact .padded hbefore' hafter' htext

theorem flatMember_of_texts {m : MemberText} (hkey : KeyText encode m.rawKey m.key)
    (hvalue : JsonText encode m.rawValue m.value) (hflat : IsFlat m.value) (hraw : '\\' ∉ m.raw) :
    FlatMember m := by
  have hrawKey : '\\' ∉ m.rawKey := fun hmem => hraw (List.mem_append_left _ hmem)
  have hrawValue : '\\' ∉ m.rawValue := fun hmem =>
    hraw (List.mem_append_right _ (List.mem_cons_of_mem _ hmem))
  constructor
  · obtain ⟨before, body, after, htext, hbefore, hafter, hbody⟩ := hkey
    have hin : '\\' ∉ body := by
      intro hmem
      rw [htext] at hrawKey
      exact hrawKey (List.mem_append_right _ (List.mem_cons_of_mem _ (List.mem_append_left _ hmem)))
    obtain ⟨hsame, hplain⟩ := isPlain_of_charsText hbody hin
    exact ⟨before, after, hsame ▸ htext, hbefore, hafter, hsame ▸ hplain⟩
  · cases hj : m.value with
    | scalar text =>
      rw [hj] at hvalue
      obtain ⟨before, after, htext, hbefore, hafter, hscalar⟩ := hvalue.scalar_inv
      exact ⟨before, text, after, htext, hbefore, hafter, .scalar hscalar⟩
    | string s =>
      rw [hj] at hvalue
      obtain ⟨before, raw, after, htext, hbefore, hafter, hchars⟩ := hvalue.string_inv
      have hin : '\\' ∉ raw := by
        intro hmem
        rw [htext] at hrawValue
        exact hrawValue (List.mem_append_left _ (List.mem_append_right _
          (List.mem_cons_of_mem _ (List.mem_append_left _ hmem))))
      obtain ⟨hsame, hplain⟩ := isPlain_of_charsText hchars hin
      exact ⟨before, _, after, htext, hbefore, hafter, hsame ▸ .string (hsame ▸ hplain)⟩
    | array => rw [hj] at hflat; exact hflat.elim
    | object => rw [hj] at hflat; exact hflat.elim

theorem setAll_fieldEntry (ms : List MemberText) :
    CiMap.empty.setAll (ms.map fieldEntry) = referenceFields (ms.map MemberText.member) := by
  rw [← setAll_eq_referenceFields, List.map_map]
  rfl

theorem tryExtract_sound {text : Str} {fields : CiMap JsonBodyField}
    (h : tryExtractFlatJsonObject text = some fields) :
    ∃ members, JsonText encode text (.object members) ∧ (∀ m ∈ members, IsFlat m.2) ∧
      fields = referenceFields members := by
  obtain ⟨pad, hpad, htext⟩ := skipWs_spec text
  rw [tryExtractFlatJsonObject] at h
  rcases hs : skipWs text with _ | ⟨c, s⟩
  · rw [hs] at h
    cases h
  rw [hs] at h htext
  dsimp only at h
  rw [Option.ite_none_right_eq_some] at h
  obtain ⟨rfl, h⟩ := h
  obtain ⟨pad', hpad', hs'⟩ := skipWs_spec s
  rcases hd : skipWs s with _ | ⟨d, t⟩
  · rw [hd] at h
    cases h
  rw [hd] at h hs'
  dsimp only at h
  split at h
  · next hclose =>
    rw [Option.ite_none_right_eq_some] at h
    obtain ⟨hend, h⟩ := h
    cases h
    obtain ⟨pad'', hpad'', ht⟩ := skipWs_spec t
    rw [hend, List.append_nil] at ht
    refine ⟨[], ?_, nofun, rfl⟩
    have hobject : text = pad ++ '\x7b' :: (pad' ++ ['\x7d']) ++ pad'' := by
      rw [htext, hs', hclose, ht]
      simp only [List.append_assoc, List.cons_append, List.nil_append]
    rw [hobject]
    exact .padded hpad hpad'' (.emptyObject hpad')
  · rw [← hd, extractMembers_skipWs] at h
    obtain ⟨ms, pad'', hmembers, hpad'', hms, _, rfl⟩ := extractMembers_sound h
    refine ⟨ms.map MemberText.member, ?_, ?_, setAll_fieldEntry ms⟩
    · have hobject : text =
          pad ++ '\x7b' :: (commaed (ms.map MemberText.raw) ++ ['\x7d']) ++ pad'' := by
        rw [htext, hmembers]
        simp only [List.append_assoc, List.cons_append, List.nil_append]
      rw [hobject]
      exact .padded hpad hpad'' (.object (fun m hm => (hms m hm).texts.1)
        fun m hm => (hms m hm).texts.2.1)
    · intro p hp
      obtain ⟨m, hm, rfl⟩ := List.mem_map.mp hp
      exact (@FlatMember.texts encode _ (hms m hm)).2.2

theorem length_le_commaed {texts : List Str} (h : ∀ t ∈ texts, t ≠ []) :
    texts.length ≤ (commaed texts).length := by
  induction texts with
  | nil => exact Nat.le_refl _
  | cons t texts ih =>
    obtain ⟨ht, htexts⟩ := List.forall_mem_cons.mp h
    have hpos := List.length_pos_iff.mpr ht
    have hrest := ih htexts
    cases texts with
    | nil =>
      rw [commaed_singleton]
      exact hpos
    | cons u texts =>
      rw [commaed_cons_cons]
      simp only [List.length_append, List.length_cons] at hrest ⊢
      omega

theorem tryExtract_nothing {before pad after : Str} (hbefore : IsBlank before) (hpad : IsBlank pad)
    (hafter : IsBlank after) :
    tryExtractFlatJsonObject (before ++ '\x7b' :: (pad ++ ['\x7d']) ++ after) = some .empty := by
  have htext : before ++ '\x7b' :: (pad ++ ['\x7d']) ++ after =
      before ++ '\x7b' :: (pad ++ '\x7d' :: after) := by
    simp only [List.append_assoc, List.cons_append, List.nil_append]
  rw [tryExtractFlatJsonObject, htext, skipWs_pad hbefore, skipWs_cons (by decide)]
  dsimp only
  rw [if_pos rfl, skipWs_pad hpad, skipWs_cons (by decide)]
  dsimp only
  rw [if_pos rfl, skipWs_blank hafter, if_pos rfl]

theorem tryExtract_members {before after : Str} (hbefore : IsBlank before) (hafter : IsBlank after)
    {ms : List MemberText} (hne : ms ≠ []) (hms : ∀ m ∈ ms, FlatMember m) :
    tryExtractFlatJsonObject
      (before ++ '\x7b' :: (commaed (ms.map MemberText.raw) ++ ['\x7d']) ++ after) =
        some (CiMap.empty.setAll (ms.map fieldEntry)) := by
  have htext : before ++ '\x7b' :: (commaed (ms.map MemberText.raw) ++ ['\x7d']) ++ after =
      before ++ '\x7b' :: (commaed (ms.map MemberText.raw) ++ '\x7d' :: after) := by
    simp only [List.append_assoc, List.cons_append, List.nil_append]
  have hcount : ms.length ≤ (commaed (ms.map MemberText.raw)).length := by
    have hraw : ∀ t ∈ ms.map MemberText.raw, t ≠ [] := by
      intro t ht
      obtain ⟨m, _, rfl⟩ := List.mem_map.mp ht
      exact List.append_ne_nil_of_right_ne_nil _ (List.cons_ne_nil _ _)
    simpa using length_le_commaed hraw
  have hfuel : ms.length ≤
      (before ++ '\x7b' :: (commaed (ms.map MemberText.raw) ++ '\x7d' :: after)).length := by
    simp only [List.length_append, List.length_cons]
    omega
  have hread := extractMembers_complete hne hms hfuel hafter .empty
  rw [htext, tryExtractFlatJsonObject, skipWs_pad hbefore, skipWs_cons (by decide)]
  dsimp only
  rw [if_pos rfl]
  rw [← extractMembers_skipWs] at hread
  obtain ⟨t, ht⟩ := extractMembers_ne hread
  rw [ht] at hread ⊢
  dsimp only
  rw [if_neg (by decide)]
  exact hread

theorem tryExtract_complete {text : Str} {members : List (Str × Json)}
    (h : JsonText encode text (.object members)) (hflat : ∀ m ∈ members, IsFlat m.2)
    (htext : '\\' ∉ text) : ∃ fields, tryExtractFlatJsonObject text = some fields := by
  obtain ⟨before, body, after, rfl, hbefore, hafter, ⟨hbody, _⟩ | ⟨ms, rfl, rfl, hkeys, hvalues⟩⟩ :=
    h.object_inv
  · exact ⟨_, tryExtract_nothing hbefore hbody hafter⟩
  · by_cases hne : ms = []
    · rw [hne]
      exact ⟨_, tryExtract_nothing hbefore isBlank_nil hafter⟩
    · refine ⟨_, tryExtract_members hbefore hafter hne fun m hm => ?_⟩
      refine flatMember_of_texts (hkeys m hm) (hvalues m hm)
        (hflat m.member (List.mem_map_of_mem hm)) fun hmem => htext ?_
      have hin : '\\' ∈ commaed (ms.map MemberText.raw) := mem_commaed (List.mem_map_of_mem hm) hmem
      exact List.mem_append_left _ (List.mem_append_right _ (List.mem_cons_of_mem _
        (List.mem_append_left _ hin)))

end

/-- The short way takes JSON objects of flat values, for what they are, and all that have no escape. -/
theorem flat_json_object (encode : Nat → Str) (text : Str) :
    (∀ fields, tryExtractFlatJsonObject text = some fields →
      ∃ members, (∀ j, JsonText encode text j ↔ j = .object members) ∧ (∀ m ∈ members, IsFlat m.2) ∧
        fields = referenceFields members) ∧
    ∀ members, JsonText encode text (.object members) → (∀ m ∈ members, IsFlat m.2) →
      '\\' ∉ text → ∃ fields, tryExtractFlatJsonObject text = some fields := by
  constructor
  · intro fields h
    obtain ⟨members, hread, hflat, hfields⟩ := @tryExtract_sound encode _ _ h
    exact ⟨members, hread.iff_eq, hflat, hfields⟩
  · intro members h hflat htext
    exact tryExtract_complete h hflat htext

end Quackapi.Params
