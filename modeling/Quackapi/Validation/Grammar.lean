import Quackapi.Library.JsonReading
import Quackapi.Validation.RoundTrip

/-! The reader takes every JSON text that is not nested too deeply, and for what it is. -/

namespace Quackapi.Validation
open Library

mutual
def nodeOf : Json → JsonNode
  | .scalar text =>
    if text = "null".toList then .nil
    else if text = "true".toList ∨ text = "false".toList then .bool []
    else .number text
  | .string s => .string s
  | .array items => .array (nodesOf items)
  | .object members => .object (memberNodesOf members)

def nodesOf : List Json → List JsonNode
  | [] => []
  | j :: js => nodeOf j :: nodesOf js

def memberNodesOf : List (Str × Json) → List (Str × JsonNode)
  | [] => []
  | m :: ms => memberNodeOf m :: memberNodesOf ms

def memberNodeOf : Str × Json → Str × JsonNode
  | (key, j) => (key, nodeOf j)
end

/-- At most so many arrays and objects are nested in the value. -/
inductive Within : Nat → Json → Prop
  | scalar {levels : Nat} (text : Str) : Within levels (.scalar text)
  | string {levels : Nat} (s : Str) : Within levels (.string s)
  | array {levels : Nat} {items : List Json} (h : ∀ j ∈ items, Within levels j) :
      Within (levels + 1) (.array items)
  | object {levels : Nat} {members : List (Str × Json)} (h : ∀ m ∈ members, Within levels m.2) :
      Within (levels + 1) (.object members)

/-- The reader finds the value at the start of the text, whatever follows, and stops behind it. -/
def Finds {α : Type} (item : Str → Option (α × Str)) (text : Str) (a : α) : Prop :=
  ∀ rest, Follows rest → ∃ r, item (text ++ rest) = some (a, r) ∧ skipWhitespace r = skipWhitespace rest

def SkipsSpace {α : Type} (item : Str → Option (α × Str)) : Prop :=
  ∀ s, item (skipWhitespace s) = item s

theorem skipWhitespace_pad {pad : Str} (hpad : IsBlank pad) (s : Str) :
    skipWhitespace (pad ++ s) = skipWhitespace s :=
  skipBlank_append hpad s

theorem skipWhitespace_twice (s : Str) : skipWhitespace (skipWhitespace s) = skipWhitespace s := by
  rcases hs : skipWhitespace s with _ | ⟨c, t⟩
  · rfl
  · have hc : isJsonSpace c = false := by
      have hhead := List.head?_dropWhile_not isJsonSpace s
      rw [show s.dropWhile isJsonSpace = c :: t from hs] at hhead
      simpa using hhead
    exact skipWhitespace_of_not hc t

theorem hexValue_eq_hexDigit (c : Char) : hexValue c = hexDigit c := by
  unfold hexValue hexDigit
  split
  · rfl
  · split
    · next h =>
      have hle : 97 ≤ c.toNat := h.1
      have ha : 'a'.toNat = 97 := rfl
      rw [ha, Option.some.injEq]
      omega
    · split
      · next h =>
        have hle : 65 ≤ c.toNat := h.1
        have ha : 'A'.toNat = 65 := rfl
        rw [ha, Option.some.injEq]
        omega
      · rfl

theorem parseUnicodeEscape_hex {a b c d : Char} {n : Nat} (h : hexCode [a, b, c, d] = some n)
    (s : Str) : parseUnicodeEscape (a :: b :: c :: d :: s) = some (n, s) := by
  simp only [hexCode, Option.bind_eq_bind, Option.bind_eq_some_iff, Option.pure_def] at h
  obtain ⟨a', ha, b', hb, c', hc, d', hd, h⟩ := h
  simp only [parseUnicodeEscape, hexValue_eq_hexDigit, ha, hb, hc, hd, Option.bind_eq_bind,
    Option.bind_some, Option.pure_def]
  rw [Option.some.inj h]

theorem readEscape_short : ∀ p ∈ shortEscapes, ∀ s, readEscape (p.1 :: s) = some ([p.2], s) := by
  intro p hp s
  simp only [shortEscapes, List.mem_cons, List.not_mem_nil, or_false] at hp
  rcases hp with rfl | rfl | rfl | rfl | rfl | rfl | rfl | rfl <;> rfl

theorem readString_charsText {raw s : Str} (h : CharsText appendUtf8 raw s) {fuel : Nat}
    (hfuel : raw.length < fuel) (rest : Str) :
    readString fuel (raw ++ '"' :: rest) = some (s, rest) := by
  induction h generalizing fuel with
  | nil =>
    obtain ⟨fuel, rfl⟩ : ∃ n, fuel = n + 1 := ⟨fuel - 1, by simp at hfuel; omega⟩
    rfl
  | @plain c raw s hquote hbackslash hcontrol _ ih =>
    obtain ⟨fuel, rfl⟩ : ∃ n, fuel = n + 1 := ⟨fuel - 1, by omega⟩
    rw [List.cons_append, readString, if_neg hquote, if_neg (Nat.not_lt.mpr hcontrol),
      if_neg hbackslash, ih (Nat.lt_of_succ_lt_succ hfuel)]
    rfl
  | @escape c d raw s hcd _ ih =>
    simp only [List.length_cons] at hfuel
    obtain ⟨fuel, rfl⟩ : ∃ n, fuel = n + 1 := ⟨fuel - 1, by omega⟩
    have hescape := readEscape_short (c, d) hcd (raw ++ '"' :: rest)
    rw [List.cons_append, List.cons_append, readString, if_neg (by decide), if_neg (by decide),
      if_pos rfl, hescape]
    dsimp only [Option.bind_eq_bind, Option.bind_some]
    rw [ih (by omega)]
    rfl
  | @code hex raw s n hhex hn _ ih =>
    obtain ⟨a, b, c, d, rfl⟩ := hexCode_spec hhex
    simp only [List.length_cons, List.length_append, List.length_nil] at hfuel
    obtain ⟨fuel, rfl⟩ : ∃ n, fuel = n + 1 := ⟨fuel - 1, by omega⟩
    have hescape : readEscape ('u' :: a :: b :: c :: d :: (raw ++ '"' :: rest)) =
        some (appendUtf8 n, raw ++ '"' :: rest) := by
      show readUnicode (a :: b :: c :: d :: (raw ++ '"' :: rest)) = _
      rw [readUnicode, parseUnicodeEscape_hex hhex]
      exact if_neg (by omega)
    simp only [List.cons_append, List.nil_append]
    rw [readString, if_neg (by decide), if_neg (by decide), if_pos rfl, hescape]
    dsimp only [Option.bind_eq_bind, Option.bind_some]
    rw [ih (by omega)]
    rfl
  | @pair high low raw s m n hhigh hlow hm hn _ ih =>
    obtain ⟨a, b, c, d, rfl⟩ := hexCode_spec hhigh
    obtain ⟨a', b', c', d', rfl⟩ := hexCode_spec hlow
    simp only [List.length_cons, List.length_append, List.length_nil] at hfuel
    obtain ⟨fuel, rfl⟩ : ∃ n, fuel = n + 1 := ⟨fuel - 1, by omega⟩
    have hescape : readEscape
        ('u' :: a :: b :: c :: d :: '\\' :: 'u' :: a' :: b' :: c' :: d' :: (raw ++ '"' :: rest)) =
        some (appendUtf8 (0x10000 + (m - 0xd800) * 0x400 + (n - 0xdc00)), raw ++ '"' :: rest) := by
      have hfollows : escapeFollows
          ('\\' :: 'u' :: a' :: b' :: c' :: d' :: (raw ++ '"' :: rest)) = true := by
        simp [escapeFollows]
      have hsecond : parseUnicodeEscape
          (('\\' :: 'u' :: a' :: b' :: c' :: d' :: (raw ++ '"' :: rest)).drop 2) =
          some (n, raw ++ '"' :: rest) := parseUnicodeEscape_hex hlow _
      show readUnicode (a :: b :: c :: d :: _) = _
      rw [readUnicode, parseUnicodeEscape_hex hhigh]
      dsimp only [Option.bind_eq_bind, Option.bind_some]
      rw [if_pos ⟨hm.1, hm.2, hfollows⟩, hsecond]
      dsimp only [Option.bind_some]
      rw [if_neg (by omega), Nat.shiftLeft_eq]
      rfl
    simp only [List.cons_append, List.nil_append]
    rw [readString, if_neg (by decide), if_neg (by decide), if_pos rfl, hescape]
    dsimp only [Option.bind_eq_bind, Option.bind_some]
    rw [ih (by omega)]
    rfl

theorem consume_pad {pad : Str} (hpad : IsBlank pad) {c : Char} (hc : isJsonSpace c = false)
    (s : Str) : consume c (pad ++ c :: s) = some s := by
  rw [consume, skipWhitespace_pad hpad, skipWhitespace_of_not hc]
  exact if_pos rfl

theorem parseString_charsText {pad raw s : Str} (hpad : IsBlank pad) (h : CharsText appendUtf8 raw s)
    (rest : Str) : parseString (pad ++ '"' :: (raw ++ '"' :: rest)) = some (s, rest) := by
  rw [parseString, consume_pad hpad (by decide)]
  refine readString_charsText h ?_ rest
  rw [List.length_append, List.length_cons]
  omega

section
variable {α : Type} {item : Str → Option (α × Str)} {closing : Char}

theorem IsClosing.ends (h : IsClosing closing) : endsScalar closing = true := by
  rcases h with rfl | rfl <;> decide

theorem parseItems_commaed (hclosing : IsClosing closing) {items : List (Str × α)}
    (hne : items ≠ []) (hitems : ∀ p ∈ items, Finds item p.1 p.2) {fuel : Nat} (hfuel : items.length ≤ fuel) (rest : Str) :
    parseItems item closing fuel (commaed (items.map Prod.fst) ++ closing :: rest) =
      some (items.map Prod.snd, rest) := by
  induction items generalizing fuel with
  | nil => exact absurd rfl hne
  | cons p items ih =>
    rw [List.length_cons] at hfuel
    obtain ⟨fuel, rfl⟩ : ∃ n, fuel = n + 1 := ⟨fuel - 1, by omega⟩
    have hp := hitems p List.mem_cons_self
    cases items with
    | nil =>
      obtain ⟨r, hread, hr⟩ := hp _ (follows_cons hclosing.ends rest)
      rw [List.map_singleton, commaed_singleton, parseItems, hread]
      dsimp only [Option.bind_eq_bind, Option.bind_some]
      rw [hr, skipWhitespace_of_not hclosing.not_space]
      dsimp only
      rw [if_pos rfl]
      rfl
    | cons q items =>
      have hcomma : ',' ≠ closing := by
        rcases hclosing with rfl | rfl <;> decide
      have hrest := ih (List.cons_ne_nil q items) (fun r hr => hitems r (List.mem_cons_of_mem _ hr))
        (Nat.le_of_succ_le_succ hfuel)
      have htext : commaed ((p :: q :: items).map Prod.fst) ++ closing :: rest =
          p.1 ++ ',' :: (commaed ((q :: items).map Prod.fst) ++ closing :: rest) := by
        rw [List.map_cons, List.map_cons, commaed_cons_cons, List.append_assoc, List.cons_append]
      have hends : endsScalar ',' = true := by decide
      obtain ⟨r, hread, hr⟩ := hp _ (follows_cons hends
        (commaed ((q :: items).map Prod.fst) ++ closing :: rest))
      rw [htext, parseItems, hread]
      dsimp only [Option.bind_eq_bind, Option.bind_some]
      rw [hr, skipWhitespace_of_not (by decide)]
      dsimp only
      rw [if_neg hcomma, if_pos rfl, hrest]
      rfl

theorem parseItems_of_fuel (hshort : ∀ s x r, item s = some (x, r) → r.length ≤ s.length)
    (hnil : item [] = none) {s : Str} {result : List α × Str} {fuel : Nat}
    (h : parseItems item closing fuel s = some result) (hfuel : s.length ≤ fuel) :
    parseItems item closing s.length s = some result := by
  induction fuel with
  | zero =>
    cases h
  | succ fuel ih =>
    rcases Nat.lt_or_ge fuel s.length with hlt | hge
    · rwa [show s.length = fuel + 1 by omega]
    · exact ih (by rwa [← parseItems_fuel hshort hnil hge]) hge

/-- What is asked of the items of a sequence, apart from what they find. -/
structure Shrinks (item : Str → Option (α × Str)) : Prop where
  spaced : SkipsSpace item
  short : ∀ s x r, item s = some (x, r) → r.length ≤ s.length
  nil : item [] = none

theorem parseItems_skip (hspace : SkipsSpace item) (fuel : Nat) (s : Str) :
    parseItems item closing fuel (skipWhitespace s) = parseItems item closing fuel s := by
  cases fuel with
  | zero => rfl
  | succ fuel => rw [parseItems, parseItems, hspace s]

theorem parseSequence_nothing {opening : Char} (hopening : isJsonSpace opening = false)
    (hclosing : IsClosing closing) {pad : Str} (hpad : IsBlank pad) (rest : Str) :
    parseSequence item opening closing (opening :: (pad ++ closing :: rest)) = some ([], rest) := by
  rw [parseSequence, consume_cons hopening]
  dsimp only [Option.bind_eq_bind, Option.bind_some]
  rw [skipWhitespace_pad hpad, skipWhitespace_of_not hclosing.not_space]
  exact if_pos rfl

theorem parseSequence_commaed {opening : Char} (hopening : isJsonSpace opening = false)
    (hclosing : IsClosing closing) (hitem : Shrinks item) (hnone : ∀ s, item (closing :: s) = none)
    {items : List (Str × α)} (hitems : ∀ p ∈ items, Finds item p.1 p.2) (rest : Str) :
    parseSequence item opening closing
      (opening :: (commaed (items.map Prod.fst) ++ closing :: rest)) =
        some (items.map Prod.snd, rest) := by
  by_cases hne : items = []
  · subst hne
    exact @parseSequence_nothing _ _ _ _ hopening hclosing [] nofun rest
  · have hread := fun fuel (hfuel : items.length ≤ fuel) =>
      parseItems_commaed hclosing hne hitems hfuel rest
    generalize commaed (items.map Prod.fst) ++ closing :: rest = s at hread ⊢
    have hskip := hread (max items.length (skipWhitespace s).length) (Nat.le_max_left _ _)
    rw [← parseItems_skip hitem.spaced] at hskip
    have hitems := parseItems_of_fuel hitem.short hitem.nil hskip (Nat.le_max_right _ _)
    rw [parseSequence, consume_cons hopening]
    dsimp only [Option.bind_eq_bind, Option.bind_some]
    rcases hs : skipWhitespace s with _ | ⟨c, t⟩
    · rw [hs] at hitems
      cases hitems
    · rw [hs] at hitems
      have hc : c ≠ closing := by
        rintro rfl
        rw [List.length_cons, parseItems, hnone] at hitems
        cases hitems
      dsimp only
      rw [if_neg hc]
      exact hitems

end

theorem skipsSpace_parseValueWith (nested : Option Reader) : SkipsSpace (parseValueWith nested) := by
  intro s
  rw [parseValueWith, parseValueWith, skipWhitespace_twice]

theorem parseValueWith_pad (nested : Option Reader) {pad : Str} (hpad : IsBlank pad) (s : Str) :
    parseValueWith nested (pad ++ s) = parseValueWith nested s := by
  rw [← skipsSpace_parseValueWith nested (pad ++ s), skipWhitespace_pad hpad,
    skipsSpace_parseValueWith]

theorem shrinks_parseValue (levels : Nat) : Shrinks (parseValue levels) := by
  have hvalue : ∃ nested, parseValue levels = parseValueWith nested := by
    cases levels with
    | zero => exact ⟨none, rfl⟩
    | succ levels => exact ⟨some (parseValue levels), rfl⟩
  obtain ⟨nested, hnested⟩ := hvalue
  constructor
  · rw [hnested]
    exact skipsSpace_parseValueWith nested
  · intro s x r h
    have hlength := parseValue_length levels s x r h
    omega
  · rw [hnested]
    rfl

theorem parseValue_closing (levels : Nat) (s : Str) : parseValue levels (']' :: s) = none := by
  cases levels with
  | zero => rfl
  | succ levels => rfl

theorem shrinks_parseMember {value : Reader} (hvalue : Shrinks value) : Shrinks (parseMember value) := by
  constructor
  · intro s
    rw [parseMember, parseMember, parseString, parseString, consume, consume, skipWhitespace_twice]
  · intro s x r h
    simp only [parseMember, Option.bind_eq_bind, Option.bind_eq_some_iff, Option.pure_def] at h
    obtain ⟨⟨key, s'⟩, hkey, s'', hcolon, ⟨node, r'⟩, hnode, h⟩ := h
    cases h
    have hkeyLength := parseString_length hkey
    have hcolonLength := consume_length hcolon
    have hnodeLength := hvalue.short _ _ _ hnode
    dsimp only at hkeyLength hcolonLength hnodeLength ⊢
    omega
  · rfl

theorem parseMember_closing (value : Reader) (s : Str) : parseMember value ('\x7d' :: s) = none := rfl

theorem KeyText.finds {rawKey key : Str} (hkey : KeyText appendUtf8 rawKey key) {value : Reader}
    {rawValue : Str} {j : Json} (hvalue : Finds value rawValue (nodeOf j)) :
    Finds (parseMember value) (rawKey ++ ':' :: rawValue) (memberNodeOf (key, j)) := by
  intro rest hrest
  obtain ⟨before, body, after, rfl, hbefore, hafter, hbody⟩ := hkey
  obtain ⟨r, hread, hr⟩ := hvalue rest hrest
  refine ⟨r, ?_, hr⟩
  have htext : before ++ '"' :: (body ++ '"' :: after) ++ ':' :: rawValue ++ rest =
      before ++ '"' :: (body ++ '"' :: (after ++ ':' :: (rawValue ++ rest))) := by
    simp only [List.append_assoc, List.cons_append]
  rw [htext, parseMember, parseString_charsText hbefore hbody]
  dsimp only [Option.bind_eq_bind, Option.bind_some]
  rw [consume_pad hafter (by decide), Option.bind_some, hread]
  rfl

theorem parseValueWith_word (nested : Option Reader) {word : Str}
    (hword : word = "true".toList ∨ word = "false".toList ∨ word = "null".toList) :
    Finds (parseValueWith nested) word (nodeOf (.scalar word)) := by
  intro rest _
  refine ⟨rest, ?_, rfl⟩
  rcases hword with rfl | rfl | rfl
  · rw [show "true".toList ++ rest = 't' :: 'r' :: 'u' :: 'e' :: rest from rfl,
      parseValueWith_cons nested (by decide)]
    rfl
  · rw [show "false".toList ++ rest = 'f' :: 'a' :: 'l' :: 's' :: 'e' :: rest from rfl,
      parseValueWith_cons nested (by decide)]
    rfl
  · rw [show "null".toList ++ rest = 'n' :: 'u' :: 'l' :: 'l' :: rest from rfl,
      parseValueWith_cons nested (by decide)]
    rfl

theorem isNumberChar_of_digits {s : Str} (h : IsDigits s) : ∀ c ∈ s, isNumberChar c = true := by
  intro c hc
  rw [isNumberChar, h.2 c hc]
  rfl

theorem isNumberChar_of_mem {s : Str} (h : s.all isNumberChar = true) :
    ∀ c ∈ s, isNumberChar c = true :=
  List.all_eq_true.mp h

theorem number_chars {text : Str} (h : IsNumber text) :
    ∃ c digits, text = c :: digits ∧ (c = '-' ∨ c.isDigit = true) ∧
      ∀ d ∈ digits, isNumberChar d = true := by
  obtain ⟨sign, whole, fraction, exponent, rfl, hsign, ⟨⟨hne, hwhole⟩, _⟩, hfraction, hexponent⟩ := h
  have hwhole' : ∀ c ∈ whole, isNumberChar c = true := isNumberChar_of_digits ⟨hne, hwhole⟩
  have hfraction' : ∀ c ∈ fraction, isNumberChar c = true := by
    rcases hfraction with rfl | ⟨digits, rfl, hdigits⟩
    · exact nofun
    · exact List.forall_mem_cons.mpr ⟨by decide, isNumberChar_of_digits hdigits⟩
  have hexponent' : ∀ c ∈ exponent, isNumberChar c = true := by
    rcases hexponent with rfl | ⟨e, esign, digits, rfl, he, hesign, hdigits⟩
    · exact nofun
    · refine List.forall_mem_cons.mpr ⟨by rcases he with rfl | rfl <;> decide, ?_⟩
      refine List.forall_mem_append.mpr ⟨?_, isNumberChar_of_digits hdigits⟩
      rcases hesign with rfl | rfl | rfl <;> exact isNumberChar_of_mem (by decide)
  obtain ⟨w, whole, rfl⟩ := List.exists_cons_of_ne_nil hne
  obtain ⟨hw, hwhole⟩ := List.forall_mem_cons.mp hwhole
  rcases hsign with rfl | rfl
  · refine ⟨w, whole ++ fraction ++ exponent, rfl, .inr hw, ?_⟩
    simp only [List.forall_mem_append]
    exact ⟨⟨(List.forall_mem_cons.mp hwhole').2, hfraction'⟩, hexponent'⟩
  · refine ⟨'-', w :: whole ++ fraction ++ exponent, rfl, .inl rfl, ?_⟩
    simp only [List.forall_mem_append]
    exact ⟨⟨hwhole', hfraction'⟩, hexponent'⟩

theorem not_isNumberChar_of_follows {rest : Str} (h : Follows rest) :
    rest.takeWhile isNumberChar = [] ∧ rest.dropWhile isNumberChar = rest := by
  cases rest with
  | nil => exact ⟨rfl, rfl⟩
  | cons c t =>
    have hall : (structural.take 7).all (fun d => !isNumberChar d) = true := by decide
    have hnot : ∀ d ∈ structural.take 7, isNumberChar d = false := fun d hd => by
      simpa using List.all_eq_true.mp hall d hd
    have hc := hnot c ((endsScalar_iff c).mp (h c t rfl))
    rw [List.takeWhile_cons, List.dropWhile_cons, hc]
    exact ⟨rfl, rfl⟩

theorem parseValueWith_number (nested : Option Reader) {text : Str} (h : IsNumber text) :
    Finds (parseValueWith nested) text (.number text) := by
  obtain ⟨c, digits, rfl, hc, hdigits⟩ := number_chars h
  intro rest hrest
  refine ⟨rest, ?_, rfl⟩
  have hne : ∀ d : Char, ¬ (d = '-' ∨ d.isDigit = true) → c ≠ d := by
    rintro d hd rfl
    exact hd hc
  have hspace : isJsonSpace c = false := by
    apply Bool.eq_false_iff.mpr
    intro hblank
    rcases (isBlankChar_iff c).mp hblank with h | h | h | h <;> exact hne _ (by decide) h
  obtain ⟨htake, hdrop⟩ := not_isNumberChar_of_follows hrest
  have htrue : ¬ "true".toList.isPrefixOf (c :: (digits ++ rest)) = true :=
    isPrefixOf_cons_ne (hne 't' (by decide)).symm "rue".toList _
  have hfalse : ¬ "false".toList.isPrefixOf (c :: (digits ++ rest)) = true :=
    isPrefixOf_cons_ne (hne 'f' (by decide)).symm "alse".toList _
  have hnull : ¬ "null".toList.isPrefixOf (c :: (digits ++ rest)) = true :=
    isPrefixOf_cons_ne (hne 'n' (by decide)).symm "ull".toList _
  rw [List.cons_append, parseValueWith_cons nested hspace, if_neg (hne _ (by decide)),
    if_neg (hne _ (by decide)), if_neg (hne _ (by decide)), if_neg htrue, if_neg hfalse, if_neg hnull,
    if_pos hc, List.takeWhile_append_of_pos hdigits, List.dropWhile_append_of_pos hdigits, htake, hdrop,
    List.append_nil]

theorem nodeOf_number {text : Str} (h : IsNumber text) : nodeOf (.scalar text) = .number text := by
  obtain ⟨c, digits, rfl, hc, _⟩ := number_chars h
  have hne : ∀ (d : Char) (word : Str), ¬ (d = '-' ∨ d.isDigit = true) → c :: digits ≠ d :: word := by
    intro d word hd heq
    exact hd (List.head_eq_of_cons_eq heq ▸ hc)
  have hnull : c :: digits ≠ "null".toList := hne 'n' "ull".toList (by decide)
  have htrue : c :: digits ≠ "true".toList := hne 't' "rue".toList (by decide)
  have hfalse : c :: digits ≠ "false".toList := hne 'f' "alse".toList (by decide)
  rw [nodeOf, if_neg hnull, if_neg (not_or.mpr ⟨htrue, hfalse⟩)]

theorem parseValueWith_scalar (nested : Option Reader) {text : Str} (h : IsScalar text) :
    Finds (parseValueWith nested) text (nodeOf (.scalar text)) := by
  rcases h with h | h | h | h
  · exact parseValueWith_word nested (.inl h)
  · exact parseValueWith_word nested (.inr (.inl h))
  · exact parseValueWith_word nested (.inr (.inr h))
  · rw [nodeOf_number h]
    exact parseValueWith_number nested h

theorem nodesOf_eq_map (js : List Json) : nodesOf js = js.map nodeOf := by
  induction js with
  | nil => rfl
  | cons j js ih => rw [nodesOf, ih, List.map_cons]

theorem memberNodesOf_eq_map (ms : List (Str × Json)) : memberNodesOf ms = ms.map memberNodeOf := by
  induction ms with
  | nil => rfl
  | cons m ms ih => rw [memberNodesOf, ih, List.map_cons]

theorem finds_pad {nested : Option Reader} {before text after : Str} {node : JsonNode}
    (hbefore : IsBlank before) (hafter : IsBlank after)
    (h : Finds (parseValueWith nested) text node) :
    Finds (parseValueWith nested) (before ++ text ++ after) node := by
  intro rest hrest
  obtain ⟨r, hread, hr⟩ := h _ (follows_append hafter hrest)
  refine ⟨r, ?_, ?_⟩
  · rw [List.append_assoc, List.append_assoc, parseValueWith_pad nested hbefore, hread]
  · rw [hr, skipWhitespace_pad hafter]

theorem parseValue_finds {text : Str} {j : Json} (h : JsonText appendUtf8 text j) {levels : Nat}
    (hlevels : Within levels j) : Finds (parseValue levels) text (nodeOf j) := by
  have hvalue : ∀ levels, ∃ nested, parseValue levels = parseValueWith nested := by
    intro levels
    cases levels with
    | zero => exact ⟨none, rfl⟩
    | succ levels => exact ⟨some (parseValue levels), rfl⟩
  induction h generalizing levels with
  | scalar hscalar =>
    obtain ⟨nested, hnested⟩ := hvalue levels
    rw [hnested]
    exact parseValueWith_scalar nested hscalar
  | @string raw s hchars =>
    obtain ⟨nested, hnested⟩ := hvalue levels
    intro rest _
    refine ⟨rest, ?_, rfl⟩
    have hread := @parseString_charsText [] _ _ nofun hchars rest
    rw [List.nil_append] at hread
    rw [hnested, List.cons_append, List.append_assoc, List.singleton_append,
      parseValueWith_cons nested (by decide), if_pos rfl, hread]
    rfl
  | @emptyArray pad hpad =>
    cases hlevels with
    | @array levels =>
      intro rest _
      refine ⟨rest, ?_, rfl⟩
      have hread := @parseSequence_nothing _ (parseValue levels) _ '[' (by decide)
        (.inl rfl) _ hpad rest
      rw [parseValue, List.cons_append, List.append_assoc, List.singleton_append,
        parseValueWith_cons _ (by decide), if_neg (by decide), if_neg (by decide), if_pos rfl,
        Option.bind_some, parseArray, hread]
      rfl
  | @array items _ ih =>
    cases hlevels with
    | @array levels _ hitems =>
      intro rest _
      refine ⟨rest, ?_, rfl⟩
      have hfinds : ∀ p ∈ items.map fun p => (p.1, nodeOf p.2), Finds (parseValue levels) p.1 p.2 := by
        intro p hp
        obtain ⟨q, hq, rfl⟩ := List.mem_map.mp hp
        exact ih q hq (hitems q.2 (List.mem_map_of_mem hq))
      have hread := @parseSequence_commaed _ _ _ '[' (by decide) (.inl rfl)
        (shrinks_parseValue levels) (parseValue_closing levels) _ hfinds rest
      rw [List.map_map, List.map_map] at hread
      rw [parseValue, List.cons_append, List.append_assoc, List.singleton_append,
        parseValueWith_cons _ (by decide), if_neg (by decide), if_neg (by decide), if_pos rfl,
        Option.bind_some, parseArray, nodeOf, nodesOf_eq_map, List.map_map]
      exact congrArg (Option.map _) hread
  | @emptyObject pad hpad =>
    cases hlevels with
    | @object levels =>
      intro rest _
      refine ⟨rest, ?_, rfl⟩
      have hread := @parseSequence_nothing _ (parseMember (parseValue levels)) _ '\x7b'
        (by decide) (.inr rfl) _ hpad rest
      rw [parseValue, List.cons_append, List.append_assoc, List.singleton_append,
        parseValueWith_cons _ (by decide), if_neg (by decide), if_pos rfl, Option.bind_some,
        parseObject, hread]
      rfl
  | @object ms hkeys _ ih =>
    cases hlevels with
    | @object levels _ hmembers =>
      intro rest _
      refine ⟨rest, ?_, rfl⟩
      have hfinds : ∀ p ∈ ms.map fun m => (m.raw, memberNodeOf m.member),
          Finds (parseMember (parseValue levels)) p.1 p.2 := by
        intro p hp
        obtain ⟨m, hm, rfl⟩ := List.mem_map.mp hp
        exact KeyText.finds (hkeys m hm) (ih m hm (hmembers m.member (List.mem_map_of_mem hm)))
      have hread := @parseSequence_commaed _ _ _ '\x7b' (by decide) (.inr rfl)
        (shrinks_parseMember (shrinks_parseValue levels)) (parseMember_closing (parseValue levels))
        _ hfinds rest
      rw [List.map_map, List.map_map] at hread
      rw [parseValue, List.cons_append, List.append_assoc, List.singleton_append,
        parseValueWith_cons _ (by decide), if_neg (by decide), if_pos rfl, Option.bind_some,
        parseObject, nodeOf, memberNodesOf_eq_map, List.map_map]
      exact congrArg (Option.map _) hread
  | padded hbefore hafter _ ih =>
    obtain ⟨nested, hnested⟩ := hvalue levels
    have htext := ih hlevels
    rw [hnested] at htext ⊢
    exact finds_pad hbefore hafter htext

theorem parseDocument_jsonText {text : Str} {j : Json} (h : JsonText appendUtf8 text j)
    (hlevels : Within maxNestingDepth j) : parseDocument text = some (nodeOf j) := by
  obtain ⟨r, hread, hr⟩ := parseValue_finds h hlevels [] follows_nil
  rw [List.append_nil] at hread
  rw [parseDocument, hread]
  exact if_pos hr

end Quackapi.Validation
