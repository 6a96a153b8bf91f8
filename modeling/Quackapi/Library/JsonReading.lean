import Quackapi.Library.JsonText
import Mathlib.Data.Option.Basic
import Mathlib.Data.List.TakeWhile

/-! A text of the JSON grammar is one value: a reader that looks one character ahead finds it, so
that no text can be taken in two ways. -/

namespace Library

def isBlankChar (c : Char) : Bool := c == ' ' || c == '\n' || c == '\r' || c == '\t'

def skipBlank (s : List Char) : List Char := s.dropWhile isBlankChar

def endsScalar (c : Char) : Bool := isBlankChar c || c == ',' || c == ']' || c == '\x7d'

def Follows (rest : List Char) : Prop := ∀ c t, rest = c :: t → endsScalar c = true

section Reader
variable (encode : Nat → List Char)

def readLow (high : Nat) : List Char → Option (List Char × List Char)
  | '\\' :: 'u' :: a :: b :: c :: d :: s =>
    (hexCode [a, b, c, d]).map fun low =>
      (encode (0x10000 + (high - 0xd800) * 0x400 + (low - 0xdc00)), s)
  | _ => none

/-- The characters of a code point, after `\u`. -/
def readCode : List Char → Option (List Char × List Char)
  | a :: b :: c :: d :: s =>
    (hexCode [a, b, c, d]).bind fun n =>
      if 0xd800 ≤ n ∧ n ≤ 0xdbff then readLow encode n s else some (encode n, s)
  | _ => none

def readEscape : List Char → Option (List Char × List Char)
  | [] => none
  | c :: s =>
    if c = 'u' then readCode encode s else (shortEscapes.lookup c).map fun d => ([d], s)

def readChars : Nat → List Char → Option (List Char × List Char)
  | 0, _ => none
  | _, [] => none
  | fuel + 1, c :: s =>
    if c = '"' then some ([], s)
    else if c = '\\' then
      (readEscape encode s).bind fun r =>
        (readChars fuel r.2).map fun r' => (r.1 ++ r'.1, r'.2)
    else (readChars fuel s).map fun r => (c :: r.1, r.2)

/-- Items with commas between them, up to what closes them. -/
def readItems {α : Type} (item : List Char → Option (α × List Char)) (closing : Char) :
    Nat → List Char → Option (List α × List Char)
  | 0, _ => none
  | fuel + 1, s =>
    (item s).bind fun r =>
      match r.2 with
      | [] => none
      | c :: s =>
        if c = ',' then (readItems item closing fuel s).map fun r' => (r.1 :: r'.1, r'.2)
        else if c = closing then some ([r.1], s)
        else none

def readNothing (closing : Char) (s : List Char) : Option (List Char) :=
  match skipBlank s with
  | [] => none
  | c :: s => if c = closing then some s else none

def readSequence {α : Type} (item : List Char → Option (α × List Char)) (closing : Char) (fuel : Nat)
    (s : List Char) : Option (List α × List Char) :=
  (readItems item closing fuel s).or ((readNothing closing s).map fun s => ([], s))

def readMember (value : List Char → Option (Json × List Char)) (fuel : Nat) (s : List Char) :
    Option ((List Char × Json) × List Char) :=
  (readNothing '"' s).bind fun s =>
    (readChars encode fuel s).bind fun key =>
      (readNothing ':' key.2).bind fun s =>
        (value s).map fun r => ((key.1, r.1), r.2)

/-- A value, and the text behind it and the space after it. -/
def readValue : Nat → List Char → Option (Json × List Char)
  | 0, _ => none
  | fuel + 1, s =>
    match skipBlank s with
    | [] => none
    | c :: s =>
      if c = '"' then (readChars encode fuel s).map fun r => (.string r.1, skipBlank r.2)
      else if c = '[' then
        (readSequence (readValue fuel) ']' fuel s).map fun r => (.array r.1, skipBlank r.2)
      else if c = '\x7b' then
        (readSequence (readMember encode (readValue fuel) fuel) '\x7d' fuel s).map fun r =>
          (.object r.1, skipBlank r.2)
      else if endsScalar c then none
      else some (.scalar (c :: s.takeWhile fun d => !endsScalar d),
        skipBlank (s.dropWhile fun d => !endsScalar d))

end Reader

section
variable {encode : Nat → List Char}

theorem isBlankChar_iff (c : Char) :
    isBlankChar c = true ↔ c = ' ' ∨ c = '\n' ∨ c = '\r' ∨ c = '\t' := by
  simp only [isBlankChar, Bool.or_eq_true, beq_iff_eq, or_assoc]

theorem skipBlank_append {pad : List Char} (hpad : IsBlank pad) (s : List Char) :
    skipBlank (pad ++ s) = skipBlank s :=
  List.dropWhile_append_of_pos fun c hc => (isBlankChar_iff c).mpr (hpad c hc)

theorem skipBlank_cons {c : Char} (hc : isBlankChar c = false) (s : List Char) :
    skipBlank (c :: s) = c :: s :=
  List.dropWhile_cons_of_neg (by simp [hc])

theorem follows_nil : Follows [] := nofun

theorem follows_cons {c : Char} (hc : endsScalar c = true) (s : List Char) : Follows (c :: s) := by
  intro d t h
  rwa [← List.head_eq_of_cons_eq h]

theorem follows_append {pad : List Char} (hpad : IsBlank pad) {rest : List Char} (h : Follows rest) :
    Follows (pad ++ rest) := by
  cases pad with
  | nil => exact h
  | cons c pad =>
    have hc : isBlankChar c = true := (isBlankChar_iff c).mpr (hpad c List.mem_cons_self)
    exact follows_cons (by rw [endsScalar, hc]; rfl) _

theorem readNothing_eq {pad : List Char} (hpad : IsBlank pad) {c : Char} (hc : isBlankChar c = false)
    (s : List Char) : readNothing c (pad ++ c :: s) = some s := by
  rw [readNothing, skipBlank_append hpad, skipBlank_cons hc]
  exact if_pos rfl

theorem hexCode_spec {hex : List Char} {n : Nat} (h : hexCode hex = some n) :
    ∃ a b c d, hex = [a, b, c, d] := by
  rcases hex with _ | ⟨a, _ | ⟨b, _ | ⟨c, _ | ⟨d, _ | ⟨e, hex⟩⟩⟩⟩⟩
  case cons.cons.cons.cons.nil => exact ⟨a, b, c, d, rfl⟩
  all_goals cases h

theorem lookup_shortEscapes :
    ∀ p ∈ shortEscapes, p.1 ≠ 'u' ∧ shortEscapes.lookup p.1 = some p.2 := by decide

theorem CharsText.reads {raw s : List Char} (h : CharsText encode raw s) {fuel : Nat}
    (hfuel : raw.length < fuel) (rest : List Char) :
    readChars encode fuel (raw ++ '"' :: rest) = some (s, rest) := by
  induction h generalizing fuel with
  | nil =>
    obtain ⟨fuel, rfl⟩ := Nat.exists_eq_add_of_lt hfuel
    rfl
  | @plain c raw s hquote hbackslash _ _ ih =>
    obtain ⟨fuel, rfl⟩ : ∃ n, fuel = n + 1 := ⟨fuel - 1, by omega⟩
    rw [List.cons_append, readChars, if_neg hquote, if_neg hbackslash,
      ih (Nat.lt_of_succ_lt_succ hfuel)]
    rfl
  | @escape c d raw s hcd _ ih =>
    obtain ⟨hu, hlookup⟩ := lookup_shortEscapes (c, d) hcd
    simp only [List.length_cons] at hfuel
    obtain ⟨fuel, rfl⟩ : ∃ n, fuel = n + 1 := ⟨fuel - 1, by omega⟩
    have hescape : readEscape encode (c :: (raw ++ '"' :: rest)) = some ([d], raw ++ '"' :: rest) := by
      rw [readEscape, if_neg hu, hlookup]
      rfl
    rw [List.cons_append, List.cons_append, readChars, if_neg (by decide), if_pos rfl, hescape]
    dsimp only [Option.bind_some]
    rw [ih (by omega)]
    rfl
  | @code hex raw s n hhex hn _ ih =>
    obtain ⟨a, b, c, d, rfl⟩ := hexCode_spec hhex
    simp only [List.length_cons, List.length_append, List.length_nil] at hfuel
    obtain ⟨fuel, rfl⟩ : ∃ n, fuel = n + 1 := ⟨fuel - 1, by omega⟩
    have hescape : readEscape encode ('u' :: a :: b :: c :: d :: (raw ++ '"' :: rest)) =
        some (encode n, raw ++ '"' :: rest) := by
      rw [readEscape, if_pos rfl, readCode, hhex]
      exact if_neg (by omega)
    simp only [List.cons_append, List.nil_append]
    rw [readChars, if_neg (by decide), if_pos rfl, hescape]
    dsimp only [Option.bind_some]
    rw [ih (by omega)]
    rfl
  | @pair high low raw s m n hhigh hlow hm hn _ ih =>
    obtain ⟨a, b, c, d, rfl⟩ := hexCode_spec hhigh
    obtain ⟨a', b', c', d', rfl⟩ := hexCode_spec hlow
    simp only [List.length_cons, List.length_append, List.length_nil] at hfuel
    obtain ⟨fuel, rfl⟩ : ∃ n, fuel = n + 1 := ⟨fuel - 1, by omega⟩
    have hescape : readEscape encode
        ('u' :: a :: b :: c :: d :: '\\' :: 'u' :: a' :: b' :: c' :: d' :: (raw ++ '"' :: rest)) =
        some (encode (0x10000 + (m - 0xd800) * 0x400 + (n - 0xdc00)), raw ++ '"' :: rest) := by
      rw [readEscape, if_pos rfl, readCode, hhigh, Option.bind_some, if_pos hm, readLow, hlow]
      rfl
    simp only [List.cons_append, List.nil_append]
    rw [readChars, if_neg (by decide), if_pos rfl, hescape]
    dsimp only [Option.bind_some]
    rw [ih (by omega)]
    rfl

def isScalarChar (c : Char) : Bool := c.isDigit || "+-.eEtrufalsn".toList.contains c

theorem isScalarChar_of_digits {s : List Char} (h : IsDigits s) : ∀ c ∈ s, isScalarChar c = true := by
  intro c hc
  rw [isScalarChar, h.2 c hc]
  rfl

theorem isScalarChar_of_word {word : List Char} (h : word.all isScalarChar = true) :
    ∀ c ∈ word, isScalarChar c = true :=
  List.all_eq_true.mp h

theorem IsNumber.scalarChars {s : List Char} (h : IsNumber s) : ∀ c ∈ s, isScalarChar c = true := by
  obtain ⟨sign, whole, fraction, exponent, rfl, hsign, hwhole, hfraction, hexponent⟩ := h
  have hsign' : ∀ c ∈ sign, isScalarChar c = true := by
    rcases hsign with rfl | rfl <;> exact isScalarChar_of_word (by decide)
  have hfraction' : ∀ c ∈ fraction, isScalarChar c = true := by
    rcases hfraction with rfl | ⟨digits, rfl, hdigits⟩
    · exact nofun
    · exact List.forall_mem_cons.mpr ⟨by decide, isScalarChar_of_digits hdigits⟩
  have hexponent' : ∀ c ∈ exponent, isScalarChar c = true := by
    rcases hexponent with rfl | ⟨e, esign, digits, rfl, he, hesign, hdigits⟩
    · exact nofun
    · refine List.forall_mem_cons.mpr ⟨by rcases he with rfl | rfl <;> decide, ?_⟩
      refine List.forall_mem_append.mpr ⟨?_, isScalarChar_of_digits hdigits⟩
      rcases hesign with rfl | rfl | rfl <;> exact isScalarChar_of_word (by decide)
  simp only [List.forall_mem_append]
  exact ⟨⟨⟨hsign', isScalarChar_of_digits hwhole.1⟩, hfraction'⟩, hexponent'⟩

theorem IsNumber.ne_nil {s : List Char} (h : IsNumber s) : s ≠ [] := by
  obtain ⟨sign, whole, fraction, exponent, rfl, _, hwhole, _, _⟩ := h
  simp [hwhole.1.1]

theorem IsNumber.head {s : List Char} (h : IsNumber s) :
    ∃ c t, s = c :: t ∧ (c = '-' ∨ c.isDigit = true) := by
  obtain ⟨sign, whole, fraction, exponent, rfl, hsign, ⟨⟨hne, hdigits⟩, _⟩, _, _⟩ := h
  obtain ⟨w, whole, rfl⟩ := List.exists_cons_of_ne_nil hne
  rcases hsign with rfl | rfl
  · exact ⟨w, whole ++ fraction ++ exponent, rfl, .inr (hdigits w List.mem_cons_self)⟩
  · exact ⟨'-', w :: whole ++ fraction ++ exponent, rfl, .inl rfl⟩

theorem IsNumber.ne_word {t : List Char} (h : IsNumber t) {c : Char} (hc : ¬ (c = '-' ∨ c.isDigit = true))
    (word : List Char) : t ≠ c :: word := by
  obtain ⟨d, t', rfl, hd⟩ := h.head
  rintro heq
  exact hc ((List.cons.inj heq).1 ▸ hd)

theorem IsScalar.scalarChars {s : List Char} (h : IsScalar s) : ∀ c ∈ s, isScalarChar c = true := by
  rcases h with rfl | rfl | rfl | h
  · exact isScalarChar_of_word (by decide)
  · exact isScalarChar_of_word (by decide)
  · exact isScalarChar_of_word (by decide)
  · exact h.scalarChars

theorem IsScalar.ne_nil {s : List Char} (h : IsScalar s) : s ≠ [] := by
  rcases h with rfl | rfl | rfl | h
  · exact List.cons_ne_nil _ _
  · exact List.cons_ne_nil _ _
  · exact List.cons_ne_nil _ _
  · exact h.ne_nil

/-- The characters that are no part of a scalar. -/
def structural : List Char := [' ', '\n', '\r', '\t', ',', ']', '\x7d', '"', '[', '\x7b']

theorem not_isScalarChar : ∀ c ∈ structural, isScalarChar c = false := by
  intro c hc
  have hall : structural.all (fun c => !isScalarChar c) = true := by decide
  simpa using List.all_eq_true.mp hall c hc

theorem endsScalar_iff (c : Char) : endsScalar c = true ↔ c ∈ structural.take 7 := by
  simp only [endsScalar, Bool.or_eq_true, isBlankChar_iff, beq_iff_eq, structural, List.take_succ_cons,
    List.take_zero, List.mem_cons, List.not_mem_nil, or_false, or_assoc]

theorem isScalarChar.not_mem {c : Char} (h : isScalarChar c = true) : c ∉ structural := by
  intro hc
  rw [not_isScalarChar c hc] at h
  cases h

theorem isScalarChar.not_ends {c : Char} (h : isScalarChar c = true) : endsScalar c = false := by
  apply Bool.eq_false_iff.mpr
  intro hends
  exact isScalarChar.not_mem h (List.mem_of_mem_take ((endsScalar_iff c).mp hends))

theorem takeWhile_scalar {s : List Char} (h : ∀ c ∈ s, isScalarChar c = true) {rest : List Char}
    (hrest : Follows rest) :
    (s ++ rest).takeWhile (fun d => !endsScalar d) = s ∧
      (s ++ rest).dropWhile (fun d => !endsScalar d) = rest := by
  have hall : ∀ c ∈ s, (!endsScalar c) = true := fun c hc => by
    rw [isScalarChar.not_ends (h c hc)]
    rfl
  rw [List.takeWhile_append_of_pos hall, List.dropWhile_append_of_pos hall]
  cases rest with
  | nil => exact ⟨List.append_nil s, rfl⟩
  | cons c rest =>
    have hc := hrest c rest rfl
    simp [hc]

/-- The item is found at the start of the text, whatever follows it. -/
def Reads {α : Type} (item : List Char → Option (α × List Char)) (text : List Char) (a : α) : Prop :=
  ∀ rest, Follows rest → item (text ++ rest) = some (a, skipBlank rest)

section Sequences
variable {α : Type} {item : List Char → Option (α × List Char)} {closing : Char}

def Closes (c : Char) : Prop := c = ']' ∨ c = '\x7d'

theorem Closes.ends (h : Closes closing) : endsScalar closing = true := by
  rcases h with rfl | rfl <;> decide

theorem Closes.not_blank (h : Closes closing) : isBlankChar closing = false := by
  rcases h with rfl | rfl <;> decide

theorem Closes.ne_comma (h : Closes closing) : closing ≠ ',' := by
  rcases h with rfl | rfl <;> decide

theorem readItems_commaed (hclosing : Closes closing) {items : List (List Char × α)} (hne : items ≠ [])
    (hitems : ∀ p ∈ items, Reads item p.1 p.2) {fuel : Nat} (hfuel : items.length ≤ fuel)
    (rest : List Char) :
    readItems item closing fuel (commaed (items.map Prod.fst) ++ closing :: rest) =
      some (items.map Prod.snd, rest) := by
  induction items generalizing fuel with
  | nil => exact absurd rfl hne
  | cons p items ih =>
    rw [List.length_cons] at hfuel
    obtain ⟨fuel, rfl⟩ : ∃ n, fuel = n + 1 := ⟨fuel - 1, by omega⟩
    have hp := hitems p List.mem_cons_self
    cases items with
    | nil =>
      rw [List.map_singleton, commaed_singleton, readItems,
        hp _ (follows_cons hclosing.ends rest), skipBlank_cons hclosing.not_blank]
      dsimp only [Option.bind_some]
      rw [if_neg hclosing.ne_comma, if_pos rfl]
      rfl
    | cons q items =>
      have hrest := ih (List.cons_ne_nil q items) (fun r hr => hitems r (List.mem_cons_of_mem _ hr))
        (Nat.le_of_succ_le_succ hfuel)
      have htext : commaed ((p :: q :: items).map Prod.fst) ++ closing :: rest =
          p.1 ++ ',' :: (commaed ((q :: items).map Prod.fst) ++ closing :: rest) := by
        rw [List.map_cons, List.map_cons, commaed_cons_cons, List.append_assoc, List.cons_append]
      rw [htext, readItems, hp _ (follows_cons (by decide) _), skipBlank_cons (by decide)]
      dsimp only [Option.bind_some]
      rw [if_pos rfl, hrest]
      rfl

theorem readSequence_nothing (hclosing : Closes closing) {pad : List Char} (hpad : IsBlank pad)
    (fuel : Nat) {rest : List Char} (hitem : item (pad ++ closing :: rest) = none) :
    readSequence item closing fuel (pad ++ closing :: rest) = some ([], rest) := by
  have hitems : readItems item closing fuel (pad ++ closing :: rest) = none := by
    cases fuel with
    | zero => rfl
    | succ fuel => rw [readItems, hitem, Option.bind_none]
  rw [readSequence, hitems, readNothing_eq hpad hclosing.not_blank]
  rfl

theorem readSequence_commaed (hclosing : Closes closing) {items : List (List Char × α)}
    (hitems : ∀ p ∈ items, Reads item p.1 p.2) {fuel : Nat} (hfuel : items.length ≤ fuel)
    {rest : List Char} (hnone : item (closing :: rest) = none) :
    readSequence item closing fuel (commaed (items.map Prod.fst) ++ closing :: rest) =
      some (items.map Prod.snd, rest) := by
  rcases List.eq_nil_or_concat items with rfl | ⟨_, _, hconcat⟩
  · exact @readSequence_nothing _ _ _ hclosing [] nofun fuel _ hnone
  · have hne : items ≠ [] := by
      rw [hconcat, List.concat_eq_append]
      exact List.append_ne_nil_of_right_ne_nil _ (List.cons_ne_nil _ _)
    rw [readSequence, readItems_commaed hclosing hne hitems hfuel]
    rfl

end Sequences

theorem readValue_pad {pad : List Char} (hpad : IsBlank pad) (fuel : Nat) (s : List Char) :
    readValue encode fuel (pad ++ s) = readValue encode fuel s := by
  cases fuel with
  | zero => rfl
  | succ fuel => rw [readValue, readValue, skipBlank_append hpad]

theorem readValue_closing {pad : List Char} (hpad : IsBlank pad) (fuel : Nat) (rest : List Char) :
    readValue encode fuel (pad ++ ']' :: rest) = none := by
  rw [readValue_pad hpad]
  cases fuel with
  | zero => rfl
  | succ fuel =>
    rw [readValue, skipBlank_cons (by decide)]
    rfl

theorem readMember_closing {pad : List Char} (hpad : IsBlank pad)
    (value : List Char → Option (Json × List Char)) (fuel : Nat) (rest : List Char) :
    readMember encode value fuel (pad ++ '\x7d' :: rest) = none := by
  have hquote : readNothing '"' (pad ++ '\x7d' :: rest) = none := by
    rw [readNothing, skipBlank_append hpad, skipBlank_cons (by decide)]
    exact if_neg (by decide)
  rw [readMember, hquote, Option.bind_none]

theorem IsScalar.reads {text : List Char} (h : IsScalar text) (fuel : Nat) :
    Reads (readValue encode (fuel + 1)) text (.scalar text) := by
  intro rest hrest
  have hchars := h.scalarChars
  obtain ⟨c, s, rfl⟩ := List.exists_cons_of_ne_nil h.ne_nil
  obtain ⟨hc, hs⟩ := List.forall_mem_cons.mp hchars
  have hends := isScalarChar.not_ends hc
  have hblank : isBlankChar c = false := by
    apply Bool.eq_false_iff.mpr
    intro hb
    rw [endsScalar, hb] at hends
    cases hends
  have hne : ∀ d ∈ structural, c ≠ d := fun d hd heq => isScalarChar.not_mem hc (heq ▸ hd)
  obtain ⟨htake, hdrop⟩ := takeWhile_scalar hs hrest
  rw [List.cons_append, readValue, skipBlank_cons hblank]
  dsimp only
  rw [if_neg (hne '"' (by decide)), if_neg (hne '[' (by decide)), if_neg (hne '\x7b' (by decide)),
    if_neg (by rw [hends]; decide), htake, hdrop]

theorem KeyText.reads {rawKey key : List Char} (hkey : KeyText encode rawKey key)
    {value : List Char → Option (Json × List Char)} {rawValue : List Char} {j : Json}
    (hvalue : Reads value rawValue j) {fuel : Nat} (hfuel : rawKey.length < fuel) :
    Reads (readMember encode value fuel) (rawKey ++ ':' :: rawValue) (key, j) := by
  intro rest hrest
  obtain ⟨before, body, after, rfl, hbefore, hafter, hbody⟩ := hkey
  have hlength : body.length < fuel := by
    simp only [List.length_append, List.length_cons] at hfuel
    omega
  have htext : before ++ '"' :: (body ++ '"' :: after) ++ ':' :: rawValue ++ rest =
      before ++ '"' :: (body ++ '"' :: (after ++ ':' :: (rawValue ++ rest))) := by
    simp only [List.append_assoc, List.cons_append]
  rw [htext, readMember, readNothing_eq hbefore (by decide)]
  dsimp only [Option.bind_some]
  rw [hbody.reads hlength]
  dsimp only [Option.bind_some]
  rw [readNothing_eq hafter (by decide)]
  dsimp only [Option.bind_some]
  rw [hvalue rest hrest]
  rfl

theorem exists_bound {α : Type} {P : Nat → α → Prop} {l : List α}
    (h : ∀ a ∈ l, ∃ n, ∀ m, n ≤ m → P m a) : ∃ n, ∀ m, n ≤ m → ∀ a ∈ l, P m a := by
  induction l with
  | nil => exact ⟨0, fun _ _ => nofun⟩
  | cons a l ih =>
    obtain ⟨n, hn⟩ := h a List.mem_cons_self
    obtain ⟨n', hn'⟩ := ih fun b hb => h b (List.mem_cons_of_mem _ hb)
    refine ⟨max n n', fun m hm => List.forall_mem_cons.mpr ⟨?_, ?_⟩⟩
    · exact hn m (Nat.le_trans (Nat.le_max_left n n') hm)
    · exact hn' m (Nat.le_trans (Nat.le_max_right n n') hm)

theorem JsonText.reads {text : List Char} {j : Json} (h : JsonText encode text j) :
    ∃ n, ∀ m, n ≤ m → Reads (readValue encode m) text j := by
  induction h with
  | scalar hscalar =>
    refine ⟨1, fun m hm => ?_⟩
    obtain ⟨m, rfl⟩ : ∃ k, m = k + 1 := ⟨m - 1, by omega⟩
    exact hscalar.reads m
  | @string raw s hchars =>
    refine ⟨raw.length + 2, fun m hm rest _ => ?_⟩
    obtain ⟨m, rfl⟩ : ∃ k, m = k + 1 := ⟨m - 1, by omega⟩
    rw [List.cons_append, List.append_assoc, readValue, skipBlank_cons (by decide)]
    dsimp only
    rw [if_pos rfl]
    have hread := hchars.reads (show raw.length < m by omega) rest
    rw [show ['"'] ++ rest = '"' :: rest from rfl, hread]
    rfl
  | @emptyArray pad hpad =>
    refine ⟨1, fun m hm rest _ => ?_⟩
    obtain ⟨m, rfl⟩ : ∃ k, m = k + 1 := ⟨m - 1, by omega⟩
    have hseq := @readSequence_nothing _ _ ']' (.inl rfl) _ hpad m _
      (@readValue_closing encode _ hpad m rest)
    rw [List.cons_append, List.append_assoc, readValue, skipBlank_cons (by decide)]
    dsimp only
    rw [if_neg (by decide), if_pos rfl, show [']'] ++ rest = ']' :: rest from rfl, hseq]
    rfl
  | @array items _ ih =>
    obtain ⟨n, hn⟩ := exists_bound ih
    refine ⟨max n items.length + 1, fun m hm rest _ => ?_⟩
    obtain ⟨m, rfl⟩ : ∃ k, m = k + 1 := ⟨m - 1, by omega⟩
    have hseq := @readSequence_commaed _ _ ']' (.inl rfl) _ (hn m (by omega)) _
      (show items.length ≤ m by omega) _ (@readValue_closing encode [] nofun m rest)
    rw [List.cons_append, List.append_assoc, readValue, skipBlank_cons (by decide)]
    dsimp only
    rw [if_neg (by decide), if_pos rfl, show [']'] ++ rest = ']' :: rest from rfl, hseq]
    rfl
  | @emptyObject pad hpad =>
    refine ⟨1, fun m hm rest _ => ?_⟩
    obtain ⟨m, rfl⟩ : ∃ k, m = k + 1 := ⟨m - 1, by omega⟩
    have hseq := @readSequence_nothing _ _ '\x7d' (.inr rfl) _ hpad m _
      (@readMember_closing encode _ hpad (readValue encode m) m rest)
    rw [List.cons_append, List.append_assoc, readValue, skipBlank_cons (by decide)]
    dsimp only
    rw [if_neg (by decide), if_neg (by decide), if_pos rfl,
      show ['\x7d'] ++ rest = '\x7d' :: rest from rfl, hseq]
    rfl
  | @object ms hkeys _ ih =>
    obtain ⟨n, hn⟩ := exists_bound ih
    obtain ⟨k, hk⟩ := exists_bound (P := fun m (x : MemberText) => x.rawKey.length < m)
      (fun x (_ : x ∈ ms) => ⟨x.rawKey.length + 1, fun _ hm => hm⟩)
    refine ⟨max (max n k) ms.length + 1, fun m hm rest _ => ?_⟩
    obtain ⟨m, rfl⟩ : ∃ k, m = k + 1 := ⟨m - 1, by omega⟩
    have hmembers : ∀ p ∈ ms.map fun x => (x.raw, x.member),
        Reads (readMember encode (readValue encode m) m) p.1 p.2 := by
      intro p hp
      obtain ⟨x, hx, rfl⟩ := List.mem_map.mp hp
      exact (hkeys x hx).reads (hn m (by omega) x hx) (hk m (by omega) x hx)
    have hseq := @readSequence_commaed _ _ '\x7d' (.inr rfl) _ hmembers _
      (show _ ≤ m by rw [List.length_map]; omega)
      _ (@readMember_closing encode [] nofun (readValue encode m) m rest)
    rw [List.map_map, List.map_map] at hseq
    rw [List.cons_append, List.append_assoc, readValue, skipBlank_cons (by decide)]
    dsimp only
    rw [if_neg (by decide), if_neg (by decide), if_pos rfl,
      show ['\x7d'] ++ rest = '\x7d' :: rest from rfl]
    exact congrArg (Option.map _) hseq
  | @padded before text after j hbefore hafter _ ih =>
    obtain ⟨n, hn⟩ := ih
    refine ⟨n, fun m hm rest hrest => ?_⟩
    rw [List.append_assoc, List.append_assoc, readValue_pad hbefore,
      hn m hm _ (follows_append hafter hrest), skipBlank_append hafter]

theorem JsonText.unique {text : List Char} {j j' : Json} (h : JsonText encode text j)
    (h' : JsonText encode text j') : j = j' := by
  obtain ⟨n, hn⟩ := h.reads
  obtain ⟨n', hn'⟩ := h'.reads
  have hj := hn (max n n') (le_max_left n n') [] follows_nil
  have hj' := hn' (max n n') (le_max_right n n') [] follows_nil
  rw [hj] at hj'
  exact (Prod.mk.inj (Option.some.inj hj')).1

theorem JsonText.iff_eq {text : List Char} {j : Json} (h : JsonText encode text j) (j' : Json) :
    JsonText encode text j' ↔ j' = j := by
  constructor
  · exact fun h' => h'.unique h
  · rintro rfl
    exact h

theorem pad_pad {before text after before' after' : List Char} (hbefore : IsBlank before)
    (hafter : IsBlank after) (hbefore' : IsBlank before') (hafter' : IsBlank after') :
    before ++ (before' ++ text ++ after') ++ after = (before ++ before') ++ text ++ (after' ++ after) ∧
      IsBlank (before ++ before') ∧ IsBlank (after' ++ after) := by
  refine ⟨by simp only [List.append_assoc], ?_, ?_⟩
  · exact fun c hc => (List.mem_append.mp hc).elim (hbefore c) (hbefore' c)
  · exact fun c hc => (List.mem_append.mp hc).elim (hafter' c) (hafter c)

theorem isBlank_nil : IsBlank [] := nofun

theorem JsonText.scalar_inv {text t : List Char} (h : JsonText encode text (.scalar t)) :
    ∃ before after, text = before ++ t ++ after ∧ IsBlank before ∧ IsBlank after ∧ IsScalar t := by
  generalize hj : Json.scalar t = j at h
  induction h with
  | scalar hscalar =>
    cases hj
    exact ⟨[], [], (List.append_nil t).symm, isBlank_nil, isBlank_nil, hscalar⟩
  | padded hbefore hafter _ ih =>
    obtain ⟨before', after', rfl, hbefore', hafter', hscalar⟩ := ih hj
    obtain ⟨htext, hb, ha⟩ := @pad_pad _ t _ _ _ hbefore hafter hbefore' hafter'
    exact ⟨_, _, htext, hb, ha, hscalar⟩
  | string => cases hj
  | emptyArray => cases hj
  | array => cases hj
  | emptyObject => cases hj
  | object => cases hj

theorem JsonText.string_inv {text s : List Char} (h : JsonText encode text (.string s)) :
    ∃ before raw after, text = before ++ '"' :: (raw ++ ['"']) ++ after ∧ IsBlank before ∧
      IsBlank after ∧ CharsText encode raw s := by
  generalize hj : Json.string s = j at h
  induction h with
  | @string raw s' hchars =>
    cases hj
    exact ⟨[], raw, [], (List.append_nil _).symm, isBlank_nil, isBlank_nil, hchars⟩
  | padded hbefore hafter _ ih =>
    obtain ⟨before', raw, after', rfl, hbefore', hafter', hchars⟩ := ih hj
    obtain ⟨htext, hb, ha⟩ := @pad_pad _ ('"' :: (raw ++ ['"'])) _ _ _ hbefore hafter hbefore' hafter'
    exact ⟨_, raw, _, htext, hb, ha, hchars⟩
  | scalar => cases hj
  | emptyArray => cases hj
  | array => cases hj
  | emptyObject => cases hj
  | object => cases hj

theorem JsonText.object_inv {text : List Char} {members : List (List Char × Json)}
    (h : JsonText encode text (.object members)) :
    ∃ before body after, text = before ++ '\x7b' :: (body ++ ['\x7d']) ++ after ∧ IsBlank before ∧
      IsBlank after ∧ ((IsBlank body ∧ members = []) ∨
        ∃ ms : List MemberText, body = commaed (ms.map MemberText.raw) ∧
          members = ms.map MemberText.member ∧ (∀ m ∈ ms, KeyText encode m.rawKey m.key) ∧
          ∀ m ∈ ms, JsonText encode m.rawValue m.value) := by
  generalize hj : Json.object members = j at h
  induction h with
  | @emptyObject pad hpad =>
    cases hj
    exact ⟨[], pad, [], (List.append_nil _).symm, isBlank_nil, isBlank_nil, .inl ⟨hpad, rfl⟩⟩
  | @object ms hkeys hvalues =>
    cases hj
    exact ⟨[], _, [], (List.append_nil _).symm, isBlank_nil, isBlank_nil,
      .inr ⟨ms, rfl, rfl, hkeys, hvalues⟩⟩
  | padded hbefore hafter _ ih =>
    obtain ⟨before', body, after', rfl, hbefore', hafter', hbody⟩ := ih hj
    obtain ⟨htext, hb, ha⟩ :=
      @pad_pad _ ('\x7b' :: (body ++ ['\x7d'])) _ _ _ hbefore hafter hbefore' hafter'
    exact ⟨_, body, _, htext, hb, ha, hbody⟩
  | scalar => cases hj
  | string => cases hj
  | emptyArray => cases hj
  | array => cases hj

end
end Library
