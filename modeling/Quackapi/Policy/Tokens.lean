import Quackapi.Library.Lexemes
import Quackapi.Policy.SecureQuery

/-! What SQL reads in a policy expression, by the engine's lexical rules, and what the two scanners of
the rewriter read in it. -/

namespace Quackapi.Policy
open Library

abbrev Token := Lexeme Char Str

def Piece.lexeme (p : Piece) : Token := ⟨p.text, p.token⟩

/-- What the scanner reads at `c`; with `quotes`, a double quote opens an identifier. -/
def scanNext (quotes : Bool) (c : Char) (s : Str) : Token :=
  if c = '\'' then ⟨c :: (scanLiteral s).1, none⟩
  else if quotes ∧ c = '"' then ⟨c :: (scanQuoted s).2.1, some (scanQuoted s).1⟩
  else if isIdentStart c then ⟨c :: s.takeWhile isIdentChar, some (c :: s.takeWhile isIdentChar)⟩
  else ⟨[c], none⟩

theorem drop_of_append {p r s : Str} (h : p ++ r = s) : s.drop p.length = r := by
  rw [← h, List.drop_left]

theorem scanPieces_lex (quotes : Bool) (n : Nat) (s : Str) :
    (scanPieces quotes n s).map Piece.lexeme = lex (scanNext quotes) n s := by
  induction n generalizing s with
  | zero => rfl
  | succ n ih =>
    rcases s with _ | ⟨c, s⟩
    · rfl
    simp only [scanPieces, lex, scanNext]
    split
    · rw [List.map_cons, ih, List.length_cons, List.drop_succ_cons,
        drop_of_append (scanLiteral_append s)]
      rfl
    split
    · rw [List.map_cons, ih, List.length_cons, List.drop_succ_cons,
        drop_of_append (scanQuoted_append s)]
      rfl
    split
    · rw [List.map_cons, ih, List.length_cons, List.drop_succ_cons,
        drop_of_append List.takeWhile_append_dropWhile]
      rfl
    · rw [List.map_cons, ih]
      rfl

theorem scanNext_advances (quotes : Bool) : Advances (scanNext quotes) := by
  intro c s
  have hcons : ∀ {p r : Str}, p ++ r = s → c :: p <+: c :: s := by
    rintro p r rfl
    exact ⟨r, rfl⟩
  unfold scanNext
  split
  · exact ⟨List.cons_ne_nil _ _, hcons (scanLiteral_append s)⟩
  split
  · exact ⟨List.cons_ne_nil _ _, hcons (scanQuoted_append s)⟩
  split
  · exact ⟨List.cons_ne_nil _ _, hcons List.takeWhile_append_dropWhile⟩
  · exact ⟨List.cons_ne_nil _ _, hcons (List.nil_append s)⟩

/-- A byte of a multi-byte letter counts as a letter. -/
def isSqlIdentStart (c : Char) : Bool := isIdentStart c || decide (128 ≤ c.toNat)

def isSqlIdentChar (c : Char) : Bool := isSqlIdentStart c || c.isDigit || c == '$'

/-- The rest of an escape string; a backslash takes the next character with it. -/
def scanEscape : Str → Str
  | [] => []
  | ['\\'] => ['\\']
  | '\\' :: c :: s => '\\' :: c :: scanEscape s
  | '\'' :: '\'' :: s => '\'' :: '\'' :: scanEscape s
  | '\'' :: _ => ['\'']
  | c :: s => c :: scanEscape s

/-- The text up to the end of a delimiter. -/
def scanUntil (delimiter : Str) : Str → Str
  | [] => []
  | c :: s => if delimiter.isPrefixOf (c :: s) then delimiter else c :: scanUntil delimiter s

/-- The rest of a block comment; block comments nest. -/
def scanComment : Nat → Str → Str
  | _, [] => []
  | depth, '/' :: '*' :: s => '/' :: '*' :: scanComment (depth + 1) s
  | 0, '*' :: '/' :: _ => ['*', '/']
  | depth + 1, '*' :: '/' :: s => '*' :: '/' :: scanComment depth s
  | depth, c :: s => c :: scanComment depth s

/-- After a dollar: the tag of a dollar-quoted string, and the text after its opening delimiter. -/
def dollarTag (s : Str) : Option (Str × Str) :=
  let tag := s.takeWhile fun c => isSqlIdentStart c || c.isDigit
  match s.drop tag.length with
  | '$' :: rest => if tag.head?.all isSqlIdentStart then some (tag, rest) else none
  | _ => none

def startsWith (ok : Char → Bool) (s : Str) : Bool := s.head?.any ok

/-- How many characters continue a run of digits; an underscore may stand between two digits. -/
def digitsLength : Str → Nat
  | [] => 0
  | c :: s => if c.isDigit || (c == '_' && startsWith Char.isDigit s) then 1 + digitsLength s else 0

def integerLength (s : Str) : Nat := if startsWith Char.isDigit s then digitsLength s else 0

/-- A point and the digits after it; two points are not part of a number. -/
def fractionLength (s : Str) : Nat :=
  match s with
  | '.' :: rest => if startsWith (· == '.') rest then 0 else 1 + integerLength rest
  | _ => 0

def exponentLength (s : Str) : Nat :=
  match s with
  | e :: rest =>
    if e ≠ 'e' ∧ e ≠ 'E' then 0
    else if startsWith Char.isDigit rest then 1 + integerLength rest
    else if startsWith (fun c => c == '+' || c == '-') rest ∧ startsWith Char.isDigit rest.tail then
      2 + integerLength rest.tail
    else 0
  | [] => 0

def isRadixDigit (radix d : Char) : Bool :=
  if radix = 'x' ∨ radix = 'X' then
    d.isDigit || decide (d.toLower ∈ ['a', 'b', 'c', 'd', 'e', 'f'])
  else if radix = 'o' ∨ radix = 'O' then decide ('0' ≤ d ∧ d ≤ '7')
  else if radix = 'b' ∨ radix = 'B' then decide (d = '0' ∨ d = '1')
  else false

/-- The radix letter after a zero, and its digits. -/
def radixLength (s : Str) : Nat :=
  match s with
  | radix :: rest =>
    let digits := rest.takeWhile fun d => isRadixDigit radix d || d == '_'
    if startsWith (isRadixDigit radix) rest then 1 + digits.length else 0
  | [] => 0

/-- How much of `s` belongs to a number that begins with the digit `c`. -/
def numberLength (c : Char) (s : Str) : Nat :=
  if c = '0' ∧ 0 < radixLength s then radixLength s
  else
    let digits := digitsLength s
    let fraction := fractionLength (s.drop digits)
    digits + fraction + exponentLength (s.drop (digits + fraction))

def isStringPrefix (c : Char) : Bool := decide (c.toLower ∈ ['b', 'x', 'n'])

/-- After a dollar: a dollar-quoted string, or the name of a parameter. -/
def dollarText (s : Str) : Str :=
  match dollarTag s with
  | some (tag, rest) => tag ++ '$' :: scanUntil ('$' :: tag ++ ['$']) rest
  | none => if startsWith isSqlIdentStart s then s.takeWhile isSqlIdentChar else s.takeWhile Char.isDigit

/-- The token that begins with `c`; only identifiers have names. -/
def sqlNext (c : Char) (s : Str) : Token :=
  if c = '\'' then ⟨c :: (scanLiteral s).1, none⟩
  else if c = '"' then ⟨c :: (scanQuoted s).2.1, some (scanQuoted s).1⟩
  else if c = '-' ∧ startsWith (· == '-') s then
    ⟨c :: s.takeWhile fun d => d != '\n' && d != '\r', none⟩
  else if c = '/' ∧ startsWith (· == '*') s then ⟨c :: '*' :: scanComment 0 s.tail, none⟩
  else if c = '$' then ⟨c :: dollarText s, none⟩
  else if c.isDigit then ⟨c :: s.take (numberLength c s), none⟩
  else if c.toLower = 'e' ∧ startsWith (· == '\'') s then ⟨c :: '\'' :: scanEscape s.tail, none⟩
  else if isStringPrefix c ∧ startsWith (· == '\'') s then
    ⟨c :: '\'' :: (scanLiteral s.tail).1, none⟩
  else if isSqlIdentStart c then
    ⟨c :: s.takeWhile isSqlIdentChar, some (c :: s.takeWhile isSqlIdentChar)⟩
  else ⟨[c], none⟩

def sqlTokens (expr : Str) : List Token := lex sqlNext expr.length expr

theorem scanEscape_isInitial (s : Str) : scanEscape s <+: s := by
  fun_induction scanEscape s with
  | case1 => exact List.prefix_rfl
  | case2 => exact List.prefix_rfl
  | case3 c s ih => exact (List.prefix_cons_inj _).mpr ((List.prefix_cons_inj _).mpr ih)
  | case4 s ih => exact (List.prefix_cons_inj _).mpr ((List.prefix_cons_inj _).mpr ih)
  | case5 s _ => exact ⟨s, rfl⟩
  | case6 c s _ _ _ _ ih => exact (List.prefix_cons_inj _).mpr ih

theorem scanUntil_isInitial (delimiter s : Str) : scanUntil delimiter s <+: s := by
  fun_induction scanUntil delimiter s with
  | case1 => exact List.prefix_rfl
  | case2 c s h => exact List.isPrefixOf_iff_prefix.mp h
  | case3 c s _ ih => exact (List.prefix_cons_inj _).mpr ih

theorem scanComment_isInitial (depth : Nat) (s : Str) : scanComment depth s <+: s := by
  fun_induction scanComment depth s with
  | case1 => exact List.prefix_rfl
  | case2 depth s ih => exact (List.prefix_cons_inj _).mpr ((List.prefix_cons_inj _).mpr ih)
  | case3 s => exact ⟨s, rfl⟩
  | case4 depth s ih => exact (List.prefix_cons_inj _).mpr ((List.prefix_cons_inj _).mpr ih)
  | case5 depth c s _ _ _ ih => exact (List.prefix_cons_inj _).mpr ih

theorem dollarTag_eq {s tag rest : Str} (h : dollarTag s = some (tag, rest)) :
    s = tag ++ '$' :: rest := by
  unfold dollarTag at h
  dsimp only at h
  split at h
  · next rest' hdrop =>
    rw [Option.ite_none_right_eq_some] at h
    obtain ⟨-, h⟩ := h
    cases h
    rw [← hdrop]
    exact (List.prefix_iff_eq_append.mp (List.takeWhile_prefix _)).symm
  · cases h

theorem dollarText_isInitial (s : Str) : dollarText s <+: s := by
  unfold dollarText
  split
  · next tag rest h =>
    rw [dollarTag_eq h, List.prefix_append_right_inj]
    exact (List.prefix_cons_inj _).mpr (scanUntil_isInitial _ _)
  · split
    · exact List.takeWhile_prefix _
    · exact List.takeWhile_prefix _

theorem eq_cons_of_startsWith {d : Char} {s : Str} (h : startsWith (· == d) s = true) :
    s = d :: s.tail := by
  cases s with
  | nil => cases h
  | cons c s =>
    have hc : c = d := beq_iff_eq.mp h
    rw [hc]
    rfl

theorem sqlNext_cases {P : Token → Prop} (c : Char) (s : Str)
    (hnone : ∀ text, text ≠ [] → text <+: c :: s → P ⟨text, none⟩)
    (hquoted : c = '"' → P ⟨c :: (scanQuoted s).2.1, some (scanQuoted s).1⟩)
    (hplain : c ≠ '"' → isSqlIdentStart c = true →
      P ⟨c :: s.takeWhile isSqlIdentChar, some (c :: s.takeWhile isSqlIdentChar)⟩) :
    P (sqlNext c s) := by
  have hcons : ∀ {p : Str}, p <+: s → P ⟨c :: p, none⟩ := fun hp =>
    hnone _ (List.cons_ne_nil _ _) ((List.prefix_cons_inj c).mpr hp)
  have htwo : ∀ {d : Char} {p : Str}, startsWith (· == d) s = true → p <+: s.tail →
      P ⟨c :: d :: p, none⟩ := by
    intro d p hd hp
    apply hcons
    rw [eq_cons_of_startsWith hd]
    exact (List.prefix_cons_inj d).mpr hp
  have hliteral : ∀ r : Str, (scanLiteral r).1 <+: r := fun r => ⟨_, scanLiteral_append r⟩
  refine iteInduction (fun _ => hcons (hliteral s)) fun _ => ?_
  refine iteInduction hquoted fun hquote => ?_
  refine iteInduction (fun _ => hcons (List.takeWhile_prefix _)) fun _ => ?_
  refine iteInduction (fun h => htwo h.2 (scanComment_isInitial 0 _)) fun _ => ?_
  refine iteInduction (fun _ => hcons (dollarText_isInitial s)) fun _ => ?_
  refine iteInduction (fun _ => hcons (List.take_prefix _ _)) fun _ => ?_
  refine iteInduction (fun h => htwo h.2 (scanEscape_isInitial _)) fun _ => ?_
  refine iteInduction (fun h => htwo h.2 (hliteral _)) fun _ => ?_
  exact iteInduction (hplain hquote) fun _ => hcons List.nil_prefix

theorem sqlNext_advances : Advances sqlNext := by
  intro c s
  refine sqlNext_cases (P := fun l => l.text ≠ [] ∧ l.text <+: c :: s) c s ?_ ?_ ?_
  · exact fun text hne hinitial => ⟨hne, hinitial⟩
  · exact fun _ => ⟨List.cons_ne_nil _ _, (List.prefix_cons_inj c).mpr ⟨_, scanQuoted_append s⟩⟩
  · exact fun _ _ => ⟨List.cons_ne_nil _ _, (List.prefix_cons_inj c).mpr (List.takeWhile_prefix _)⟩

/-- What can be read as an identifier at `c`, before `s`. -/
inductive NameAt (c : Char) (s : Str) : Token → Prop
  | quoted (hc : c = '"') : NameAt c s ⟨c :: (scanQuoted s).2.1, some (scanQuoted s).1⟩
  | plain {name : Str} (hc : c ≠ '"') (hname : name <+: c :: s) : NameAt c s ⟨name, some name⟩

theorem NameAt.eq_of_length {c : Char} {s : Str} {l l' : Token} (h : NameAt c s l)
    (h' : NameAt c s l') (hlength : l.name.map List.length = l'.name.map List.length) : l = l' := by
  cases h with
  | quoted hc =>
    cases h' with
    | quoted _ => rfl
    | plain hc' _ => exact absurd hc hc'
  | plain hc hname =>
    cases h' with
    | quoted hc' => exact absurd hc' hc
    | plain _ hname' =>
      have heq := List.prefix_of_prefix_length_le hname hname' (Nat.le_of_eq (Option.some_inj.mp hlength))
      rw [heq.eq_of_length (Option.some_inj.mp hlength)]

theorem scanNext_name {quotes : Bool} {c : Char} {s m : Str} (h : (scanNext quotes c s).name = some m) :
    NameAt c s (scanNext quotes c s) := by
  generalize hl : scanNext quotes c s = l at h ⊢
  unfold scanNext at hl
  split at hl
  · subst hl
    cases h
  split at hl
  · next hquote =>
    subst hl
    exact .quoted hquote.2
  split at hl
  · next hstart =>
    subst hl
    refine .plain ?_ ((List.prefix_cons_inj c).mpr (List.takeWhile_prefix _))
    rintro rfl
    exact absurd hstart (by decide)
  · subst hl
    cases h

theorem sqlNext_name {c : Char} {s m : Str} (h : (sqlNext c s).name = some m) :
    NameAt c s (sqlNext c s) := by
  revert h
  refine sqlNext_cases (P := fun l => l.name = some m → NameAt c s l) c s ?_ ?_ ?_
  · intro text _ _ h
    cases h
  · exact fun hquote _ => .quoted hquote
  · exact fun hquote _ _ => .plain hquote ((List.prefix_cons_inj c).mpr (List.takeWhile_prefix _))

end Quackapi.Policy
