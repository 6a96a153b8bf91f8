import Quackapi.Policy.Identity
import Quackapi.Policy.Registry

/-! The text of a secure subquery: the policy expression with its signature arguments replaced by
table columns, the masked columns, and the statement around them. -/

namespace Quackapi.Policy

def isIdentStart (c : Char) : Bool := c.isAlpha || c == '_'

def isIdentChar (c : Char) : Bool := c.isAlpha || c.isDigit || c == '_'

def escapeQuotes (ident : Str) : Str :=
  ident.flatMap fun c => if c = '"' then ['"', '"'] else [c]

def quoteCatalogIdentifier (ident : Str) : Str := '"' :: escapeQuotes ident ++ ['"']

def quotePolicyTableIdentity (identity : PolicyTableIdentity) : Str :=
  quoteCatalogIdentifier identity.catalog ++ ".".toList ++
    quoteCatalogIdentifier identity.schema ++ ".".toList ++ quoteCatalogIdentifier identity.table

inductive Piece
  | other (c : Char)
  | literal (text : Str)
  | quotedIdent (token raw : Str)
  | ident (token : Str)
deriving DecidableEq, Repr

def Piece.text : Piece → Str
  | .other c => [c]
  | .literal text => text
  | .quotedIdent _ raw => raw
  | .ident token => token

/-- The name a piece spells, if it is an identifier. -/
def Piece.token : Piece → Option Str
  | .quotedIdent token _ => some token
  | .ident token => some token
  | _ => none

/-- The rest of a string literal and what follows it; a doubled quote does not end it. -/
def scanLiteral : Str → Str × Str
  | [] => ([], [])
  | '\'' :: '\'' :: s => ('\'' :: '\'' :: (scanLiteral s).1, (scanLiteral s).2)
  | '\'' :: s => (['\''], s)
  | c :: s => (c :: (scanLiteral s).1, (scanLiteral s).2)

/-- The rest of a quoted identifier: its name, its text and what follows. -/
def scanQuoted : Str → Str × Str × Str
  | [] => ([], [], [])
  | '"' :: '"' :: s =>
    ('"' :: (scanQuoted s).1, '"' :: '"' :: (scanQuoted s).2.1, (scanQuoted s).2.2)
  | '"' :: s => ([], ['"'], s)
  | c :: s => (c :: (scanQuoted s).1, c :: (scanQuoted s).2.1, (scanQuoted s).2.2)

theorem scanLiteral_append (s : Str) : (scanLiteral s).1 ++ (scanLiteral s).2 = s := by
  fun_induction scanLiteral s with
  | case1 => rfl
  | case2 s ih => simp only [List.cons_append, ih]
  | case3 s _ => rfl
  | case4 c s _ _ ih => simp only [List.cons_append, ih]

theorem scanQuoted_append (s : Str) : (scanQuoted s).2.1 ++ (scanQuoted s).2.2 = s := by
  fun_induction scanQuoted s with
  | case1 => rfl
  | case2 s ih => simp only [List.cons_append, ih]
  | case3 s _ => rfl
  | case4 c s _ _ ih => simp only [List.cons_append, ih]

/-- One piece at a time; with `quotes`, a double quote opens an identifier. -/
def scanPieces (quotes : Bool) : Nat → Str → List Piece
  | 0, _ => []
  | _, [] => []
  | n + 1, c :: s =>
    if c = '\'' then
      .literal (c :: (scanLiteral s).1) :: scanPieces quotes n (scanLiteral s).2
    else if quotes ∧ c = '"' then
      .quotedIdent (scanQuoted s).1 (c :: (scanQuoted s).2.1) ::
        scanPieces quotes n (scanQuoted s).2.2
    else if isIdentStart c then
      .ident (c :: s.takeWhile isIdentChar) :: scanPieces quotes n (s.dropWhile isIdentChar)
    else .other c :: scanPieces quotes n s

def pieces (quotes : Bool) (expr : Str) : List Piece := scanPieces quotes expr.length expr

/-- The column standing for a token: the loop over both lists ends with the shorter one. -/
def mapToken (args columns : List Str) (token : Str) : Option Str :=
  ((args.zip columns).find? fun p => sameCatalogIdentifier token p.1).map
    fun p => quoteCatalogIdentifier p.2

def renderPiece (args columns : List Str) (p : Piece) : Str :=
  match p.token with
  | some token => (mapToken args columns token).getD p.text
  | none => p.text

def replacePolicyIdentifiers (expr : Str) (args columns : List Str) : Str :=
  (pieces true expr).flatMap (renderPiece args columns)

theorem mapToken_mapped {args columns : List Str} (hlen : columns.length = args.length)
    {token arg : Str} (harg : arg ∈ args) (htok : sameCatalogIdentifier token arg = true) :
    ∃ p ∈ args.zip columns, sameCatalogIdentifier token p.1 = true ∧
      mapToken args columns token = some (quoteCatalogIdentifier p.2) := by
  obtain ⟨i, hi, rfl⟩ := List.getElem_of_mem harg
  have hzip : i < (args.zip columns).length := by
    rw [List.length_zip, hlen]
    omega
  have hmem : (args.zip columns)[i] ∈ args.zip columns := List.getElem_mem hzip
  unfold mapToken
  rcases hf : (args.zip columns).find? (fun p => sameCatalogIdentifier token p.1) with _ | p
  · have hno := List.find?_eq_none.mp hf _ hmem
    rw [List.getElem_zip] at hno
    exact absurd htok hno
  · have hp := List.find?_some hf
    refine ⟨p, List.mem_of_find?_eq_some hf, hp, ?_⟩
    rw [hf]
    rfl

/-- Replace the identifier `val`; a double quote means nothing here. -/
def substituteValPlaceholder (expr replacement : Str) : Str :=
  (pieces false expr).flatMap fun p =>
    match p.token with
    | some token => if lower token = "val".toList then replacement else p.text
    | none => p.text

def joinComma : List Str → Str
  | [] => []
  | [part] => part
  | part :: parts => part ++ ", ".toList ++ joinComma parts

def buildSecureSubqueryQuoted (physicalRelation whereExpr : Str) (masked : List (Str × Str)) :
    Str :=
  let whereSql := if whereExpr.isEmpty then [] else " WHERE (".toList ++ whereExpr ++ ")".toList
  if masked.isEmpty then "SELECT * FROM ".toList ++ physicalRelation ++ whereSql
  else
    "SELECT * EXCLUDE (".toList ++ joinComma (masked.map fun m => quoteCatalogIdentifier m.1) ++
      "), ".toList ++ joinComma (masked.map fun m =>
        "(".toList ++ m.2 ++ ") AS ".toList ++ quoteCatalogIdentifier m.1) ++
      " FROM ".toList ++ physicalRelation ++ whereSql

end Quackapi.Policy
