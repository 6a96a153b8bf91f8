import Quackapi.Graphql.Registry
import Mathlib.Algebra.GroupWithZero.Nat

/-! The GraphQL subset: `[query [Name]]` and a selection set whose fields each have a selection set of
columns. A scan position is the rest of the document. -/

namespace Quackapi.Graphql

def graphqlMaxRootFields : Nat := 16
def graphqlMaxColumnsPerField : Nat := 64
def graphqlMaxTotalFields : Nat := 128
def graphqlMaxTotalRows : Nat := 10000
def graphqlMaxDocumentBytes : Nat := 64 * 1024

def isGraphqlNameStart (c : Char) : Bool :=
  (decide ('A' ≤ c) && decide (c ≤ 'Z')) || (decide ('a' ≤ c) && decide (c ≤ 'z')) || c == '_'

def isGraphqlNameCont (c : Char) : Bool :=
  isGraphqlNameStart c || (decide ('0' ≤ c) && decide (c ≤ '9'))

def isGraphqlSeparator (c : Char) : Bool :=
  c == ' ' || c == '\t' || c == '\n' || c == '\r' || c == ','

/-- The loop of `SkipWs`, in a comment or not. The end of a comment is itself a separator. -/
def skipIgnored (comment : Bool) : Str → Str
  | [] => []
  | c :: s =>
    if comment then skipIgnored (!decide (c = '\n')) s
    else if isGraphqlSeparator c then skipIgnored false s
    else if c = '#' then skipIgnored true s
    else c :: s

def skipWs (s : Str) : Str := skipIgnored false s

def matchChar (expected : Char) (s : Str) : Option Str :=
  match skipWs s with
  | [] => none
  | c :: rest => if c = expected then some rest else none

def readName (s : Str) : Option (Str × Str) :=
  match skipWs s with
  | [] => none
  | c :: rest =>
    if isGraphqlNameStart c then
      some (c :: rest.takeWhile isGraphqlNameCont, rest.dropWhile isGraphqlNameCont)
    else none

theorem length_skipIgnored_le (comment : Bool) (s : Str) :
    (skipIgnored comment s).length ≤ s.length := by
  induction s generalizing comment with
  | nil => exact Nat.le_refl _
  | cons c s ih =>
    have hskip : ∀ b, (skipIgnored b s).length ≤ s.length + 1 := fun b => Nat.le_succ_of_le (ih b)
    unfold skipIgnored
    split
    · exact hskip _
    · split
      · exact hskip _
      · split
        · exact hskip _
        · exact Nat.le_refl _

theorem length_matchChar {expected : Char} {s rest : Str} (h : matchChar expected s = some rest) :
    rest.length < s.length := by
  have hskip := length_skipIgnored_le false s
  unfold matchChar skipWs at h
  split at h
  · cases h
  next c tail heq =>
  rw [heq] at hskip
  split at h
  · cases h
    exact hskip
  · cases h

theorem length_readName {s name rest : Str} (h : readName s = some (name, rest)) :
    rest.length < s.length := by
  have hskip := length_skipIgnored_le false s
  unfold readName skipWs at h
  split at h
  · cases h
  next c tail heq =>
  rw [heq] at hskip
  split at h
  · cases h
    have hdrop : (tail.dropWhile isGraphqlNameCont).length ≤ tail.length :=
      (List.dropWhile_suffix _).length_le
    exact Nat.lt_of_le_of_lt hdrop hskip
  · cases h

structure GraphqlField where
  name : Str
  columns : List Str
deriving DecidableEq, Repr

abbrev GraphqlParse := Except Str

/-- The columns of one field, up to the brace that ends them. -/
def readColumns (field : Str) (columns : List Str) (s : Str) : GraphqlParse (List Str × Str) :=
  match matchChar '}' s with
  | some rest => .ok (columns, rest)
  | none =>
    match _hname : readName s with
    | none => .error ("expected column name inside ".toList ++ field)
    | some (col, rest) =>
      if (matchChar '{' rest).isSome then
        .error "nested selections are not supported in GraphQL v0".toList
      else if (matchChar '(' rest).isSome then
        .error "field arguments are not supported in GraphQL v0".toList
      else if columns.contains col then
        .error ("duplicate column '".toList ++ col ++ "' in ".toList ++ field)
      else if graphqlMaxColumnsPerField < columns.length + 1 then
        .error ("selection for ".toList ++ field ++ " exceeds the column limit".toList)
      else readColumns field (columns ++ [col]) rest
termination_by s.length
decreasing_by exact length_readName _hname

theorem length_readColumns {field : Str} {columns cols : List Str} {s rest : Str}
    (h : readColumns field columns s = .ok (cols, rest)) : rest.length ≤ s.length := by
  fun_induction readColumns field columns s with
  | case1 columns s tail hend =>
    cases h
    exact Nat.le_of_lt (length_matchChar hend)
  | case2 | case3 | case4 | case5 | case6 => cases h
  | case7 columns s hend col tail hname _ _ _ _ ih =>
    have hrest := ih h
    have htail := length_readName hname
    omega

def isIntrospection (name : Str) : Bool :=
  decide (name = "__schema".toList) || decide (name = "__type".toList)

def totalFields (roots : List GraphqlField) : Nat := (roots.map fun r => r.columns.length).sum

/-- The checks of a field whose selection set has been read. -/
def addRoot (roots : List GraphqlField) (field : GraphqlField) : GraphqlParse (List GraphqlField) :=
  if field.columns.isEmpty then
    .error ("selection set for ".toList ++ field.name ++ " must list at least one column".toList)
  else if roots.any fun existing => decide (existing.name = field.name) then
    .error ("duplicate root field '".toList ++ field.name ++
      "' is not supported in GraphQL v0".toList)
  else if graphqlMaxRootFields < roots.length + 1 then
    .error "GraphQL document exceeds the root-field limit".toList
  else if graphqlMaxTotalFields < totalFields (roots ++ [field]) then
    .error "GraphQL document exceeds the total-field limit".toList
  else .ok (roots ++ [field])

/-- The root fields, up to the brace that ends them. -/
def readRoots (roots : List GraphqlField) (s : Str) : GraphqlParse (List GraphqlField × Str) :=
  match matchChar '}' s with
  | some rest => .ok (roots, rest)
  | none =>
    match _hname : readName s with
    | none => .error "expected field name in root selection set".toList
    | some (fieldName, afterName) =>
      if isIntrospection fieldName then
        .error "introspection fields are not supported in v0; use GET /graphql/schema".toList
      else
        match _hbrace : matchChar '{' afterName with
        | none => .error ("v0 requires a column selection set: \x7b ".toList ++ fieldName ++
            " \x7b col1 col2 \x7d \x7d".toList)
        | some body =>
          match _hcolumns : readColumns fieldName [] body with
          | .error e => .error e
          | .ok (columns, rest) =>
            match addRoot roots ⟨fieldName, columns⟩ with
            | .error e => .error e
            | .ok roots => readRoots roots rest
termination_by s.length
decreasing_by
  have h₁ := length_readName _hname
  have h₂ := length_matchChar _hbrace
  have h₃ := length_readColumns _hcolumns
  omega

/-- The optional operation; what follows is the selection set. -/
def readOperation (s : Str) : GraphqlParse Str :=
  match readName s with
  | none => .ok s
  | some (first, afterFirst) =>
    if first = "query".toList then
      match readName afterFirst with
      | none => .ok afterFirst
      | some (_, afterName) =>
        if (matchChar '{' afterName).isSome then .ok afterName
        else .error "expected selection set '\x7b' after query".toList
    else if first = "mutation".toList ∨ first = "subscription".toList then
      .error "mutations and subscriptions are not supported in GraphQL v0".toList
    else .ok s

def parseThinGraphql (doc : Str) : GraphqlParse (List GraphqlField) :=
  if graphqlMaxDocumentBytes < doc.length then
    .error "GraphQL document exceeds the 64 KiB limit".toList
  else if (skipWs doc).isEmpty then .error "empty GraphQL document".toList
  else do
    let s ← readOperation doc
    match matchChar '{' s with
    | none => throw "expected selection set '\x7b'".toList
    | some body =>
      let (roots, rest) ← readRoots [] body
      if !(skipWs rest).isEmpty then
        throw "unexpected trailing content after selection set".toList
      else if roots.isEmpty then throw "selection set is empty".toList
      else return roots

def isGraphqlName : Str → Bool
  | [] => false
  | c :: rest => isGraphqlNameStart c && rest.all isGraphqlNameCont

/-- Nothing is skipped before a character that is no separator and begins no comment. -/
def isSignificant (c : Char) : Bool := !isGraphqlSeparator c && !decide (c = '#')

theorem skipWs_separator {c : Char} (hc : isGraphqlSeparator c = true) (s : Str) :
    skipWs (c :: s) = skipWs s := by
  rw [skipWs, skipIgnored, if_neg Bool.false_ne_true, if_pos hc]
  rfl

theorem skipWs_significant {c : Char} (hc : isSignificant c = true) (s : Str) :
    skipWs (c :: s) = c :: s := by
  rw [isSignificant, Bool.and_eq_true, Bool.not_eq_true', Bool.not_eq_true',
    decide_eq_false_iff_not] at hc
  rw [skipWs, skipIgnored, if_neg Bool.false_ne_true, hc.1, if_neg Bool.false_ne_true, if_neg hc.2]

theorem isSignificant_of_nameStart {c : Char} (hc : isGraphqlNameStart c = true) :
    isSignificant c = true := by
  have hno : ∀ d, isGraphqlNameStart d = false → c ≠ d := by
    rintro d hd rfl
    rw [hc] at hd
    cases hd
  have hspace := hno ' ' (by decide)
  have htab := hno '\t' (by decide)
  have hline := hno '\n' (by decide)
  have hreturn := hno '\r' (by decide)
  have hcomma := hno ',' (by decide)
  have hcomment := hno '#' (by decide)
  simp only [isSignificant, isGraphqlSeparator, beq_eq_false_iff_ne.mpr hspace,
    beq_eq_false_iff_ne.mpr htab, beq_eq_false_iff_ne.mpr hline, beq_eq_false_iff_ne.mpr hreturn,
    beq_eq_false_iff_ne.mpr hcomma, decide_eq_false hcomment, Bool.or_self, Bool.not_false,
    Bool.and_self]

theorem matchChar_space (expected : Char) (s : Str) :
    matchChar expected (' ' :: s) = matchChar expected s := by
  rw [matchChar, matchChar, skipWs_separator rfl]

theorem readName_space (s : Str) : readName (' ' :: s) = readName s := by
  rw [readName, readName, skipWs_separator rfl]

theorem matchChar_brace {c : Char} (hc : isSignificant c = true) (expected : Char) (s : Str) :
    matchChar expected (c :: s) = if c = expected then some s else none := by
  rw [matchChar, skipWs_significant hc]

theorem readName_brace {c : Char} (hc : isSignificant c = true)
    (hstart : isGraphqlNameStart c = false) (s : Str) : readName (c :: s) = none := by
  rw [readName, skipWs_significant hc]
  exact if_neg (Bool.eq_false_iff.mp hstart)

section
variable {name : Str}

theorem readName_name (hname : isGraphqlName name = true) (rest : Str) :
    readName (name ++ ' ' :: rest) = some (name, ' ' :: rest) := by
  rcases name with _ | ⟨c, tail⟩
  · cases hname
  obtain ⟨hstart, htail⟩ := Bool.and_eq_true_iff.mp hname
  have hcont : ∀ d ∈ tail, isGraphqlNameCont d = true := List.all_eq_true.mp htail
  have htake : (tail ++ ' ' :: rest).takeWhile isGraphqlNameCont = tail := by
    rw [List.takeWhile_append_of_pos hcont]
    exact List.append_nil _
  have hdrop : (tail ++ ' ' :: rest).dropWhile isGraphqlNameCont = ' ' :: rest := by
    rw [List.dropWhile_append_of_pos hcont]
    rfl
  rw [List.cons_append, readName, skipWs_significant (isSignificant_of_nameStart hstart)]
  dsimp only
  rw [if_pos hstart, htake, hdrop]

theorem matchChar_name (hname : isGraphqlName name = true) {expected : Char}
    (hexpected : isGraphqlNameStart expected = false) (rest : Str) :
    matchChar expected (name ++ rest) = none := by
  rcases name with _ | ⟨c, tail⟩
  · cases hname
  have hstart := (Bool.and_eq_true_iff.mp hname).1
  rw [List.cons_append, matchChar_brace (isSignificant_of_nameStart hstart)]
  refine if_neg fun heq => ?_
  rw [heq, hexpected] at hstart
  cases hstart

end

def oneRootQuery (table column : Str) : Str :=
  '{' :: ' ' :: (table ++ ' ' :: '{' :: ' ' :: (column ++ [' ', '}', ' ', '}']))

section
variable {table column : Str}

theorem readColumns_one (hcolumn : isGraphqlName column = true) (rest : Str) :
    readColumns table [] (' ' :: (column ++ ' ' :: '}' :: rest)) = .ok ([column], rest) := by
  have hend : matchChar '}' (' ' :: (column ++ ' ' :: '}' :: rest)) = none := by
    rw [matchChar_space]
    exact matchChar_name hcolumn rfl _
  have hread : readName (' ' :: (column ++ ' ' :: '}' :: rest)) =
      some (column, ' ' :: '}' :: rest) := by
    rw [readName_space]
    exact readName_name hcolumn _
  have hlast : readColumns table [column] (' ' :: '}' :: rest) = .ok ([column], rest) := by
    rw [readColumns, matchChar_space, matchChar_brace rfl]
    rfl
  rw [readColumns, hend]
  dsimp only
  split
  · next hnone =>
    rw [hread] at hnone
    cases hnone
  · next col tail hsome =>
    rw [hread] at hsome
    cases hsome
    have hbrace : ∀ c, c ≠ '}' → matchChar c (' ' :: '}' :: rest) = none := fun c hc => by
      rw [matchChar_space, matchChar_brace rfl]
      exact if_neg hc.symm
    rw [hbrace '{' (by decide), hbrace '(' (by decide)]
    exact hlast

theorem readRoots_one (htable : isGraphqlName table = true) (hcolumn : isGraphqlName column = true) :
    readRoots [] (' ' :: (table ++ ' ' :: '{' :: ' ' :: (column ++ [' ', '}', ' ', '}']))) =
      if isIntrospection table then
        .error "introspection fields are not supported in v0; use GET /graphql/schema".toList
      else .ok ([⟨table, [column]⟩], []) := by
  have hend : matchChar '}'
      (' ' :: (table ++ ' ' :: '{' :: ' ' :: (column ++ [' ', '}', ' ', '}']))) = none := by
    rw [matchChar_space]
    exact matchChar_name htable rfl _
  have hread : readName (' ' :: (table ++ ' ' :: '{' :: ' ' :: (column ++ [' ', '}', ' ', '}']))) =
      some (table, ' ' :: '{' :: ' ' :: (column ++ [' ', '}', ' ', '}'])) := by
    rw [readName_space]
    exact readName_name htable _
  have hbody : matchChar '{' (' ' :: '{' :: ' ' :: (column ++ [' ', '}', ' ', '}'])) =
      some (' ' :: (column ++ [' ', '}', ' ', '}'])) := by
    rw [matchChar_space, matchChar_brace rfl]
    rfl
  have hcolumns : readColumns table [] (' ' :: (column ++ [' ', '}', ' ', '}'])) =
      .ok ([column], [' ', '}']) := readColumns_one hcolumn _
  have hlast : readRoots [⟨table, [column]⟩] [' ', '}'] = .ok ([⟨table, [column]⟩], []) := by
    rw [readRoots, matchChar_space, matchChar_brace rfl]
    rfl
  rw [readRoots, hend]
  dsimp only
  split
  · next hnone =>
    rw [hread] at hnone
    cases hnone
  next name afterName hsome =>
  rw [hread] at hsome
  cases hsome
  split
  · rfl
  split
  · next hnone =>
    rw [hbody] at hnone
    cases hnone
  next body hsome =>
  rw [hbody] at hsome
  cases hsome
  split
  · next herror =>
    rw [hcolumns] at herror
    cases herror
  next columns rest hok =>
  rw [hcolumns] at hok
  cases hok
  exact hlast

theorem parse_oneRoot (htable : isGraphqlName table = true) (hcolumn : isGraphqlName column = true)
    (hlength : (oneRootQuery table column).length ≤ graphqlMaxDocumentBytes) :
    parseThinGraphql (oneRootQuery table column) =
      if isIntrospection table then
        .error "introspection fields are not supported in v0; use GET /graphql/schema".toList
      else .ok [⟨table, [column]⟩] := by
  have hnonempty : (skipWs (oneRootQuery table column)).isEmpty = false := by
    rw [oneRootQuery, skipWs_significant rfl]
    rfl
  have hoperation : readOperation (oneRootQuery table column) = .ok (oneRootQuery table column) := by
    rw [oneRootQuery, readOperation, readName_brace rfl rfl]
  have hbrace : matchChar '{' (oneRootQuery table column) =
      some (' ' :: (table ++ ' ' :: '{' :: ' ' :: (column ++ [' ', '}', ' ', '}']))) := by
    rw [oneRootQuery, matchChar_brace rfl, if_pos rfl]
  have hrest : (!(skipWs []).isEmpty) = false := rfl
  rw [parseThinGraphql, if_neg (Nat.not_lt.mpr hlength), hnonempty, if_neg Bool.false_ne_true,
    hoperation]
  simp only [bind, Except.bind, hbrace, readRoots_one htable hcolumn]
  cases isIntrospection table with
  | true => simp only [if_true]
  | false =>
    simp only [Bool.false_eq_true, if_false, hrest, List.isEmpty_cons]
    rfl

end

end Quackapi.Graphql
