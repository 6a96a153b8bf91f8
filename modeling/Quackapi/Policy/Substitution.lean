import Quackapi.Policy.Places

/-! Substitution into a policy expression. A scanner replaces a name where it stands after closed quotes;
this is the right replacement, whatever the columns are, exactly where SQL's identifiers stand there
and no other text does, and the two scanners agree by what double quotes hold. -/

namespace Quackapi.Policy
open Library

/-- The first argument that a name spells, ignoring case. -/
def argKey (args : List Str) (token : Str) : Option Nat :=
  args.findIdx? (sameCatalogIdentifier token)

def quotedColumn (columns : List Str) (i : Nat) : Str := quoteCatalogIdentifier (columns.getD i [])

/-- The tokens that spell an argument, each with the length of the text before it. -/
def argumentTokens (args : List Str) (ts : List Token) : List (Nat × Token) :=
  marked (argKey args) 0 ts

/-- What the scanner reads in an expression; with `quotes`, a double quote opens an identifier. -/
def scannedTokens (quotes : Bool) (expr : Str) : List Token :=
  (pieces quotes expr).map Piece.lexeme

/-- The simultaneous replacement of SQL's tokens, as the policy means it. -/
def replaceTokens (expr : Str) (args columns : List Str) : Str :=
  (sqlTokens expr).flatMap fun t => (t.name.bind (mapToken args columns)).getD t.text

theorem scannedTokens_eq (quotes : Bool) (expr : Str) :
    scannedTokens quotes expr = lex (scanNext quotes) expr.length expr :=
  scanPieces_lex quotes expr.length expr

theorem mapToken_eq {args columns : List Str} (hlen : columns.length = args.length) (token : Str) :
    mapToken args columns token = (argKey args token).map (quotedColumn columns) := by
  induction args generalizing columns with
  | nil => rfl
  | cons arg args ih =>
    rcases columns with _ | ⟨column, columns⟩
    · cases hlen
    rw [mapToken, argKey, List.zip_cons_cons, List.find?_cons, List.findIdx?_cons]
    dsimp only
    rcases sameCatalogIdentifier token arg with _ | _
    · have hrest := ih (Nat.succ.inj hlen)
      rw [mapToken, argKey] at hrest
      simp only [hrest, Bool.false_eq_true, if_false, Option.map_map]
      rfl
    · rfl

theorem flatMap_getD_eq_substitute {key : Str → Option Nat} {column : Nat → Str}
    {r : Str → Option Str} (hr : ∀ token, r token = (key token).map column) (ts : List Token) :
    (ts.flatMap fun t => (t.name.bind r).getD t.text) = substitute key column ts := by
  refine List.flatMap_congr fun t _ => ?_
  rw [Lexeme.key, Option.map_bind]
  congr 2
  funext token
  exact hr token

theorem replaceTokens_eq {args columns : List Str} (hlen : columns.length = args.length)
    (expr : Str) : replaceTokens expr args columns =
      substitute (argKey args) (quotedColumn columns) (lex sqlNext expr.length expr) :=
  flatMap_getD_eq_substitute (mapToken_eq hlen) _

theorem replacePolicyIdentifiers_eq {args columns : List Str} (hlen : columns.length = args.length)
    (expr : Str) : replacePolicyIdentifiers expr args columns =
      substitute (argKey args) (quotedColumn columns) (lex (scanNext true) expr.length expr) := by
  rw [← scannedTokens_eq, ← flatMap_getD_eq_substitute (mapToken_eq hlen), scannedTokens,
    List.flatMap_map]
  refine List.flatMap_congr fun p _ => ?_
  rw [renderPiece, Piece.lexeme]
  rcases p.token with _ | token
  · rfl
  · rfl

def runColumns (N n : Nat) : List Str := (List.range n).map fun i => List.replicate (N + i) 'x'

theorem length_runColumns (N n : Nat) : (runColumns N n).length = n := by
  rw [runColumns, List.length_map, List.length_range]

theorem escapeQuotes_replicate (n : Nat) : escapeQuotes (List.replicate n 'x') = List.replicate n 'x' := by
  induction n with
  | zero => rfl
  | succ n ih =>
    rw [List.replicate_succ]
    exact congrArg ('x' :: ·) ih

theorem quotedColumn_runs {N n i : Nat} (hi : i < n) :
    quotedColumn (runColumns N n) i = '"' :: (List.replicate (N + i) 'x' ++ ['"']) := by
  have hget : (runColumns N n).getD i [] = List.replicate (N + i) 'x' := by
    rw [List.getD_eq_getElem?_getD, runColumns, List.getElem?_map, List.getElem?_range hi]
    rfl
  rw [quotedColumn, hget, quoteCatalogIdentifier, escapeQuotes_replicate]
  rfl

theorem argKey_lt {args : List Str} {token : Str} {i : Nat} (h : argKey args token = some i) :
    i < args.length := by
  obtain ⟨hi, -⟩ := List.findIdx?_eq_some_iff_getElem.mp h
  exact hi

theorem substitute_runs (N : Nat) (args : List Str) (ts : List Token) :
    substitute (argKey args) (quotedColumn (runColumns N args.length)) ts =
      substitute (argKey args) (fun i => '"' :: (List.replicate (N + i) 'x' ++ ['"'])) ts := by
  refine List.flatMap_congr fun t _ => ?_
  rcases hkey : t.key (argKey args) with _ | i
  · rfl
  · obtain ⟨token, -, htoken⟩ := Option.bind_eq_some_iff.mp hkey
    exact quotedColumn_runs (argKey_lt htoken)

theorem eq_of_argKey {args : List Str} {c : Char} {s : Str} {t t' : Token} {i : Nat}
    (h : NameAt c s t) (h' : NameAt c s t') (ht : t.key (argKey args) = some i)
    (ht' : t'.key (argKey args) = some i) : t = t' := by
  have hlower : ∀ {t : Token}, t.key (argKey args) = some i →
      ∃ hi : i < args.length, t.name.map List.length = some args[i].length := by
    intro t ht
    obtain ⟨token, hname, htoken⟩ := Option.bind_eq_some_iff.mp ht
    obtain ⟨hi, hsame, -⟩ := List.findIdx?_eq_some_iff_getElem.mp htoken
    have hlength := congrArg List.length (sameCatalogIdentifier_iff.mp hsame)
    rw [lower, lower, List.length_map, List.length_map] at hlength
    exact ⟨hi, by rw [hname, Option.map_some, hlength]⟩
  obtain ⟨_, hlength⟩ := hlower ht
  obtain ⟨_, hlength'⟩ := hlower ht'
  exact h.eq_of_length h' (hlength.trans hlength'.symm)

section
variable {next next' : Char → Str → Token}

theorem agree_iff (hnext : Advances next) (hnext' : Advances next')
    (hname : ∀ c s m, (next c s).name = some m → NameAt c s (next c s))
    (hname' : ∀ c s m, (next' c s).name = some m → NameAt c s (next' c s))
    (args : List Str) (expr : Str) :
    (∀ columns, columns.length = args.length →
      substitute (argKey args) (quotedColumn columns) (lex next expr.length expr) =
        substitute (argKey args) (quotedColumn columns) (lex next' expr.length expr)) ↔
      argumentTokens args (lex next expr.length expr) =
        argumentTokens args (lex next' expr.length expr) := by
  constructor
  · intro h
    have hruns := h _ (length_runColumns expr.length args.length)
    rw [substitute_runs, substitute_runs] at hruns
    have hrevealing : Revealing expr.length
        fun i => '"' :: (List.replicate (expr.length + i) 'x' ++ ['"']) :=
      revealing_runs (by decide) expr.length
    refine marked_lex_eq hnext hnext' (fun c s i hi hi' => ?_) hrevealing hruns
    obtain ⟨m, hm, -⟩ := Option.bind_eq_some_iff.mp hi
    obtain ⟨m', hm', -⟩ := Option.bind_eq_some_iff.mp hi'
    exact eq_of_argKey (hname c s m hm) (hname' c s m' hm') hi hi'
  · intro h columns _
    exact substitute_lex_eq hnext hnext' h

end

theorem startsLexing (quotes : Bool) (rest : Str) : Boundary quotes [] rest :=
  ⟨rfl, fun _ => rfl, fun _ _ h => nomatch h⟩

theorem mem_argumentTokens_scanned {quotes : Bool} {args : List Str} {expr : Str} {p : Nat} {t : Token} :
    (p, t) ∈ argumentTokens args (scannedTokens quotes expr) ↔ (t.key (argKey args)).isSome ∧
      ∃ before rest, expr = before ++ rest ∧ p = before.length ∧ StandsAt quotes before rest t := by
  rw [argumentTokens, scannedTokens_eq]
  constructor
  · intro h
    obtain ⟨-, hkey, -⟩ := eq_next_of_mem_marked h
    exact ⟨hkey, ((scanNext_describes (argKey args) quotes).mem_marked_iff (scanNext_advances quotes)
      (Nat.le_refl _) (fun _ => startsLexing quotes expr) hkey).mp h⟩
  · rintro ⟨hkey, h⟩
    exact ((scanNext_describes (argKey args) quotes).mem_marked_iff (scanNext_advances quotes)
      (Nat.le_refl _) (fun _ => startsLexing quotes expr) hkey).mpr h

theorem scanned_at_iff {quotes : Bool} {args : List Str} {before rest : Str} {t : Token} :
    (before.length, t) ∈ argumentTokens args (scannedTokens quotes (before ++ rest)) ↔
      (t.key (argKey args)).isSome ∧ StandsAt quotes before rest t := by
  refine mem_argumentTokens_scanned.trans (and_congr_right fun _ => ?_)
  constructor
  · rintro ⟨before', rest', hexpr, hlength, hstands⟩
    obtain ⟨rfl, rfl⟩ := List.append_inj hexpr hlength
    exact hstands
  · exact fun hstands => ⟨before, rest, rfl, rfl, hstands⟩

/-- What SQL reads as an argument stands in the scanner's places, and nothing else there spells one. -/
structure ReadAsSql (args : List Str) (expr : Str) : Prop where
  /-- A whole ASCII word or a double-quoted identifier, after closed quotes. -/
  found : ∀ before rest t, expr = before ++ rest →
    (before.length, t) ∈ argumentTokens args (sqlTokens expr) → StandsAt true before rest t
  /-- Not in a dollar-quoted or escape string, a numeral, a parameter, a comment or a longer name. -/
  nowhereElse : ∀ before rest t, expr = before ++ rest → (t.key (argKey args)).isSome →
    StandsAt true before rest t → (before.length, t) ∈ argumentTokens args (sqlTokens expr)

theorem readAsSql_iff (args : List Str) (expr : Str) : ReadAsSql args expr ↔
    argumentTokens args (scannedTokens true expr) = argumentTokens args (sqlTokens expr) := by
  constructor
  · intro h
    rw [scannedTokens_eq, sqlTokens, argumentTokens, argumentTokens]
    refine marked_lex_ext (scanNext_advances true) sqlNext_advances fun p t => ?_
    rw [← scannedTokens_eq]
    constructor
    · intro hmem
      obtain ⟨hkey, before, rest, hexpr, rfl, hstands⟩ := mem_argumentTokens_scanned.mp hmem
      exact h.nowhereElse before rest t hexpr hkey hstands
    · intro hmem
      obtain ⟨-, hkey, c, s, hdrop, -⟩ := eq_next_of_mem_marked hmem
      have hexpr : expr = expr.take p ++ c :: s := by
        rw [← hdrop, Nat.sub_zero, List.take_append_drop]
      have hp : p = (expr.take p).length := by
        have hlength := congrArg List.length hdrop
        rw [List.length_drop, List.length_cons] at hlength
        rw [List.length_take]
        omega
      exact mem_argumentTokens_scanned.mpr ⟨hkey, _, _, hexpr, hp, h.found _ _ t hexpr (hp ▸ hmem)⟩
  · intro h
    constructor
    · rintro before rest t rfl hmem
      rw [← h] at hmem
      exact (scanned_at_iff.mp hmem).2
    · rintro before rest t rfl hkey hstands
      rw [← h]
      exact scanned_at_iff.mpr ⟨hkey, hstands⟩

/-- For an expression and a signature: the replacement is the one of SQL's tokens, whatever columns
are mapped, exactly where the arguments that SQL reads, and no other texts, stand as whole ASCII words
or between double quotes after closed quotes. -/
theorem policy_argument_substitution (expr : Str) (args : List Str) :
    (∀ columns, columns.length = args.length →
      replacePolicyIdentifiers expr args columns = replaceTokens expr args columns) ↔
      ReadAsSql args expr := by
  rw [readAsSql_iff, scannedTokens_eq, sqlTokens, ← agree_iff (scanNext_advances true) sqlNext_advances
    (fun _ _ _ => scanNext_name) (fun _ _ _ => sqlNext_name)]
  refine forall_congr' fun columns => forall_congr' fun hlen => ?_
  rw [replacePolicyIdentifiers_eq hlen, replaceTokens_eq hlen]

theorem readAsSql_of_ordinary {args : List Str} {expr : Str} (h : ∀ t ∈ sqlTokens expr, Ordinary t) :
    ReadAsSql args expr := by
  have hmem : ∀ {p t}, (t.key (argKey args)).isSome → ((p, t) ∈ argumentTokens args (sqlTokens expr) ↔
      ∃ before rest, expr = before ++ rest ∧ p = before.length ∧ StandsAt true before rest t) :=
    fun hkey => (sqlNext_describes (argKey args)).mem_marked_iff sqlNext_advances (Nat.le_refl _)
      (fun _ => ⟨startsLexing true expr, expr.length, Nat.le_refl _, h⟩) hkey
  refine ⟨fun before rest t hexpr hat => ?_, fun before rest t hexpr hkey hstands => ?_⟩
  · obtain ⟨-, hkey, -⟩ := eq_next_of_mem_marked hat
    obtain ⟨before', rest', hexpr', hlength, hstands⟩ := (hmem hkey).mp hat
    obtain ⟨rfl, rfl⟩ := List.append_inj (hexpr.symm.trans hexpr') hlength
    exact hstands
  · exact (hmem hkey).mpr ⟨before, rest, hexpr, rfl, hstands⟩

/-- The scanner knows no dollar-quoted strings: it replaces the argument within one. -/
theorem dollar_quoted_argument_replaced :
    let expr := "note <> $$tenant$$".toList
    replaceTokens expr ["tenant".toList] ["org_id".toList] = expr ∧
      replacePolicyIdentifiers expr ["tenant".toList] ["org_id".toList] =
        "note <> $$\"org_id\"$$".toList ∧
      ¬ ∀ columns : List Str, columns.length = 1 →
        replacePolicyIdentifiers expr ["tenant".toList] columns =
          replaceTokens expr ["tenant".toList] columns := by
  intro expr
  have hsql : replaceTokens expr ["tenant".toList] ["org_id".toList] = expr := by decide
  have hscan : replacePolicyIdentifiers expr ["tenant".toList] ["org_id".toList] =
      "note <> $$\"org_id\"$$".toList := by decide
  refine ⟨hsql, hscan, fun h => ?_⟩
  have hcolumn := h ["org_id".toList] rfl
  rw [hsql, hscan] at hcolumn
  exact absurd hcolumn (by decide)

theorem substituteValPlaceholder_eq (expr column : Str) :
    substituteValPlaceholder expr (quoteCatalogIdentifier column) =
      substitute (argKey ["val".toList]) (quotedColumn [column])
        (lex (scanNext false) expr.length expr) := by
  have hval : ∀ token, (if lower token = "val".toList then some (quoteCatalogIdentifier column)
      else none) = (argKey ["val".toList] token).map (quotedColumn [column]) := by
    intro token
    have hlower : lower "val".toList = "val".toList := by decide
    have hsame : sameCatalogIdentifier token "val".toList = decide (lower token = "val".toList) := by
      rw [Bool.eq_iff_iff, sameCatalogIdentifier_iff, decide_eq_true_eq, hlower]
    rw [argKey, List.findIdx?_singleton, hsame]
    by_cases htoken : lower token = "val".toList
    · rw [if_pos htoken, decide_eq_true htoken]
      rfl
    · rw [if_neg htoken, decide_eq_false htoken]
      rfl
  rw [← scannedTokens_eq, ← flatMap_getD_eq_substitute hval, scannedTokens, List.flatMap_map,
    substituteValPlaceholder]
  refine List.flatMap_congr fun p _ => ?_
  rw [Piece.lexeme]
  rcases p.token with _ | token
  · rfl
  · dsimp only [Option.bind_some]
    split
    · rfl
    · rfl

/-- How many apostrophes stand between double quotes, from an open quote on. -/
def apostrophesQuoted : Option Char → Str → Nat
  | _, [] => 0
  | q, c :: s => (if q = some '"' ∧ c = '\'' then 1 else 0) + apostrophesQuoted (quoteStep true q c) s

/-- What double quotes may hold: not `val` itself, and a word `val` exactly where the apostrophes
between double quotes before it are odd in number. -/
structure ValApart (expr : Str) : Prop where
  unquoted : ∀ before rest t, expr = before ++ rest → openQuote true before = none →
    QuotedAt before rest t → ¬ (t.key (argKey ["val".toList])).isSome
  words : ∀ before rest t, expr = before ++ rest → WordAt before rest t →
    (t.key (argKey ["val".toList])).isSome →
    (openQuote true before = some '"' ↔ apostrophesQuoted none before % 2 = 1)

/-- The open quotes with and without double quotes, and the apostrophes between double quotes so far. -/
structure Tallied (single both : Option Char) (n : Nat) : Prop where
  singleQuote : single = none ∨ single = some '\''
  bothQuotes : both = none ∨ both = some '\'' ∨ both = some '"'
  parity : single = none ↔ (n + if both = some '\'' then 1 else 0) % 2 = 0

theorem Tallied.step {single both : Option Char} {n : Nat} (h : Tallied single both n) (c : Char) :
    Tallied (quoteStep false single c) (quoteStep true both c)
      (n + if both = some '"' ∧ c = '\'' then 1 else 0) := by
  obtain ⟨hsingle, hboth, hparity⟩ := h
  by_cases hc : c = '\''
  · subst hc
    rcases hsingle with rfl | rfl <;> rcases hboth with rfl | rfl | rfl <;>
      refine ⟨by decide, by decide, ?_⟩ <;> simp [quoteStep] at hparity ⊢ <;> omega
  by_cases hd : c = '"'
  · subst hd
    rcases hsingle with rfl | rfl <;> rcases hboth with rfl | rfl | rfl <;>
      exact ⟨by decide, by decide, by simpa [quoteStep] using hparity⟩
  · rcases hsingle with rfl | rfl <;> rcases hboth with rfl | rfl | rfl <;>
      refine ⟨?_, ?_, ?_⟩ <;> simp [quoteStep, hc, hd] at hparity ⊢ <;> exact hparity

/-- The scanner without double quotes is outside a literal when the apostrophes are even in number: those
of literals and those between double quotes. -/
theorem tallied (text : Str) :
    Tallied (openQuote false text) (openQuote true text) (apostrophesQuoted none text) := by
  have hrun : ∀ (text : Str) {single both : Option Char} {n : Nat}, Tallied single both n →
      Tallied (text.foldl (quoteStep false) single) (text.foldl (quoteStep true) both)
        (n + apostrophesQuoted both text) := by
    intro text
    induction text with
    | nil => exact id
    | cons c text ih =>
      intro single both n h
      rw [apostrophesQuoted, ← Nat.add_assoc]
      exact ih (h.step c)
  have hstart : Tallied none none 0 := ⟨.inl rfl, .inl rfl, by decide⟩
  have htext := hrun text hstart
  rwa [Nat.zero_add] at htext

/-- At a word the two scanners agree exactly where the word is between double quotes if and only if the
apostrophes between double quotes are odd. -/
theorem openQuotes_agree_iff (text : Str) : (openQuote false text = none ↔ openQuote true text = none) ↔
    (openQuote true text = some '"' ↔ apostrophesQuoted none text % 2 = 1) := by
  obtain ⟨-, hboth, hparity⟩ := tallied text
  rw [hparity]
  rcases hboth with h | h | h
  · simp [h]
  · simp [h]
    omega
  · simp [h]

theorem valApart_iff (expr : Str) : ValApart expr ↔
    argumentTokens ["val".toList] (scannedTokens false expr) =
      argumentTokens ["val".toList] (scannedTokens true expr) := by
  constructor
  · intro h
    rw [scannedTokens_eq, scannedTokens_eq, argumentTokens, argumentTokens]
    refine marked_lex_ext (scanNext_advances false) (scanNext_advances true) fun p t => ?_
    rw [← scannedTokens_eq, ← scannedTokens_eq]
    refine Iff.trans mem_argumentTokens_scanned (Iff.trans ?_ mem_argumentTokens_scanned.symm)
    refine and_congr_right fun hkey => exists_congr fun before => exists_congr fun rest =>
      and_congr_right fun hexpr => and_congr_right fun _ => ?_
    constructor
    · rintro ⟨hclosed, hword | hquoted⟩
      · have hagree := (openQuotes_agree_iff before).mpr (h.words before rest t hexpr hword hkey)
        exact ⟨hagree.mp hclosed, .inl hword⟩
      · exact absurd hquoted.1 (by decide)
    · rintro ⟨hclosed, hword | hquoted⟩
      · have hagree := (openQuotes_agree_iff before).mpr (h.words before rest t hexpr hword hkey)
        exact ⟨hagree.mpr hclosed, .inl hword⟩
      · exact absurd hkey (h.unquoted before rest t hexpr hclosed hquoted.2)
  · intro h
    have hsame : ∀ {before rest t}, expr = before ++ rest → (t.key (argKey ["val".toList])).isSome →
        (StandsAt false before rest t ↔ StandsAt true before rest t) := by
      rintro before rest t rfl hkey
      rw [← and_iff_right hkey (b := StandsAt false before rest t), ← scanned_at_iff, h, scanned_at_iff,
        and_iff_right hkey]
    constructor
    · intro before rest t hexpr hclosed hquoted hkey
      obtain ⟨-, hword | hquotes⟩ := (hsame hexpr hkey).mpr ⟨hclosed, .inr ⟨rfl, hquoted⟩⟩
      · rw [eq_cons_of_startsWith hquoted.starts] at hword
        exact absurd hword (not_wordAt (by decide))
      · exact absurd hquotes.1 (by decide)
    · intro before rest t hexpr hword hkey
      refine (openQuotes_agree_iff before).mp ⟨fun hclosed => ?_, fun hclosed => ?_⟩
      · exact ((hsame hexpr hkey).mp ⟨hclosed, .inl hword⟩).1
      · exact ((hsame hexpr hkey).mpr ⟨hclosed, .inl hword⟩).1

/-- For a masking expression: the two substitutions agree on every column exactly where double quotes hold
no `val` that one of them takes for the argument. -/
theorem substitution_paths_agree (expr : Str) :
    (∀ column, substituteValPlaceholder expr (quoteCatalogIdentifier column) =
      replacePolicyIdentifiers expr ["val".toList] [column]) ↔ ValApart expr := by
  rw [valApart_iff, scannedTokens_eq, scannedTokens_eq, ← agree_iff (scanNext_advances false)
    (scanNext_advances true) (fun _ _ _ => scanNext_name) (fun _ _ _ => scanNext_name)]
  constructor
  · intro h columns hlen
    obtain ⟨column, rfl⟩ := List.length_eq_one_iff.mp hlen
    rw [← substituteValPlaceholder_eq, h, replacePolicyIdentifiers_eq hlen]
  · intro h column
    have hlen : [column].length = ["val".toList].length := rfl
    rw [substituteValPlaceholder_eq, h [column] hlen, ← replacePolicyIdentifiers_eq hlen]

/-- A quoted `val` is quoted twice in one path. -/
theorem quoted_val_paths_differ :
    let expr := "\"val\"".toList
    substituteValPlaceholder expr (quoteCatalogIdentifier "email".toList) =
        "\"\"email\"\"".toList ∧
      replacePolicyIdentifiers expr ["val".toList] ["email".toList] = "\"email\"".toList ∧
      ¬ ∀ column, substituteValPlaceholder expr (quoteCatalogIdentifier column) =
        replacePolicyIdentifiers expr ["val".toList] [column] := by
  intro expr
  have hval : substituteValPlaceholder expr (quoteCatalogIdentifier "email".toList) =
      "\"\"email\"\"".toList := by decide
  have hreplace : replacePolicyIdentifiers expr ["val".toList] ["email".toList] =
      "\"email\"".toList := by decide
  refine ⟨hval, hreplace, fun h => ?_⟩
  have hcolumn := h "email".toList
  rw [hval, hreplace] at hcolumn
  exact absurd hcolumn (by decide)

end Quackapi.Policy
