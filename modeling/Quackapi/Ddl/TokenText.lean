import Quackapi.Library.Cuts
import Quackapi.Util.Str

/-! A statement's text from its tokens. The engine hands the tokens over; they are written one behind the
other, and the text must have its tokens where they were written. -/

namespace Quackapi.Ddl
open Library

inductive TokenType
  | stringLiteral | terminator | endOfInput | endOfInputAutocomplete | other
deriving DecidableEq

structure SimpleToken where
  type : TokenType
  text : Str
deriving DecidableEq

def joinsWithoutSpace (previous next : Str) : Bool :=
  ["(".toList, "[".toList, ".".toList, "::".toList, "$".toList].contains previous ||
    [")".toList, "]".toList, ",".toList, ".".toList, "::".toList].contains next

def isStatementEnd : TokenType → Bool
  | .terminator | .endOfInput | .endOfInputAutocomplete => true
  | .stringLiteral | .other => false

def adjacentStrings (previous token : SimpleToken) : Bool :=
  decide (previous.type = .stringLiteral) && decide (token.type = .stringLiteral) &&
    "'".toList.isPrefixOf token.text

def adjacentError (previous token : SimpleToken) : Str :=
  "quackapi cannot rebuild adjacent string literals ".toList ++ previous.text ++ " ".toList ++ token.text ++
    " - join them with || or put them in one literal".toList

def changedError (sql : Str) : Str :=
  "quackapi could not rebuild the statement from its tokens without changing them: ".toList ++ sql

/-- What the loop over the tokens has made so far. -/
structure Rebuilt where
  sql : Str
  starts : List Nat
  count : Nat

def Rebuilt.put (r : Rebuilt) (gap : Str) (token : SimpleToken) : Rebuilt where
  sql := r.sql ++ gap ++ token.text
  starts := r.starts ++ [(r.sql ++ gap).length]
  count := r.count + 1

def gapBetween (previous token : SimpleToken) : Str :=
  if joinsWithoutSpace previous.text token.text then [] else [' ']

/-- The loop from a token on; what there is at an error is kept. -/
def rebuildLoop : Option SimpleToken → Rebuilt → List SimpleToken → Rebuilt × Option Str
  | _, r, [] => (r, none)
  | none, r, token :: tokens =>
    if isStatementEnd token.type then (r, none)
    else rebuildLoop (some token) (r.put [] token) tokens
  | some previous, r, token :: tokens =>
    if isStatementEnd token.type then (r, none)
    else if adjacentStrings previous token then (r, some (adjacentError previous token))
    else rebuildLoop (some token) (r.put (gapBetween previous token) token) tokens

/-- The text, and how many tokens the statement has. -/
def tokensToSql (tokenStarts : Str → List Nat) (tokens : List SimpleToken) : Str × Except Str Nat :=
  match rebuildLoop none ⟨[], [], 0⟩ tokens with
  | (r, some error) => (r.sql, .error error)
  | (r, none) =>
    if tokenStarts r.sql = r.starts then (r.sql, .ok r.count) else (r.sql, .error (changedError r.sql))

variable {α : Type}

/-- A parser's answer, nothing for a statement of another kind, with the tokens it claims, where it
says. -/
structure TokenParse (α : Type) where
  result : Option (Except Str α)
  consumedTokens : Option Int

/-- The statement's tokens and the one that ends it. -/
def claimedTokens (tokens : List SimpleToken) (count : Nat) : Nat := min (count + 1) tokens.length

def parseTokens (tokenStarts : Str → List Nat) (parse : Str → Option (Except Str α))
    (tokens : List SimpleToken) : TokenParse α :=
  match tokensToSql tokenStarts tokens with
  | (sql, .error error) =>
    -- only a statement of this parser's kind is refused here
    match parse sql with
    | none => ⟨none, none⟩
    | some _ => ⟨some (.error error), some (-1)⟩
  | (sql, .ok count) =>
    match parse sql with
    | some (.ok data) => ⟨some (.ok data), some (claimedTokens tokens count)⟩
    | some (.error error) => ⟨some (.error error), some (-1)⟩
    | none => ⟨none, some 0⟩

def statementOf (tokens : List SimpleToken) : List SimpleToken :=
  tokens.takeWhile fun t => !isStatementEnd t.type

/-- Each token with the blank that follows it, if one does. -/
def piecesOf : List SimpleToken → List Str
  | [] => []
  | [t] => [t.text]
  | t :: u :: ts => (t.text ++ gapBetween t u) :: piecesOf (u :: ts)

def writeTokens (ts : List SimpleToken) : Str := (piecesOf ts).flatten

/-- No literal behind a literal, which a line break between them would join. -/
def NoAdjacentStrings (ts : List SimpleToken) : Prop :=
  ts.IsChain fun t u => adjacentStrings t u = false

/-- The text of these tokens has its tokens where they stand in it. -/
structure Rebuildable (tokenStarts : Str → List Nat) (ts : List SimpleToken) : Prop where
  apart : NoAdjacentStrings ts
  starts : tokenStarts (writeTokens ts) = startsFrom 0 (piecesOf ts)

theorem statementOf_cons_end {t : SimpleToken} {ts : List SimpleToken} (h : isStatementEnd t.type = true) :
    statementOf (t :: ts) = [] := List.takeWhile_cons_of_neg (by simp [h])

theorem statementOf_cons {t : SimpleToken} {ts : List SimpleToken} (h : ¬ isStatementEnd t.type = true) :
    statementOf (t :: ts) = t :: statementOf ts := List.takeWhile_cons_of_pos (by simp [h])

theorem rebuildLoop_pieces {p : SimpleToken} {tokens : List SimpleToken}
    (h : NoAdjacentStrings (p :: statementOf tokens)) (base : Str) (starts : List Nat) (count : Nat) :
    rebuildLoop (some p) ⟨base ++ p.text, starts ++ [base.length], count⟩ tokens =
      (⟨base ++ (piecesOf (p :: statementOf tokens)).flatten,
        starts ++ startsFrom base.length (piecesOf (p :: statementOf tokens)),
        count + (statementOf tokens).length⟩, none) := by
  have hlast : ∀ (p : SimpleToken) (base : Str) (starts : List Nat) (count : Nat),
      (⟨base ++ p.text, starts ++ [base.length], count⟩ : Rebuilt) =
        ⟨base ++ (piecesOf [p]).flatten, starts ++ startsFrom base.length (piecesOf [p]), count⟩ := by
    intro p base starts count
    simp [piecesOf, startsFrom]
  induction tokens generalizing p base starts count with
  | nil =>
    rw [rebuildLoop, hlast]
    rfl
  | cons t tokens ih =>
    rw [rebuildLoop]
    by_cases hend : isStatementEnd t.type = true
    · rw [if_pos hend, statementOf_cons_end hend, hlast]
      rfl
    · rw [statementOf_cons hend] at h ⊢
      obtain ⟨hpt, hrest⟩ := List.isChain_cons_cons.mp h
      have hput : (⟨base ++ p.text, starts ++ [base.length], count⟩ : Rebuilt).put (gapBetween p t) t =
          ⟨(base ++ (p.text ++ gapBetween p t)) ++ t.text,
            (starts ++ [base.length]) ++ [(base ++ (p.text ++ gapBetween p t)).length], count + 1⟩ := by
        simp only [Rebuilt.put, List.append_assoc]
      rw [if_neg hend, hpt, if_neg Bool.false_ne_true, hput, ih hrest]
      simp only [piecesOf, List.flatten_cons, startsFrom, List.append_assoc, List.length_append,
        List.length_cons, List.singleton_append, Nat.add_assoc, Nat.add_comm 1]

theorem rebuildLoop_adjacent {p : SimpleToken} {tokens : List SimpleToken}
    (h : ¬ NoAdjacentStrings (p :: statementOf tokens)) (r : Rebuilt) :
    ∃ r' error, rebuildLoop (some p) r tokens = (r', some error) := by
  induction tokens generalizing p r with
  | nil => exact absurd (.singleton p) h
  | cons t tokens ih =>
    rw [rebuildLoop]
    by_cases hend : isStatementEnd t.type = true
    · rw [statementOf_cons_end hend] at h
      exact absurd (.singleton p) h
    · rw [statementOf_cons hend] at h
      rw [if_neg hend]
      by_cases hpt : adjacentStrings p t = true
      · rw [if_pos hpt]
        exact ⟨r, _, rfl⟩
      · rw [if_neg hpt]
        apply ih
        intro hrest
        exact h (List.isChain_cons_cons.mpr ⟨Bool.eq_false_iff.mpr hpt, hrest⟩)

variable (tokenStarts : Str → List Nat)

theorem tokensToSql_apart {tokens : List SimpleToken} (h : NoAdjacentStrings (statementOf tokens)) :
    tokensToSql tokenStarts tokens = (writeTokens (statementOf tokens),
      if tokenStarts (writeTokens (statementOf tokens)) = startsFrom 0 (piecesOf (statementOf tokens)) then
        .ok (statementOf tokens).length
      else .error (changedError (writeTokens (statementOf tokens)))) := by
  have hloop : rebuildLoop none ⟨[], [], 0⟩ tokens = (⟨writeTokens (statementOf tokens),
      startsFrom 0 (piecesOf (statementOf tokens)), (statementOf tokens).length⟩, none) := by
    cases tokens with
    | nil => rfl
    | cons t tokens =>
      rw [rebuildLoop]
      by_cases hend : isStatementEnd t.type = true
      · rw [if_pos hend, statementOf_cons_end hend]
        rfl
      · rw [statementOf_cons hend] at h ⊢
        rw [if_neg hend]
        refine (rebuildLoop_pieces h [] [] 1).trans ?_
        rw [List.length_cons, Nat.add_comm 1]
        rfl
  rw [tokensToSql, hloop]
  dsimp only
  split <;> rfl

theorem tokensToSql_adjacent {tokens : List SimpleToken} (h : ¬ NoAdjacentStrings (statementOf tokens)) :
    ∃ sql error, tokensToSql tokenStarts tokens = (sql, .error error) := by
  cases tokens with
  | nil => exact absurd .nil h
  | cons t tokens =>
    by_cases hend : isStatementEnd t.type = true
    · rw [statementOf_cons_end hend] at h
      exact absurd .nil h
    · rw [statementOf_cons hend] at h
      obtain ⟨r, error, hloop⟩ := rebuildLoop_adjacent h (Rebuilt.put ⟨[], [], 0⟩ [] t)
      refine ⟨r.sql, error, ?_⟩
      rw [tokensToSql, rebuildLoop, if_neg hend, hloop]

theorem tokensToSql_ok_iff {tokens : List SimpleToken} {sql : Str} {count : Nat} :
    tokensToSql tokenStarts tokens = (sql, .ok count) ↔
      Rebuildable tokenStarts (statementOf tokens) ∧ sql = writeTokens (statementOf tokens) ∧
        count = (statementOf tokens).length := by
  by_cases hapart : NoAdjacentStrings (statementOf tokens)
  · rw [tokensToSql_apart tokenStarts hapart, Prod.mk.injEq]
    split
    · next hstarts =>
      rw [Except.ok.injEq]
      constructor
      · rintro ⟨rfl, rfl⟩
        exact ⟨⟨hapart, hstarts⟩, rfl, rfl⟩
      · rintro ⟨-, rfl, rfl⟩
        exact ⟨rfl, rfl⟩
    · next hstarts =>
      constructor
      · rintro ⟨-, h⟩
        cases h
      · rintro ⟨h, -, -⟩
        exact absurd h.starts hstarts
  · obtain ⟨sql', error, h⟩ := tokensToSql_adjacent tokenStarts hapart
    rw [h]
    constructor
    · intro h
      cases congrArg Prod.snd h
    · rintro ⟨h, -, -⟩
      exact absurd h.apart hapart

variable (parse : Str → Option (Except Str α))

theorem parseTokens_result (tokens : List SimpleToken) :
    (parseTokens tokenStarts parse tokens).result = none ↔
      parse (tokensToSql tokenStarts tokens).1 = none := by
  rw [parseTokens]
  rcases tokensToSql tokenStarts tokens with ⟨sql, error | count⟩
  · dsimp only
    cases parse sql <;> simp
  · dsimp only
    rcases parse sql with _ | _ | data <;> simp

theorem parseTokens_ok_iff {tokens : List SimpleToken} {data : α} {consumed : Option Int} :
    parseTokens tokenStarts parse tokens = ⟨some (.ok data), consumed⟩ ↔
      Rebuildable tokenStarts (statementOf tokens) ∧
        parse (writeTokens (statementOf tokens)) = some (.ok data) ∧
        consumed = some (claimedTokens tokens (statementOf tokens).length : Int) := by
  have hiff {sql : Str} {count : Nat} : tokensToSql tokenStarts tokens = (sql, .ok count) ↔ _ :=
    tokensToSql_ok_iff tokenStarts
  rw [parseTokens]
  rcases htokens : tokensToSql tokenStarts tokens with ⟨sql, error | count⟩
  · dsimp only
    constructor
    · intro h
      cases hparse : parse sql <;> rw [hparse] at h <;> cases h
    · rintro ⟨h, -, -⟩
      have hok := hiff.mpr ⟨h, rfl, rfl⟩
      rw [htokens] at hok
      cases congrArg Prod.snd hok
  · obtain ⟨hrebuildable, rfl, rfl⟩ := hiff.mp htokens
    dsimp only
    constructor
    · intro h
      rcases hparse : parse (writeTokens (statementOf tokens)) with _ | _ | data' <;>
        rw [hparse] at h <;> cases h
      exact ⟨hrebuildable, rfl, rfl⟩
    · rintro ⟨-, hparse, rfl⟩
      rw [hparse]

theorem piecesOf_texts (ts : List SimpleToken) :
    List.Forall₂ (fun piece t => piece = t.text ∨ piece = t.text ++ [' ']) (piecesOf ts) ts := by
  induction ts with
  | nil => exact .nil
  | cons t ts ih =>
    cases ts with
    | nil => exact .cons (.inl rfl) .nil
    | cons u ts =>
      refine .cons ?_ ih
      rw [gapBetween]
      split
      · exact .inl (List.append_nil _)
      · exact .inr rfl

theorem take_statement (tokens : List SimpleToken) :
    ∃ ending, tokens.take (claimedTokens tokens (statementOf tokens).length) =
        statementOf tokens ++ ending ∧
      ending.length ≤ 1 ∧ (∀ t ∈ ending, isStatementEnd t.type = true) ∧
      (ending = [] → statementOf tokens = tokens) := by
  induction tokens with
  | nil => exact ⟨[], rfl, by decide, fun t ht => absurd ht List.not_mem_nil, fun _ => rfl⟩
  | cons t tokens ih =>
    by_cases hend : isStatementEnd t.type = true
    · refine ⟨[t], ?_, Nat.le_refl 1, ?_, fun h => absurd h (List.cons_ne_nil _ _)⟩
      · rw [claimedTokens, statementOf_cons_end hend, List.length_nil, List.length_cons,
          Nat.min_eq_left (Nat.succ_le_succ (Nat.zero_le _))]
        rfl
      · intro u hu
        rwa [List.mem_singleton.mp hu]
    · obtain ⟨ending, htake, hlength, hends, hall⟩ := ih
      refine ⟨ending, ?_, hlength, hends, fun h => ?_⟩
      · rw [claimedTokens, statementOf_cons hend, List.length_cons, List.length_cons,
          Nat.add_min_add_right, List.take_succ_cons]
        exact congrArg (t :: ·) htake
      · rw [statementOf_cons hend, hall h]

/-- A parser is given the statement, and claims it with the token that ends it, exactly where no literal
stands behind a literal and the text has its tokens where they were written: cut there, it gives each
token's text, with the blank behind it if it was written with one. What it does not know it leaves to
others, whether the text could be rebuilt or not. -/
theorem parseTokens_claims (tokens : List SimpleToken) :
    (∀ data consumed, parseTokens tokenStarts parse tokens = ⟨some (.ok data), consumed⟩ ↔
      Rebuildable tokenStarts (statementOf tokens) ∧
        parse (writeTokens (statementOf tokens)) = some (.ok data) ∧
        consumed = some (claimedTokens tokens (statementOf tokens).length : Int)) ∧
    ((parseTokens tokenStarts parse tokens).result = none ↔
      parse (tokensToSql tokenStarts tokens).1 = none) ∧
    (Rebuildable tokenStarts (statementOf tokens) →
      List.Forall₂ (fun piece t => piece = t.text ∨ piece = t.text ++ [' '])
        (cutPlaces (tokenStarts (writeTokens (statementOf tokens))) (writeTokens (statementOf tokens)))
        (statementOf tokens)) ∧
    ∃ ending, tokens.take (claimedTokens tokens (statementOf tokens).length) =
        statementOf tokens ++ ending ∧
      ending.length ≤ 1 ∧ (∀ t ∈ ending, isStatementEnd t.type = true) ∧
      (ending = [] → statementOf tokens = tokens) := by
  refine ⟨fun data consumed => parseTokens_ok_iff tokenStarts parse,
    parseTokens_result tokenStarts parse tokens, fun h => ?_, take_statement tokens⟩
  rw [h.starts, writeTokens, cutPlaces_starts]
  exact piecesOf_texts _

end Quackapi.Ddl
