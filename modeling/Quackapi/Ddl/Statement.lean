import Quackapi.Ddl.RouteParse
import Quackapi.Library.QuotedWords

/-! What a `CREATE ROUTE` statement says: its clauses, the texts they are written as, and the route they
make. A word of such a text has no quotes in it, and every quote begins or ends a literal. -/

namespace Quackapi.Ddl
open Library Params Http

/-- What is taken off the end of a text. -/
def isLoose (c : Char) : Bool := isSpace c || c == ';'

/-- The text that is left, which is never empty. -/
abbrev IsRest (s : Str) : Prop := Tight isSpace isLoose s

abbrev Begins (x : Piece) (text rest : Str) : Prop := Starts isSpace isLoose '\'' x text rest

abbrev BeginsAll (xs : List Piece) (text rest : Str) : Prop := StartsAll isSpace isLoose '\'' xs text rest

abbrev IsGapText (b : Str) : Prop := IsGap isSpace b

/-- A part of a statement that may be missing. -/
inductive OptAt {α : Type} (R : α → Str → Str → Prop) : Option α → Str → Str → Prop
  | none {rest : Str} : OptAt R none rest rest
  | some {a : α} {text rest : Str} (h : R a text rest) : OptAt R (some a) text rest

inductive ListAt {α : Type} (R : α → Str → Str → Prop) : List α → Str → Str → Prop
  | nil {rest : Str} : ListAt R [] rest rest
  | cons {a : α} {as : List α} {text mid rest : Str} (h : R a text mid) (hrest : ListAt R as mid rest) :
      ListAt R (a :: as) text rest

inductive ClauseKind
  | status | rateLimit | require | format | envelope | emptyStatus | timeout | group | schedule
  | body (k : BodyKind) | param (name : Str) | requestBytes
deriving DecidableEq

inductive HeadClause
  | status (code : Str)
  | rateLimit (count window : Str) (key : Option Str)
  | require (auth : Str)
  | format (name : Str)
  | envelope (name : Str)
  | emptyStatus (code : Str) (body : Option Str)
  | timeout (duration : Piece)
  | group (name : Str)
  | schedule (cron : Str)
deriving DecidableEq

namespace HeadClause

def kind : HeadClause → ClauseKind
  | .status _ => .status
  | .rateLimit _ _ _ => .rateLimit
  | .require _ => .require
  | .format _ => .format
  | .envelope _ => .envelope
  | .emptyStatus _ _ => .emptyStatus
  | .timeout _ => .timeout
  | .group _ => .group
  | .schedule _ => .schedule

/-- The pieces a clause is written as, its keywords in any case. -/
inductive Spelled : HeadClause → List Piece → Prop
  | status {k n : Str} (hk : upper k = "STATUS".toList) : Spelled (.status n) [.word k, .word n]
  | rateLimit {k l n p s : Str} (hk : upper k = "RATE".toList) (hl : upper l = "LIMIT".toList)
      (hp : upper p = "PER".toList) :
      Spelled (.rateLimit n s none) [.word k, .word l, .word n, .word p, .word s]
  | rateLimitBy {k l n p s b key : Str} (hk : upper k = "RATE".toList) (hl : upper l = "LIMIT".toList)
      (hp : upper p = "PER".toList) (hb : upper b = "BY".toList) :
      Spelled (.rateLimit n s (some key))
        [.word k, .word l, .word n, .word p, .word s, .word b, .word key]
  | require {k a : Str} (hk : upper k = "REQUIRE".toList) : Spelled (.require a) [.word k, .word a]
  | format {k f : Str} (hk : upper k = "FORMAT".toList) : Spelled (.format f) [.word k, .word f]
  | envelope {k e : Str} (hk : upper k = "ENVELOPE".toList) : Spelled (.envelope e) [.word k, .word e]
  | emptyStatus {k s n : Str} (hk : upper k = "EMPTY".toList) (hs : upper s = "STATUS".toList) :
      Spelled (.emptyStatus n none) [.word k, .word s, .word n]
  | emptyStatusBody {k s n b v : Str} (hk : upper k = "EMPTY".toList) (hs : upper s = "STATUS".toList)
      (hb : upper b = "BODY".toList) :
      Spelled (.emptyStatus n (some v)) [.word k, .word s, .word n, .word b, .literal v]
  | timeout {k n : Str} (hk : upper k = "TIMEOUT".toList) :
      Spelled (.timeout (.word n)) [.word k, .word n]
  | timeoutLiteral {k v : Str} (hk : upper k = "TIMEOUT".toList) (hv : '\'' ∉ v) :
      Spelled (.timeout (.literal v)) [.word k, .literal v]
  | group {k g : Str} (hk : upper k = "GROUP".toList) : Spelled (.group g) [.word k, .word g]
  | inGroup {i k g : Str} (hi : upper i = "IN".toList) (hk : upper k = "GROUP".toList) :
      Spelled (.group g) [.word i, .word k, .word g]
  | schedule {k v : Str} (hk : upper k = "SCHEDULE".toList) :
      Spelled (.schedule v) [.word k, .literal v]

end HeadClause

def ClauseAt (c : HeadClause) (text rest : Str) : Prop := ∃ xs, c.Spelled xs ∧ BeginsAll xs text rest

/-- The literal may follow the two keywords at once. -/
def BodyAt (b : BodyKind × Str) (text rest : Str) : Prop :=
  ∃ k w gap mid, upper k = "BODY".toList ∧ upper w = b.1.keyword ∧ IsGapText gap ∧
    Begins (.word k) text (w ++ (gap ++ mid)) ∧ Begins (.literal b.2) mid rest

inductive ParamOption
  | source (source : ParamSource) (wire : Option Piece)
  | default (operand : Piece)
  | bound (key : BoundKey) (number : Str)
  | signedBound (key : BoundKey) (sign : Char) (number : Str)
deriving DecidableEq

structure ParamWritten where
  name : Str
  type : Option Str
  options : List ParamOption
deriving DecidableEq

def isNumeralChar (c : Char) : Bool := c.isAlphanum || c == '.' || c == '_'

section
variable (engine : DdlEngine)

/-- One number, which starts with a digit or a point. A sign stands only in front of its exponent. -/
def IsNumeral (n : Str) : Prop :=
  (∃ c t, n = c :: t ∧ (c.isDigit = true ∨ c = '.')) ∧
    (∀ front c back, n = front ++ c :: back → isNumeralChar c = true ∨
      (c = '-' ∨ c = '+') ∧ ∃ e ∈ front.getLast?, e = 'e' ∨ e = 'E') ∧
    (engine.numericLiteral n).isSome = true

/-- A token that is left to the engine's parser, which reads it as it is: a literal in it is whole. -/
def IsToken (w : Str) : Prop :=
  w ≠ [] ∧ w.head? ≠ some '\'' ∧ (∀ c ∈ w, isSpace c = false) ∧ (engine.parseExpression w).isSome = true

def IsTokenGap (b : Str) : Prop := b ≠ [] ∧ ∀ c ∈ b, c ∈ [' ', '\t', '\n', '\r', '\x0c']

def NoWireName (rest : Str) : Prop :=
  rest.head? ≠ some '\'' ∧
    (upper (nextToken rest) ∈ optionWords ∨ isParamTypeName (nextToken rest) = true)

inductive OptionAt : ParamOption → Str → Str → Prop
  | source {k text rest : Str} {s : ParamSource} (hk : sourceOf (upper k) = some s)
      (h : Begins (.word k) text rest) (hrest : NoWireName rest) : OptionAt (.source s none) text rest
  | sourceWord {k w text rest : Str} {s : ParamSource} (hk : sourceOf (upper k) = some s)
      (h : BeginsAll [.word k, .word w] text rest)
      (hw : upper w ∉ optionWords ∧ isParamTypeName w = false) :
      OptionAt (.source s (some (.word w))) text rest
  | sourceLiteral {k v text rest : Str} {s : ParamSource} (hk : sourceOf (upper k) = some s)
      (h : BeginsAll [.word k, .literal v] text rest) (hv : '\'' ∉ v) :
      OptionAt (.source s (some (.literal v))) text rest
  | defaultWord {k w b text rest : Str} (hk : upper k = "DEFAULT".toList)
      (h : Begins (.word k) text (w ++ (b ++ rest))) (hw : IsToken engine w) (hb : IsGapText b) (hne : b ≠ [])
      (hrest : IsRest rest) : OptionAt (.default (.word w)) text rest
  | defaultLiteral {k v text rest : Str} (hk : upper k = "DEFAULT".toList)
      (h : BeginsAll [.word k, .literal v] text rest) : OptionAt (.default (.literal v)) text rest
  | bound {k n text rest : Str} {b : BoundKey} (hk : boundKeyOf (upper k) = some b)
      (h : BeginsAll [.word k, .word n] text rest) (hn : n ≠ ['-'] ∧ n ≠ ['+']) :
      OptionAt (.bound b n) text rest
  | signedBound {k n gap mid text rest : Str} {b : BoundKey} {s : Char}
      (hk : boundKeyOf (upper k) = some b) (h : Begins (.word k) text (s :: (gap ++ mid)))
      (hs : s = '-' ∨ s = '+') (hgap : IsTokenGap gap) (hmid : Begins (.word n) mid rest)
      (hn : IsNumeral engine n) : OptionAt (.signedBound b s n) text rest

/-- Without a type, no type's name stands in its place. -/
def TypeAt (type : Option Str) (text rest : Str) : Prop :=
  match type with
  | some t => isParamTypeName t = true ∧ Begins (.word t) text rest
  | none => text = rest ∧ isParamTypeName (nextToken text) = false

def ParamAt (p : ParamWritten) (text rest : Str) : Prop :=
  ∃ k mid mid', upper k = "PARAM".toList ∧ BeginsAll [.word k, .word p.name] text mid ∧
    TypeAt p.type mid mid' ∧ ListAt (OptionAt engine) p.options mid' rest

end

/-- The options in parentheses. Every quote in them is closed there. -/
def WithAt (inner : Str) (text rest : Str) : Prop :=
  ∃ k gap gap', upper k = "WITH".toList ∧ IsGapText gap ∧ IsGapText gap' ∧ ')' ∉ inner ∧
    inner.count '\'' % 2 = 0 ∧ text = k ++ (gap ++ '(' :: (inner ++ ')' :: (gap' ++ rest))) ∧ IsRest rest

/-- The handler is all that follows `AS`. -/
def HandlerAt (handler text : Str) : Prop := ∃ k, upper k = "AS".toList ∧ Begins (.word k) text handler

def createWords (orReplace : Bool) : Str :=
  if orReplace then "CREATE OR REPLACE ROUTE ".toList else "CREATE ROUTE ".toList

/-- What stands in front of the clauses, and the blanks and semicolons at the end. -/
def IntroAt (head : RouteHead) (query rest : Str) : Prop :=
  ∃ before create gap method gap₁ gap₂ gap₃ after, IsGapText before ∧
    upper create = createWords head.orReplace ∧ IsGapText gap ∧
    (head.name ≠ [] ∧ (∀ c ∈ head.name.head?, isSpace c = false) ∧ ' ' ∉ head.name ∧ '\'' ∉ head.name) ∧
    upper method = head.method ∧ IsHttpMethod head.method = true ∧
    IsGapText gap₁ ∧ IsGapText gap₂ ∧ (head.pattern ≠ [] ∧ '\'' ∉ head.pattern) ∧ IsGapText gap₃ ∧
    (∀ c ∈ after, isLoose c = true) ∧ IsRest rest ∧
    query = before ++ (create ++ (gap ++ (head.name ++ ' ' :: (gap₁ ++ (method ++ ' ' ::
      (gap₂ ++ '\'' :: (head.pattern ++ '\'' :: (gap₃ ++ (rest ++ after)))))))))

structure Written where
  intro : RouteHead
  head : List HeadClause
  body : Option (BodyKind × Str)
  params : List ParamWritten
  lateBody : Option (BodyKind × Str)
  lateSchedule : Option Str
  lateTimeout : Option Piece
  options : Option Str
  handler : Str
  /-- With neither a body clause nor a parameter in front there is no second place. -/
  placed : body = none → params = [] → lateBody = none ∧ lateSchedule = none ∧ lateTimeout = none

section
variable (engine : DdlEngine)

def TailAt (w : Written) (text : Str) : Prop :=
  ∃ r₁ r₂ r₃ r₄ r₅ r₆, OptAt BodyAt w.body text r₁ ∧ ListAt (ParamAt engine) w.params r₁ r₂ ∧
    OptAt BodyAt w.lateBody r₂ r₃ ∧ OptAt (fun cron => ClauseAt (.schedule cron)) w.lateSchedule r₃ r₄ ∧
    OptAt (fun d => ClauseAt (.timeout d)) w.lateTimeout r₄ r₅ ∧ OptAt WithAt w.options r₅ r₆ ∧
    HandlerAt w.handler r₆

def Reads (w : Written) (query : Str) : Prop :=
  ∃ text tail, IntroAt w.intro query text ∧ ListAt ClauseAt w.head text tail ∧ TailAt engine w tail

end

inductive Setting
  | status (n : Int)
  | rateLimit (n perSec : Int) (by' : Str)
  | require (auth : Str)
  | format (name : Str)
  | envelope (name : Str)
  | emptyStatus (n : Int) (body : Option Str)
  | timeout (sec : Int)
  | group (name : Str)
  | schedule (cron : Str)
deriving DecidableEq

def Setting.kind : Setting → ClauseKind
  | .status _ => .status
  | .rateLimit _ _ _ => .rateLimit
  | .require _ => .require
  | .format _ => .format
  | .envelope _ => .envelope
  | .emptyStatus _ _ => .emptyStatus
  | .timeout _ => .timeout
  | .group _ => .group
  | .schedule _ => .schedule

def Piece.text : Piece → Str
  | .word w => w
  | .literal v => v

def statusOf (code : Str) : Option Int := if isStatus (atoi code) then some (atoi code) else none

def positive (n : Str) : Option Int := if 0 < atoi n then some (atoi n) else none

/-- Whom a limit is counted by: the address, unless the clause says otherwise. -/
def limitKey : Option Str → Option Str
  | none => some "ip".toList
  | some key =>
    if lower key = "key".toList then some "token".toList
    else if lower key = "ip".toList ∨ lower key = "token".toList then some (lower key)
    else none

/-- The clause's operands must be what the clause takes. -/
def HeadClause.setting : HeadClause → Option Setting
  | .status code => (statusOf code).map .status
  | .rateLimit count window key =>
    (positive count).bind fun n => (positive window).bind fun s => (limitKey key).map (.rateLimit n s)
  | .require auth => some (.require auth)
  | .format name => if formatName name ∈ formatNames then some (.format (formatName name)) else none
  | .envelope name => if lower name ∈ envelopeNames then some (.envelope (lower name)) else none
  | .emptyStatus code body => (statusOf code).map (.emptyStatus · body)
  | .timeout (.word d) => (parseRouteTimeoutSec d).toOption.map .timeout
  | .timeout (.literal d) => (parseRouteTimeoutSec ('\'' :: d ++ ['\''])).toOption.map .timeout
  | .group name => some (.group name)
  | .schedule cron => (validateRouteSchedule cron).toOption.map fun _ => .schedule cron

def HeadState.set (st : HeadState) : Setting → HeadState
  | .status n => { st with status := n }
  | .rateLimit n perSec key =>
    { st with rateLimitN := n, rateLimitPerSec := perSec, rateLimitBy := key }
  | .require auth => { st with requireAuth := auth }
  | .format name => { st with responseFormat := name }
  | .envelope name => { st with responseEnvelope := name }
  | .emptyStatus n none => { st with emptyStatus := n }
  | .emptyStatus n (some body) => { st with emptyStatus := n, emptyBody := body }
  | .timeout sec => { st with timeoutSec := sec }
  | .group name => { st with groupName := name }
  | .schedule cron => { st with schedule := cron, scheduleSeen := true }

def HeadState.blocks (st : HeadState) : ClauseKind → Bool
  | .timeout => decide (0 < st.timeoutSec)
  | .group => !st.groupName.isEmpty
  | .schedule => st.scheduleSeen
  | _ => false

def settle (st : HeadState) (c : HeadClause) : Option HeadState :=
  c.setting.bind fun s => if st.blocks c.kind then none else some (st.set s)

section
variable (engine : DdlEngine)

def defaultOf : Piece → Option ParamDefault
  | .word w => (bareDefault engine w).toOption
  | .literal v => some (.literal v (.text v))

def applyOption (spec : ParamSpec) : ParamOption → Option ParamSpec
  | .source s none => some { spec with source := s }
  | .source s (some x) => some { spec with source := s, externalName := Piece.text x }
  | .default x => (defaultOf engine x).map fun d => { spec with default := some d }
  | .bound k n => (setBound engine spec k n).toOption
  | .signedBound k s n => (setBound engine spec k (s :: n)).toOption

def ParamWritten.spec (p : ParamWritten) : Option ParamSpec :=
  p.options.foldlM (applyOption engine)
    { name := p.name, typeName := (p.type.map storedTypeName).getD [] }

end

namespace Written
variable (engine : DdlEngine) (w : Written)

def bodies : List (BodyKind × Str) := w.body.toList ++ w.lateBody.toList

def late : List HeadClause :=
  (w.lateSchedule.map HeadClause.schedule).toList ++ (w.lateTimeout.map HeadClause.timeout).toList

def limits (timeoutSec : Int) : Option Limits :=
  match w.options with
  | none => some ⟨timeoutSec, 0⟩
  | some inner =>
    if (quackapiTrim inner).isEmpty then none
    else (withOptions ⟨timeoutSec, 0⟩ (quackapiTrim inner)).toOption

/-- The route, if the clauses are what they must be. -/
def route : Option RouteDdl := do
  let st ← w.head.foldlM settle {}
  (checkHead w.intro st).toOption
  let params ← w.params.mapM (ParamWritten.spec engine)
  let st ← w.late.foldlM settle st
  let limits ← w.limits st.timeoutSec
  return routeOf w.intro st (w.bodies.foldl (fun st b => st.set b.1 b.2) {}) params limits w.handler

end Written

end Quackapi.Ddl
