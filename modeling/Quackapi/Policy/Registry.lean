import Quackapi.Library.FirstMatch
import Quackapi.Library.Machine
import Quackapi.Util.Str

/-! The policy registry: row access and masking policies, and their bindings to tables and columns.
Every operation holds the policies mutex, so it is one step; one that throws leaves the registry as
it was. -/

namespace Quackapi.Policy
open Library

structure RowAccessPolicy where
  name : Str
  argColumns : List Str
  argTypes : List Str
  expression : Str
deriving DecidableEq, Repr

structure MaskingPolicy where
  name : Str
  valueType : Str
  expression : Str
deriving DecidableEq, Repr

structure RowAccessBinding where
  tableName : Str
  policyName : Str
  columns : List Str
deriving DecidableEq, Repr

structure MaskingBinding where
  tableName : Str
  columnName : Str
  policyName : Str
deriving DecidableEq, Repr

structure PolicyState where
  rowAccessPolicies : List RowAccessPolicy
  maskingPolicies : List MaskingPolicy
  rowAccessBindings : List RowAccessBinding
  maskingBindings : List MaskingBinding
deriving DecidableEq, Repr

def emptyPolicies : PolicyState := ⟨[], [], [], []⟩

/-- The message of the `InvalidInputException` an operation throws. -/
abbrev PolicyResult := Except Str PolicyState

def quoted (name : Str) : Str := "\"".toList ++ name ++ "\"".toList

def getRowAccessPolicy (s : PolicyState) (name : Str) : Option RowAccessPolicy :=
  findKey RowAccessPolicy.name name s.rowAccessPolicies

def getMaskingPolicy (s : PolicyState) (name : Str) : Option MaskingPolicy :=
  findKey MaskingPolicy.name name s.maskingPolicies

def addRowAccessPolicy (s : PolicyState) (p : RowAccessPolicy) (orReplace : Bool) : PolicyResult :=
  match getRowAccessPolicy s p.name with
  | some _ =>
    if orReplace then
      .ok { s with rowAccessPolicies := replaceKey RowAccessPolicy.name p s.rowAccessPolicies }
    else .error ("Row access policy ".toList ++ quoted p.name ++
      " already exists — use CREATE OR REPLACE ROW ACCESS POLICY".toList)
  | none =>
    match getMaskingPolicy s p.name with
    | some _ => .error ("Policy name ".toList ++ quoted p.name ++
        " is already used by a masking policy".toList)
    | none => .ok { s with rowAccessPolicies := s.rowAccessPolicies ++ [p] }

def dropRowAccessPolicy (s : PolicyState) (name : Str) : PolicyResult :=
  match getRowAccessPolicy s name with
  | some _ => .ok { s with
      rowAccessPolicies := eraseKey RowAccessPolicy.name name s.rowAccessPolicies
      rowAccessBindings := s.rowAccessBindings.filter fun b => b.policyName ≠ name }
  | none => .error ("Row access policy ".toList ++ quoted name ++ " does not exist".toList)

def addMaskingPolicy (s : PolicyState) (p : MaskingPolicy) (orReplace : Bool) : PolicyResult :=
  match getMaskingPolicy s p.name with
  | some _ =>
    if orReplace then
      .ok { s with maskingPolicies := replaceKey MaskingPolicy.name p s.maskingPolicies }
    else .error ("Masking policy ".toList ++ quoted p.name ++
      " already exists — use CREATE OR REPLACE MASKING POLICY".toList)
  | none =>
    match getRowAccessPolicy s p.name with
    | some _ => .error ("Policy name ".toList ++ quoted p.name ++
        " is already used by a row access policy".toList)
    | none => .ok { s with maskingPolicies := s.maskingPolicies ++ [p] }

def dropMaskingPolicy (s : PolicyState) (name : Str) : PolicyResult :=
  match getMaskingPolicy s name with
  | some _ => .ok { s with
      maskingPolicies := eraseKey MaskingPolicy.name name s.maskingPolicies
      maskingBindings := s.maskingBindings.filter fun b => b.policyName ≠ name }
  | none => .error ("Masking policy ".toList ++ quoted name ++ " does not exist".toList)

/-- The table of a binding as the registry compares it: its spelling, whatever it denotes. -/
def RowAccessBinding.spelling (b : RowAccessBinding) : Str := lower b.tableName

/-- One row access policy a table, replaced by the same policy or on request. -/
def bindRowAccessPolicy (s : PolicyState) (b : RowAccessBinding) (orReplace : Bool) :
    PolicyResult :=
  match getRowAccessPolicy s b.policyName with
  | none => .error ("Row access policy ".toList ++ quoted b.policyName ++ " does not exist".toList)
  | some p =>
    if b.columns.length ≠ p.argColumns.length then
      .error ("Row access policy ".toList ++ quoted b.policyName ++ " expects ".toList ++
        Nat.toDigits 10 p.argColumns.length ++ " column(s), got ".toList ++
        Nat.toDigits 10 b.columns.length)
    else
      match findKey RowAccessBinding.spelling b.spelling s.rowAccessBindings with
      | some old =>
        if old.policyName = b.policyName ∨ orReplace then
          .ok { s with
            rowAccessBindings := replaceKey RowAccessBinding.spelling b s.rowAccessBindings }
        else .error ("Table ".toList ++ quoted b.tableName ++
          " already has row access policy ".toList ++ quoted old.policyName ++
          " — DROP it first or use OR REPLACE".toList)
      | none => .ok { s with rowAccessBindings := s.rowAccessBindings ++ [b] }

/-- The binding `ALTER TABLE … DROP ROW ACCESS POLICY` removes; an empty name means any policy. -/
def unbinds (tableName policyName : Str) (b : RowAccessBinding) : Bool :=
  decide (b.spelling = lower tableName) &&
    (policyName.isEmpty || decide (b.policyName = policyName))

def unbindRowAccessPolicy (s : PolicyState) (tableName policyName : Str) : PolicyResult :=
  match s.rowAccessBindings.find? (unbinds tableName policyName) with
  | some _ => .ok { s with
      rowAccessBindings := s.rowAccessBindings.eraseP (unbinds tableName policyName) }
  | none => .error ("Table ".toList ++ quoted tableName ++ " has no row access policy ".toList ++
      quoted policyName)

def MaskingBinding.spelling (b : MaskingBinding) : Str × Str :=
  (lower b.tableName, lower b.columnName)

def bindMaskingPolicy (s : PolicyState) (b : MaskingBinding) (orReplace : Bool) : PolicyResult :=
  match getMaskingPolicy s b.policyName with
  | none => .error ("Masking policy ".toList ++ quoted b.policyName ++ " does not exist".toList)
  | some _ =>
    match findKey MaskingBinding.spelling b.spelling s.maskingBindings with
    | some old =>
      if orReplace = false ∧ old.policyName ≠ b.policyName then
        .error ("Column ".toList ++ quoted b.tableName ++ ".".toList ++ quoted b.columnName ++
          " already has masking policy ".toList ++ quoted old.policyName)
      else .ok { s with
        maskingBindings := replaceKey MaskingBinding.spelling b s.maskingBindings }
    | none => .ok { s with maskingBindings := s.maskingBindings ++ [b] }

def unbindMaskingPolicy (s : PolicyState) (tableName columnName : Str) : PolicyResult :=
  match findKey MaskingBinding.spelling (lower tableName, lower columnName) s.maskingBindings with
  | some _ => .ok { s with
      maskingBindings :=
        eraseKey MaskingBinding.spelling (lower tableName, lower columnName) s.maskingBindings }
  | none => .error ("Column ".toList ++ quoted tableName ++ ".".toList ++ quoted columnName ++
      " has no masking policy".toList)

/-- The `action` of the policy DDL with the data it reads. -/
inductive PolicyAction
  | createRow (p : RowAccessPolicy) (orReplace : Bool)
  | createMask (p : MaskingPolicy) (orReplace : Bool)
  | dropRow (name : Str)
  | dropMask (name : Str)
  | bindRow (b : RowAccessBinding) (orReplace : Bool)
  | unbindRow (tableName policyName : Str)
  | bindMask (b : MaskingBinding) (orReplace : Bool)
  | unbindMask (tableName columnName : Str)
deriving DecidableEq

/-- `CREATE_ROW` fills the argument types up to the argument columns. -/
def padArgTypes (p : RowAccessPolicy) : RowAccessPolicy :=
  { p with argTypes := p.argTypes ++ List.replicate (p.argColumns.length - p.argTypes.length) [] }

def applyPolicy (s : PolicyState) : PolicyAction → PolicyResult
  | .createRow p orReplace => addRowAccessPolicy s (padArgTypes p) orReplace
  | .createMask p orReplace => addMaskingPolicy s p orReplace
  | .dropRow name => dropRowAccessPolicy s name
  | .dropMask name => dropMaskingPolicy s name
  | .bindRow b orReplace => bindRowAccessPolicy s b orReplace
  | .unbindRow tableName policyName => unbindRowAccessPolicy s tableName policyName
  | .bindMask b orReplace => bindMaskingPolicy s b orReplace
  | .unbindMask tableName columnName => unbindMaskingPolicy s tableName columnName

def policyStep (s : PolicyState) (a : PolicyAction) : PolicyState × Except Str Unit :=
  match applyPolicy s a with
  | .ok t => (t, .ok ())
  | .error e => (s, .error e)

def policyMachine : Machine PolicyState PolicyAction (Except Str Unit) := ⟨policyStep⟩

theorem policyStep_cases (s : PolicyState) (a : PolicyAction) :
    (∃ t, applyPolicy s a = .ok t ∧ (policyStep s a).1 = t) ∨
      ((∃ e, applyPolicy s a = .error e) ∧ (policyStep s a).1 = s) := by
  unfold policyStep
  rcases applyPolicy s a with e | t
  · exact .inr ⟨⟨e, rfl⟩, rfl⟩
  · exact .inl ⟨t, rfl, rfl⟩

theorem policyStep_keeps {P : PolicyState → Prop} {s : PolicyState} {a : PolicyAction}
    (hs : P s) (h : ∀ t, applyPolicy s a = .ok t → P t) : P (policyStep s a).1 := by
  rcases policyStep_cases s a with ⟨t, ht, he⟩ | ⟨_, he⟩
  · rw [he]
    exact h t ht
  · rwa [he]

theorem addRowAccessPolicy_ok {s t : PolicyState} {p : RowAccessPolicy} {orReplace : Bool}
    (h : addRowAccessPolicy s p orReplace = .ok t) :
    (∃ old ∈ s.rowAccessPolicies, old.name = p.name ∧ orReplace = true ∧
      t = { s with rowAccessPolicies := replaceKey RowAccessPolicy.name p s.rowAccessPolicies }) ∨
    (p.name ∉ s.rowAccessPolicies.map RowAccessPolicy.name ∧
      p.name ∉ s.maskingPolicies.map MaskingPolicy.name ∧
      t = { s with rowAccessPolicies := s.rowAccessPolicies ++ [p] }) := by
  unfold addRowAccessPolicy at h
  split at h
  · next old hf =>
    obtain ⟨hmem, hname⟩ := findKey_eq_some hf
    split at h
    · next hr =>
      cases h
      exact .inl ⟨old, hmem, hname, hr, rfl⟩
    · cases h
  · next hf =>
    split at h
    · cases h
    · next hm =>
      cases h
      exact .inr ⟨findKey_eq_none.mp hf, findKey_eq_none.mp hm, rfl⟩

theorem addMaskingPolicy_ok {s t : PolicyState} {p : MaskingPolicy} {orReplace : Bool}
    (h : addMaskingPolicy s p orReplace = .ok t) :
    (∃ old ∈ s.maskingPolicies, old.name = p.name ∧ orReplace = true ∧
      t = { s with maskingPolicies := replaceKey MaskingPolicy.name p s.maskingPolicies }) ∨
    (p.name ∉ s.maskingPolicies.map MaskingPolicy.name ∧
      p.name ∉ s.rowAccessPolicies.map RowAccessPolicy.name ∧
      t = { s with maskingPolicies := s.maskingPolicies ++ [p] }) := by
  unfold addMaskingPolicy at h
  split at h
  · next old hf =>
    obtain ⟨hmem, hname⟩ := findKey_eq_some hf
    split at h
    · next hr =>
      cases h
      exact .inl ⟨old, hmem, hname, hr, rfl⟩
    · cases h
  · next hf =>
    split at h
    · cases h
    · next hm =>
      cases h
      exact .inr ⟨findKey_eq_none.mp hf, findKey_eq_none.mp hm, rfl⟩

theorem dropRowAccessPolicy_ok {s t : PolicyState} {name : Str}
    (h : dropRowAccessPolicy s name = .ok t) :
    t = { s with
      rowAccessPolicies := eraseKey RowAccessPolicy.name name s.rowAccessPolicies
      rowAccessBindings := s.rowAccessBindings.filter fun b => b.policyName ≠ name } := by
  unfold dropRowAccessPolicy at h
  split at h
  · cases h
    rfl
  · cases h

theorem dropMaskingPolicy_ok {s t : PolicyState} {name : Str}
    (h : dropMaskingPolicy s name = .ok t) :
    t = { s with
      maskingPolicies := eraseKey MaskingPolicy.name name s.maskingPolicies
      maskingBindings := s.maskingBindings.filter fun b => b.policyName ≠ name } := by
  unfold dropMaskingPolicy at h
  split at h
  · cases h
    rfl
  · cases h

/-- A bind that succeeds found its policy with the right arity and wrote the binding over the one of
its spelling, or behind all others. -/
theorem bindRowAccessPolicy_ok {s t : PolicyState} {b : RowAccessBinding} {orReplace : Bool}
    (h : bindRowAccessPolicy s b orReplace = .ok t) :
    (∃ p, getRowAccessPolicy s b.policyName = some p ∧
      b.columns.length = p.argColumns.length) ∧
    ((∃ old, findKey RowAccessBinding.spelling b.spelling s.rowAccessBindings = some old ∧
        (old.policyName = b.policyName ∨ orReplace) ∧ t = { s with
          rowAccessBindings := replaceKey RowAccessBinding.spelling b s.rowAccessBindings }) ∨
      (b.spelling ∉ s.rowAccessBindings.map RowAccessBinding.spelling ∧
        t = { s with rowAccessBindings := s.rowAccessBindings ++ [b] })) := by
  unfold bindRowAccessPolicy at h
  split at h
  · cases h
  next p hp =>
  split at h
  · cases h
  next hlen =>
  refine ⟨⟨p, hp, not_not.mp hlen⟩, ?_⟩
  split at h
  · next old hf =>
    split at h
    · next hc =>
      cases h
      exact .inl ⟨old, hf, hc, rfl⟩
    · cases h
  · next hf =>
    cases h
    exact .inr ⟨findKey_eq_none.mp hf, rfl⟩

theorem unbindRowAccessPolicy_ok {s t : PolicyState} {tableName policyName : Str}
    (h : unbindRowAccessPolicy s tableName policyName = .ok t) :
    t = { s with
      rowAccessBindings := s.rowAccessBindings.eraseP (unbinds tableName policyName) } := by
  unfold unbindRowAccessPolicy at h
  split at h
  · cases h
    rfl
  · cases h

theorem bindMaskingPolicy_ok {s t : PolicyState} {b : MaskingBinding} {orReplace : Bool}
    (h : bindMaskingPolicy s b orReplace = .ok t) :
    (∃ p, getMaskingPolicy s b.policyName = some p) ∧
      ∃ bs, t = { s with maskingBindings := bs } ∧
        ∀ x ∈ bs, x = b ∨ x ∈ s.maskingBindings := by
  unfold bindMaskingPolicy at h
  split at h
  · cases h
  next p hp =>
  refine ⟨⟨p, hp⟩, ?_⟩
  split at h
  · split at h
    · cases h
    · cases h
      exact ⟨_, rfl, fun x hx => mem_of_mem_replaceKey hx⟩
  · cases h
    refine ⟨_, rfl, fun x hx => ?_⟩
    rcases List.mem_append.mp hx with hx | hx
    · exact .inr hx
    · exact .inl (List.mem_singleton.mp hx)

theorem unbindMaskingPolicy_ok {s t : PolicyState} {tableName columnName : Str}
    (h : unbindMaskingPolicy s tableName columnName = .ok t) :
    ∃ bs, t = { s with maskingBindings := bs } ∧ ∀ x ∈ bs, x ∈ s.maskingBindings := by
  unfold unbindMaskingPolicy at h
  split at h
  · cases h
    exact ⟨_, rfl, fun x hx => mem_of_mem_eraseKey hx⟩
  · cases h

theorem rowBindings_sublist {s t : PolicyState} {a : PolicyAction} (h : applyPolicy s a = .ok t)
    (ha : ∀ b orReplace, a ≠ .bindRow b orReplace) :
    t.rowAccessBindings.Sublist s.rowAccessBindings := by
  cases a with
  | bindRow b orReplace => exact absurd rfl (ha b orReplace)
  | createRow p orReplace =>
    rcases addRowAccessPolicy_ok h with ⟨_, _, _, _, rfl⟩ | ⟨_, _, rfl⟩
    · exact .refl _
    · exact .refl _
  | createMask p orReplace =>
    rcases addMaskingPolicy_ok h with ⟨_, _, _, _, rfl⟩ | ⟨_, _, rfl⟩
    · exact .refl _
    · exact .refl _
  | dropRow name =>
    rw [dropRowAccessPolicy_ok h]
    exact List.filter_sublist
  | dropMask name =>
    rw [dropMaskingPolicy_ok h]
  | unbindRow tableName policyName =>
    rw [unbindRowAccessPolicy_ok h]
    exact List.eraseP_sublist
  | bindMask b orReplace =>
    obtain ⟨_, bs, rfl, _⟩ := bindMaskingPolicy_ok h
    exact .refl _
  | unbindMask tableName columnName =>
    obtain ⟨bs, rfl, _⟩ := unbindMaskingPolicy_ok h
    exact .refl _

theorem rowPolicies_sublist {s t : PolicyState} {a : PolicyAction} (h : applyPolicy s a = .ok t)
    (ha : ∀ p orReplace, a ≠ .createRow p orReplace) :
    t.rowAccessPolicies.Sublist s.rowAccessPolicies := by
  cases a with
  | createRow p orReplace => exact absurd rfl (ha p orReplace)
  | createMask p orReplace =>
    rcases addMaskingPolicy_ok h with ⟨_, _, _, _, rfl⟩ | ⟨_, _, rfl⟩
    · exact .refl _
    · exact .refl _
  | dropRow name =>
    rw [dropRowAccessPolicy_ok h]
    exact List.eraseP_sublist
  | dropMask name =>
    rw [dropMaskingPolicy_ok h]
  | bindRow b orReplace =>
    rcases (bindRowAccessPolicy_ok h).2 with ⟨_, _, _, rfl⟩ | ⟨_, rfl⟩
    · exact .refl _
    · exact .refl _
  | unbindRow tableName policyName =>
    rw [unbindRowAccessPolicy_ok h]
  | bindMask b orReplace =>
    obtain ⟨_, bs, rfl, _⟩ := bindMaskingPolicy_ok h
    exact .refl _
  | unbindMask tableName columnName =>
    obtain ⟨bs, rfl, _⟩ := unbindMaskingPolicy_ok h
    exact .refl _

end Quackapi.Policy
