import Quackapi.Util.Str
import Mathlib.Data.List.Basic

/-! The identity of a catalog relation as the rewriter reads it off a name: missing parts are filled
in, and identities are compared part by part, ignoring case. -/

namespace Quackapi.Policy

/-- The engine's `QualifiedName`; an empty part is missing. -/
structure QualifiedName where
  catalog : Str
  schema : Str
  name : Str
deriving DecidableEq, Repr

/-- The engine's reading of a name whose parts need no quotes. -/
def plainName (text : Str) : Option QualifiedName :=
  match text.splitOn '.' with
  | [name] => some ⟨[], [], name⟩
  | [schema, name] => some ⟨[], schema, name⟩
  | [catalog, schema, name] => some ⟨catalog, schema, name⟩
  | _ => none

structure PolicyTableIdentity where
  catalog : Str
  schema : Str
  table : Str
deriving DecidableEq, Repr

def sameCatalogIdentifier (left right : Str) : Bool := lower left == lower right

theorem sameCatalogIdentifier_iff {left right : Str} :
    sameCatalogIdentifier left right = true ↔ lower left = lower right := beq_iff_eq

def identityFromName (name : QualifiedName) (defaultCatalog : Str) : PolicyTableIdentity where
  catalog := if name.catalog.isEmpty then defaultCatalog else name.catalog
  schema := if name.schema.isEmpty then "main".toList else name.schema
  table := name.name

/-- `tryParse` is the engine's parser of a name. -/
def parsePolicyTableIdentity (tryParse : Str → Option QualifiedName) (tableName : Str)
    (defaultCatalog : Str) : Option PolicyTableIdentity :=
  match tryParse tableName with
  | none => none
  | some name =>
    let identity := identityFromName name defaultCatalog
    if identity.table.isEmpty then none else some identity

def samePolicyTableIdentity (left right : PolicyTableIdentity) : Bool :=
  sameCatalogIdentifier left.catalog right.catalog &&
    sameCatalogIdentifier left.schema right.schema && sameCatalogIdentifier left.table right.table

def PolicyTableIdentity.folded (i : PolicyTableIdentity) : PolicyTableIdentity :=
  ⟨lower i.catalog, lower i.schema, lower i.table⟩

theorem samePolicyTableIdentity_iff {left right : PolicyTableIdentity} :
    samePolicyTableIdentity left right = true ↔ left.folded = right.folded := by
  simp only [samePolicyTableIdentity, Bool.and_eq_true, sameCatalogIdentifier_iff,
    PolicyTableIdentity.folded, PolicyTableIdentity.mk.injEq, and_assoc]

end Quackapi.Policy
