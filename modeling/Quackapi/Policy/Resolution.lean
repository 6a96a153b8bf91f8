import Quackapi.Policy.Enforcement

/-! The rewriter reads the identity of a table off its name; the engine looks the name up. They differ
on a two-part name whose first part is no schema of the default catalog: the engine takes it for an
attached catalog. -/

namespace Quackapi.Policy
open Library

/-- A part of a name; the engine has no empty identifier. -/
abbrev Ident := { s : Str // s ≠ [] }

inductive Spelling
  | one (table : Ident)
  | two (qualifier table : Ident)
  | three (catalog schema table : Ident)

def Spelling.name : Spelling → QualifiedName
  | .one table => ⟨[], [], table⟩
  | .two qualifier table => ⟨[], qualifier, table⟩
  | .three catalog schema table => ⟨catalog, schema, table⟩

/-- The attached databases, by their schemas and tables. The default one has a schema `main`, as
every database does. -/
structure CatalogState where
  defaultCatalog : Str
  schemas : List (Str × Str)
  tables : List PolicyTableIdentity
  main_schema : schemas.any (fun p => sameCatalogIdentifier p.1 defaultCatalog &&
    sameCatalogIdentifier p.2 "main".toList) = true

def CatalogState.hasSchema (c : CatalogState) (catalog schema : Str) : Bool :=
  c.schemas.any fun p => sameCatalogIdentifier p.1 catalog && sameCatalogIdentifier p.2 schema

def CatalogState.denotes (c : CatalogState) : Spelling → PolicyTableIdentity
  | .one table => ⟨c.defaultCatalog, "main".toList, table⟩
  | .two qualifier table =>
    if c.hasSchema c.defaultCatalog qualifier then ⟨c.defaultCatalog, qualifier, table⟩
    else ⟨qualifier, "main".toList, table⟩
  | .three catalog schema table => ⟨catalog, schema, table⟩

def CatalogState.DenoteAlike (c : CatalogState) (r b : Spelling) : Prop :=
  (c.denotes r).folded = (c.denotes b).folded

def CatalogState.ResolveAlike (c : CatalogState) (r b : Spelling) : Prop :=
  ∃ t ∈ c.tables, (c.denotes r).folded = t.folded ∧ (c.denotes b).folded = t.folded

/-- The rewriter takes the reference for the table a row or masking binding names. -/
def TreatsAsBound (p : PolicySnapshot) (r : Spelling) (tableName : Str) : Prop :=
  bindsTable p (identityFromName r.name p.engine.defaultCatalog) tableName = true

/-- A two-part name that the engine takes for a table of an attached catalog. -/
def CatalogState.Misread (c : CatalogState) : Spelling → Prop
  | .two qualifier _ => c.hasSchema c.defaultCatalog qualifier = false
  | _ => False

def CatalogState.identity (c : CatalogState) (s : Spelling) : PolicyTableIdentity :=
  identityFromName s.name c.defaultCatalog

theorem denotes_of_not_misread {c : CatalogState} {s : Spelling} (h : ¬ c.Misread s) :
    c.denotes s = c.identity s := by
  cases s with
  | one table => rfl
  | two qualifier table =>
    obtain ⟨qualifier, hq⟩ := qualifier
    have hschema : c.hasSchema c.defaultCatalog qualifier = true := by
      simpa [CatalogState.Misread] using h
    simp [CatalogState.denotes, CatalogState.identity, identityFromName, Spelling.name, hschema, hq]
  | three catalog schema table =>
    obtain ⟨catalog, hc⟩ := catalog
    obtain ⟨schema, hs⟩ := schema
    simp [CatalogState.denotes, CatalogState.identity, identityFromName, Spelling.name, hc, hs]

theorem misread_cases {c : CatalogState} {s : Spelling} (h : c.Misread s) :
    ∃ qualifier table : Str, c.hasSchema c.defaultCatalog qualifier = false ∧
      c.denotes s = ⟨qualifier, "main".toList, table⟩ ∧
      c.identity s = ⟨c.defaultCatalog, qualifier, table⟩ := by
  cases s with
  | one | three => cases h
  | two qualifier table =>
    obtain ⟨qualifier, hq⟩ := qualifier
    have hschema : c.hasSchema c.defaultCatalog qualifier = false := h
    refine ⟨qualifier, table, hschema, ?_, ?_⟩
    · simp [CatalogState.denotes, hschema]
    · simp [CatalogState.identity, identityFromName, Spelling.name, hq]

theorem misread_places {c : CatalogState} {s : Spelling} (h : c.Misread s) :
    (c.denotes s).folded ≠ (c.identity s).folded := by
  obtain ⟨qualifier, table, hschema, hd, hi⟩ := misread_cases h
  rw [hd, hi]
  intro he
  obtain ⟨_, hmain, _⟩ := PolicyTableIdentity.mk.inj he
  have hyes : c.hasSchema c.defaultCatalog qualifier = true := by
    have hm := c.main_schema
    simp only [sameCatalogIdentifier, hmain] at hm
    exact hm
  rw [hschema] at hyes
  cases hyes

theorem identity_misread_iff {c : CatalogState} {r b : Spelling} (hr : c.Misread r)
    (hb : c.Misread b) :
    (c.identity r).folded = (c.identity b).folded ↔ c.DenoteAlike r b := by
  obtain ⟨_, _, _, hdr, hir⟩ := misread_cases hr
  obtain ⟨_, _, _, hdb, hib⟩ := misread_cases hb
  rw [CatalogState.DenoteAlike, hdr, hir, hdb, hib]
  simp only [PolicyTableIdentity.folded, PolicyTableIdentity.mk.injEq, true_and]

/-- A place that a two-part name can be taken for neither as a table of an attached catalog nor as
one of a schema of the default catalog. -/
def CatalogState.OffReadings (c : CatalogState) (place : PolicyTableIdentity) : Spelling → Prop
  | .two qualifier table =>
    place.folded ≠ (PolicyTableIdentity.mk qualifier "main".toList table).folded ∧
      place.folded ≠ (PolicyTableIdentity.mk c.defaultCatalog qualifier table).folded
  | _ => True

/-- Where one of the names is misread and the other is not, the other's place is off both of its
readings. -/
def CatalogState.Apart (c : CatalogState) (r b : Spelling) : Prop :=
  (c.Misread r → ¬ c.Misread b → c.OffReadings (c.denotes b) r) ∧
    (c.Misread b → ¬ c.Misread r → c.OffReadings (c.denotes r) b)

theorem offReadings_iff {c : CatalogState} {s : Spelling} {place : PolicyTableIdentity}
    (h : c.Misread s) :
    c.OffReadings place s ↔
      place.folded ≠ (c.denotes s).folded ∧ place.folded ≠ (c.identity s).folded := by
  cases s with
  | one | three => cases h
  | two qualifier table =>
    obtain ⟨qualifier, hq⟩ := qualifier
    have hschema : c.hasSchema c.defaultCatalog qualifier = false := h
    simp [CatalogState.OffReadings, CatalogState.denotes, hschema, CatalogState.identity,
      identityFromName, Spelling.name, hq]

theorem one_misread_iff {c : CatalogState} {s other : Spelling} (hs : c.Misread s)
    (hother : ¬ c.Misread other) :
    ((c.identity s).folded = (c.identity other).folded ↔ c.DenoteAlike s other) ↔
      c.OffReadings (c.denotes other) s := by
  rw [offReadings_iff hs, CatalogState.DenoteAlike, ← denotes_of_not_misread hother]
  constructor
  · intro hiff
    refine ⟨fun hd => ?_, fun hi => ?_⟩
    · exact misread_places hs (hd.symm.trans (hiff.mpr hd.symm).symm)
    · exact misread_places hs ((hiff.mp hi.symm).trans hi)
  · rintro ⟨hd, hi⟩
    exact iff_of_false (fun h => hi h.symm) fun h => hd h.symm

theorem identity_agrees_iff (c : CatalogState) (r b : Spelling) :
    ((c.identity r).folded = (c.identity b).folded ↔ c.DenoteAlike r b) ↔ c.Apart r b := by
  by_cases hr : c.Misread r
  · by_cases hb : c.Misread b
    · refine iff_of_true (identity_misread_iff hr hb) ⟨fun _ hno => ?_, fun _ hno => ?_⟩
      · exact absurd hb hno
      · exact absurd hr hno
    · rw [one_misread_iff hr hb]
      exact ⟨fun h => ⟨fun _ _ => h, fun hyes => absurd hyes hb⟩, fun h => h.1 hr hb⟩
  · by_cases hb : c.Misread b
    · have hswap : ((c.identity r).folded = (c.identity b).folded ↔ c.DenoteAlike r b) ↔
          ((c.identity b).folded = (c.identity r).folded ↔ c.DenoteAlike b r) := by
        rw [CatalogState.DenoteAlike, CatalogState.DenoteAlike, eq_comm, eq_comm (b := (c.denotes b).folded)]
      rw [hswap, one_misread_iff hb hr]
      exact ⟨fun h => ⟨fun hyes => absurd hyes hr, fun _ _ => h⟩, fun h => h.2 hb hr⟩
    · refine iff_of_true ?_ ⟨fun hyes => absurd hyes hr, fun hyes => absurd hyes hb⟩
      rw [CatalogState.DenoteAlike, denotes_of_not_misread hr, denotes_of_not_misread hb]

theorem treatsAsBound_iff {p : PolicySnapshot} {c : CatalogState} {r b : Spelling} {tableName : Str}
    (hc : p.engine.defaultCatalog = c.defaultCatalog)
    (hb : p.engine.tryParseName tableName = some b.name) :
    TreatsAsBound p r tableName ↔ (c.identity r).folded = (c.identity b).folded := by
  have htable : b.name.name ≠ [] := by
    cases b with
    | one table => exact table.2
    | two _ table => exact table.2
    | three _ _ table => exact table.2
  have hparse : parsePolicyTableIdentity p.engine.tryParseName tableName p.engine.defaultCatalog =
      some (c.identity b) := by
    simp [parsePolicyTableIdentity, hb, identityFromName, htable, CatalogState.identity, hc]
  rw [TreatsAsBound, bindsTable, hparse, hc]
  exact samePolicyTableIdentity_iff

theorem resolveAlike_iff {c : CatalogState} {r b : Spelling}
    (hr : ∃ t ∈ c.tables, (c.denotes r).folded = t.folded) :
    c.ResolveAlike r b ↔ c.DenoteAlike r b := by
  constructor
  · rintro ⟨t, _, hr, hb⟩
    exact hr.trans hb.symm
  · intro h
    obtain ⟨t, ht, hr⟩ := hr
    exact ⟨t, ht, hr, h.symm.trans hr⟩

/-- The rewriter agrees with the engine on a reference and a binding exactly when the two names are
apart; for a reference to an existing table this is agreement on the table itself. -/
theorem table_identity_agrees (p : PolicySnapshot) (c : CatalogState) (r b : Spelling)
    (tableName : Str) (hc : p.engine.defaultCatalog = c.defaultCatalog)
    (hb : p.engine.tryParseName tableName = some b.name) :
    ((TreatsAsBound p r tableName ↔ c.DenoteAlike r b) ↔ c.Apart r b) ∧
      ((∃ t ∈ c.tables, (c.denotes r).folded = t.folded) →
        ((TreatsAsBound p r tableName ↔ c.ResolveAlike r b) ↔ c.Apart r b)) := by
  have hagree : (TreatsAsBound p r tableName ↔ c.DenoteAlike r b) ↔ c.Apart r b := by
    rw [treatsAsBound_iff hc hb]
    exact identity_agrees_iff c r b
  refine ⟨hagree, fun hr => ?_⟩
  rw [resolveAlike_iff hr]
  exact hagree

/-- A fresh database with the table `t`. -/
def memoryCatalog : CatalogState where
  defaultCatalog := "memory".toList
  schemas := [("memory".toList, "main".toList)]
  tables := [⟨"memory".toList, "main".toList, "t".toList⟩]
  main_schema := by decide

def ident (c : Char) (cs : String) : Ident := ⟨c :: cs.toList, List.cons_ne_nil _ _⟩

/-- Bound as `main.t`, read as `t`. -/
theorem table_identity_agrees_main :
    TreatsAsBound (snapshot plainEngine emptyPolicies) (.one (ident 't' "")) "main.t".toList ↔
      memoryCatalog.ResolveAlike (.one (ident 't' "")) (.two (ident 'm' "ain") (ident 't' "")) := by
  have hagree := table_identity_agrees (snapshot plainEngine emptyPolicies) memoryCatalog
    (.one (ident 't' "")) (.two (ident 'm' "ain") (ident 't' "")) "main.t".toList rfl (by decide)
  have hmain : ¬ memoryCatalog.Misread (.two (ident 'm' "ain") (ident 't' "")) := by
    show ¬ memoryCatalog.hasSchema _ "main".toList = false
    decide
  have hexists : ∃ t ∈ memoryCatalog.tables,
      (memoryCatalog.denotes (.one (ident 't' ""))).folded = t.folded :=
    ⟨⟨"memory".toList, "main".toList, "t".toList⟩, by decide, by decide⟩
  refine (hagree.2 hexists).mpr ⟨fun h => ?_, fun h => absurd h hmain⟩
  cases h

/-- Bound as `t`, read as `memory.t`. -/
theorem catalog_spelling_unfiltered :
    ¬ ∀ (p : PolicySnapshot) (c : CatalogState) (r b : Spelling) (tableName : Str),
      p.engine.defaultCatalog = c.defaultCatalog →
      p.engine.tryParseName tableName = some b.name →
      (TreatsAsBound p r tableName ↔ c.ResolveAlike r b) := by
  intro h
  have hiff := h (snapshot plainEngine emptyPolicies) memoryCatalog
    (.two (ident 'm' "emory") (ident 't' "")) (.one (ident 't' "")) "t".toList rfl (by decide)
  have hresolve : memoryCatalog.ResolveAlike (.two (ident 'm' "emory") (ident 't' ""))
      (.one (ident 't' "")) :=
    ⟨⟨"memory".toList, "main".toList, "t".toList⟩, by decide, by decide, by decide⟩
  have htreats := hiff.mpr hresolve
  revert htreats
  unfold TreatsAsBound
  decide

end Quackapi.Policy
