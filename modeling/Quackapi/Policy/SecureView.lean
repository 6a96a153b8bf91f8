import Quackapi.Library.FirstMatch
import Quackapi.Policy.SecureQuery

/-! The secure subquery as a view of its table. What the engine makes of
`SELECT * EXCLUDE (…), e AS c FROM t WHERE p` is taken as its meaning; the text the rewriter assembles is
such a statement. -/

namespace Quackapi.Policy
open Library

structure Relation (V : Type) where
  columns : List Str
  rows : List (List V)
deriving DecidableEq

/-- A table of the catalog: no two columns have one name, ignoring case. -/
structure Table (V : Type) extends Relation V where
  distinct : (columns.map lower).Nodup
  width : ∀ row ∈ rows, row.length = columns.length

/-- What the text of an expression means on a row, its values under the names of their columns. -/
structure ExpressionMeaning (V : Type) where
  value : Str → List Str → List V → V
  holds : Str → List Str → List V → Bool

/-- `SELECT * EXCLUDE (excludes), (e) AS c, … FROM relation WHERE (whereExpr)`. -/
structure SecureSelect where
  excludes : List Str
  extras : List (Str × Str)
  relation : Str
  whereExpr : Str

def SecureSelect.text (q : SecureSelect) : Str :=
  let whereSql := if q.whereExpr.isEmpty then [] else " WHERE (".toList ++ q.whereExpr ++ ")".toList
  if q.extras.isEmpty then "SELECT * FROM ".toList ++ q.relation ++ whereSql
  else
    "SELECT * EXCLUDE (".toList ++ joinComma (q.excludes.map quoteCatalogIdentifier) ++ "), ".toList ++
      joinComma (q.extras.map fun m =>
        "(".toList ++ m.2 ++ ") AS ".toList ++ quoteCatalogIdentifier m.1) ++
      " FROM ".toList ++ q.relation ++ whereSql

def secureSelect (physicalRelation whereExpr : Str) (masked : List (Str × Str)) : SecureSelect :=
  ⟨masked.map Prod.fst, masked, physicalRelation, whereExpr⟩

theorem secureSelect_text (physicalRelation whereExpr : Str) (masked : List (Str × Str)) :
    (secureSelect physicalRelation whereExpr masked).text =
      buildSecureSubqueryQuoted physicalRelation whereExpr masked := by
  unfold SecureSelect.text buildSecureSubqueryQuoted secureSelect
  rw [List.map_map]
  rfl

section
variable {V : Type}

def excluded (excludes : List Str) (column : Str) : Bool :=
  excludes.any (sameCatalogIdentifier column)

/-- The engine refuses a name that is listed twice or that is no column. -/
def SecureSelect.Accepts (q : SecureSelect) (t : Table V) : Prop :=
  (q.excludes.map lower).Nodup ∧ ∀ c ∈ q.excludes, lower c ∈ t.columns.map lower

instance (q : SecureSelect) (t : Table V) : Decidable (q.Accepts t) :=
  inferInstanceAs (Decidable (_ ∧ _))

def SecureSelect.keepsRow (q : SecureSelect) (m : ExpressionMeaning V) (columns : List Str)
    (row : List V) : Bool :=
  q.whereExpr.isEmpty || m.holds q.whereExpr columns row

/-- The columns that are left, in their order, and then the expressions over the table's row. -/
def SecureSelect.selectRow (q : SecureSelect) (m : ExpressionMeaning V) (columns : List Str)
    (row : List V) : List V :=
  ((columns.zip row).filter fun cv => !excluded q.excludes cv.1).map Prod.snd ++
    q.extras.map fun e => m.value e.2 columns row

/-- The engine's meaning of the statement over its table. -/
def SecureSelect.eval (q : SecureSelect) (m : ExpressionMeaning V) (t : Table V) :
    Option (Relation V) :=
  if q.Accepts t then
    some ⟨(t.columns.filter fun c => !excluded q.excludes c) ++ q.extras.map Prod.fst,
      (t.rows.filter (q.keepsRow m t.columns)).map (q.selectRow m t.columns)⟩
  else none

/-- A value with its column's name; `mean` gives the value of a masking expression. -/
def maskCell (masked : List (Str × Str)) (mean : Str → V) (cell : Str × V) : V :=
  match findKey (fun e : Str × Str => lower e.1) (lower cell.1) masked with
  | some e => mean e.2
  | none => cell.2

/-- The row with each masked column replaced by its expression, all over the unmasked values. -/
def maskRow (m : ExpressionMeaning V) (masked : List (Str × Str)) (columns : List Str)
    (row : List V) : List V :=
  (columns.zip row).map (maskCell masked fun expr => m.value expr columns row)

/-- The table's columns in their order, and the rows that satisfy the predicate, masked. -/
structure TransparentView (m : ExpressionMeaning V) (whereExpr : Str) (masked : List (Str × Str))
    (t : Table V) (view : Relation V) : Prop where
  columns : view.columns = t.columns
  rows : view.rows =
    (t.rows.filter fun row => whereExpr.isEmpty || m.holds whereExpr t.columns row).map
      (maskRow m masked t.columns)

theorem excluded_iff {excludes : List Str} {c : Str} :
    excluded excludes c = true ↔ lower c ∈ excludes.map lower := by
  rw [excluded, List.any_eq_true, List.mem_map]
  refine exists_congr fun e => and_congr_right fun _ => ?_
  rw [sameCatalogIdentifier_iff, eq_comm]

section
variable {kept : List Str} {masked : List (Str × Str)}

theorem excluded_of_kept (hdistinct : ((kept ++ masked.map Prod.fst).map lower).Nodup) {c : Str}
    (hc : c ∈ kept) : excluded (masked.map Prod.fst) c = false := by
  rw [← Bool.not_eq_true, excluded_iff]
  rw [List.map_append] at hdistinct
  exact fun hmem => List.disjoint_of_nodup_append hdistinct (List.mem_map_of_mem hc) hmem

theorem excluded_of_masked {c : Str} (hc : c ∈ masked.map Prod.fst) :
    excluded (masked.map Prod.fst) c = true := excluded_iff.mpr (List.mem_map_of_mem hc)

theorem filter_kept (hdistinct : ((kept ++ masked.map Prod.fst).map lower).Nodup) :
    (kept ++ masked.map Prod.fst).filter (fun c => !excluded (masked.map Prod.fst) c) = kept := by
  have hkept : kept.filter (fun c => !excluded (masked.map Prod.fst) c) = kept := by
    refine List.filter_eq_self.mpr fun c hc => ?_
    rw [excluded_of_kept hdistinct hc]
    rfl
  have hmasked : (masked.map Prod.fst).filter (fun c => !excluded (masked.map Prod.fst) c) = [] := by
    refine List.filter_eq_nil_iff.mpr fun c hc => ?_
    rw [excluded_of_masked hc]
    exact Bool.false_ne_true
  rw [List.filter_append, hkept, hmasked, List.append_nil]

theorem map_maskCell_kept (hdistinct : ((kept ++ masked.map Prod.fst).map lower).Nodup)
    (mean : Str → V) {left : List V} (hleft : left.length = kept.length) :
    (kept.zip left).map (maskCell masked mean) = left := by
  have hcell : ∀ cell ∈ kept.zip left, maskCell masked mean cell = cell.2 := by
    intro cell hcell
    have hnone : findKey (fun e : Str × Str => lower e.1) (lower cell.1) masked = none := by
      rw [findKey_eq_none, ← Function.comp_def lower Prod.fst, ← List.map_map, ← excluded_iff,
        excluded_of_kept hdistinct (List.of_mem_zip hcell).1]
      exact Bool.false_ne_true
    rw [maskCell, hnone]
  rw [List.map_congr_left hcell]
  exact List.map_snd_zip (Nat.le_of_eq hleft)

theorem map_maskCell_masked (hdistinct : ((kept ++ masked.map Prod.fst).map lower).Nodup)
    (mean : Str → V) {right : List V} (hright : right.length = masked.length) :
    ((masked.map Prod.fst).zip right).map (maskCell masked mean) = masked.map fun e => mean e.2 := by
  have hnodup : (masked.map fun e : Str × Str => lower e.1).Nodup := by
    rw [List.map_append, List.map_map] at hdistinct
    exact hdistinct.of_append_right
  have hcell : ∀ ev ∈ masked.zip right,
      (maskCell masked mean ∘ Prod.map Prod.fst id) ev = mean ev.1.2 := by
    intro ev hev
    have hfound : findKey (fun e : Str × Str => lower e.1) (lower ev.1.1) masked = some ev.1 :=
      (findKey_eq_some_iff hnodup).mpr ⟨(List.of_mem_zip hev).1, rfl⟩
    show maskCell masked mean (ev.1.1, ev.2) = mean ev.1.2
    rw [maskCell, hfound]
  rw [List.zip_map_left, List.map_map, List.map_congr_left hcell,
    ← Function.comp_def (fun e : Str × Str => mean e.2) Prod.fst, ← List.map_map,
    List.map_fst_zip (Nat.le_of_eq hright.symm)]

theorem selectRow_eq_maskRow (m : ExpressionMeaning V)
    (hdistinct : ((kept ++ masked.map Prod.fst).map lower).Nodup) {row : List V}
    (hwidth : row.length = (kept ++ masked.map Prod.fst).length) (physicalRelation whereExpr : Str) :
    (secureSelect physicalRelation whereExpr masked).selectRow m (kept ++ masked.map Prod.fst) row =
      maskRow m masked (kept ++ masked.map Prod.fst) row := by
  obtain ⟨left, right, rfl, hleft, hright⟩ :
      ∃ left right, row = left ++ right ∧ left.length = kept.length ∧
        right.length = masked.length := by
    rw [List.length_append, List.length_map] at hwidth
    refine ⟨row.take kept.length, row.drop kept.length, (List.take_append_drop _ _).symm, ?_, ?_⟩
    · rw [List.length_take]
      omega
    · rw [List.length_drop]
      omega
  have hkeptLeft : (kept.zip left).filter (fun cv => !excluded (masked.map Prod.fst) cv.1) =
      kept.zip left := by
    refine List.filter_eq_self.mpr fun cv hcv => ?_
    rw [excluded_of_kept hdistinct (List.of_mem_zip hcv).1]
    rfl
  have hmaskedRight : ((masked.map Prod.fst).zip right).filter
      (fun cv => !excluded (masked.map Prod.fst) cv.1) = [] := by
    refine List.filter_eq_nil_iff.mpr fun cv hcv => ?_
    rw [excluded_of_masked (List.of_mem_zip hcv).1]
    exact Bool.false_ne_true
  rw [maskRow, List.zip_append hleft.symm, List.map_append, map_maskCell_kept hdistinct _ hleft,
    map_maskCell_masked hdistinct _ hright, SecureSelect.selectRow, secureSelect,
    List.zip_append hleft.symm, List.filter_append, hkeptLeft, hmaskedRight, List.append_nil,
    List.map_snd_zip (Nat.le_of_eq hleft)]

end

/-- The statement's result is the table's transparent view exactly where the masked columns, in the
order of their bindings, are the last ones of the table. -/
theorem eval_transparent_iff (m : ExpressionMeaning V) (physicalRelation whereExpr : Str)
    (masked : List (Str × Str)) (t : Table V) :
    (∃ view, (secureSelect physicalRelation whereExpr masked).eval m t = some view ∧
      TransparentView m whereExpr masked t view) ↔ masked.map Prod.fst <:+ t.columns := by
  constructor
  · rintro ⟨view, heval, htransparent⟩
    unfold SecureSelect.eval at heval
    split at heval
    · cases heval
      exact ⟨_, htransparent.columns⟩
    · cases heval
  · rintro ⟨kept, hcolumns⟩
    have hdistinct : ((kept ++ masked.map Prod.fst).map lower).Nodup := by
      rw [hcolumns]
      exact t.distinct
    have haccepts : (secureSelect physicalRelation whereExpr masked).Accepts t := by
      constructor
      · rw [List.map_append] at hdistinct
        exact hdistinct.of_append_right
      · intro c hc
        rw [← hcolumns, List.map_append]
        exact List.mem_append_right _ (List.mem_map_of_mem hc)
    unfold SecureSelect.eval
    rw [if_pos haccepts]
    refine ⟨_, rfl, ?_, ?_⟩
    · show t.columns.filter (fun c => !excluded (masked.map Prod.fst) c) ++ masked.map Prod.fst =
        t.columns
      rw [← hcolumns, filter_kept hdistinct]
    · refine List.map_congr_left fun row hrow => ?_
      have hwidth := t.width row (List.mem_filter.mp hrow).1
      rw [← hcolumns] at hwidth ⊢
      exact selectRow_eq_maskRow m hdistinct hwidth physicalRelation whereExpr

end

/-- For a table and its masks, where the engine gives the secure subquery its meaning: the subquery is
a transparent view of the table exactly where the masked columns, in the order of their bindings, are
the last ones of the table. -/
theorem secure_subquery_transparent {V : Type} (m : ExpressionMeaning V)
    (execute : Str → Table V → Option (Relation V)) (physicalRelation whereExpr : Str)
    (masked : List (Str × Str)) (t : Table V)
    (hengine : execute (secureSelect physicalRelation whereExpr masked).text t =
      (secureSelect physicalRelation whereExpr masked).eval m t) :
    (∃ view, execute (buildSecureSubqueryQuoted physicalRelation whereExpr masked) t = some view ∧
      TransparentView m whereExpr masked t view) ↔ masked.map Prod.fst <:+ t.columns := by
  rw [← secureSelect_text, hengine]
  exact eval_transparent_iff m physicalRelation whereExpr masked t

def usersRelation : Str := "\"memory\".\"main\".\"users\"".toList

/-- The mask of the column `email`. -/
def emailMask : List (Str × Str) := [("email".toList, "'***'".toList)]

/-- The only expression here is the literal `'***'`. -/
def starMeaning : ExpressionMeaning Str := ⟨fun _ _ _ => "***".toList, fun _ _ _ => true⟩

def usersEngine (text : Str) (t : Table Str) : Option (Relation Str) :=
  if text = (secureSelect usersRelation [] emailMask).text then
    (secureSelect usersRelation [] emailMask).eval starMeaning t
  else none

theorem secure_subquery_transparent_last :
    let t : Table Str := {
      columns := ["id".toList, "tenant_id".toList, "email".toList]
      rows := [["1".toList, "acme".toList, "a@acme.io".toList]]
      distinct := by decide
      width := by decide }
    ∃ view, usersEngine (buildSecureSubqueryQuoted usersRelation [] emailMask) t = some view ∧
      TransparentView starMeaning [] emailMask t view := by
  intro t
  have hengine : usersEngine (secureSelect usersRelation [] emailMask).text t =
      (secureSelect usersRelation [] emailMask).eval starMeaning t := if_pos rfl
  refine (secure_subquery_transparent starMeaning usersEngine usersRelation [] emailMask t
    hengine).mpr ?_
  exact ⟨["id".toList, "tenant_id".toList], rfl⟩

/-- A masked column in the middle is moved to the end. -/
theorem secure_subquery_moves_column :
    let t : Table Str := {
      columns := ["id".toList, "email".toList, "tenant_id".toList]
      rows := [["1".toList, "a@acme.io".toList, "acme".toList]]
      distinct := by decide
      width := by decide }
    usersEngine (buildSecureSubqueryQuoted usersRelation [] emailMask) t =
        some ⟨["id".toList, "tenant_id".toList, "email".toList],
          [["1".toList, "acme".toList, "***".toList]]⟩ ∧
      ¬ ∃ view, usersEngine (buildSecureSubqueryQuoted usersRelation [] emailMask) t = some view ∧
        TransparentView starMeaning [] emailMask t view := by
  intro t
  have hmoved : usersEngine (buildSecureSubqueryQuoted usersRelation [] emailMask) t =
      some ⟨["id".toList, "tenant_id".toList, "email".toList],
        [["1".toList, "acme".toList, "***".toList]]⟩ := by
    rw [← secureSelect_text, usersEngine, if_pos rfl]
    decide
  refine ⟨hmoved, ?_⟩
  rintro ⟨view, hview, htransparent⟩
  rw [hmoved] at hview
  cases hview
  exact absurd htransparent.columns (by decide)

end Quackapi.Policy
