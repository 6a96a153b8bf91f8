import Quackapi.Http.ControlColumns
import Quackapi.Http.RowEvents
import Quackapi.Library.JsonReading
import Quackapi.Openapi.Text
import Mathlib.Data.List.GetD

/-! Rows as JSON, read back: the array of the row loop and the lines of `NDJSON`. -/

namespace Quackapi.Http
open Exec Library Openapi

/-- A number's text, which JSON takes for a number as well. -/
structure JsonNumber extends NumberText where
  number : IsNumber text

inductive IntegerType
  | tinyint | smallint | integer | bigint | hugeint
  | utinyint | usmallint | uinteger | ubigint | uhugeint
deriving DecidableEq, Repr

/-- Is the type one of the case labels of `ValueToJson`? The last one is not. -/
def IntegerType.isListed : IntegerType → Bool
  | .uhugeint => false
  | _ => true

/-- A value with its type. A `text` is any value that is neither a number, a boolean, a list nor a
struct; the texts beside the children are what `ToString` makes of the whole. -/
inductive Datum
  | null
  | boolean (b : Bool)
  | integer (type : IntegerType) (n : JsonNumber)
  | decimal (n : JsonNumber)
  /-- A finite `FLOAT` or `DOUBLE`. -/
  | real (n : JsonNumber)
  | nonFinite (text : Str)
  | list (children : List Datum) (text : Str)
  | struct (names : List Str) (children : List Datum) (text : Str)
  | text (s : Str)

mutual
/-- The branch of `ValueToJson` that takes the value. -/
def Datum.toValue : Datum → Value
  | .null => .null
  | .boolean b => .boolean b
  | .integer type n => if type.isListed then .number n.toNumberText else .other n.text
  | .decimal n => .number n.toNumberText
  | .real n => .real n.toNumberText
  | .nonFinite text => .nonFinite text
  | .list children text => .list (toValues children) text
  | .struct names children text => .struct names (toValues children) text
  | .text s => .other s

def toValues : List Datum → List Value
  | [] => []
  | d :: ds => d.toValue :: toValues ds
end

mutual
/-- The JSON value of a datum, where `integer` says what becomes of an integer. -/
def Datum.json (integer : IntegerType → Str → Json) : Datum → Json
  | .null => .scalar "null".toList
  | .boolean b => .scalar (if b then "true".toList else "false".toList)
  | .integer type n => integer type n.text
  | .decimal n => .scalar n.text
  | .real n => .scalar n.text
  | .nonFinite _ => .scalar "null".toList
  | .list children _ => .array (jsons integer children)
  | .struct names children _ => .object (names.zip (jsons integer children))
  | .text s => .string s

def jsons (integer : IntegerType → Str → Json) : List Datum → List Json
  | [] => []
  | d :: ds => d.json integer :: jsons integer ds
end

/-- What a datum stands for: numbers by their texts, and `null` for those that are none. -/
def Datum.meaning (d : Datum) : Json := d.json fun _ text => .scalar text

def Datum.written (d : Datum) : Json :=
  d.json fun type text => if type.isListed then .scalar text else .string text

mutual
def Datum.hasUhugeint : Datum → Bool
  | .integer type _ => decide (type = .uhugeint)
  | .list children _ => anyUhugeint children
  | .struct _ children _ => anyUhugeint children
  | _ => false

def anyUhugeint : List Datum → Bool
  | [] => false
  | d :: ds => d.hasUhugeint || anyUhugeint ds
end

mutual
/-- Every struct has a name for each of its children, and no name twice. -/
def Datum.WellNamed : Datum → Prop
  | .list children _ => AllWellNamed children
  | .struct names children _ =>
    names.length = children.length ∧ names.Nodup ∧ AllWellNamed children
  | _ => True

def AllWellNamed : List Datum → Prop
  | [] => True
  | d :: ds => d.WellNamed ∧ AllWellNamed ds
end

/-- The rows of a result, under columns of distinct names. -/
structure ResultRows where
  names : List Str
  rows : List (List Datum)
  distinct : names.Nodup
  widths : ∀ row ∈ rows, row.length = names.length
  wellNamed : ∀ row ∈ rows, AllWellNamed row

/-- The columns of a row, without the control columns. -/
def dataFields (names : List Str) (row : List Datum) : List (Str × Datum) :=
  (dataCols names).map fun i => (names.getD i [], row.getD i .null)

def rowObject (names : List Str) (row : List Datum) : Json :=
  .object ((dataFields names row).map fun f => (f.1, f.2.meaning))

def NoUhugeint (result : ResultRows) : Prop :=
  ∀ row ∈ result.rows, ∀ f ∈ dataFields result.names row, f.2.hasUhugeint = false

/-- The engine's part of the codec, with the JSON of `ValueToJson`. -/
def rowCodec (codec : ResponseCodec Value) : ResponseCodec Value := { codec with toJson := valueToJson }

/-- The text is this value and no other, and none of its objects repeats a key. -/
def ReadsBackAs (text : Str) (value : Json) : Prop :=
  value.UniqueKeys ∧ ∀ j, ReadsAs text j ↔ j = value

def ArrayReadsBack (result : ResultRows) (text : Str) : Prop :=
  ReadsBackAs text (.array (result.rows.map (rowObject result.names)))

/-- A line for each row, and nothing behind the last line break. -/
def LinesReadBack (result : ResultRows) (text : Str) : Prop :=
  ∃ lines, text.splitOn '\n' = lines ++ [[]] ∧
    List.Forall₂ (fun line row => ReadsBackAs line (rowObject result.names row)) lines result.rows

theorem joinMembers_eq (fields : List (Str × Str)) :
    joinMembers (fields.map fun f => member f.1 f.2) = jsonObject fields := by
  have hmember : (fun f : Str × Str => member f.1 f.2) = jsonMember := by
    funext f
    exact List.append_assoc _ _ _
  rw [hmember]
  rfl

theorem zipWith_member (names texts : List Str) :
    List.zipWith member names texts = (names.zip texts).map fun f => member f.1 f.2 := by
  rw [List.zip, List.map_zipWith]

theorem readsAs_word {s : Str} (h : IsScalar s) : ReadsAs s (.scalar s) := .scalar h

theorem isScalar_boolean (b : Bool) : IsScalar (if b then "true".toList else "false".toList) := by
  cases b
  · exact .inr (.inl rfl)
  · exact .inl rfl

theorem JsonNumber.isScalar (n : JsonNumber) : IsScalar n.text := .inr (.inr (.inr n.number))

mutual
theorem readsAs_valueToJson : ∀ d : Datum, ReadsAs (valueToJson d.toValue) d.written
  | .null => readsAs_word (.inr (.inr (.inl rfl)))
  | .boolean b => readsAs_word (isScalar_boolean b)
  | .integer type n => by
    rw [Datum.toValue, Datum.written, Datum.json]
    by_cases htype : type.isListed = true
    · rw [if_pos htype, if_pos htype]
      exact readsAs_word n.isScalar
    · rw [if_neg htype, if_neg htype]
      exact readsAs_string n.text
  | .decimal n => readsAs_word n.isScalar
  | .real n => readsAs_word n.isScalar
  | .nonFinite _ => readsAs_word (.inr (.inr (.inl rfl)))
  | .list children _ => readsAs_array_forall₂ (readsAs_valuesToJson children)
  | .struct names children _ => by
    rw [Datum.toValue, valueToJson, zipWith_member, joinMembers_eq]
    exact readsAs_struct names (readsAs_valuesToJson children)
  | .text s => readsAs_string s

theorem readsAs_valuesToJson : ∀ ds : List Datum, List.Forall₂ ReadsAs (valuesToJson (toValues ds))
    (jsons (fun type text => if type.isListed then .scalar text else .string text) ds)
  | [] => .nil
  | d :: ds => .cons (readsAs_valueToJson d) (readsAs_valuesToJson ds)
end

theorem isListed_iff (type : IntegerType) : type.isListed = true ↔ ¬ type = .uhugeint := by
  cases type <;> decide

theorem length_jsons (integer : IntegerType → Str → Json) (ds : List Datum) :
    (jsons integer ds).length = ds.length := by
  induction ds with
  | nil => rfl
  | cons d ds ih => rw [jsons, List.length_cons, List.length_cons, ih]

theorem zip_inj {α β : Type} {names : List α} {l l' : List β} (hl : names.length = l.length)
    (hl' : names.length = l'.length) : names.zip l = names.zip l' ↔ l = l' := by
  refine ⟨fun h => ?_, fun h => by rw [h]⟩
  have hsnd := congrArg (List.map Prod.snd) h
  rwa [List.map_snd_zip hl.ge, List.map_snd_zip hl'.ge] at hsnd

mutual
theorem written_eq_meaning : ∀ d : Datum, d.WellNamed →
    (d.written = d.meaning ↔ d.hasUhugeint = false)
  | .null, _ => iff_of_true rfl rfl
  | .boolean _, _ => iff_of_true rfl rfl
  | .integer type n, _ => by
    rw [Datum.written, Datum.meaning, Datum.json, Datum.json, Datum.hasUhugeint, decide_eq_false_iff_not,
      ← isListed_iff]
    by_cases htype : type.isListed = true
    · exact iff_of_true (if_pos htype) htype
    · rw [if_neg htype]
      exact iff_of_false nofun htype
  | .decimal _, _ => iff_of_true rfl rfl
  | .real _, _ => iff_of_true rfl rfl
  | .nonFinite _, _ => iff_of_true rfl rfl
  | .list children _, h => by
    rw [Datum.written, Datum.meaning, Datum.json, Datum.json, Json.array.injEq, Datum.hasUhugeint]
    exact writtens_eq_meanings children h
  | .struct names children _, ⟨hlength, _, h⟩ => by
    rw [Datum.written, Datum.meaning, Datum.json, Datum.json, Json.object.injEq, Datum.hasUhugeint,
      zip_inj (by rw [length_jsons, hlength]) (by rw [length_jsons, hlength])]
    exact writtens_eq_meanings children h
  | .text _, _ => iff_of_true rfl rfl

theorem writtens_eq_meanings : ∀ ds : List Datum, AllWellNamed ds →
    (jsons (fun type text => if type.isListed then .scalar text else .string text) ds =
      jsons (fun _ text => .scalar text) ds ↔ anyUhugeint ds = false)
  | [], _ => iff_of_true rfl rfl
  | d :: ds, ⟨hd, hds⟩ => by
    rw [jsons, jsons, List.cons.injEq, anyUhugeint, Bool.or_eq_false_iff]
    exact and_congr (written_eq_meaning d hd) (writtens_eq_meanings ds hds)
end

mutual
theorem uniqueKeys_meaning : ∀ d : Datum, d.WellNamed → d.meaning.UniqueKeys
  | .null, _ => .scalar _
  | .boolean _, _ => .scalar _
  | .integer _ _, _ => .scalar _
  | .decimal _, _ => .scalar _
  | .real _, _ => .scalar _
  | .nonFinite _, _ => .scalar _
  | .list children _, h => .array (uniqueKeys_meanings children h)
  | .struct names children _, ⟨hlength, hnames, h⟩ => by
    have hvalues := uniqueKeys_meanings children h
    refine .object ?_ fun m hm => hvalues m.2 (List.of_mem_zip hm).2
    rw [List.map_fst_zip (by rw [length_jsons, hlength])]
    exact hnames
  | .text _, _ => .string _

theorem uniqueKeys_meanings : ∀ ds : List Datum, AllWellNamed ds →
    ∀ j ∈ jsons (fun _ text => .scalar text) ds, j.UniqueKeys
  | [], _ => nofun
  | d :: ds, ⟨hd, hds⟩ =>
    List.forall_mem_cons.mpr ⟨uniqueKeys_meaning d hd, uniqueKeys_meanings ds hds⟩
end

theorem AllWellNamed.of_mem {ds : List Datum} (h : AllWellNamed ds) {d : Datum} (hd : d ∈ ds) :
    d.WellNamed := by
  induction ds with
  | nil => cases hd
  | cons e ds ih =>
    obtain ⟨he, hds⟩ := h
    rcases List.mem_cons.mp hd with rfl | hd
    · exact he
    · exact ih hds hd

theorem wellNamed_dataFields {names : List Str} {row : List Datum} (h : AllWellNamed row) :
    ∀ f ∈ dataFields names row, f.2.WellNamed := by
  intro f hf
  obtain ⟨i, _, rfl⟩ := List.mem_map.mp hf
  show (row.getD i .null).WellNamed
  rw [List.getD_eq_getElem?_getD]
  rcases hcell : row[i]? with _ | d
  · trivial
  · exact h.of_mem (List.mem_of_getElem? hcell)

theorem lt_of_mem_dataCols {names : List Str} {i : Nat} (h : i ∈ dataCols names) :
    i < names.length :=
  List.mem_range.mp (List.mem_of_mem_filter h)

theorem nodup_dataFields {names : List Str} (hnames : names.Nodup) (row : List Datum) :
    ((dataFields names row).map Prod.fst).Nodup := by
  have hfst : (dataFields names row).map Prod.fst = (dataCols names).map fun i => names.getD i [] :=
    List.map_map
  rw [hfst]
  refine (List.nodup_range.filter _).map_on fun i hi j hj hij => ?_
  have hi' := lt_of_mem_dataCols hi
  have hj' := lt_of_mem_dataCols hj
  rw [List.getD_eq_getElem _ _ hi', List.getD_eq_getElem _ _ hj'] at hij
  exact (hnames.getElem_inj_iff).mp hij

theorem uniqueKeys_rowObject {names : List Str} (hnames : names.Nodup) {row : List Datum}
    (h : AllWellNamed row) : (rowObject names row).UniqueKeys := by
  refine .object ?_ fun m hm => ?_
  · rw [List.map_map]
    exact nodup_dataFields hnames row
  · obtain ⟨f, hf, rfl⟩ := List.mem_map.mp hm
    exact uniqueKeys_meaning f.2 (wellNamed_dataFields h f hf)

def rowWritten (names : List Str) (row : List Datum) : Json :=
  .object ((dataFields names row).map fun f => (f.1, f.2.written))

def rowText (codec : ResponseCodec Value) (names : List Str) (row : List Datum) : Str :=
  serializeRowJsonObject (rowCodec codec).toNativeCodec names (dataCols names) (toValues row)

theorem toValues_eq_map (ds : List Datum) : toValues ds = ds.map Datum.toValue := by
  induction ds with
  | nil => rfl
  | cons d ds ih => rw [toValues, ih, List.map_cons]

theorem rowText_eq (codec : ResponseCodec Value) {names : List Str} {row : List Datum}
    (hwidth : row.length = names.length) : rowText codec names row =
      jsonObject ((dataFields names row).map fun f => (f.1, valueToJson f.2.toValue)) := by
  have hcells : ∀ i ∈ dataCols names,
      jsonString (names.getD i []) ++ ":".toList ++
          (((toValues row)[i]?).map (rowCodec codec).toJson).getD [] =
        jsonMember (names.getD i [], valueToJson (row.getD i .null).toValue) := by
    intro i hi
    have hlt : i < row.length := hwidth ▸ lt_of_mem_dataCols hi
    rw [toValues_eq_map, List.getElem?_map, List.getElem?_eq_getElem hlt,
      List.getD_eq_getElem _ _ hlt, List.append_assoc]
    rfl
  rw [rowText, serializeRowJsonObject, List.map_congr_left hcells, jsonObject, openObject, dataFields,
    List.map_map, List.map_map]
  rfl

theorem readsAs_rowText (codec : ResponseCodec Value) {names : List Str} {row : List Datum}
    (hwidth : row.length = names.length) :
    ReadsAs (rowText codec names row) (rowWritten names row) := by
  rw [rowText_eq codec hwidth]
  apply readsAs_object
  rw [List.forall₂_map_left_iff, List.forall₂_map_right_iff, List.forall₂_same]
  exact fun f _ => ⟨rfl, readsAs_valueToJson f.2⟩

theorem rowWritten_eq_iff {names : List Str} {row : List Datum} (h : AllWellNamed row) :
    rowWritten names row = rowObject names row ↔
      ∀ f ∈ dataFields names row, f.2.hasUhugeint = false := by
  rw [rowWritten, rowObject, Json.object.injEq, List.map_inj_left]
  refine forall₂_congr fun f hf => ?_
  rw [Prod.mk.injEq, and_iff_right rfl]
  exact written_eq_meaning f.2 (wellNamed_dataFields h f hf)

theorem fetchRows_jsonBody {codec : ResponseCodec Value} {maxBytes : Nat} {names : List Str}
    {rows : List (List Datum)} {done : List Str} {st st' : FetchState Value}
    (hbody : st.jsonBody = '[' :: commaed done) (hcount : st.rowCount = done.length)
    (h : fetchRows (rowCodec codec) maxBytes names true false st (rows.map toValues) = .ok st') :
    st'.jsonBody = '[' :: commaed (done ++ rows.map (rowText codec names)) := by
  induction rows generalizing done st with
  | nil =>
    cases h
    rw [List.map_nil, List.append_nil, hbody]
  | cons row rows ih =>
    simp only [List.map_cons, fetchRows, Library.bind_eq_ok] at h
    obtain ⟨next, hrow, hrest⟩ := h
    obtain ⟨_, hnext, _, htext⟩ := fetchRow_ok hrow
    have hjson : next.jsonBody = '[' :: commaed (done ++ [rowText codec names row]) := by
      rw [htext, hbody, rowJson, if_pos rfl, hcount]
      by_cases hdone : done = []
      · rw [hdone, commaed_nil]
        exact congrArg ('[' :: ·) (commaed_singleton _).symm
      · have hlength : done.length ≠ 0 := fun hnil => hdone (List.length_eq_zero_iff.mp hnil)
        rw [commaed_append hdone, if_pos (by simpa using hlength)]
        rfl
    have hlen : next.rowCount = (done ++ [rowText codec names row]).length := by
      rw [hnext, hcount, List.length_append, List.length_singleton]
    rw [ih hjson hlen hrest, List.append_assoc, List.map_cons]
    rfl

theorem arrayText_eq {codec : ResponseCodec Value} {maxBytes : Nat} {names : List Str}
    {rows : List (List Datum)} {st : FetchState Value}
    (h : fetchRows (rowCodec codec) maxBytes names true false (startFetch true false)
      (rows.map toValues) = .ok st) :
    st.jsonBody ++ "]".toList = jsonArray (rows.map (rowText codec names)) := by
  rw [@fetchRows_jsonBody _ _ _ _ [] _ _ rfl rfl h]
  rfl

theorem readsBackAs_iff {text : Str} {written value : Json} (h : ReadsAs text written)
    (hvalue : value.UniqueKeys) : ReadsBackAs text value ↔ written = value := by
  constructor
  · exact fun hback => (hback.2 written).mp h
  · rintro rfl
    exact ⟨hvalue, fun j => JsonText.iff_eq h j⟩

section
variable (codec : ResponseCodec Value) (result : ResultRows)

theorem rowText_readsBackAs_iff {row : List Datum} (hrow : row ∈ result.rows) :
    ReadsBackAs (rowText codec result.names row) (rowObject result.names row) ↔
      ∀ f ∈ dataFields result.names row, f.2.hasUhugeint = false := by
  have hnamed := result.wellNamed row hrow
  have hread := readsAs_rowText codec (result.widths row hrow)
  rw [readsBackAs_iff hread (uniqueKeys_rowObject result.distinct hnamed), rowWritten_eq_iff hnamed]

theorem arrayReadsBack_iff :
    ArrayReadsBack result (jsonArray (result.rows.map (rowText codec result.names))) ↔
      NoUhugeint result := by
  have hread : ReadsAs (jsonArray (result.rows.map (rowText codec result.names)))
      (.array (result.rows.map (rowWritten result.names))) := by
    apply readsAs_array_forall₂
    rw [List.forall₂_map_left_iff, List.forall₂_map_right_iff, List.forall₂_same]
    exact fun row hrow => readsAs_rowText codec (result.widths row hrow)
  have hunique : (Json.array (result.rows.map (rowObject result.names))).UniqueKeys := by
    refine .array fun j hj => ?_
    obtain ⟨row, hrow, rfl⟩ := List.mem_map.mp hj
    exact uniqueKeys_rowObject result.distinct (result.wellNamed row hrow)
  rw [ArrayReadsBack, readsBackAs_iff hread hunique, Json.array.injEq, List.map_inj_left]
  exact forall₂_congr fun row hrow => rowWritten_eq_iff (result.wellNamed row hrow)

theorem lineFeed_not_mem_rowText {row : List Datum} (hrow : row ∈ result.rows) :
    '\n' ∉ rowText codec result.names row := by
  rw [rowText_eq codec (result.widths row hrow), ← joinMembers_eq]
  refine (joinMembers_unbroken fun s hs => ?_).1
  obtain ⟨field, hfield, rfl⟩ := List.mem_map.mp hs
  obtain ⟨f, _, rfl⟩ := List.mem_map.mp hfield
  exact member_unbroken f.1 (valueToJson_unbroken f.2.toValue)

theorem splitOn_lines {lines : List Str} (h : ∀ line ∈ lines, '\n' ∉ line) :
    (lines.flatMap fun line => line ++ "\n".toList).splitOn '\n' = lines ++ [[]] := by
  induction lines with
  | nil => rfl
  | cons line lines ih =>
    obtain ⟨hline, hlines⟩ := List.forall_mem_cons.mp h
    rw [List.flatMap_cons, List.append_assoc]
    exact (List.splitOn_append_cons_self_of_not_mem hline _).trans
      (congrArg (line :: ·) (ih hlines))

theorem ndjsonText_eq : serializeRowsNdjson (rowCodec codec) result.names (result.rows.map toValues) =
    (result.rows.map (rowText codec result.names)).flatMap fun line => line ++ "\n".toList := by
  rw [serializeRowsNdjson, List.flatMap_map, List.flatMap_map]
  rfl

theorem linesReadBack_iff :
    LinesReadBack result
        (serializeRowsNdjson (rowCodec codec) result.names (result.rows.map toValues)) ↔
      NoUhugeint result := by
  have hsplit := @splitOn_lines (result.rows.map (rowText codec result.names)) (by
    intro line hline
    obtain ⟨row, hrow, rfl⟩ := List.mem_map.mp hline
    exact lineFeed_not_mem_rowText codec result hrow)
  have hlines : LinesReadBack result
      (serializeRowsNdjson (rowCodec codec) result.names (result.rows.map toValues)) ↔
      List.Forall₂ (fun line row => ReadsBackAs line (rowObject result.names row))
        (result.rows.map (rowText codec result.names)) result.rows := by
    rw [LinesReadBack, ndjsonText_eq, hsplit]
    constructor
    · rintro ⟨lines, heq, h⟩
      rwa [List.append_cancel_right heq]
    · exact fun h => ⟨_, rfl, h⟩
  rw [hlines, List.forall₂_map_left_iff, List.forall₂_same]
  exact forall₂_congr fun row hrow => rowText_readsBackAs_iff codec result hrow

end

/-- Array and lines are read back exactly where no data column holds a `UHUGEINT`. -/
theorem row_json_round_trip (codec : ResponseCodec Value) (result : ResultRows) (maxBytes : Nat)
    (st : FetchState Value)
    (h : fetchRows (rowCodec codec) maxBytes result.names true false (startFetch true false)
      (result.rows.map toValues) = .ok st) :
    ArrayReadsBack result (st.jsonBody ++ "]".toList) ∧
        LinesReadBack result
          (serializeRowsNdjson (rowCodec codec) result.names (result.rows.map toValues)) ↔
      NoUhugeint result := by
  rw [arrayText_eq h, arrayReadsBack_iff, linesReadBack_iff, and_self_iff]

def wholeNumber (n : Nat) : JsonNumber where
  text := Nat.toDigits 10 n
  plain c hc := by rw [isNumberChar, Nat.isDigit_of_mem_toDigits (by decide) (by decide) hc]; rfl
  number := isNumber_toDigits n

/-- The engine's values, none of them nested for the size of a cell. -/
def valueCodec : ResponseCodec Value where
  isNull := Value.isNull
  toText := Value.toText
  toJson := valueToJson
  rowsBytes _ := 0
  resultBytes _ _ := 0
  countBytes _ := 0
  deduplicateColumns names := names
  blob _ := none
  isNested _ := false

def mixedRows : ResultRows where
  names := ["n".toList, "s".toList]
  rows := [[.integer .bigint (wholeNumber 7), .text "a\n\"".toList],
    [.null, .list [.struct ["k".toList] [.boolean true] []] []]]
  distinct := by decide
  widths := by decide
  wellNamed := by simp [AllWellNamed, Datum.WellNamed]

theorem row_json_round_trip_mixed : ∃ st, fetchRows (rowCodec valueCodec) 100 mixedRows.names true false
      (startFetch true false) (mixedRows.rows.map toValues) = .ok st ∧
    (ArrayReadsBack mixedRows (st.jsonBody ++ "]".toList) ∧
        LinesReadBack mixedRows
          (serializeRowsNdjson (rowCodec valueCodec) mixedRows.names (mixedRows.rows.map toValues)) ↔
      NoUhugeint mixedRows) :=
  ⟨_, rfl, row_json_round_trip valueCodec mixedRows 100 _ rfl⟩

def uhugeintRow : ResultRows where
  names := ["n".toList]
  rows := [[.integer .uhugeint (wholeNumber 7)]]
  distinct := by decide
  widths := by decide
  wellNamed := by simp [AllWellNamed, Datum.WellNamed]

/-- The number 7, as a `UHUGEINT`, is the string `"7"`. -/
theorem uhugeint_is_a_string : ∃ st, fetchRows (rowCodec valueCodec) 100 uhugeintRow.names true false
      (startFetch true false) (uhugeintRow.rows.map toValues) = .ok st ∧
    st.jsonBody ++ "]".toList = "[\x7b\"n\":\"7\"\x7d]".toList ∧
    ¬ ArrayReadsBack uhugeintRow (st.jsonBody ++ "]".toList) := by
  refine ⟨_, rfl, by decide, fun h => ?_⟩
  have hnone : NoUhugeint uhugeintRow := (arrayReadsBack_iff valueCodec uhugeintRow).mp h
  exact absurd (hnone _ List.mem_cons_self) (by decide)

end Quackapi.Http
