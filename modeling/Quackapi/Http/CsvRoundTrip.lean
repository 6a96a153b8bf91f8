import Quackapi.Http.Response
import Quackapi.Library.Csv

/-! The `CSV` body read back. Its lines end in LF, so that it is read by the grammar with that line
break. -/

namespace Quackapi.Http
open Exec Library

section
variable {V : Type}

/-- The cells of a row under the data columns; a null is empty. -/
def csvCells (codec : ResponseCodec V) (names : List Str) (row : List V) : List Str :=
  (dataCols names).map fun i => ((row[i]?).map (valueToCsvCell codec)).getD []

def csvRecords (codec : ResponseCodec V) (names : List Str) (rows : List (List V)) : List (List Str) :=
  dataNames names :: rows.map (csvCells codec names)

theorem fieldText_csvEscapeField (s : Str) : FieldText (csvEscapeField s) s := by
  unfold csvEscapeField
  split
  · exact .quoted s
  · next hplain =>
    refine .plain fun c hc => ?_
    have hnot : ¬ ((c = '"' ∨ c = ',') ∨ c = '\n') ∧ ¬ c = '\r' := by
      have hany := (not_iff_not.mpr List.any_eq_true).mp hplain
      simp only [not_exists, not_and, Bool.or_eq_true, decide_eq_true_eq, not_or] at hany
      simpa only [not_or] using hany c hc
    simp only [not_or] at hnot
    exact ⟨hnot.1.1.1, hnot.1.1.2, hnot.2, hnot.1.2⟩

theorem recordText_fields {fields : List Str} (hne : fields ≠ []) :
    RecordText ([','].intercalate (fields.map csvEscapeField)) fields := by
  have hfields : ∀ f ∈ fields.map fun s => (csvEscapeField s, s), FieldText f.1 f.2 := by
    intro f hf
    obtain ⟨s, _, rfl⟩ := List.mem_map.mp hf
    exact fieldText_csvEscapeField s
  have hpairs := recordText_intercalate (fun h => hne (List.map_eq_nil_iff.mp h)) hfields
  have hfst : (fields.map fun s => (csvEscapeField s, s)).map Prod.fst = fields.map csvEscapeField :=
    List.map_map
  have hsnd : (fields.map fun s => (csvEscapeField s, s)).map Prod.snd = fields :=
    List.map_map.trans (List.map_id fields)
  rwa [hfst, hsnd] at hpairs

theorem csvText_serializeRowsCsv (codec : ResponseCodec V) {names : List Str}
    (hdata : dataCols names ≠ []) (rows : List (List V)) :
    CsvText lineFeed (serializeRowsCsv codec names rows) (csvRecords codec names rows) := by
  have hheader : dataNames names ≠ [] := fun h => hdata (List.map_eq_nil_iff.mp h)
  have hrows : ∀ row, csvCells codec names row ≠ [] := fun row h => hdata (List.map_eq_nil_iff.mp h)
  have hline : ∀ l ∈ (csvRecords codec names rows).map fun fields =>
      ([','].intercalate (fields.map csvEscapeField), fields), RecordText l.1 l.2 := by
    intro l hl
    obtain ⟨fields, hfields, rfl⟩ := List.mem_map.mp hl
    rcases List.mem_cons.mp hfields with rfl | hfields
    · exact recordText_fields hheader
    · obtain ⟨row, _, rfl⟩ := List.mem_map.mp hfields
      exact recordText_fields (hrows row)
  have hlines : CsvText lineFeed _ _ := csvText_lines hline
  have hrecords : ((csvRecords codec names rows).map fun fields =>
      ([','].intercalate (fields.map csvEscapeField), fields)).map Prod.snd =
        csvRecords codec names rows := List.map_map.trans (List.map_id _)
  have htext : ((csvRecords codec names rows).map fun fields =>
      ([','].intercalate (fields.map csvEscapeField), fields)).flatMap (fun l => l.1 ++ lineFeed) =
        serializeRowsCsv codec names rows := by
    rw [List.flatMap_map, csvRecords, List.flatMap_cons, List.flatMap_map]
    rfl
  rwa [hrecords, htext] at hlines

end

/-- The body has one reading: the header, and then the cells of every row in turn. -/
theorem csv_round_trip {V : Type} (codec : ResponseCodec V) (names : List Str)
    (hdata : dataCols names ≠ []) (rows : List (List V)) (records : List (List Str)) :
    CsvText lineFeed (serializeRowsCsv codec names rows) records ↔
      records = csvRecords codec names rows := by
  have htext := csvText_serializeRowsCsv codec hdata rows
  constructor
  · intro h
    exact h.unique htext
  · rintro rfl
    exact htext

def textCodec : ResponseCodec Str where
  isNull v := v.isEmpty
  toText v := v
  toJson := jsonString
  rowsBytes _ := 0
  resultBytes _ _ := 0
  countBytes _ := 0
  deduplicateColumns names := names
  blob _ := none
  isNested _ := false

theorem csv_round_trip_quoted :
    let text := serializeRowsCsv textCodec ["a".toList, "b,c".toList]
      [["x\"y".toList, []], [[], "1\n2".toList]]
    let table := [["a".toList, "b,c".toList], ["x\"y".toList, []], [[], "1\n2".toList]]
    CsvText lineFeed text table ∧ ∀ records, CsvText lineFeed text records → records = table := by
  have hround := csv_round_trip textCodec ["a".toList, "b,c".toList] (by decide)
    [["x\"y".toList, []], [[], "1\n2".toList]]
  exact ⟨(hround _).mpr rfl, fun records => (hround records).mp⟩

/-- The line ends are no CRLF. -/
theorem csv_not_crlf : serializeRowsCsv textCodec ["a".toList] [["1".toList]] = "a\n1\n".toList ∧
    ∀ records, ¬ CsvText carriageReturnLineFeed
      (serializeRowsCsv textCodec ["a".toList] [["1".toList]]) records := by
  have htext : serializeRowsCsv textCodec ["a".toList] [["1".toList]] = "a\n1\n".toList := by decide
  refine ⟨htext, fun records h => ?_⟩
  rw [htext] at h
  exact h.no_lineFeed (by decide) (by decide) (by decide)

end Quackapi.Http
