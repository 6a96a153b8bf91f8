import Quackapi.Exec.Result
import Quackapi.Library.EventStream

/-! Streams of Server-Sent Events: a row is an event, its columns a JSON object and its `id` column
the event's identifier. -/

namespace Quackapi.Http
open Library

def isNumberChar (c : Char) : Bool := c.isDigit || "+-.e".toList.contains c

structure NumberText where
  text : Str
  plain : ∀ c ∈ text, isNumberChar c = true

/-- A value of the engine, as far as its JSON goes; `text` is what `ToString` makes of it. -/
inductive Value
  | null
  | boolean (b : Bool)
  /-- An integer of at most 128 bits with a sign, of at most 64 without, or a decimal. -/
  | number (n : NumberText)
  | real (n : NumberText)
  /-- A floating-point number that is not one, or infinite. -/
  | nonFinite (text : Str)
  | list (children : List Value) (text : Str)
  | struct (names : List Str) (children : List Value) (text : Str)
  /-- A `VARIANT`, with the native value it holds. -/
  | variant (inner : Value) (text : Str)
  /-- A text, and whatever else is written as its text. -/
  | other (text : Str)

def Value.isNull : Value → Bool
  | .null => true
  | _ => false

def Value.toText : Value → Str
  | .null => "NULL".toList
  | .boolean b => if b then "true".toList else "false".toList
  | .number n => n.text
  | .real n => n.text
  | .nonFinite text => text
  | .list _ text => text
  | .struct _ _ text => text
  | .variant _ text => text
  | .other text => text

def joinMembers (members : List Str) : Str :=
  "\x7b".toList ++ ",".toList.intercalate members ++ "\x7d".toList

def member (name json : Str) : Str := jsonString name ++ ":".toList ++ json

mutual
def valueToJson : Value → Str
  | .null => "null".toList
  | .variant inner _ => valueToJson inner
  | .boolean b => if b then "true".toList else "false".toList
  | .number n => n.text
  | .real n => n.text
  | .nonFinite _ => "null".toList
  | .list children _ => "[".toList ++ ",".toList.intercalate (valuesToJson children) ++ "]".toList
  | .struct names children _ => joinMembers (List.zipWith member names (valuesToJson children))
  | .other text => jsonString text

def valuesToJson : List Value → List Str
  | [] => []
  | v :: vs => valueToJson v :: valuesToJson vs
end

def rowJsonObject (names : List Str) (cols : List Value) : Str :=
  joinMembers (List.zipWith (fun name v => member name (valueToJson v)) names cols)

/-- The first column that is named `id`, in any case. -/
def idColumn (names : List Str) : Option Nat :=
  names.findIdx? fun name => decide (lower name = "id".toList)

/-- The text of the `id` column, where there is one that is not null. -/
def rowId (names : List Str) (cols : List Value) : Option Str :=
  match (idColumn names).bind (cols[·]?) with
  | some v => if v.isNull then none else some v.toText
  | none => none

def formatSseEvent (names : List Str) (cols : List Value) : Str :=
  (match rowId names cols with
    | some text => "id: ".toList ++ text ++ "\n".toList
    | none => []) ++
  ("data: ".toList ++ rowJsonObject names cols ++ "\n\n".toList)

/-- The rows of one chunk; nothing of it is sent when the stream's limit is exceeded. -/
def emitRows (maxBytes sent : Nat) (names : List Str) : List (List Value) → Str → Option Str
  | [], buf => some buf
  | cols :: rows, buf =>
    let event := formatSseEvent names cols
    if maxBytes < sent + buf.length + event.length then none
    else emitRows maxBytes sent names rows (buf ++ event)

/-- The chunks of a result, up to the one that closes the stream. -/
def emitChunks (maxBytes : Nat) (names : List Str) : Nat → List (List (List Value)) → Str
  | _, [] => []
  | sent, chunk :: chunks =>
    match emitRows maxBytes sent names chunk [] with
    | none => []
    | some buf => buf ++ emitChunks maxBytes names (sent + buf.length) chunks

theorem unbroken_of_isNumberChar {s : Str} (h : ∀ c ∈ s, isNumberChar c = true) : Unbroken s :=
  ⟨fun hn => absurd (h _ hn) (by decide), fun hr => absurd (h _ hr) (by decide)⟩

theorem jsonEscapeChar_unbroken (c : Char) : Unbroken (jsonEscapeChar c) := by
  have hdigit : ∀ n < 16, Nat.digitChar n ≠ '\n' ∧ Nat.digitChar n ≠ '\r' := by decide
  have hletter : ∀ p ∈ letterEscapes, p.2 ≠ '\n' ∧ p.2 ≠ '\r' := by decide
  rcases jsonEscapeChar_cases c with ⟨e, he, htext⟩ | ⟨-, -, hcontrol, htext⟩ |
    ⟨-, -, hcontrol, htext⟩ <;> rw [htext]
  · exact unbroken_cons.mpr ⟨⟨by decide, by decide⟩, unbroken_cons.mpr ⟨hletter _ he, unbroken_nil⟩⟩
  · have hhigh := hdigit (c.toNat / 16) (by omega)
    have hlow := hdigit (c.toNat % 16) (by omega)
    refine unbroken_append.mpr ⟨⟨by decide, by decide⟩, ?_⟩
    exact unbroken_cons.mpr ⟨hhigh, unbroken_cons.mpr ⟨hlow, unbroken_nil⟩⟩
  · have hne : ∀ d : Char, d.toNat < 0x20 → c ≠ d := by
      rintro d hd rfl
      exact hcontrol hd
    exact unbroken_cons.mpr ⟨⟨hne _ (by decide), hne _ (by decide)⟩, unbroken_nil⟩

theorem jsonEscape_unbroken (s : Str) : Unbroken (jsonEscape s) := by
  constructor <;> intro h <;> obtain ⟨c, _, hc⟩ := List.mem_flatMap.mp h
  · exact (jsonEscapeChar_unbroken c).1 hc
  · exact (jsonEscapeChar_unbroken c).2 hc

theorem jsonString_unbroken (s : Str) : Unbroken (jsonString s) := by
  refine unbroken_append.mpr ⟨unbroken_append.mpr ⟨⟨by decide, by decide⟩, ?_⟩, by decide, by decide⟩
  exact jsonEscape_unbroken s

theorem intercalate_unbroken {parts : List Str} (h : ∀ s ∈ parts, Unbroken s) :
    Unbroken (",".toList.intercalate parts) := by
  induction parts with
  | nil => exact unbroken_nil
  | cons part parts ih =>
    obtain ⟨hpart, hparts⟩ := List.forall_mem_cons.mp h
    by_cases hnil : parts = []
    · rw [hnil, List.intercalate_singleton]
      exact hpart
    · rw [List.intercalate_cons_of_ne_nil hnil]
      exact unbroken_append.mpr
        ⟨unbroken_append.mpr ⟨hpart, by decide, by decide⟩, ih hparts⟩

theorem joinMembers_unbroken {members : List Str} (h : ∀ s ∈ members, Unbroken s) :
    Unbroken (joinMembers members) := by
  refine unbroken_append.mpr ⟨unbroken_append.mpr ⟨⟨by decide, by decide⟩, ?_⟩, by decide, by decide⟩
  exact intercalate_unbroken h

theorem member_unbroken (name : Str) {json : Str} (h : Unbroken json) :
    Unbroken (member name json) :=
  unbroken_append.mpr
    ⟨unbroken_append.mpr ⟨jsonString_unbroken name, by decide, by decide⟩, h⟩

theorem members_unbroken {names parts : List Str} (h : ∀ s ∈ parts, Unbroken s) :
    ∀ s ∈ List.zipWith member names parts, Unbroken s := by
  intro s hs
  obtain ⟨i, hi, rfl⟩ := List.mem_iff_getElem.mp hs
  rw [List.getElem_zipWith]
  exact member_unbroken _ (h _ (List.getElem_mem _))

theorem null_unbroken : Unbroken "null".toList := ⟨by decide, by decide⟩

mutual
theorem valueToJson_unbroken : ∀ v, Unbroken (valueToJson v)
  | .null => null_unbroken
  | .boolean true => ⟨by decide, by decide⟩
  | .boolean false => ⟨by decide, by decide⟩
  | .number n => unbroken_of_isNumberChar n.plain
  | .real n => unbroken_of_isNumberChar n.plain
  | .nonFinite _ => null_unbroken
  | .list children _ => by
    rw [valueToJson]
    refine unbroken_append.mpr
      ⟨unbroken_append.mpr ⟨⟨by decide, by decide⟩, ?_⟩, by decide, by decide⟩
    exact intercalate_unbroken (valuesToJson_unbroken children)
  | .struct names children _ => by
    rw [valueToJson]
    exact joinMembers_unbroken (members_unbroken (valuesToJson_unbroken children))
  | .variant inner _ => by
    rw [valueToJson]
    exact valueToJson_unbroken inner
  | .other text => jsonString_unbroken text

theorem valuesToJson_unbroken : ∀ vs, ∀ s ∈ valuesToJson vs, Unbroken s
  | [] => fun s hs => by cases hs
  | v :: vs => List.forall_mem_cons.mpr ⟨valueToJson_unbroken v, valuesToJson_unbroken vs⟩
end

theorem rowJsonObject_unbroken (names : List Str) (cols : List Value) :
    Unbroken (rowJsonObject names cols) := by
  apply joinMembers_unbroken
  intro s hs
  obtain ⟨i, hi, rfl⟩ := List.mem_iff_getElem.mp hs
  rw [List.getElem_zipWith]
  exact member_unbroken _ (valueToJson_unbroken _)

def rowFields (names : List Str) (cols : List Value) : List EventField :=
  ((rowId names cols).map fun text => ("id".toList, text)).toList ++
    [("data".toList, rowJsonObject names cols)]

theorem formatSseEvent_eq (names : List Str) (cols : List Value) :
    formatSseEvent names cols = encodeFields (rowFields names cols) := by
  unfold formatSseEvent rowFields
  rcases rowId names cols with _ | text
  · simp [encodeFields, fieldText]
  · simp [encodeFields, fieldText]

def rowEvent (names : List Str) (cols : List Value) : StreamEvent :=
  ⟨rowId names cols, rowJsonObject names cols, []⟩

theorem eventOf_rowFields (names : List Str) (cols : List Value) :
    eventOf (rowFields names cols) = some (rowEvent names cols) := by
  unfold rowFields rowEvent
  rcases rowId names cols with _ | text
  · simp [eventOf, fieldValues]
  · simp [eventOf, fieldValues]

theorem rowFields_writable {names : List Str} {cols : List Value}
    (h : ∀ text, rowId names cols = some text → Unbroken text) :
    ∀ f ∈ rowFields names cols, Writable f := by
  have hid : "id".toList ≠ [] ∧ ':' ∉ "id".toList ∧ Unbroken "id".toList :=
    ⟨by decide, by decide, by decide, by decide⟩
  have hdata : "data".toList ≠ [] ∧ ':' ∉ "data".toList ∧ Unbroken "data".toList :=
    ⟨by decide, by decide, by decide, by decide⟩
  intro f hf
  rcases List.mem_append.mp hf with hmem | hmem
  · obtain ⟨text, htext, rfl⟩ := Option.map_eq_some_iff.mp (Option.mem_toList.mp hmem)
    exact ⟨hid.1, hid.2.1, hid.2.2, h text htext⟩
  · rw [List.mem_singleton.mp hmem]
    exact ⟨hdata.1, hdata.2.1, hdata.2.2, rowJsonObject_unbroken names cols⟩

/-- What the chunks of a result send is the events of all the rows before the one that closes the
stream. -/
theorem emitChunks_eq (maxBytes : Nat) (names : List Str) (sent : Nat)
    (chunks : List (List (List Value))) :
    ∃ n, emitChunks maxBytes names sent chunks =
      (chunks.take n).flatten.flatMap (formatSseEvent names) := by
  have hrows : ∀ (rows : List (List Value)) (sent : Nat) (buf out : Str),
      emitRows maxBytes sent names rows buf = some out →
        out = buf ++ rows.flatMap (formatSseEvent names) := by
    intro rows sent
    induction rows with
    | nil =>
      intro buf out h
      rw [List.flatMap_nil, List.append_nil]
      exact (Option.some.inj h).symm
    | cons cols rows ih =>
      intro buf out h
      rw [emitRows] at h
      split at h
      · cases h
      · rw [ih _ _ h, List.append_assoc, List.flatMap_cons]
  induction chunks generalizing sent with
  | nil => exact ⟨0, rfl⟩
  | cons chunk chunks ih =>
    rw [emitChunks]
    rcases hchunk : emitRows maxBytes sent names chunk [] with _ | buf
    · exact ⟨0, rfl⟩
    · obtain ⟨n, hn⟩ := ih (sent + buf.length)
      refine ⟨n + 1, ?_⟩
      rw [List.take_succ_cons, List.flatten_cons, List.flatMap_append,
        ← List.nil_append (chunk.flatMap _), ← hrows chunk sent [] buf hchunk, ← hn]

theorem parseEvents_rows {names : List Str} {rows : List (List Value)}
    (h : ∀ cols ∈ rows, ∀ text, rowId names cols = some text → Unbroken text) :
    parseEvents (rows.flatMap (formatSseEvent names)) = rows.map (rowEvent names) := by
  induction rows with
  | nil => rfl
  | cons cols rows ih =>
    obtain ⟨hrow, hrows⟩ := List.forall_mem_cons.mp h
    have hread := parseEvents_encodeFields (rowFields_writable hrow)
      (rows.flatMap (formatSseEvent names))
    rw [List.flatMap_cons, formatSseEvent_eq, hread, eventOf_rowFields, ih hrows]
    rfl

theorem parseEvents_emitChunks {names : List Str} {chunks : List (List (List Value))}
    (h : ∀ cols ∈ chunks.flatten, ∀ text, rowId names cols = some text → Unbroken text)
    (maxBytes : Nat) :
    ∃ n, parseEvents (emitChunks maxBytes names 0 chunks) =
      (chunks.take n).flatten.map (rowEvent names) := by
  obtain ⟨n, hn⟩ := emitChunks_eq maxBytes names 0 chunks
  refine ⟨n, ?_⟩
  rw [hn]
  apply parseEvents_rows
  intro cols hcols
  obtain ⟨chunk, hchunk, hrow⟩ := List.mem_flatten.mp hcols
  exact h cols (List.mem_flatten.mpr ⟨chunk, List.mem_of_mem_take hchunk, hrow⟩)

/-- The stream is read back as one event for each row, with the row's identifier and its JSON and no
other field, if and only if no identifier has a line break. -/
theorem sse_round_trip (names : List Str) (rows : List (List Value)) :
    parseEvents (rows.flatMap (formatSseEvent names)) = rows.map (rowEvent names) ↔
      ∀ cols ∈ rows, ∀ text, rowId names cols = some text → Unbroken text := by
  constructor
  · intro h cols hcols text htext
    have hmem : rowEvent names cols ∈ parseEvents (rows.flatMap (formatSseEvent names)) := by
      rw [h]
      exact List.mem_map_of_mem hcols
    exact parseEvents_id_unbroken hmem htext
  · exact parseEvents_rows

/-- A row whose identifier ends its own event and begins another. -/
theorem forgedEvent :
    parseEvents (formatSseEvent ["id".toList] [.other "1\ndata: x\n\nid: 2".toList]) =
        [⟨some "1".toList, "x".toList, []⟩,
          ⟨some "2".toList, "\x7b\"id\":\"1\\ndata: x\\n\\nid: 2\"\x7d".toList, []⟩] ∧
      ¬ parseEvents ([[Value.other "1\ndata: x\n\nid: 2".toList]].flatMap
          (formatSseEvent ["id".toList])) =
        [[Value.other "1\ndata: x\n\nid: 2".toList]].map (rowEvent ["id".toList]) := by
  constructor
  · decide +kernel
  · decide +kernel

end Quackapi.Http
