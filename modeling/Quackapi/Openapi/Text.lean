import Quackapi.Library.JsonText
import Quackapi.Validation.RoundTrip

/-! JSON as the document is written: an object by its fields, each with the text of its value, and a
schema that is open for more. -/

namespace Quackapi.Openapi
open Library Validation

def jsonMember (field : Str × Str) : Str := jsonString field.1 ++ ':' :: field.2

def openObject (fields : List (Str × Str)) : Str := '\x7b' :: commaed (fields.map jsonMember)

def jsonObject (fields : List (Str × Str)) : Str := openObject fields ++ ['\x7d']

def jsonArray (items : List Str) : Str := '[' :: (commaed items ++ [']'])

/-- `AppendOasProperty`. -/
def appendOasProperty (schema name jsonValue : Str) : Str :=
  schema ++ (if 1 < schema.length then [','] else []) ++ jsonMember (name, jsonValue)

/-- The texts of the document are sequences of bytes. -/
abbrev ReadsAs (text : Str) (j : Json) : Prop := JsonText appendUtf8 text j

abbrev WellFormed (text : Str) : Prop := IsJson appendUtf8 text

theorem hexDigit_digitChar : ∀ d < 16, hexDigit (Nat.digitChar d) = some d := by decide

theorem charsText_escapeChar (c : Char) {raw s : Str} (h : CharsText appendUtf8 raw s) :
    CharsText appendUtf8 (jsonEscapeChar c ++ raw) (c :: s) := by
  rcases jsonEscapeChar_cases c with ⟨e, he, htext⟩ | ⟨-, -, hcontrol, htext⟩ |
    ⟨hquote, hbackslash, hcontrol, htext⟩ <;> rw [htext]
  · have hlisted : ∀ p ∈ letterEscapes, (p.2, p.1) ∈ shortEscapes := by decide
    exact .escape (hlisted _ he) h
  · have hhigh := hexDigit_digitChar (c.toNat / 16) (by omega)
    have hlow := hexDigit_digitChar (c.toNat % 16) (by omega)
    have hzero : hexDigit '0' = some 0 := by decide
    have hhex : hexCode ['0', '0', Nat.digitChar (c.toNat / 16), Nat.digitChar (c.toNat % 16)] =
        some c.toNat := by
      simp only [hexCode, hzero, hhigh, hlow, Option.bind_eq_bind, Option.bind_some, Option.pure_def,
        Option.some.injEq]
      omega
    have hcode : CharsText appendUtf8
        ('\\' :: 'u' :: (['0', '0', Nat.digitChar (c.toNat / 16), Nat.digitChar (c.toNat % 16)] ++ raw))
        (appendUtf8 c.toNat ++ s) := .code hhex (.inl (by omega)) h
    rw [appendUtf8_toNat hcontrol] at hcode
    exact hcode
  · exact .plain hquote hbackslash (Nat.le_of_not_lt hcontrol) h

theorem charsText_escape (s : Str) : CharsText appendUtf8 (jsonEscape s) s := by
  induction s with
  | nil => exact .nil
  | cons c s ih =>
    rw [jsonEscape_cons]
    exact charsText_escapeChar c ih

theorem jsonString_eq (s : Str) : jsonString s = '"' :: (jsonEscape s ++ ['"']) := rfl

theorem readsAs_string (s : Str) : ReadsAs (jsonString s) (.string s) := by
  rw [jsonString_eq]
  exact .string (charsText_escape s)

theorem wellFormed_string (s : Str) : WellFormed (jsonString s) :=
  ⟨.string s, readsAs_string s, .string s⟩

theorem keyText_string (s : Str) : KeyText appendUtf8 (jsonString s) s :=
  ⟨[], jsonEscape s, [], by rw [jsonString_eq]; rfl, nofun, nofun, charsText_escape s⟩

theorem readsAs_object {fields : List (Str × Str)} {members : List (Str × Json)}
    (h : List.Forall₂ (fun f m => f.1 = m.1 ∧ ReadsAs f.2 m.2) fields members) :
    ReadsAs (jsonObject fields) (.object members) := by
  have hms : ∃ ms : List MemberText, ms.map MemberText.raw = fields.map jsonMember ∧
      ms.map MemberText.member = members ∧
      (∀ m ∈ ms, KeyText appendUtf8 m.rawKey m.key) ∧ ∀ m ∈ ms, ReadsAs m.rawValue m.value := by
    induction h with
    | nil => exact ⟨[], rfl, rfl, nofun, nofun⟩
    | @cons f m fields members hfm _ ih =>
      obtain ⟨ms, hraw, hmember, hkeys, hvalues⟩ := ih
      obtain ⟨hkey, hvalue⟩ := hfm
      refine ⟨⟨jsonString f.1, m.1, f.2, m.2⟩ :: ms, ?_, ?_, ?_, ?_⟩
      · rw [List.map_cons, List.map_cons, hraw]
        rfl
      · rw [List.map_cons, hmember]
        rfl
      · exact List.forall_mem_cons.mpr ⟨hkey ▸ keyText_string f.1, hkeys⟩
      · exact List.forall_mem_cons.mpr ⟨hvalue, hvalues⟩
  obtain ⟨ms, hraw, rfl, hkeys, hvalues⟩ := hms
  rw [jsonObject, openObject, ← hraw]
  exact .object hkeys hvalues

theorem readsAs_array {items : List (Str × Json)} (h : ∀ p ∈ items, ReadsAs p.1 p.2) :
    ReadsAs (jsonArray (items.map Prod.fst)) (.array (items.map Prod.snd)) :=
  .array h

theorem readsAs_array_forall₂ {texts : List Str} {js : List Json}
    (h : List.Forall₂ ReadsAs texts js) : ReadsAs (jsonArray texts) (.array js) := by
  have hlength := h.length_eq
  have hpairs : ∀ p ∈ texts.zip js, ReadsAs p.1 p.2 := fun p hp => (List.forall₂_iff_zip.mp h).2 hp
  have hread := readsAs_array hpairs
  rwa [List.map_fst_zip hlength.le, List.map_snd_zip hlength.ge] at hread

theorem readsAs_struct (names : List Str) {texts : List Str} {js : List Json}
    (h : List.Forall₂ ReadsAs texts js) :
    ReadsAs (jsonObject (names.zip texts)) (.object (names.zip js)) := by
  apply readsAs_object
  induction h generalizing names with
  | nil => simp
  | cons hhead _ ih =>
    cases names with
    | nil => exact .nil
    | cons name names => exact .cons ⟨rfl, hhead⟩ (ih names)

theorem exists_members {fields : List (Str × Str)} (h : ∀ f ∈ fields, WellFormed f.2) :
    ∃ members : List (Str × Json),
      List.Forall₂ (fun f m => f.1 = m.1 ∧ ReadsAs f.2 m.2) fields members ∧
      members.map Prod.fst = fields.map Prod.fst ∧ ∀ m ∈ members, m.2.UniqueKeys := by
  obtain ⟨ps, hfields, hps⟩ := exists_values h
  refine ⟨ps.map fun p => (p.1.1, p.2), ?_, ?_, ?_⟩
  · rw [← hfields, List.forall₂_map_left_iff, List.forall₂_map_right_iff, List.forall₂_same]
    exact fun p hp => ⟨rfl, (hps p hp).1⟩
  · rw [← hfields, List.map_map, List.map_map]
    rfl
  · intro m hm
    obtain ⟨p, hp, rfl⟩ := List.mem_map.mp hm
    exact (hps p hp).2

theorem wellFormed_object {fields : List (Str × Str)} (hkeys : (fields.map Prod.fst).Nodup)
    (h : ∀ f ∈ fields, WellFormed f.2) : WellFormed (jsonObject fields) := by
  obtain ⟨members, hreads, hnames, hunique⟩ := exists_members h
  exact ⟨.object members, readsAs_object hreads, .object (hnames ▸ hkeys) hunique⟩

theorem wellFormed_single {name value : Str} (h : WellFormed value) :
    WellFormed (jsonObject [(name, value)]) :=
  wellFormed_object (List.nodup_singleton name) (List.forall_mem_singleton.mpr h)

theorem wellFormed_array {items : List Str} (h : ∀ t ∈ items, WellFormed t) :
    WellFormed (jsonArray items) :=
  IsJson.array h

theorem wellFormed_word {s : Str} (h : IsScalar s) : WellFormed s := IsJson.scalar h

theorem dropLast_jsonObject (fields : List (Str × Str)) :
    (jsonObject fields).dropLast = openObject fields :=
  List.dropLast_concat

theorem jsonMember_ne_nil (field : Str × Str) : jsonMember field ≠ [] := List.cons_ne_nil _ _

theorem commaed_members_ne_nil (field : Str × Str) (fields : List (Str × Str)) :
    commaed ((field :: fields).map jsonMember) ≠ [] := by
  refine commaed_ne_nil (List.cons_ne_nil _ _) fun t ht => ?_
  obtain ⟨g, _, rfl⟩ := List.mem_map.mp ht
  exact jsonMember_ne_nil g

theorem jsonObject_cons_ne (field : Str × Str) (fields : List (Str × Str)) :
    jsonObject (field :: fields) ≠ jsonObject [] := by
  intro h
  have hopen : openObject (field :: fields) = openObject [] := List.append_cancel_right h
  exact commaed_members_ne_nil field fields (List.cons.inj hopen).2

theorem append_openObject (fields : List (Str × Str)) (name value : Str) :
    appendOasProperty (openObject fields) name value = openObject (fields ++ [(name, value)]) := by
  rw [appendOasProperty, openObject, openObject, List.map_append, List.length_cons]
  rcases fields with _ | ⟨f, fields⟩
  · rw [List.map_nil, commaed_nil, List.nil_append, List.map_singleton, commaed_singleton]
    rfl
  · have hpos := List.length_pos_iff.mpr (commaed_members_ne_nil f fields)
    have hne : (f :: fields).map jsonMember ≠ [] := List.cons_ne_nil _ _
    rw [if_pos (by omega), List.map_singleton, commaed_append hne]
    simp only [List.cons_append, List.append_assoc, List.nil_append]

end Quackapi.Openapi
