import Mathlib.Data.List.Basic

/-! Event streams: a text of lines, each ended by LF, CR or CRLF, whose fields make up an event that
a blank line dispatches. -/

namespace Library

def Unbroken (s : List Char) : Prop := '\n' ∉ s ∧ '\r' ∉ s

/-- The lines that are ended, without their ends. The line so far is kept backwards. -/
def endedLines : List Char → List Char → List (List Char)
  | _, [] => []
  | line, '\r' :: '\n' :: rest => line.reverse :: endedLines [] rest
  | line, c :: rest =>
    if c = '\n' ∨ c = '\r' then line.reverse :: endedLines [] rest
    else endedLines (c :: line) rest

abbrev EventField := List Char × List Char

/-- A line that begins with a colon is a comment. One blank before the value is not part of it. -/
def parseField (line : List Char) : Option EventField :=
  let value := (line.dropWhile (· ≠ ':')).drop 1
  if line.head? = some ':' then none
  else some (line.takeWhile (· ≠ ':'), if value.head? = some ' ' then value.drop 1 else value)

structure StreamEvent where
  id : Option (List Char)
  data : List Char
  /-- The fields that are neither. -/
  others : List EventField
deriving DecidableEq, Repr

def fieldValues (name : List Char) (block : List EventField) : List (List Char) :=
  (block.filter fun f => decide (f.1 = name)).map Prod.snd

def eventOf (block : List EventField) : Option StreamEvent :=
  if (fieldValues "data".toList block).isEmpty then none
  else some {
    id := (fieldValues "id".toList block).getLast?
    data := ['\n'].intercalate (fieldValues "data".toList block)
    others := block.filter fun f => decide (f.1 ≠ "id".toList) && decide (f.1 ≠ "data".toList) }

/-- The events of a list of lines; a block that no blank line ends is dropped. -/
def dispatch : List EventField → List (List Char) → List StreamEvent
  | _, [] => []
  | block, [] :: lines => (eventOf block).toList ++ dispatch [] lines
  | block, line :: lines => dispatch (block ++ (parseField line).toList) lines

def parseEvents (s : List Char) : List StreamEvent := dispatch [] (endedLines [] s)

def fieldText (f : EventField) : List Char := f.1 ++ ':' :: ' ' :: f.2

def encodeFields (block : List EventField) : List Char :=
  block.flatMap (fun f => fieldText f ++ ['\n']) ++ ['\n']

structure Writable (f : EventField) : Prop where
  named : f.1 ≠ []
  noColon : ':' ∉ f.1
  name : Unbroken f.1
  value : Unbroken f.2

theorem unbroken_append {s t : List Char} : Unbroken (s ++ t) ↔ Unbroken s ∧ Unbroken t := by
  simp only [Unbroken, List.mem_append, not_or]
  exact and_and_and_comm

theorem unbroken_cons {c : Char} {s : List Char} :
    Unbroken (c :: s) ↔ (c ≠ '\n' ∧ c ≠ '\r') ∧ Unbroken s := by
  rw [← List.singleton_append, unbroken_append]
  simp only [Unbroken, List.mem_singleton, eq_comm]

theorem unbroken_nil : Unbroken [] := ⟨List.not_mem_nil, List.not_mem_nil⟩

theorem Unbroken.of_subset {s t : List Char} (h : Unbroken t) (hs : s ⊆ t) : Unbroken s :=
  ⟨fun hn => h.1 (hs hn), fun hr => h.2 (hs hr)⟩

theorem endedLines_char {c : Char} (hc : c ≠ '\n' ∧ c ≠ '\r') (line rest : List Char) :
    endedLines line (c :: rest) = endedLines (c :: line) rest := by
  rw [endedLines.eq_3]
  · exact if_neg (not_or.mpr hc)
  · intro _ hcr
    exact absurd hcr hc.2

theorem endedLines_line {t : List Char} (ht : Unbroken t) (line rest : List Char) :
    endedLines line (t ++ '\n' :: rest) = (line.reverse ++ t) :: endedLines [] rest := by
  induction t generalizing line with
  | nil =>
    rw [List.nil_append, List.append_nil, endedLines.eq_3]
    · exact if_pos (.inl rfl)
    · exact fun _ hcr => absurd hcr (by decide)
  | cons c t ih =>
    obtain ⟨hc, ht⟩ := unbroken_cons.mp ht
    rw [List.cons_append, endedLines_char hc, ih ht, List.reverse_cons, List.append_assoc]
    rfl

theorem parseField_fieldText {f : EventField} (h : Writable f) :
    parseField (fieldText f) = some f := by
  obtain ⟨name, value⟩ := f
  have hname : ∀ c ∈ name, decide (c ≠ ':') = true := by
    intro c hc
    exact decide_eq_true fun heq => h.noColon (heq ▸ hc)
  have hhead : (name ++ ':' :: ' ' :: value).head? ≠ some ':' := by
    obtain ⟨c, rest, rfl⟩ := List.exists_cons_of_ne_nil h.named
    intro heq
    have hc : c = ':' := Option.some.inj heq
    exact h.noColon (hc ▸ List.mem_cons_self)
  unfold parseField fieldText
  rw [if_neg hhead]
  have htake : (name ++ ':' :: ' ' :: value).takeWhile (fun c => decide (c ≠ ':')) = name ++ [] :=
    List.takeWhile_append_of_pos hname
  have hdrop : (name ++ ':' :: ' ' :: value).dropWhile (fun c => decide (c ≠ ':')) =
      ':' :: ' ' :: value := List.dropWhile_append_of_pos hname
  dsimp only
  rw [htake, hdrop]
  simp

theorem dispatch_fieldText {f : EventField} (h : Writable f) (block : List EventField)
    (lines : List (List Char)) :
    dispatch block (fieldText f :: lines) = dispatch (block ++ [f]) lines := by
  rw [dispatch.eq_3, parseField_fieldText h]
  · rfl
  · intro hnil
    exact h.named (List.append_eq_nil_iff.mp hnil).1

theorem parseEvents_encodeFields {block : List EventField} (h : ∀ f ∈ block, Writable f)
    (rest : List Char) :
    parseEvents (encodeFields block ++ rest) = (eventOf block).toList ++ parseEvents rest := by
  have hread : ∀ (bs before : List EventField), (∀ f ∈ bs, Writable f) →
      dispatch before (endedLines [] (encodeFields bs ++ rest)) =
        (eventOf (before ++ bs)).toList ++ parseEvents rest := by
    intro bs
    induction bs with
    | nil =>
      intro before _
      have hblank := endedLines_line unbroken_nil [] rest
      rw [List.nil_append] at hblank
      show dispatch before (endedLines [] ('\n' :: rest)) = _
      rw [hblank, List.reverse_nil, List.append_nil, List.append_nil, dispatch.eq_2]
      rfl
    | cons f bs ih =>
      intro before hbs
      obtain ⟨hf, hbs⟩ := List.forall_mem_cons.mp hbs
      have htext : Unbroken (fieldText f) := by
        refine unbroken_append.mpr ⟨hf.name, ?_⟩
        exact unbroken_cons.mpr ⟨by decide, unbroken_cons.mpr ⟨by decide, hf.value⟩⟩
      have hsplit : encodeFields (f :: bs) ++ rest =
          fieldText f ++ '\n' :: (encodeFields bs ++ rest) := by
        simp [encodeFields]
      rw [hsplit, endedLines_line htext, List.reverse_nil, List.nil_append,
        dispatch_fieldText hf, ih (before ++ [f]) hbs, List.append_assoc]
      rfl
  exact hread block [] h

theorem unbroken_of_mem_endedLines {s line : List Char} (hline : Unbroken line) :
    ∀ l ∈ endedLines line s, Unbroken l := by
  have hreverse : ∀ {t : List Char}, Unbroken t → Unbroken t.reverse := fun ht =>
    ht.of_subset fun _ => List.mem_reverse.mp
  fun_induction endedLines line s with
  | case1 => exact fun l hl => by cases hl
  | case2 line rest ih =>
    exact List.forall_mem_cons.mpr ⟨hreverse hline, ih unbroken_nil⟩
  | case3 line c rest _ hc ih =>
    exact List.forall_mem_cons.mpr ⟨hreverse hline, ih unbroken_nil⟩
  | case4 line c rest _ hc ih =>
    exact ih (unbroken_cons.mpr ⟨not_or.mp hc, hline⟩)

theorem parseField_unbroken {line : List Char} (h : Unbroken line) {f : EventField}
    (hf : parseField line = some f) : Unbroken f.2 := by
  unfold parseField at hf
  dsimp only at hf
  split at hf
  · cases hf
  · cases hf
    have hvalue : Unbroken ((line.dropWhile (· ≠ ':')).drop 1) :=
      h.of_subset fun _ hc => (List.dropWhile_subset _) (List.drop_subset _ _ hc)
    split
    · exact hvalue.of_subset (List.drop_subset _ _)
    · exact hvalue

theorem dispatch_id_unbroken {block : List EventField} (hblock : ∀ f ∈ block, Unbroken f.2)
    {lines : List (List Char)} (hlines : ∀ l ∈ lines, Unbroken l) :
    ∀ e ∈ dispatch block lines, ∀ id, e.id = some id → Unbroken id := by
  fun_induction dispatch block lines with
  | case1 => exact fun e he => by cases he
  | case2 block lines ih =>
    intro e he id hid
    rcases List.mem_append.mp he with hhere | hlater
    · rw [Option.mem_toList, eventOf] at hhere
      split at hhere
      · cases hhere
      · cases hhere
        have hmem := List.mem_of_getLast? hid
        obtain ⟨f, hf, rfl⟩ := List.mem_map.mp hmem
        exact hblock f (List.mem_of_mem_filter hf)
    · exact ih (fun f hf => by cases hf) (fun l hl => hlines l (List.mem_cons_of_mem _ hl)) e
        hlater id hid
  | case3 block line lines _ ih =>
    obtain ⟨hline, hlines⟩ := List.forall_mem_cons.mp hlines
    refine ih (fun f hf => ?_) hlines
    rcases List.mem_append.mp hf with hold | hnew
    · exact hblock f hold
    · exact parseField_unbroken hline (Option.mem_toList.mp hnew)

theorem parseEvents_id_unbroken {s : List Char} {e : StreamEvent} (he : e ∈ parseEvents s)
    {id : List Char} (hid : e.id = some id) : Unbroken id :=
  dispatch_id_unbroken (fun f hf => by cases hf) (unbroken_of_mem_endedLines unbroken_nil) e he id
    hid

end Library
