import Mathlib.Data.List.Basic
import Mathlib.Data.List.Forall2

/-! Comma-separated values: records of fields, each record on a line of its own. The line break is a
parameter. A field may stand between quotes, where a quote is doubled. -/

namespace Library

def IsTextData (c : Char) : Prop := c ≠ '"' ∧ c ≠ ',' ∧ c ≠ '\r' ∧ c ≠ '\n'

def doubleQuotes (s : List Char) : List Char := s.flatMap fun c => if c = '"' then ['"', '"'] else [c]

inductive FieldText : List Char → List Char → Prop
  | plain {s : List Char} (h : ∀ c ∈ s, IsTextData c) : FieldText s s
  | quoted (s : List Char) : FieldText ('"' :: (doubleQuotes s ++ ['"'])) s

inductive RecordText : List Char → List (List Char) → Prop
  | last {t v : List Char} (h : FieldText t v) : RecordText t [v]
  | more {t v r : List Char} {vs : List (List Char)} (h : FieldText t v) (hr : RecordText r vs) :
      RecordText (t ++ ',' :: r) (v :: vs)

/-- A line break ends every record; the last one may go without, unless it is empty. -/
inductive CsvText (lineBreak : List Char) : List Char → List (List (List Char)) → Prop
  | nil : CsvText lineBreak [] []
  | unended {t : List Char} {r : List (List Char)} (h : RecordText t r) (hne : t ≠ []) :
      CsvText lineBreak t [r]
  | more {t rest : List Char} {r : List (List Char)} {rs : List (List (List Char))} (h : RecordText t r)
      (hrest : CsvText lineBreak rest rs) : CsvText lineBreak (t ++ lineBreak ++ rest) (r :: rs)

def lineFeed : List Char := ['\n']

def carriageReturnLineFeed : List Char := ['\r', '\n']

def EndsField (r : List Char) : Prop := ∀ c t, r = c :: t → c = ',' ∨ c = '\r' ∨ c = '\n'

def EndsRecord (r : List Char) : Prop := ∀ c t, r = c :: t → c = '\r' ∨ c = '\n'

theorem EndsRecord.endsField {r : List Char} (h : EndsRecord r) : EndsField r :=
  fun c t hc => .inr (h c t hc)

theorem endsField_comma (r : List Char) : EndsField (',' :: r) := by
  intro c t h
  exact .inl (List.head_eq_of_cons_eq h).symm

theorem EndsField.not_textData {r t : List Char} {c : Char} (h : EndsField r) (hc : r = c :: t) :
    ¬ IsTextData c := by
  rintro ⟨_, hcomma, hreturn, hline⟩
  rcases h c t hc with hc | hc | hc
  · exact hcomma hc
  · exact hreturn hc
  · exact hline hc

theorem EndsField.not_quote {r t : List Char} (h : EndsField r) : r ≠ '"' :: t := by
  intro hc
  rcases h '"' t hc with hc | hc | hc <;> cases hc

theorem doubleQuotes_cons (c : Char) (s : List Char) :
    doubleQuotes (c :: s) = (if c = '"' then ['"', '"'] else [c]) ++ doubleQuotes s := List.flatMap_cons

theorem quoted_unique {s s' r r' : List Char} (hr : ∀ t, r ≠ '"' :: t) (hr' : ∀ t, r' ≠ '"' :: t)
    (h : doubleQuotes s ++ '"' :: r = doubleQuotes s' ++ '"' :: r') : s = s' ∧ r = r' := by
  induction s generalizing s' with
  | nil =>
    cases s' with
    | nil => exact ⟨rfl, (List.cons.inj h).2⟩
    | cons c s' =>
      rw [doubleQuotes_cons] at h
      by_cases hc : c = '"'
      · rw [if_pos hc] at h
        exact absurd (List.cons.inj h).2 (hr _)
      · rw [if_neg hc] at h
        exact absurd (List.cons.inj h).1.symm hc
  | cons c s ih =>
    rw [doubleQuotes_cons] at h
    cases s' with
    | nil =>
      by_cases hc : c = '"'
      · rw [if_pos hc] at h
        exact absurd (List.cons.inj h).2.symm (hr' _)
      · rw [if_neg hc] at h
        exact absurd (List.cons.inj h).1 hc
    | cons c' s' =>
      rw [doubleQuotes_cons] at h
      by_cases hc : c = '"'
      · by_cases hc' : c' = '"'
        · rw [if_pos hc, if_pos hc'] at h
          obtain ⟨hs, hrest⟩ := ih (List.cons.inj (List.cons.inj h).2).2
          exact ⟨by rw [hc, hc', hs], hrest⟩
        · rw [if_pos hc, if_neg hc'] at h
          exact absurd (List.cons.inj h).1.symm hc'
      · by_cases hc' : c' = '"'
        · rw [if_neg hc, if_pos hc'] at h
          exact absurd (List.cons.inj h).1 hc
        · rw [if_neg hc, if_neg hc'] at h
          obtain ⟨hs, hrest⟩ := ih (List.cons.inj h).2
          exact ⟨by rw [(List.cons.inj h).1, hs], hrest⟩

theorem textData_unique {s s' r r' : List Char} (hs : ∀ c ∈ s, IsTextData c)
    (hs' : ∀ c ∈ s', IsTextData c) (hr : EndsField r) (hr' : EndsField r') (h : s ++ r = s' ++ r') :
    s = s' ∧ r = r' := by
  induction s generalizing s' with
  | nil =>
    cases s' with
    | nil => exact ⟨rfl, h⟩
    | cons c s' => exact absurd (hs' c List.mem_cons_self) (hr.not_textData h)
  | cons c s ih =>
    cases s' with
    | nil => exact absurd (hs c List.mem_cons_self) (hr'.not_textData h.symm)
    | cons c' s' =>
      obtain ⟨hc, hrest⟩ := List.cons.inj h
      obtain ⟨hsame, hends⟩ := ih (fun d hd => hs d (List.mem_cons_of_mem c hd))
        (fun d hd => hs' d (List.mem_cons_of_mem c' hd)) hrest
      exact ⟨by rw [hc, hsame], hends⟩

theorem plain_ne_quoted {s s' r r' : List Char} (hs : ∀ c ∈ s, IsTextData c) (hr : EndsField r)
    (h : s ++ r = '"' :: s' ++ r') : False := by
  cases s with
  | nil => exact hr.not_quote h
  | cons c s => exact (hs c List.mem_cons_self).1 (List.cons.inj h).1

theorem FieldText.unique {t t' v v' r r' : List Char} (h : FieldText t v) (h' : FieldText t' v')
    (hr : EndsField r) (hr' : EndsField r') (heq : t ++ r = t' ++ r') : v = v' ∧ r = r' := by
  cases h with
  | plain hs =>
    cases h' with
    | plain hs' => exact textData_unique hs hs' hr hr' heq
    | quoted s' => exact (plain_ne_quoted hs hr heq).elim
  | quoted s =>
    cases h' with
    | plain hs' => exact (plain_ne_quoted hs' hr' heq.symm).elim
    | quoted s' =>
      rw [List.cons_append, List.cons_append, List.append_assoc, List.append_assoc] at heq
      exact quoted_unique (fun _ => hr.not_quote) (fun _ => hr'.not_quote) (List.cons.inj heq).2

theorem RecordText.unique {t t' r r' : List Char} {vs vs' : List (List Char)} (h : RecordText t vs)
    (h' : RecordText t' vs') (hr : EndsRecord r) (hr' : EndsRecord r') (heq : t ++ r = t' ++ r') :
    vs = vs' ∧ r = r' := by
  have hcomma : ∀ (u w : List Char), EndsRecord u → u ≠ ',' :: w := by
    intro u w hu huw
    rcases hu ',' w huw with hc | hc <;> cases hc
  induction h generalizing t' vs' with
  | last hfield =>
    cases h' with
    | last hfield' =>
      obtain ⟨hv, hrest⟩ := hfield.unique hfield' hr.endsField hr'.endsField heq
      exact ⟨by rw [hv], hrest⟩
    | more hfield' hrecord' =>
      rw [List.append_assoc] at heq
      have hrest := (hfield.unique hfield' hr.endsField (endsField_comma _) heq).2
      exact (hcomma _ _ hr hrest).elim
  | more hfield hrecord ih =>
    rw [List.append_assoc] at heq
    cases h' with
    | last hfield' =>
      have hrest := (hfield.unique hfield' (endsField_comma _) hr'.endsField heq).2
      exact (hcomma _ _ hr' hrest.symm).elim
    | more hfield' hrecord' =>
      rw [List.append_assoc] at heq
      obtain ⟨hv, hrest⟩ := hfield.unique hfield' (endsField_comma _) (endsField_comma _) heq
      obtain ⟨hvs, hends⟩ := ih hrecord' (List.cons.inj hrest).2
      exact ⟨by rw [hv, hvs], hends⟩

theorem recordText_intercalate {fields : List (List Char × List Char)} (hne : fields ≠ [])
    (h : ∀ f ∈ fields, FieldText f.1 f.2) :
    RecordText ([','].intercalate (fields.map Prod.fst)) (fields.map Prod.snd) := by
  induction fields with
  | nil => exact absurd rfl hne
  | cons f fields ih =>
    cases fields with
    | nil =>
      rw [List.map_singleton, List.map_singleton, List.intercalate_singleton]
      exact .last (h f List.mem_cons_self)
    | cons g fields =>
      have hrest := ih (List.cons_ne_nil g fields) fun x hx => h x (List.mem_cons_of_mem f hx)
      rw [List.map_cons, List.map_cons, List.map_cons, List.intercalate_cons_cons, List.append_assoc]
      exact .more (h f List.mem_cons_self) hrest

theorem csvText_lines {lineBreak : List Char} {lines : List (List Char × List (List Char))}
    (h : ∀ l ∈ lines, RecordText l.1 l.2) :
    CsvText lineBreak (lines.flatMap fun l => l.1 ++ lineBreak) (lines.map Prod.snd) := by
  induction lines with
  | nil => exact .nil
  | cons l lines ih =>
    rw [List.flatMap_cons, List.map_cons]
    exact .more (h l List.mem_cons_self) (ih fun x hx => h x (List.mem_cons_of_mem l hx))

theorem endsRecord_lineFeed (rest : List Char) : EndsRecord (lineFeed ++ rest) := by
  intro c t h
  exact .inr (List.head_eq_of_cons_eq h).symm

theorem endsRecord_nil : EndsRecord [] := nofun

theorem CsvText.unique {text : List Char} {rs rs' : List (List (List Char))}
    (h : CsvText lineFeed text rs) (h' : CsvText lineFeed text rs') : rs = rs' := by
  induction h generalizing rs' with
  | nil =>
    generalize htext : ([] : List Char) = text at h'
    cases h' with
    | nil => rfl
    | unended _ hne => exact absurd htext.symm hne
    | more =>
      have hlength := congrArg List.length htext
      simp [lineFeed] at hlength
  | unended hrecord hne =>
    cases h' with
    | nil => exact absurd rfl hne
    | unended hrecord' _ =>
      rw [(hrecord.unique hrecord' endsRecord_nil endsRecord_nil rfl).1]
    | more hrecord' hrest' =>
      have heq := (hrecord.unique hrecord' endsRecord_nil (endsRecord_lineFeed _)
        ((List.append_nil _).trans (List.append_assoc _ _ _))).2
      cases heq
  | @more t rest r rs hrecord hrest ih =>
    generalize htext : t ++ lineFeed ++ rest = text at h'
    cases h' with
    | nil =>
      have hlength := congrArg List.length htext
      simp [lineFeed] at hlength
    | unended hrecord' _ =>
      have heq := (hrecord.unique hrecord' (endsRecord_lineFeed _) endsRecord_nil
        ((List.append_assoc _ _ _).symm.trans (htext.trans (List.append_nil _).symm))).2
      cases heq
    | more hrecord' hrest' =>
      rw [List.append_assoc, List.append_assoc] at htext
      obtain ⟨hr, heq⟩ := hrecord.unique hrecord' (endsRecord_lineFeed _) (endsRecord_lineFeed _) htext
      obtain rfl : rest = _ := (List.cons.inj heq).2
      rw [hr, ih hrest']

theorem FieldText.no_lineFeed {t v : List Char} (h : FieldText t v) (hquote : '"' ∉ t) : '\n' ∉ t := by
  cases h with
  | plain hs => exact fun hmem => (hs _ hmem).2.2.2 rfl
  | quoted s => exact absurd List.mem_cons_self hquote

theorem RecordText.no_lineFeed {t : List Char} {vs : List (List Char)} (h : RecordText t vs)
    (hquote : '"' ∉ t) : '\n' ∉ t := by
  induction h with
  | last hfield => exact hfield.no_lineFeed hquote
  | more hfield _ ih =>
    rw [List.mem_append, List.mem_cons, not_or, not_or] at hquote ⊢
    exact ⟨hfield.no_lineFeed hquote.1, by decide, ih hquote.2.2⟩

theorem CsvText.no_lineFeed {text : List Char} {rs : List (List (List Char))}
    (h : CsvText carriageReturnLineFeed text rs) (hquote : '"' ∉ text) (hreturn : '\r' ∉ text) :
    '\n' ∉ text := by
  cases h with
  | nil => exact List.not_mem_nil
  | unended hrecord _ => exact hrecord.no_lineFeed hquote
  | more _ _ =>
    refine absurd ?_ hreturn
    exact List.mem_append_left _ (List.mem_append_right _ List.mem_cons_self)

end Library
