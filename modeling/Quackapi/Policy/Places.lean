import Quackapi.Policy.Tokens

/-! Where a scanner of the rewriter reads a name, said of the characters alone: after closed quotes, as
a whole word or between double quotes. -/

namespace Quackapi.Policy
open Library

/-- The open quote after one more character. A doubled quote closes and opens again. -/
def quoteStep (quotes : Bool) : Option Char → Char → Option Char
  | none, c => if c = '\'' ∨ quotes ∧ c = '"' then some c else none
  | some q, c => if c = q then none else some q

/-- The quote that a text leaves open; with `quotes`, double quotes count. -/
def openQuote (quotes : Bool) (text : Str) : Option Char := text.foldl (quoteStep quotes) none

/-- The text ends within a word: letters, digits and underscores from a letter or underscore on. -/
def inWord (text : Str) : Bool :=
  text.foldl (fun within c => isIdentChar c && (within || isIdentStart c)) false

structure WordAt (before rest : Str) (t : Token) : Prop where
  starts : startsWith isIdentStart rest
  apart : inWord before = false
  text : t = ⟨rest.takeWhile isIdentChar, some (rest.takeWhile isIdentChar)⟩

structure QuotedAt (before rest : Str) (t : Token) : Prop where
  starts : startsWith (· == '"') rest
  apart : before.getLast? ≠ some '"'
  text : t = ⟨'"' :: (scanQuoted rest.tail).2.1, some (scanQuoted rest.tail).1⟩

def StandsAt (quotes : Bool) (before rest : Str) (t : Token) : Prop :=
  openQuote quotes before = none ∧ (WordAt before rest t ∨ quotes = true ∧ QuotedAt before rest t)

/-- After an opening quote: the text up to the closing one, and what follows. -/
inductive Region (q : Char) : Str → Str → Prop
  | unfinished : Region q [] []
  | closed {after : Str} (h : after.head? ≠ some q) : Region q [q] after
  | doubled {text after : Str} (h : Region q text after) : Region q (q :: q :: text) after
  | other {c : Char} {text after : Str} (hc : c ≠ q) (h : Region q text after) :
    Region q (c :: text) after

theorem head?_ne_of_not_doubled {q : Char} {s : Str} (h : ∀ t, s ≠ q :: t) : s.head? ≠ some q := by
  cases s with
  | nil => exact fun h => nomatch h
  | cons c s =>
    rintro hc
    cases hc
    exact h s rfl

theorem scanLiteral_region (s : Str) : Region '\'' (scanLiteral s).1 (scanLiteral s).2 := by
  fun_induction scanLiteral s with
  | case1 => exact .unfinished
  | case2 s ih => exact .doubled ih
  | case3 s h => exact .closed (head?_ne_of_not_doubled fun t ht => h t ht)
  | case4 c s h h' ih => exact .other (fun hc => h' hc) ih

theorem scanQuoted_region (s : Str) : Region '"' (scanQuoted s).2.1 (scanQuoted s).2.2 := by
  fun_induction scanQuoted s with
  | case1 => exact .unfinished
  | case2 s ih => exact .doubled ih
  | case3 s h => exact .closed (head?_ne_of_not_doubled fun t ht => h t ht)
  | case4 c s h h' ih => exact .other (fun hc => h' hc) ih

section
variable {quotes : Bool} {q : Char} {text after : Str}

theorem quoteStep_self : quoteStep quotes (some q) q = none := if_pos rfl

theorem quoteStep_open (hq : q = '\'' ∨ quotes ∧ q = '"') : quoteStep quotes none q = some q := if_pos hq

theorem quoteStep_other {c : Char} (h : c ≠ q) : quoteStep quotes (some q) c = some q := if_neg h

theorem Region.closes (quotes : Bool) (hq : q = '\'' ∨ quotes ∧ q = '"') (h : Region q text after) (hafter : after ≠ []) :
    text.foldl (quoteStep quotes) (some q) = none ∧ text.getLast? = some q ∧
      after.head? ≠ some q := by
  induction h with
  | unfinished => exact absurd rfl hafter
  | closed h => exact ⟨if_pos rfl, rfl, h⟩
  | doubled h ih =>
    obtain ⟨hfold, hlast, hhead⟩ := ih hafter
    refine ⟨?_, ?_, hhead⟩
    · rw [List.foldl_cons, List.foldl_cons, quoteStep_self, quoteStep_open hq, hfold]
    · rw [List.getLast?_cons, List.getLast?_cons, hlast]
      rfl
  | other hc h ih =>
    obtain ⟨hfold, hlast, hhead⟩ := ih hafter
    refine ⟨?_, ?_, hhead⟩
    · rw [List.foldl_cons, quoteStep_other hc, hfold]
    · rw [List.getLast?_cons, hlast]
      rfl

theorem Region.within (hq : q = '\'' ∨ quotes ∧ q = '"') (h : Region q text after) {first last : Str}
    {d : Char} (htext : text = first ++ d :: last) :
    first.foldl (quoteStep quotes) (some q) = some q ∨ d = q ∧ first.getLast? = some q := by
  induction h generalizing first with
  | unfinished => exact absurd htext (by simp)
  | closed _ =>
    cases first with
    | nil => exact .inl rfl
    | cons c first => exact absurd (List.cons_eq_cons.mp htext).2 (by simp)
  | doubled h ih =>
    rcases first with _ | ⟨c, _ | ⟨c', first⟩⟩
    · exact .inl rfl
    · obtain ⟨rfl, htail⟩ := List.cons_eq_cons.mp htext
      exact .inr ⟨(List.cons_eq_cons.mp htail).1.symm, rfl⟩
    · obtain ⟨rfl, htail⟩ := List.cons_eq_cons.mp htext
      obtain ⟨rfl, hmore⟩ := List.cons_eq_cons.mp htail
      rcases ih hmore with hfold | ⟨hd, hlast⟩
      · exact .inl (by rw [List.foldl_cons, List.foldl_cons, quoteStep_self, quoteStep_open hq, hfold])
      · exact .inr ⟨hd, by rw [List.getLast?_cons, List.getLast?_cons, hlast]; rfl⟩
  | other hc h ih =>
    cases first with
    | nil => exact .inl rfl
    | cons c' first =>
      obtain ⟨rfl, hmore⟩ := List.cons_eq_cons.mp htext
      rcases ih hmore with hfold | ⟨hd, hlast⟩
      · exact .inl (by rw [List.foldl_cons, quoteStep_other hc, hfold])
      · exact .inr ⟨hd, by rw [List.getLast?_cons, hlast]; rfl⟩

theorem openQuote_append (prior text : Str) :
    openQuote quotes (prior ++ text) = text.foldl (quoteStep quotes) (openQuote quotes prior) :=
  List.foldl_append

theorem openQuote_region {prior : Str} (hq : q = '\'' ∨ quotes ∧ q = '"')
    (hprior : openQuote quotes prior = none) (text : Str) :
    openQuote quotes (prior ++ q :: text) = text.foldl (quoteStep quotes) (some q) := by
  rw [openQuote_append, hprior, List.foldl_cons, quoteStep_open hq]

end

theorem ne_quotes_of_isIdentChar {c : Char} (h : isIdentChar c = true) : c ≠ '\'' ∧ c ≠ '"' := by
  constructor <;>
  · rintro rfl
    exact absurd h (by decide)

theorem isIdentChar_of_isIdentStart {c : Char} (h : isIdentStart c = true) : isIdentChar c = true := by
  rw [isIdentStart, Bool.or_eq_true] at h
  rw [isIdentChar, Bool.or_eq_true, Bool.or_eq_true]
  exact h.imp .inl id

theorem foldl_quoteStep_none {quotes : Bool} {text : Str}
    (h : ∀ c ∈ text, c ≠ '\'' ∧ (quotes = true → c ≠ '"')) : text.foldl (quoteStep quotes) none = none := by
  induction text with
  | nil => rfl
  | cons c text ih =>
    obtain ⟨⟨hsingle, hdouble⟩, htext⟩ := List.forall_mem_cons.mp h
    rw [List.foldl_cons, quoteStep, if_neg fun hc => hc.elim hsingle fun hc => hdouble hc.1 hc.2, ih htext]

theorem inWord_append (prior text : Str) : inWord (prior ++ text) =
    text.foldl (fun within c => isIdentChar c && (within || isIdentStart c)) (inWord prior) :=
  List.foldl_append

theorem inWord_word (prior : Str) {c : Char} (hc : isIdentStart c = true) {word : Str}
    (h : ∀ d ∈ word, isIdentChar d = true) : inWord (prior ++ c :: word) = true := by
  rw [inWord_append, List.foldl_cons, isIdentChar_of_isIdentStart hc, hc, Bool.or_true, Bool.and_true]
  induction word with
  | nil => rfl
  | cons d word ih =>
    obtain ⟨hd, hword⟩ := List.forall_mem_cons.mp h
    rw [List.foldl_cons, hd, Bool.true_or, Bool.and_true, ih hword]

theorem inWord_of_last {text : Str} {c : Char} (hlast : text.getLast? = some c)
    (hc : isIdentChar c = false) : inWord text = false := by
  obtain ⟨front, rfl⟩ := List.getLast?_eq_some_iff.mp hlast
  rw [inWord_append, List.foldl_cons, hc, Bool.false_and, List.foldl_nil]

theorem getLast?_append_cons {prior text : Str} {c d : Char} (h : (c :: text).getLast? = some d) :
    (prior ++ c :: text).getLast? = some d := by
  rw [List.getLast?_append, h, Option.some_or]

theorem not_wordAt {before rest : Str} {c : Char} {t : Token} (hc : isIdentStart c = false) :
    ¬ WordAt before (c :: rest) t := by
  rintro ⟨hstart, -, -⟩
  exact absurd (hc.symm.trans hstart) (by decide)

theorem not_quotedAt {before rest : Str} {c : Char} {t : Token} (hc : c ≠ '"') :
    ¬ QuotedAt before (c :: rest) t :=
  fun h => hc (beq_iff_eq.mp h.starts)

theorem not_standsAt {quotes : Bool} {before rest : Str} {c : Char} {t : Token}
    (hstart : isIdentStart c = false) (hquote : c ≠ '"') : ¬ StandsAt quotes before (c :: rest) t :=
  fun h => h.2.elim (not_wordAt hstart) fun hquoted => not_quotedAt hquote hquoted.2

structure Boundary (quotes : Bool) (prior rest : Str) : Prop where
  closed : openQuote quotes prior = none
  apart : startsWith isIdentChar rest → inWord prior = false
  single : quotes = true → startsWith (· == '"') rest → prior.getLast? ≠ some '"'

section
variable {quotes : Bool} {prior s : Str} {c : Char} {l : Token}

theorem standsAt_start {ι : Type} {key : Str → Option ι} (h : Boundary quotes prior (c :: s))
    (hkey : (l.key key).isSome) : StandsAt quotes prior (c :: s) l ↔ l = scanNext quotes c s := by
  have hnameless : ∀ text, l ≠ ⟨text, none⟩ := by
    rintro text rfl
    cases hkey
  unfold scanNext
  split
  · next hc =>
    subst hc
    exact iff_of_false (not_standsAt (by decide) (by decide)) (hnameless _)
  split
  · next hc =>
    obtain ⟨hquotes, rfl⟩ := hc
    constructor
    · rintro ⟨-, hword | ⟨-, hquoted⟩⟩
      · exact absurd hword (not_wordAt (by decide))
      · exact hquoted.text
    · exact fun hl => ⟨h.closed, .inr ⟨hquotes, rfl, h.single hquotes rfl, hl⟩⟩
  split
  · next hstart =>
    have hword : (c :: s).takeWhile isIdentChar = c :: s.takeWhile isIdentChar :=
      List.takeWhile_cons_of_pos (isIdentChar_of_isIdentStart hstart)
    constructor
    · rintro ⟨-, hat | ⟨-, hquoted⟩⟩
      · rw [hat.text, hword]
      · exact absurd hquoted
          (not_quotedAt (ne_quotes_of_isIdentChar (isIdentChar_of_isIdentStart hstart)).2)
    · intro hl
      exact ⟨h.closed, .inl ⟨hstart, h.apart (isIdentChar_of_isIdentStart hstart), by rw [hword]; exact hl⟩⟩
  · next hsingle hdouble hstart =>
    refine iff_of_false ?_ (hnameless _)
    rintro ⟨-, hword | ⟨hquotes, hquoted⟩⟩
    · exact hstart hword.starts
    · exact hdouble ⟨hquotes, beq_iff_eq.mp hquoted.starts⟩

theorem not_standsAt_inside {first last after : Str} {d : Char} (h : Boundary quotes prior (c :: s))
    (htext : (scanNext quotes c s).text = first ++ d :: last) (hfirst : first ≠ []) :
    ¬ StandsAt quotes (prior ++ first) (d :: (last ++ after)) l := by
  obtain ⟨b, first, rfl⟩ := List.exists_cons_of_ne_nil hfirst
  unfold scanNext at htext
  split at htext
  · next hc =>
    obtain ⟨rfl, hmore⟩ := List.cons_eq_cons.mp htext
    subst hc
    rintro ⟨hclosed, hat⟩
    rw [openQuote_region (.inl rfl) h.closed] at hclosed
    rcases (scanLiteral_region s).within (.inl rfl) hmore with hopen | ⟨rfl, -⟩
    · rw [hopen] at hclosed
      cases hclosed
    · exact hat.elim (not_wordAt (by decide)) fun hquoted => not_quotedAt (by decide) hquoted.2
  split at htext
  · next hc =>
    obtain ⟨rfl, hmore⟩ := List.cons_eq_cons.mp htext
    obtain ⟨hquotes, rfl⟩ := hc
    have hq : '"' = '\'' ∨ quotes = true ∧ '"' = '"' := .inr ⟨hquotes, rfl⟩
    rintro ⟨hclosed, hat⟩
    rw [openQuote_region hq h.closed] at hclosed
    rcases (scanQuoted_region s).within hq hmore with hopen | ⟨rfl, hlast⟩
    · rw [hopen] at hclosed
      cases hclosed
    · rcases hat with hword | ⟨-, hquoted⟩
      · exact absurd hword (not_wordAt (by decide))
      · refine hquoted.apart (getLast?_append_cons ?_)
        rw [List.getLast?_cons, hlast]
        rfl
  split at htext
  · next hstart =>
    obtain ⟨rfl, hmore⟩ := List.cons_eq_cons.mp htext
    have hall : ∀ e ∈ first ++ d :: last, isIdentChar e = true := by
      have hword := List.all_takeWhile (p := isIdentChar) (l := s)
      rw [hmore] at hword
      exact List.all_eq_true.mp hword
    rintro ⟨-, hword | ⟨-, hquoted⟩⟩
    · have hwithin := inWord_word prior hstart fun e he => hall e (List.mem_append_left _ he)
      rw [hword.apart] at hwithin
      cases hwithin
    · exact absurd hquoted (not_quotedAt (ne_quotes_of_isIdentChar (hall d (by simp))).2)
  · exact absurd (List.cons_eq_cons.mp htext).2 (by simp)

theorem Boundary.signs {more : Str} (h : Boundary quotes prior (c :: s))
    (hall : ∀ e ∈ c :: more, isIdentStart e = false ∧ e ≠ '\'' ∧ (quotes = true → e ≠ '"')) (d : Char)
    (after : Str) : Boundary quotes (prior ++ c :: more) (d :: after) := by
  have hstill : ∀ text : Str, (∀ e ∈ text, isIdentStart e = false) →
      text.foldl (fun within e => isIdentChar e && (within || isIdentStart e)) false = false := by
    intro text htext
    induction text with
    | nil => rfl
    | cons e text ih =>
      obtain ⟨he, hmore⟩ := List.forall_mem_cons.mp htext
      rw [List.foldl_cons, he, Bool.or_false, Bool.and_false, ih hmore]
  refine ⟨?_, fun _ => ?_, fun hquotes _ hend => ?_⟩
  · rw [openQuote_append, h.closed, foldl_quoteStep_none fun e he => (hall e he).2]
  · have hfirst : (isIdentChar c && (inWord prior || isIdentStart c)) = false := by
      rw [(hall c List.mem_cons_self).1, Bool.or_false]
      cases hc : isIdentChar c with
      | false => rfl
      | true => rw [h.apart hc, Bool.and_false]
    rw [inWord_append, List.foldl_cons, hfirst]
    exact hstill more fun e he => (hall e (List.mem_cons_of_mem c he)).1
  · rw [List.getLast?_append_of_ne_nil _ (List.cons_ne_nil c more)] at hend
    exact (hall _ (List.mem_of_getLast? hend)).2.2 hquotes rfl

theorem Region.ends (hq : q = '\'' ∨ quotes ∧ q = '"') (h : Region q text after) (hafter : after ≠ [])
    {prior : Str} (hprior : openQuote quotes prior = none) :
    openQuote quotes (prior ++ q :: text) = none ∧ (prior ++ q :: text).getLast? = some q ∧
      after.head? ≠ some q := by
  obtain ⟨hfold, hlast, hhead⟩ := h.closes quotes hq hafter
  refine ⟨by rw [openQuote_region hq hprior, hfold], getLast?_append_cons ?_, hhead⟩
  rw [List.getLast?_cons, hlast]
  rfl

theorem boundary_step {d : Char} {after : Str} (h : Boundary quotes prior (c :: s))
    (hs : c :: s = (scanNext quotes c s).text ++ d :: after) :
    Boundary quotes (prior ++ (scanNext quotes c s).text) (d :: after) := by
  unfold scanNext at hs ⊢
  split at hs
  · next hc =>
    subst hc
    rw [if_pos rfl]
    have hafter : (scanLiteral s).2 = d :: after :=
      List.append_cancel_left ((scanLiteral_append s).trans (List.cons_eq_cons.mp hs).2)
    have hregion := scanLiteral_region s
    rw [hafter] at hregion
    obtain ⟨hclosed, hend, -⟩ := hregion.ends (.inl rfl) (List.cons_ne_nil d after) h.closed
    refine ⟨hclosed, fun _ => inWord_of_last hend (by decide), fun _ _ => ?_⟩
    rw [hend]
    decide
  split at hs
  · next hc =>
    obtain ⟨hquotes, rfl⟩ := hc
    rw [if_neg (by decide), if_pos ⟨hquotes, rfl⟩]
    have hq : '"' = '\'' ∨ quotes = true ∧ '"' = '"' := .inr ⟨hquotes, rfl⟩
    have hafter : (scanQuoted s).2.2 = d :: after :=
      List.append_cancel_left ((scanQuoted_append s).trans (List.cons_eq_cons.mp hs).2)
    have hregion := scanQuoted_region s
    rw [hafter] at hregion
    obtain ⟨hclosed, hend, hhead⟩ := hregion.ends hq (List.cons_ne_nil d after) h.closed
    exact ⟨hclosed, fun _ => inWord_of_last hend (by decide), fun _ hd =>
      absurd (congrArg some (beq_iff_eq.mp hd)) hhead⟩
  split at hs
  · next hsingle hdouble hstart =>
    rw [if_neg hsingle, if_neg hdouble, if_pos hstart]
    have hall : ∀ e ∈ c :: s.takeWhile isIdentChar, isIdentChar e = true := by
      exact List.forall_mem_cons.mpr ⟨isIdentChar_of_isIdentStart hstart,
        List.all_eq_true.mp List.all_takeWhile⟩
    have hafter : s.dropWhile isIdentChar = d :: after := by
      have hword := (List.cons_eq_cons.mp hs).2
      nth_rewrite 1 [← List.takeWhile_append_dropWhile (p := isIdentChar) (l := s)] at hword
      exact List.append_cancel_left hword
    have hd : isIdentChar d = false := by
      have hhead := List.head?_dropWhile_not isIdentChar s
      rw [hafter] at hhead
      simpa using hhead
    have hquotes : ∀ e ∈ c :: s.takeWhile isIdentChar, e ≠ '\'' ∧ (quotes = true → e ≠ '"') :=
      fun e he => (ne_quotes_of_isIdentChar (hall e he)).imp_right fun hne _ => hne
    refine ⟨?_, fun hd' => ?_, fun _ _ hend => ?_⟩
    · rw [openQuote_append, h.closed, foldl_quoteStep_none hquotes]
    · exact absurd (hd.symm.trans hd') (by decide)
    · rw [List.getLast?_append_of_ne_nil _ (List.cons_ne_nil c _)] at hend
      exact (ne_quotes_of_isIdentChar (hall _ (List.mem_of_getLast? hend))).2 rfl
  · next hsingle hdouble hstart =>
    rw [if_neg hsingle, if_neg hdouble, if_neg hstart]
    exact h.signs (List.forall_mem_singleton.mpr
      ⟨Bool.eq_false_iff.mpr hstart, hsingle, fun hquotes hc => hdouble ⟨hquotes, hc⟩⟩) d after

theorem scanNext_describes {ι : Type} (key : Str → Option ι) (quotes : Bool) :
    Describes key (scanNext quotes) (Boundary quotes) (StandsAt quotes) where
  nil _ _ h := h.2.elim (fun hword => absurd hword.starts (by decide))
    fun hquoted => absurd hquoted.2.starts (by decide)
  start _ _ _ _ hboundary hkey := standsAt_start hboundary hkey
  inside _ _ _ _ _ _ _ _ hboundary htext _ hfirst := not_standsAt_inside hboundary htext hfirst
  step _ _ _ _ _ hboundary hs := boundary_step hboundary hs

end

/-- A plain literal, a double-quoted identifier, an identifier in ASCII without a dollar, or a text
without letters and quotes. -/
inductive Ordinary (t : Token) : Prop
  | literal (h : startsWith (· == '\'') t.text)
  | quotedName (h : startsWith (· == '"') t.text)
  | asciiName (hname : t.name = some t.text) (h : ∀ c ∈ t.text, isIdentChar c = true)
  | signs (hname : t.name = none) (h : ∀ c ∈ t.text, isIdentStart c = false ∧ c ≠ '\'' ∧ c ≠ '"')

theorem isIdentStart_of_sql {c : Char} (hstart : isSqlIdentStart c = true) (h : isIdentChar c = true) :
    isIdentStart c = true := by
  rw [isIdentChar, Bool.or_eq_true, Bool.or_eq_true] at h
  rw [isSqlIdentStart, Bool.or_eq_true, decide_eq_true_eq] at hstart
  rw [isIdentStart, Bool.or_eq_true]
  rcases h with (halpha | hdigit) | hunderscore
  · exact .inl halpha
  · rcases hstart with hletter | hhigh
    · rwa [isIdentStart, Bool.or_eq_true] at hletter
    · have hlow : c.toNat ≤ 57 := (Char.isDigit_iff_toNat.mp hdigit).2
      omega
  · exact .inr hunderscore

theorem takeWhile_isSqlIdentChar {s : Str} (h : ∀ c ∈ s.takeWhile isSqlIdentChar, isIdentChar c = true) :
    s.takeWhile isSqlIdentChar = s.takeWhile isIdentChar := by
  have hsql : ∀ c, isIdentChar c = true → isSqlIdentChar c = true := by
    intro c hc
    rw [isIdentChar, Bool.or_eq_true, Bool.or_eq_true] at hc
    rw [isSqlIdentChar, isSqlIdentStart, isIdentStart]
    rcases hc with (hc | hc) | hc <;> simp [hc]
  induction s with
  | nil => rfl
  | cons c s ih =>
    rcases hc : isSqlIdentChar c with _ | _
    · have hident : isIdentChar c = false :=
        Bool.eq_false_iff.mpr fun hident => absurd (hc.symm.trans (hsql c hident)) (by decide)
      rw [List.takeWhile_cons_of_neg (by simp [hc]), List.takeWhile_cons_of_neg (by simp [hident])]
    · rw [List.takeWhile_cons_of_pos hc] at h ⊢
      obtain ⟨hident, hmore⟩ := List.forall_mem_cons.mp h
      rw [List.takeWhile_cons_of_pos hident, ih hmore]

theorem sqlNext_text (c : Char) (s : Str) : ∃ text, (sqlNext c s).text = c :: text := by
  obtain ⟨hne, hinitial⟩ := sqlNext_advances c s
  obtain ⟨d, text, htext⟩ := List.exists_cons_of_ne_nil hne
  rw [htext] at hinitial
  rw [htext, (List.cons_prefix_cons.mp hinitial).1]
  exact ⟨text, rfl⟩

theorem Ordinary.sqlNext_cases {c : Char} {s : Str} (h : Ordinary (sqlNext c s)) :
    sqlNext c s = scanNext true c s ∨ (sqlNext c s).name = none ∧
      ∀ d ∈ (sqlNext c s).text, isIdentStart d = false ∧ d ≠ '\'' ∧ d ≠ '"' := by
  obtain ⟨text, htext⟩ := sqlNext_text c s
  cases h with
  | literal h =>
    rw [htext] at h
    obtain rfl : c = '\'' := beq_iff_eq.mp h
    exact .inl rfl
  | quotedName h =>
    rw [htext] at h
    obtain rfl : c = '"' := beq_iff_eq.mp h
    exact .inl rfl
  | asciiName hname h =>
    rw [htext] at hname h
    obtain ⟨hc, -⟩ := List.forall_mem_cons.mp h
    left
    revert hname h htext
    refine Policy.sqlNext_cases (P := fun t => t.text = c :: text → t.name = some (c :: text) →
      (∀ d ∈ c :: text, isIdentChar d = true) → t = scanNext true c s) c s ?_ ?_ ?_
    · intro _ _ _ _ hname
      cases hname
    · intro hquote
      exact absurd hquote (ne_quotes_of_isIdentChar hc).2
    · intro hquote hstart htext _ h
      have hword := (List.cons_eq_cons.mp htext).2
      rw [← hword] at h
      rw [scanNext, if_neg (ne_quotes_of_isIdentChar hc).1, if_neg fun hd => hquote hd.2,
        if_pos (isIdentStart_of_sql hstart hc),
        takeWhile_isSqlIdentChar (List.forall_mem_cons.mp h).2]
  | signs hname h => exact .inr ⟨hname, h⟩

/-- Where SQL begins a token, with ordinary tokens from there on. -/
def SqlBoundary (prior rest : Str) : Prop :=
  Boundary true prior rest ∧ ∃ fuel, rest.length ≤ fuel ∧ ∀ t ∈ lex sqlNext fuel rest, Ordinary t

section
variable {prior s : Str} {c : Char}

theorem SqlBoundary.next (h : SqlBoundary prior (c :: s)) : Ordinary (sqlNext c s) := by
  obtain ⟨-, fuel, hfuel, hall⟩ := h
  obtain ⟨fuel, rfl⟩ := Nat.exists_eq_add_one_of_ne_zero (Nat.ne_zero_of_lt hfuel)
  exact hall _ List.mem_cons_self

theorem SqlBoundary.step {d : Char} {after : Str} (h : SqlBoundary prior (c :: s))
    (hs : c :: s = (sqlNext c s).text ++ d :: after) :
    SqlBoundary (prior ++ (sqlNext c s).text) (d :: after) := by
  have hordinary := h.next
  obtain ⟨hboundary, fuel, hfuel, hall⟩ := h
  obtain ⟨fuel, rfl⟩ := Nat.exists_eq_add_one_of_ne_zero (Nat.ne_zero_of_lt hfuel)
  refine ⟨?_, fuel, ?_, ?_⟩
  · rcases hordinary.sqlNext_cases with hsame | ⟨-, hsigns⟩
    · rw [hsame] at hs ⊢
      exact boundary_step hboundary hs
    · obtain ⟨more, htext⟩ := sqlNext_text c s
      rw [htext] at hsigns ⊢
      exact hboundary.signs (fun e he => (hsigns e he).imp_right fun hne => hne.imp_right fun hne _ => hne)
        d after
  · have hlength := congrArg List.length hs
    have hpos := List.length_pos_iff.mpr (sqlNext_advances c s).1
    rw [List.length_append] at hlength
    omega
  · intro t ht
    have hdrop : (c :: s).drop (sqlNext c s).text.length = d :: after := by
      conv_lhs => rw [hs]
      exact List.drop_left
    refine hall t (List.mem_cons_of_mem _ ?_)
    rwa [hdrop]

theorem sqlNext_describes {ι : Type} (key : Str → Option ι) :
    Describes key sqlNext SqlBoundary (StandsAt true) where
  nil := (scanNext_describes key true).nil
  start prior c s l hboundary hkey := by
    rcases hboundary.next.sqlNext_cases with hsame | ⟨hname, hsigns⟩
    · rw [hsame]
      exact standsAt_start hboundary.1 hkey
    · obtain ⟨text, htext⟩ := sqlNext_text c s
      have hc := hsigns c (by rw [htext]; exact List.mem_cons_self)
      refine iff_of_false (not_standsAt hc.1 hc.2.2) fun hl => ?_
      rw [hl, Lexeme.key, hname] at hkey
      cases hkey
  inside prior c s first d last after l hboundary htext _ hfirst := by
    rcases hboundary.next.sqlNext_cases with hsame | ⟨-, hsigns⟩
    · rw [hsame] at htext
      exact not_standsAt_inside hboundary.1 htext hfirst
    · have hd := hsigns d (by rw [htext]; simp)
      exact not_standsAt hd.1 hd.2.2
  step _ _ _ _ _ hboundary hs := hboundary.step hs

end

end Quackapi.Policy
