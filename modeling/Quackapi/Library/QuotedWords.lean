import Mathlib.Data.List.Basic
import Mathlib.Data.List.TakeWhile

/-! Texts made of words between blanks and of literals between quotes, where a quote in a literal is
doubled. What is a blank, and what else is taken off the end of a text, are parameters. -/

namespace Library

def strip (p q : Char → Bool) (s : List Char) : List Char :=
  ((s.dropWhile p).reverse.dropWhile q).reverse

theorem dropWhile_append_of_all {p : Char → Bool} {a s : List Char} (ha : ∀ c ∈ a, p c = true)
    (hs : ∀ c ∈ s.head?, p c = false) : (a ++ s).dropWhile p = s := by
  induction a with
  | nil =>
    cases s with
    | nil => rfl
    | cons c s => exact List.dropWhile_cons_of_neg (by simp [hs c rfl])
  | cons c a ih =>
    obtain ⟨hc, ha⟩ := List.forall_mem_cons.mp ha
    rw [List.cons_append, List.dropWhile_cons_of_pos hc]
    exact ih ha

theorem cut_at {c : Char} {s t : List Char} (h : c ∉ s) :
    (s ++ c :: t).takeWhile (fun d => decide (d ≠ c)) = s ∧
      (s ++ c :: t).dropWhile (fun d => decide (d ≠ c)) = c :: t := by
  have hpos : ∀ d ∈ s, decide (d ≠ c) = true := fun d hd => decide_eq_true fun heq => h (heq ▸ hd)
  rw [List.takeWhile_append_of_pos hpos, List.dropWhile_append_of_pos hpos,
    List.takeWhile_cons_of_neg (by simp), List.dropWhile_cons_of_neg (by simp), List.append_nil]
  exact ⟨rfl, rfl⟩

/-- Nothing is taken off a text that is not empty and whose ends are no such characters. -/
structure Tight (p q : Char → Bool) (s : List Char) : Prop where
  nonempty : s ≠ []
  front : ∀ c ∈ s.head?, p c = false
  back : ∀ c ∈ s.getLast?, q c = false

section
variable {p q : Char → Bool} {a s t : List Char}

theorem Tight.strip_append (h : Tight p q s) (ha : ∀ c ∈ a, p c = true) : strip p q (a ++ s) = s := by
  have hlast : (s.reverse).dropWhile q = s.reverse := by
    rw [← List.nil_append s.reverse]
    refine dropWhile_append_of_all (fun _ hc => nomatch hc) fun c hc => ?_
    rw [List.head?_reverse] at hc
    exact h.back c hc
  rw [strip, dropWhile_append_of_all ha h.front, hlast, List.reverse_reverse]

theorem Tight.strip_append_append (h : Tight p q s) {b : List Char} (ha : ∀ c ∈ a, p c = true)
    (hb : ∀ c ∈ b, q c = true) : Library.strip p q (a ++ (s ++ b)) = s := by
  have hfront : (a ++ (s ++ b)).dropWhile p = s ++ b := by
    refine dropWhile_append_of_all ha fun c hc => ?_
    rw [List.head?_append_of_ne_nil _ h.nonempty] at hc
    exact h.front c hc
  have hback : (b.reverse ++ s.reverse).dropWhile q = s.reverse := by
    refine dropWhile_append_of_all (fun c hc => hb c (List.mem_reverse.mp hc)) fun c hc => ?_
    rw [List.head?_reverse] at hc
    exact h.back c hc
  rw [Library.strip, hfront, List.reverse_append, hback, List.reverse_reverse]

theorem Tight.strip (h : Tight p q s) : strip p q s = s := h.strip_append (a := []) fun _ hc => nomatch hc

theorem Tight.append (h : Tight p q s) (ht : t ≠ []) (hfront : ∀ c ∈ t.head?, p c = false) :
    Tight p q (t ++ s) where
  nonempty := by simp [ht]
  front := by rwa [List.head?_append_of_ne_nil _ ht]
  back := by rw [List.getLast?_append_of_ne_nil _ h.nonempty]; exact h.back

end

def doubled (quote : Char) (v : List Char) : List Char :=
  v.flatMap fun c => if c = quote then [quote, quote] else [c]

def quoted (quote : Char) (v : List Char) : List Char := quote :: (doubled quote v ++ [quote])

theorem doubled_of_not_mem {quote : Char} {v : List Char} (h : quote ∉ v) : doubled quote v = v := by
  induction v with
  | nil => rfl
  | cons c v ih =>
    have hc : c ≠ quote := fun heq => h (heq ▸ List.mem_cons_self)
    have hv : doubled quote v = v := ih fun hmem => h (List.mem_cons_of_mem _ hmem)
    rw [doubled, List.flatMap_cons, if_neg hc]
    exact congrArg (c :: ·) hv

inductive Piece
  | word (w : List Char)
  | literal (v : List Char)
deriving DecidableEq

section
variable (p q : Char → Bool) (quote : Char)

def IsPlainWord (w : List Char) : Prop := w ≠ [] ∧ ∀ c ∈ w, p c = false ∧ c ≠ quote

def IsGap (b : List Char) : Prop := ∀ c ∈ b, p c = true

/-- The text starts with the piece, and the rest behind it, without the blanks between them. -/
inductive Starts : Piece → List Char → List Char → Prop
  | word {w b rest : List Char} (hw : IsPlainWord p quote w) (hb : IsGap p b) (hne : b ≠ [])
      (hrest : Tight p q rest) : Starts (.word w) (w ++ (b ++ rest)) rest
  | literal {v b rest : List Char} (hb : IsGap p b) (hrest : Tight p q rest)
      (hend : b = [] → ∀ c ∈ rest.head?, c ≠ quote) : Starts (.literal v) (quoted quote v ++ (b ++ rest)) rest

/-- The text starts with the pieces, one after the other. -/
inductive StartsAll : List Piece → List Char → List Char → Prop
  | nil {rest : List Char} : StartsAll [] rest rest
  | cons {x : Piece} {xs : List Piece} {text mid rest : List Char} (h : Starts p q quote x text mid)
      (hrest : StartsAll xs mid rest) : StartsAll (x :: xs) text rest

end

section
variable {p q : Char → Bool} {quote : Char} {x : Piece} {xs ys : List Piece}
  {w v text mid rest : List Char}

theorem Starts.tight_rest (h : Starts p q quote x text rest) : Tight p q rest := by
  cases h with
  | word hw hb hne hrest => exact hrest
  | literal hb hrest hend => exact hrest

theorem Starts.tight (hquote : p quote = false) (h : Starts p q quote x text rest) : Tight p q text := by
  cases h with
  | @word w b rest hw hb hne hrest =>
    obtain ⟨c, w, rfl⟩ := List.exists_cons_of_ne_nil hw.1
    rw [← List.append_assoc]
    refine hrest.append (by simp) fun d hd => ?_
    rw [← Option.some.inj hd]
    exact (hw.2 c List.mem_cons_self).1
  | literal hb hrest hend =>
    rw [← List.append_assoc]
    refine hrest.append (by simp [quoted]) fun d hd => ?_
    rw [← Option.some.inj hd]
    exact hquote

theorem StartsAll.tight (hquote : p quote = false) (h : StartsAll p q quote xs text rest)
    (hrest : Tight p q rest) : Tight p q text := by
  cases h with
  | nil => exact hrest
  | cons h _ => exact h.tight hquote

theorem StartsAll.append (h : StartsAll p q quote xs text mid) (h' : StartsAll p q quote ys mid rest) :
    StartsAll p q quote (xs ++ ys) text rest := by
  induction h with
  | nil => exact h'
  | cons hx _ ih => exact .cons hx (ih h')

theorem Starts.takeWhile_word (h : Starts p q quote (.word w) text rest) :
    text.takeWhile (fun c => !p c) = w ∧ strip p q (text.dropWhile fun c => !p c) = rest := by
  cases h with
  | @word w b rest hw hb hne hrest =>
    have hpos : ∀ c ∈ w, (!p c) = true := fun c hc => by simp [(hw.2 c hc).1]
    obtain ⟨d, b, rfl⟩ := List.exists_cons_of_ne_nil hne
    have htake : (d :: b ++ rest).takeWhile (fun c => !p c) = [] := by simp [hb d List.mem_cons_self]
    have hdrop : (d :: b ++ rest).dropWhile (fun c => !p c) = d :: b ++ rest := by
      simp [hb d List.mem_cons_self]
    rw [List.takeWhile_append_of_pos hpos, List.dropWhile_append_of_pos hpos, htake, hdrop, List.append_nil]
    exact ⟨rfl, hrest.strip_append hb⟩

theorem Starts.length_lt (h : Starts p q quote x text rest) : rest.length < text.length := by
  cases h with
  | word hw hb hne hrest =>
    have hpos := List.length_pos_iff.mpr hw.1
    simp only [List.length_append]
    omega
  | literal hb hrest hend =>
    simp only [quoted, List.length_append, List.length_cons]
    omega

theorem StartsAll.length_le (h : StartsAll p q quote xs text rest) :
    rest.length + xs.length ≤ text.length := by
  induction h with
  | nil => exact Nat.le_refl _
  | cons hx _ ih =>
    have hlt := hx.length_lt
    rw [List.length_cons]
    omega

theorem Starts.word_eq (h : Starts p q quote (.word w) text rest) :
    IsPlainWord p quote w ∧ ∃ b, IsGap p b ∧ b ≠ [] ∧ text = w ++ (b ++ rest) := by
  cases h with
  | word hw hb hne hrest => exact ⟨hw, _, hb, hne, rfl⟩

theorem Starts.literal_eq (h : Starts p q quote (.literal v) text rest) :
    ∃ b, IsGap p b ∧ (b = [] → ∀ c ∈ rest.head?, c ≠ quote) ∧ text = quoted quote v ++ (b ++ rest) := by
  cases h with
  | literal hb hrest hend => exact ⟨_, hb, hend, rfl⟩

theorem Starts.exists_text (hspace : p ' ' = true) (h : Starts p q quote x text mid)
    (hrest : Tight p q rest) : ∃ text', Starts p q quote x text' rest := by
  have hgap : IsGap p [' '] := fun c hc => by rw [List.mem_singleton.mp hc]; exact hspace
  cases h with
  | word hw hb hne _ => exact ⟨_, .word hw hgap (List.cons_ne_nil _ _) hrest⟩
  | literal hb _ hend => exact ⟨_, .literal hgap hrest fun h => nomatch h⟩

theorem StartsAll.exists_text (hspace : p ' ' = true) (hquote : p quote = false)
    (h : StartsAll p q quote xs text mid) (hrest : Tight p q rest) :
    ∃ text', StartsAll p q quote xs text' rest ∧ Tight p q text' := by
  induction h with
  | nil => exact ⟨rest, .nil, hrest⟩
  | cons hx _ ih =>
    obtain ⟨mid', hmid, htight⟩ := ih
    obtain ⟨text', hx'⟩ := hx.exists_text hspace htight
    exact ⟨text', .cons hx' hmid, hx'.tight hquote⟩

end

end Library
