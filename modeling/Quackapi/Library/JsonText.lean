import Mathlib.Data.List.Basic
import Mathlib.Data.List.Nodup
import Mathlib.Data.Nat.Init

/-! The grammar of JSON: which text is which value. An escape by code point stands for the characters
that encode it, which is a parameter. -/

namespace Library

inductive Json
  /-- A number or a word, as its text. -/
  | scalar (text : List Char)
  | string (s : List Char)
  | array (items : List Json)
  | object (members : List (List Char × Json))

namespace Json

inductive UniqueKeys : Json → Prop
  | scalar (text : List Char) : UniqueKeys (.scalar text)
  | string (s : List Char) : UniqueKeys (.string s)
  | array {items : List Json} (hitems : ∀ j ∈ items, UniqueKeys j) : UniqueKeys (.array items)
  | object {members : List (List Char × Json)} (hkeys : (members.map Prod.fst).Nodup)
      (hvalues : ∀ m ∈ members, UniqueKeys m.2) : UniqueKeys (.object members)

def members : Json → List (List Char × Json)
  | .object members => members
  | _ => []

def member (key : List Char) (j : Json) : Option Json := j.members.lookup key

/-- The items of an array, or the values of an object. -/
def parts : Json → List Json
  | .array items => items
  | .object members => members.map Prod.snd
  | _ => []

inductive HasKey (key : List Char) : Json → Prop
  | here {members : List (List Char × Json)} (h : key ∈ members.map Prod.fst) :
      HasKey key (.object members)
  | member {members : List (List Char × Json)} {m : List Char × Json} (hm : m ∈ members)
      (h : HasKey key m.2) : HasKey key (.object members)
  | item {items : List Json} {j : Json} (hj : j ∈ items) (h : HasKey key j) : HasKey key (.array items)

end Json

def IsDigits (s : List Char) : Prop := s ≠ [] ∧ ∀ c ∈ s, c.isDigit = true

def IsWhole (s : List Char) : Prop := IsDigits s ∧ (s.head? = some '0' → s = ['0'])

def IsFraction (s : List Char) : Prop := s = [] ∨ ∃ digits, s = '.' :: digits ∧ IsDigits digits

def IsExponent (s : List Char) : Prop :=
  s = [] ∨ ∃ e sign digits, s = e :: (sign ++ digits) ∧ (e = 'e' ∨ e = 'E') ∧
    (sign = [] ∨ sign = ['+'] ∨ sign = ['-']) ∧ IsDigits digits

def IsNumber (s : List Char) : Prop :=
  ∃ sign whole fraction exponent, s = sign ++ whole ++ fraction ++ exponent ∧
    (sign = [] ∨ sign = ['-']) ∧ IsWhole whole ∧ IsFraction fraction ∧ IsExponent exponent

def IsScalar (s : List Char) : Prop :=
  s = "true".toList ∨ s = "false".toList ∨ s = "null".toList ∨ IsNumber s

/-- A backslash and the first of a pair stand for the second. -/
def shortEscapes : List (Char × Char) :=
  [('"', '"'), ('\\', '\\'), ('/', '/'), ('b', '\x08'), ('f', '\x0c'), ('n', '\n'), ('r', '\r'),
    ('t', '\t')]

def hexDigit (c : Char) : Option Nat :=
  if '0' ≤ c ∧ c ≤ '9' then some (c.toNat - 48)
  else if 'a' ≤ c ∧ c ≤ 'f' then some (c.toNat - 87)
  else if 'A' ≤ c ∧ c ≤ 'F' then some (c.toNat - 55)
  else none

def hexCode : List Char → Option Nat
  | [a, b, c, d] => do
    let a ← hexDigit a
    let b ← hexDigit b
    let c ← hexDigit c
    let d ← hexDigit d
    return ((a * 16 + b) * 16 + c) * 16 + d
  | _ => none

/-- What stands between quotes, and what it means. A code point above the 16-bit ones takes two
escapes. -/
inductive CharsText (encode : Nat → List Char) : List Char → List Char → Prop
  | nil : CharsText encode [] []
  | plain {c : Char} {raw s : List Char} (hquote : c ≠ '"') (hbackslash : c ≠ '\\')
      (hcontrol : 0x20 ≤ c.toNat) (h : CharsText encode raw s) : CharsText encode (c :: raw) (c :: s)
  | escape {c d : Char} {raw s : List Char} (hcd : (c, d) ∈ shortEscapes)
      (h : CharsText encode raw s) : CharsText encode ('\\' :: c :: raw) (d :: s)
  | code {hex raw s : List Char} {n : Nat} (hhex : hexCode hex = some n)
      (hn : n < 0xd800 ∨ 0xdfff < n) (h : CharsText encode raw s) :
      CharsText encode ('\\' :: 'u' :: (hex ++ raw)) (encode n ++ s)
  | pair {high low raw s : List Char} {m n : Nat} (hhigh : hexCode high = some m)
      (hlow : hexCode low = some n) (hm : 0xd800 ≤ m ∧ m ≤ 0xdbff) (hn : 0xdc00 ≤ n ∧ n ≤ 0xdfff)
      (h : CharsText encode raw s) :
      CharsText encode ('\\' :: 'u' :: (high ++ '\\' :: 'u' :: (low ++ raw)))
        (encode (0x10000 + (m - 0xd800) * 0x400 + (n - 0xdc00)) ++ s)

def IsBlank (s : List Char) : Prop := ∀ c ∈ s, c = ' ' ∨ c = '\n' ∨ c = '\r' ∨ c = '\t'

/-- A key in an object's text, with the space around it. -/
def KeyText (encode : Nat → List Char) (raw key : List Char) : Prop :=
  ∃ before body after, raw = before ++ '"' :: (body ++ '"' :: after) ∧ IsBlank before ∧
    IsBlank after ∧ CharsText encode body key

structure MemberText where
  rawKey : List Char
  key : List Char
  rawValue : List Char
  value : Json

def MemberText.raw (m : MemberText) : List Char := m.rawKey ++ ':' :: m.rawValue

def MemberText.member (m : MemberText) : List Char × Json := (m.key, m.value)

def commaed (texts : List (List Char)) : List Char := [','].intercalate texts

inductive JsonText (encode : Nat → List Char) : List Char → Json → Prop
  | scalar {text : List Char} (h : IsScalar text) : JsonText encode text (.scalar text)
  | string {raw s : List Char} (h : CharsText encode raw s) :
      JsonText encode ('"' :: (raw ++ ['"'])) (.string s)
  | emptyArray {pad : List Char} (hpad : IsBlank pad) :
      JsonText encode ('[' :: (pad ++ [']'])) (.array [])
  | array {items : List (List Char × Json)} (h : ∀ p ∈ items, JsonText encode p.1 p.2) :
      JsonText encode ('[' :: (commaed (items.map Prod.fst) ++ [']'])) (.array (items.map Prod.snd))
  | emptyObject {pad : List Char} (hpad : IsBlank pad) :
      JsonText encode ('\x7b' :: (pad ++ ['\x7d'])) (.object [])
  | object {ms : List MemberText} (hkeys : ∀ m ∈ ms, KeyText encode m.rawKey m.key)
      (hvalues : ∀ m ∈ ms, JsonText encode m.rawValue m.value) :
      JsonText encode ('\x7b' :: (commaed (ms.map MemberText.raw) ++ ['\x7d']))
        (.object (ms.map MemberText.member))
  | padded {before text after : List Char} {j : Json} (hbefore : IsBlank before)
      (hafter : IsBlank after) (h : JsonText encode text j) :
      JsonText encode (before ++ text ++ after) j

/-- A JSON text in which no object repeats a key. -/
def IsJson (encode : Nat → List Char) (text : List Char) : Prop :=
  ∃ j, JsonText encode text j ∧ j.UniqueKeys

section Rules
variable {encode : Nat → List Char}

theorem IsJson.scalar {text : List Char} (h : IsScalar text) : IsJson encode text :=
  ⟨.scalar text, .scalar h, .scalar text⟩

theorem IsJson.string {raw s : List Char} (h : CharsText encode raw s) :
    IsJson encode ('"' :: (raw ++ ['"'])) :=
  ⟨.string s, .string h, .string s⟩

theorem exists_values {α β : Type*} {P : α → β → Prop} {l : List α} (h : ∀ a ∈ l, ∃ b, P a b) :
    ∃ ps : List (α × β), ps.map Prod.fst = l ∧ ∀ p ∈ ps, P p.1 p.2 := by
  induction l with
  | nil => exact ⟨[], rfl, nofun⟩
  | cons a l ih =>
    obtain ⟨b, hb⟩ := h a List.mem_cons_self
    obtain ⟨ps, hmap, hps⟩ := ih fun x hx => h x (List.mem_cons_of_mem _ hx)
    refine ⟨(a, b) :: ps, congrArg (a :: ·) hmap, ?_⟩
    exact List.forall_mem_cons.mpr ⟨hb, hps⟩

theorem IsJson.array {texts : List (List Char)} (h : ∀ t ∈ texts, IsJson encode t) :
    IsJson encode ('[' :: (commaed texts ++ [']'])) := by
  obtain ⟨ps, rfl, hps⟩ := exists_values h
  refine ⟨.array (ps.map Prod.snd), .array fun p hp => (hps p hp).1, .array fun j hj => ?_⟩
  obtain ⟨p, hp, rfl⟩ := List.mem_map.mp hj
  exact (hps p hp).2

theorem head?_toDigits {n : Nat} (hn : 0 < n) : (Nat.toDigits 10 n).head? ≠ some '0' := by
  induction n using Nat.strong_induction_on with
  | _ n ih =>
    by_cases hlt : n < 10
    · rw [Nat.toDigits_of_lt_base hlt]
      have hdigit : ∀ d < 10, 0 < d → some (Nat.digitChar d) ≠ some '0' := by decide
      exact hdigit n hlt hn
    · have hdiv : 0 < n / 10 := Nat.div_pos (by omega) (by decide)
      rw [Nat.toDigits_of_base_le (by decide) (by omega), List.head?_append]
      rcases hhead : (Nat.toDigits 10 (n / 10)).head? with _ | c
      · exact absurd (List.head?_eq_none_iff.mp hhead) Nat.toDigits_ne_nil
      · rw [Option.some_or, ← hhead]
        exact ih (n / 10) (Nat.div_lt_self hn (by decide)) hdiv

theorem isNumber_toDigits (n : Nat) : IsNumber (Nat.toDigits 10 n) := by
  refine ⟨[], Nat.toDigits 10 n, [], [], by simp only [List.nil_append, List.append_nil], .inl rfl,
    ⟨⟨Nat.toDigits_ne_nil, ?_⟩, ?_⟩, .inl rfl, .inl rfl⟩
  · exact fun c hc => Nat.isDigit_of_mem_toDigits (by decide) (by decide) hc
  · intro hhead
    rcases Nat.eq_zero_or_pos n with rfl | hn
    · rfl
    · exact absurd hhead (head?_toDigits hn)

theorem commaed_nil : commaed [] = [] := List.intercalate_nil

theorem commaed_singleton (t : List Char) : commaed [t] = t := List.intercalate_singleton

theorem commaed_cons_cons (t u : List Char) (texts : List (List Char)) :
    commaed (t :: u :: texts) = t ++ ',' :: commaed (u :: texts) := by
  rw [commaed, List.intercalate_cons_cons, List.append_assoc]
  rfl

theorem commaed_append {texts : List (List Char)} (hne : texts ≠ []) (t : List Char) :
    commaed (texts ++ [t]) = commaed texts ++ ',' :: t := by
  induction texts with
  | nil => exact absurd rfl hne
  | cons u texts ih =>
    cases texts with
    | nil =>
      rw [commaed_singleton]
      exact (commaed_cons_cons u t []).trans (by rw [commaed_singleton])
    | cons v texts =>
      calc commaed (u :: v :: texts ++ [t]) = u ++ ',' :: commaed (v :: texts ++ [t]) :=
            commaed_cons_cons u v (texts ++ [t])
        _ = commaed (u :: v :: texts) ++ ',' :: t := by
            rw [ih (List.cons_ne_nil v texts), commaed_cons_cons, List.append_assoc,
              List.cons_append]

theorem mem_commaed {texts : List (List Char)} {t : List Char} (ht : t ∈ texts) {c : Char}
    (hc : c ∈ t) : c ∈ commaed texts := by
  induction texts with
  | nil => cases ht
  | cons u texts ih =>
    cases texts with
    | nil =>
      rw [List.mem_singleton.mp ht] at hc
      rwa [commaed_singleton]
    | cons v texts =>
      rw [commaed_cons_cons, List.mem_append]
      rcases List.mem_cons.mp ht with rfl | ht
      · exact .inl hc
      · exact .inr (List.mem_cons_of_mem _ (ih ht))

theorem commaed_ne_nil {texts : List (List Char)} (hne : texts ≠ []) (h : ∀ t ∈ texts, t ≠ []) :
    commaed texts ≠ [] := by
  obtain ⟨t, texts, rfl⟩ := List.exists_cons_of_ne_nil hne
  obtain ⟨c, hc⟩ := List.exists_mem_of_ne_nil t (h t List.mem_cons_self)
  exact List.ne_nil_of_mem (mem_commaed List.mem_cons_self hc)

theorem CharsText.eq_of_no_backslash {raw s : List Char} (h : CharsText encode raw s)
    (hraw : '\\' ∉ raw) : raw = s := by
  induction h with
  | nil => rfl
  | plain _ _ _ _ ih => rw [ih fun hmem => hraw (List.mem_cons_of_mem _ hmem)]
  | escape => exact absurd List.mem_cons_self hraw
  | code => exact absurd List.mem_cons_self hraw
  | pair => exact absurd List.mem_cons_self hraw

theorem KeyText.subset {raw key : List Char} (h : KeyText encode raw key) (hraw : '\\' ∉ raw) :
    ∀ c ∈ key, c ∈ raw := by
  obtain ⟨before, body, after, rfl, _, _, hbody⟩ := h
  intro c hc
  have hin : ∀ d ∈ body, d ∈ before ++ '"' :: (body ++ '"' :: after) := by
    intro d hd
    exact List.mem_append_right _ (List.mem_cons_of_mem _ (List.mem_append_left _ hd))
  rw [← hbody.eq_of_no_backslash fun hmem => hraw (hin _ hmem)] at hc
  exact hin c hc

theorem JsonText.key_subset {text key : List Char} {j : Json} (h : JsonText encode text j)
    (hkey : j.HasKey key) (htext : '\\' ∉ text) : ∀ c ∈ key, c ∈ text := by
  induction h with
  | scalar => cases hkey
  | string => cases hkey
  | emptyArray => cases hkey with | item hj => cases hj
  | emptyObject =>
    cases hkey with
    | here h => cases h
    | member hm => cases hm
  | @array items _ ih =>
    cases hkey with
    | item hj hkey =>
      obtain ⟨p, hp, rfl⟩ := List.mem_map.mp hj
      have hin : ∀ c ∈ p.1, c ∈ '[' :: (commaed (items.map Prod.fst) ++ [']']) := fun c hc =>
        List.mem_cons_of_mem _ (List.mem_append_left _ (mem_commaed (List.mem_map_of_mem hp) hc))
      exact fun c hc => hin c (ih p hp hkey (fun hmem => htext (hin _ hmem)) c hc)
  | @object ms hkeys _ ih =>
    have hin : ∀ m ∈ ms, ∀ c ∈ m.raw,
        c ∈ '\x7b' :: (commaed (ms.map MemberText.raw) ++ ['\x7d']) := fun m hm c hc =>
      List.mem_cons_of_mem _ (List.mem_append_left _ (mem_commaed (List.mem_map_of_mem hm) hc))
    cases hkey with
    | here h =>
      obtain ⟨p, hp, rfl⟩ := List.mem_map.mp h
      obtain ⟨m, hm, rfl⟩ := List.mem_map.mp hp
      have hraw : ∀ c ∈ m.rawKey, c ∈ m.raw := fun c hc => List.mem_append_left _ hc
      intro c hc
      exact hin m hm c (hraw c
        ((hkeys m hm).subset (fun hmem => htext (hin m hm _ (hraw _ hmem))) c hc))
    | member hp hkey =>
      obtain ⟨m, hm, rfl⟩ := List.mem_map.mp hp
      have hraw : ∀ c ∈ m.rawValue, c ∈ m.raw := fun c hc =>
        List.mem_append_right _ (List.mem_cons_of_mem _ hc)
      exact fun c hc => hin m hm c
        (hraw c (ih m hm hkey (fun hmem => htext (hin m hm _ (hraw _ hmem))) c hc))
  | @padded before text after _ _ _ _ ih =>
    have hin : ∀ c ∈ text, c ∈ before ++ text ++ after := fun c hc =>
      List.mem_append_left _ (List.mem_append_right _ hc)
    exact fun c hc => hin c (ih hkey (fun hmem => htext (hin _ hmem)) c hc)

theorem length_le_commaed {texts : List (List Char)} {t : List Char} (ht : t ∈ texts) :
    t.length ≤ (commaed texts).length := by
  induction texts with
  | nil => cases ht
  | cons u texts ih =>
    cases texts with
    | nil =>
      have hsame : t = commaed [u] := (List.mem_singleton.mp ht).trans (commaed_singleton u).symm
      exact Nat.le_of_eq (congrArg List.length hsame)
    | cons v texts =>
      rw [commaed_cons_cons, List.length_append, List.length_cons]
      rcases List.mem_cons.mp ht with rfl | ht
      · exact Nat.le_add_right t.length _
      · have hle := ih ht
        omega

theorem length_commaed (texts : List (List Char)) : texts.length ≤ (commaed texts).length + 1 := by
  induction texts with
  | nil => exact Nat.zero_le _
  | cons u texts ih =>
    cases texts with
    | nil => exact Nat.le_add_left _ _
    | cons v texts =>
      rw [commaed_cons_cons]
      simp only [List.length_append, List.length_cons] at ih ⊢
      omega

theorem JsonText.length_parts {text : List Char} {j : Json} (h : JsonText encode text j) :
    j.parts.length ≤ text.length := by
  induction h with
  | scalar => exact Nat.zero_le _
  | string => exact Nat.zero_le _
  | emptyArray => exact Nat.zero_le _
  | @array items =>
    have hle := length_commaed (items.map Prod.fst)
    rw [Json.parts, List.length_cons, List.length_append, List.length_map, List.length_singleton]
    rw [List.length_map] at hle
    omega
  | emptyObject => exact Nat.zero_le _
  | @object ms =>
    have hle := length_commaed (ms.map MemberText.raw)
    rw [Json.parts, List.length_cons, List.length_append, List.length_map, List.length_map,
      List.length_singleton]
    rw [List.length_map] at hle
    omega
  | padded _ _ _ ih =>
    rw [List.length_append, List.length_append]
    omega

theorem JsonText.text_of_part {text : List Char} {j : Json} (h : JsonText encode text j) {i : Json}
    (hi : i ∈ j.parts) : ∃ t, JsonText encode t i ∧ t.length ≤ text.length := by
  induction h with
  | scalar => cases hi
  | string => cases hi
  | emptyArray => cases hi
  | @array items hitems _ =>
    obtain ⟨p, hp, rfl⟩ := List.mem_map.mp hi
    have hle := length_le_commaed (List.mem_map_of_mem (f := Prod.fst) hp)
    refine ⟨p.1, hitems p hp, ?_⟩
    rw [List.length_cons, List.length_append]
    omega
  | emptyObject => cases hi
  | @object ms _ hvalues _ =>
    obtain ⟨member, hmember, rfl⟩ := List.mem_map.mp hi
    obtain ⟨m, hm, rfl⟩ := List.mem_map.mp hmember
    have hle := length_le_commaed (List.mem_map_of_mem (f := MemberText.raw) hm)
    refine ⟨m.rawValue, hvalues m hm, ?_⟩
    rw [MemberText.raw, List.length_append, List.length_cons] at hle
    rw [List.length_cons, List.length_append]
    omega
  | padded _ _ _ ih =>
    obtain ⟨t, ht, hle⟩ := ih hi
    refine ⟨t, ht, ?_⟩
    rw [List.length_append, List.length_append]
    omega

end Rules
end Library
