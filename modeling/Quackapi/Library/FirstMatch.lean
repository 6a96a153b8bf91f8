import Mathlib.Data.List.Nodup

/-! Registries kept in insertion order and searched from the front: the first entry of a key is the
one found, replaced or erased. With distinct keys it is the only one, which is what the rules
about membership need. -/

namespace Library

section
variable {α κ : Type*} [DecidableEq κ] (key : α → κ)

def findKey (k : κ) (l : List α) : Option α := l.find? fun a => key a = k

def replaceKey (b : α) : List α → List α
  | [] => []
  | a :: l => if key a = key b then b :: l else a :: replaceKey b l

def eraseKey (k : κ) (l : List α) : List α := l.eraseP fun a => key a = k

variable {key}

theorem findKey_eq_some {k : κ} {l : List α} {a : α} (h : findKey key k l = some a) :
    a ∈ l ∧ key a = k :=
  ⟨List.mem_of_find?_eq_some h, by simpa using List.find?_some h⟩

theorem findKey_eq_none {k : κ} {l : List α} : findKey key k l = none ↔ k ∉ l.map key := by
  simp only [findKey, List.find?_eq_none, decide_eq_true_eq, List.mem_map, not_exists, not_and]

theorem findKey_eq_some_iff {l : List α} (hl : (l.map key).Nodup) {k : κ} {a : α} :
    findKey key k l = some a ↔ a ∈ l ∧ key a = k := by
  refine ⟨findKey_eq_some, fun ⟨ha, hk⟩ => ?_⟩
  rcases hf : findKey key k l with _ | b
  · exact absurd (hk ▸ List.mem_map_of_mem ha) (findKey_eq_none.mp hf)
  · obtain ⟨hb, hbk⟩ := findKey_eq_some hf
    rw [List.inj_on_of_nodup_map hl hb ha (hbk.trans hk.symm)]

@[simp] theorem map_key_replaceKey (b : α) (l : List α) :
    (replaceKey key b l).map key = l.map key := by
  induction l with
  | nil => rfl
  | cons a l ih =>
    simp only [replaceKey]
    split
    · next h => simp only [List.map_cons, h]
    · simp only [List.map_cons, ih]

theorem mem_of_mem_replaceKey {b x : α} {l : List α} (h : x ∈ replaceKey key b l) :
    x = b ∨ x ∈ l := by
  induction l with
  | nil => cases h
  | cons a l ih =>
    simp only [replaceKey] at h
    split at h
    · rcases List.mem_cons.mp h with rfl | h
      · exact .inl rfl
      · exact .inr (List.mem_cons_of_mem _ h)
    · rcases List.mem_cons.mp h with rfl | h
      · exact .inr List.mem_cons_self
      · exact (ih h).imp_right (List.mem_cons_of_mem _)

theorem mem_replaceKey_self {b : α} {l : List α} (h : key b ∈ l.map key) :
    b ∈ replaceKey key b l := by
  induction l with
  | nil => cases h
  | cons a l ih =>
    simp only [replaceKey]
    split
    · exact List.mem_cons_self
    · next hne =>
      rcases List.mem_cons.mp h with he | ht
      · exact absurd he.symm hne
      · exact List.mem_cons_of_mem _ (ih ht)

theorem mem_replaceKey_of_ne {b x : α} {l : List α} (h : x ∈ l) (hne : key x ≠ key b) :
    x ∈ replaceKey key b l := by
  induction l with
  | nil => cases h
  | cons a l ih =>
    simp only [replaceKey]
    split
    · next he =>
      rcases List.mem_cons.mp h with rfl | ht
      · exact absurd he hne
      · exact List.mem_cons_of_mem _ ht
    · rcases List.mem_cons.mp h with rfl | ht
      · exact List.mem_cons_self
      · exact List.mem_cons_of_mem _ (ih ht)

theorem mem_replaceKey {l : List α} (hl : (l.map key).Nodup) {b x : α} (hb : key b ∈ l.map key) :
    x ∈ replaceKey key b l ↔ x = b ∨ (x ∈ l ∧ key x ≠ key b) := by
  constructor
  · intro h
    rcases mem_of_mem_replaceKey h with rfl | hx
    · exact .inl rfl
    · by_cases hk : key x = key b
      · have hnd : ((replaceKey key b l).map key).Nodup := by rwa [map_key_replaceKey]
        exact .inl (List.inj_on_of_nodup_map hnd h (mem_replaceKey_self hb) hk)
      · exact .inr ⟨hx, hk⟩
  · rintro (rfl | ⟨hx, hk⟩)
    · exact mem_replaceKey_self hb
    · exact mem_replaceKey_of_ne hx hk

theorem mem_of_mem_eraseKey {k : κ} {x : α} {l : List α} (h : x ∈ eraseKey key k l) : x ∈ l :=
  List.mem_of_mem_eraseP h

theorem nodup_eraseKey {l : List α} (hl : (l.map key).Nodup) (k : κ) :
    ((eraseKey key k l).map key).Nodup :=
  hl.sublist (List.eraseP_sublist.map key)

theorem mem_eraseKey {l : List α} (hl : (l.map key).Nodup) {k : κ} {x : α} :
    x ∈ eraseKey key k l ↔ x ∈ l ∧ key x ≠ k := by
  induction l with
  | nil => simp [eraseKey]
  | cons a l ih =>
    obtain ⟨ha, hl'⟩ := List.nodup_cons.mp (by simpa using hl : (key a :: l.map key).Nodup)
    by_cases hk : key a = k
    · have hx : x ∈ l → key x ≠ k := fun hm he =>
        ha (by rw [hk, ← he]; exact List.mem_map_of_mem hm)
      simp only [eraseKey, List.eraseP_cons_of_pos (p := fun a => decide (key a = k)) (by simpa using hk),
        List.mem_cons]
      constructor
      · exact fun hm => ⟨.inr hm, hx hm⟩
      · rintro ⟨rfl | hm, hne⟩
        · exact absurd hk hne
        · exact hm
    · have he : eraseKey key k (a :: l) = a :: eraseKey key k l :=
        List.eraseP_cons_of_neg (by simpa using hk)
      rw [he, List.mem_cons, ih hl', List.mem_cons]
      constructor
      · rintro (rfl | ⟨hm, hne⟩)
        · exact ⟨.inl rfl, hk⟩
        · exact ⟨.inr hm, hne⟩
      · rintro ⟨rfl | hm, hne⟩
        · exact .inl rfl
        · exact .inr ⟨hm, hne⟩

omit [DecidableEq κ] in
theorem nodup_concat_of_not_mem {l : List α} (hl : (l.map key).Nodup) {b : α}
    (hb : key b ∉ l.map key) : ((l ++ [b]).map key).Nodup := by
  rw [List.map_append, List.map_singleton]
  exact hl.append (List.nodup_singleton _) (List.disjoint_singleton.mpr hb)

end
end Library
