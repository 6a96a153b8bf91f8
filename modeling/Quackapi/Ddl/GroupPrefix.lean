import Quackapi.Ddl.RouteParse

/-! The path of a route in a group: the group's prefix in front of the route's own path, joined once when
the route is created. -/

namespace Quackapi.Ddl
open Params (splitPath)
open Http (splitPath_append_slash splitPath_append_singleton splitPath_slash)

/-- The slashes at the end go, as long as more than one character is left. -/
def popSlashes : Nat → Str → Str
  | 0, p => p
  | rounds + 1, p => if 1 < p.length ∧ p.getLast? = some '/' then popSlashes rounds p.dropLast else p

def rooted (path : Str) : Str := if path.head? = some '/' then path else '/' :: path

def alreadyPrefixed (path groupPrefix : Str) : DdlStop :=
  .thrown ("Route path \"".toList ++ path ++ "\" already starts with group prefix \"".toList ++ groupPrefix ++
    "\" — omit the prefix or drop GROUP".toList)

def joinGroupPrefix (groupPrefix path : Str) : Scan Str :=
  if groupPrefix.head? ≠ some '/' then .error (.thrown "Group prefix must start with '/'".toList)
  else
    let p := popSlashes groupPrefix.length groupPrefix
    if path.isEmpty then .ok (if p.isEmpty then ['/'] else p)
    else if rooted path = p ∨ (p ++ ['/']).isPrefixOf (rooted path) = true then
      .error (alreadyPrefixed path groupPrefix)
    else .ok (p ++ rooted path)

def DoubleSlash (s : Str) : Prop := ['/', '/'] <:+: s

instance (s : Str) : Decidable (DoubleSlash s) := inferInstanceAs (Decidable (['/', '/'] <:+: s))

theorem doubleSlash_append {a b : Str} (h : DoubleSlash (a ++ b)) :
    DoubleSlash a ∨ DoubleSlash b ∨ (a.getLast? = some '/' ∧ b.head? = some '/') := by
  induction a with
  | nil => exact .inr (.inl h)
  | cons c a ih =>
    rcases List.infix_cons_iff.mp h with hfront | hinside
    · obtain ⟨rfl, hnext⟩ := List.cons_prefix_cons.mp hfront
      cases a with
      | nil =>
        obtain ⟨rest, hb⟩ := hnext
        have hb' : '/' :: rest = b := hb
        exact .inr (.inr ⟨rfl, by rw [← hb']; rfl⟩)
      | cons d a =>
        obtain ⟨rfl, -⟩ := List.cons_prefix_cons.mp hnext
        exact .inl ⟨[], a, rfl⟩
    · rcases ih hinside with ha | hb | ⟨hlast, hhead⟩
      · exact .inl (List.infix_cons ha)
      · exact .inr (.inl hb)
      · refine .inr (.inr ⟨?_, hhead⟩)
        rw [List.getLast?_cons, hlast]
        rfl

theorem not_doubleSlash_append {a b : Str} (ha : ¬ DoubleSlash a) (hb : ¬ DoubleSlash b)
    (hlast : a.getLast? ≠ some '/') : ¬ DoubleSlash (a ++ b) := by
  intro h
  rcases doubleSlash_append h with h | h | ⟨h, -⟩
  · exact ha h
  · exact hb h
  · exact hlast h

theorem DoubleSlash.of_prefix {a b : Str} (h : DoubleSlash a) (hab : a <+: b) : DoubleSlash b :=
  h.trans hab.isInfix

theorem popSlashes_self {p : Str} (h : p.getLast? ≠ some '/') (rounds : Nat) : popSlashes rounds p = p := by
  cases rounds with
  | zero => rfl
  | succ rounds => exact if_neg fun hslash => h hslash.2

theorem popSlashes_concat {p : Str} (hne : p ≠ []) (h : p.getLast? ≠ some '/') (rounds : Nat) :
    popSlashes (rounds + 1) (p ++ ['/']) = p := by
  have hlength : 1 < (p ++ ['/']).length := by
    have := List.length_pos_of_ne_nil hne
    rw [List.length_append, List.length_singleton]
    omega
  rw [popSlashes, if_pos ⟨hlength, List.getLast?_concat ..⟩, List.dropLast_concat, popSlashes_self h]

theorem popSlashes_prefix {p : Str} (hsingle : ¬ DoubleSlash p) (hhead : p.head? = some '/') (hp : p ≠ ['/']) :
    ∃ q, popSlashes p.length p = q ∧ (p = q ∨ p = q ++ ['/']) ∧ q ≠ [] ∧ q.getLast? ≠ some '/' := by
  have hne : p ≠ [] := fun h => by
    rw [h] at hhead
    cases hhead
  by_cases hlast : p.getLast? = some '/'
  · obtain ⟨q, rfl⟩ : ∃ q, p = q ++ ['/'] := ⟨p.dropLast, (List.dropLast_append_getLast? '/' hlast).symm⟩
    have hq : q ≠ [] := fun h => hp (by rw [h]; rfl)
    have hqlast : q.getLast? ≠ some '/' := by
      intro h
      obtain ⟨r, rfl⟩ : ∃ r, q = r ++ ['/'] := ⟨q.dropLast, (List.dropLast_append_getLast? '/' h).symm⟩
      refine hsingle ⟨r, [], ?_⟩
      rw [List.append_nil, List.append_assoc]
      rfl
    refine ⟨q, ?_, .inr rfl, hq, hqlast⟩
    rw [List.length_append, List.length_singleton]
    exact popSlashes_concat hq hqlast q.length
  · exact ⟨p, popSlashes_self hlast _, .inl rfl, hne, hlast⟩

theorem head_rooted (path : Str) : (rooted path).head? = some '/' := by
  by_cases h : path.head? = some '/'
  · rw [rooted, if_pos h, h]
  · rw [rooted, if_neg h]
    rfl

theorem exists_rooted (path : Str) : ∃ tail, rooted path = '/' :: tail := by
  obtain ⟨c, tail, hcons⟩ : ∃ c tail, rooted path = c :: tail := by
    cases hr : rooted path with
    | nil => exact absurd (head_rooted path) (by rw [hr]; exact nofun)
    | cons c tail => exact ⟨c, tail, rfl⟩
  have hhead := head_rooted path
  rw [hcons] at hhead
  exact ⟨tail, by rw [hcons, Option.some.inj hhead]⟩

theorem getLast_rooted {path : Str} (hne : path ≠ []) : (rooted path).getLast? = path.getLast? := by
  by_cases h : path.head? = some '/'
  · rw [rooted, if_pos h]
  · rw [rooted, if_neg h, List.getLast?_cons, List.getLast?_eq_some_getLast hne]
    rfl

theorem splitPath_rooted (path : Str) : splitPath (rooted path) = splitPath path := by
  by_cases h : path.head? = some '/'
  · rw [rooted, if_pos h]
  · rw [rooted, if_neg h, splitPath_slash]

theorem not_doubleSlash_rooted {path : Str} (h : ¬ DoubleSlash path) : ¬ DoubleSlash (rooted path) := by
  by_cases hhead : path.head? = some '/'
  · rwa [rooted, if_pos hhead]
  · rw [rooted, if_neg hhead]
    intro hdouble
    rcases doubleSlash_append (a := ['/']) hdouble with hone | hpath | ⟨-, hstart⟩
    · have hlength : 2 ≤ 1 := hone.length_le
      omega
    · exact h hpath
    · exact hhead hstart

theorem rooted_eq_slash {path : Str} (hne : path ≠ []) (h : rooted path = ['/']) : path = ['/'] := by
  by_cases hhead : path.head? = some '/'
  · rwa [rooted, if_pos hhead] at h
  · rw [rooted, if_neg hhead] at h
    exact absurd (List.tail_eq_of_cons_eq h) hne

structure Joined (groupPrefix path joined : Str) : Prop where
  rooted : joined.head? = some '/'
  single : ¬ DoubleSlash joined
  trailing : joined.getLast? = some '/' ↔ path.getLast? = some '/'
  segments : splitPath joined = splitPath groupPrefix ++ splitPath path

/-- The path is refused because it carries the prefix, or the two are joined. -/
def Joins (groupPrefix path : Str) : Prop :=
  (joinGroupPrefix groupPrefix path = .error (alreadyPrefixed path groupPrefix) ∧
    splitPath groupPrefix <+: splitPath path) ∨
  ∃ joined, joinGroupPrefix groupPrefix path = .ok joined ∧ Joined groupPrefix path joined

variable {groupPrefix path : Str}

theorem joinGroupPrefix_eq (hslash : groupPrefix.head? = some '/') (hpath : path ≠ []) {p : Str}
    (hp : popSlashes groupPrefix.length groupPrefix = p) :
    joinGroupPrefix groupPrefix path =
      if rooted path = p ∨ (p ++ ['/']).isPrefixOf (rooted path) = true then
        .error (alreadyPrefixed path groupPrefix)
      else .ok (p ++ rooted path) := by
  rw [joinGroupPrefix, if_neg (not_not.mpr hslash), hp]
  exact if_neg (by rw [List.isEmpty_iff]; exact hpath)

theorem splitPath_of_popped {p : Str} (h : groupPrefix = p ∨ groupPrefix = p ++ ['/']) :
    splitPath groupPrefix = splitPath p := by
  rcases h with rfl | rfl
  · rfl
  · exact splitPath_append_singleton p

theorem joins_of_ne_slash (hslash : groupPrefix.head? = some '/') (hpath : path ≠ [])
    (hsinglePrefix : ¬ DoubleSlash groupPrefix) (hsinglePath : ¬ DoubleSlash path) (hne : groupPrefix ≠ ['/']) :
    Joins groupPrefix path := by
  obtain ⟨p, hpop, hfrom, hp, hlast⟩ := popSlashes_prefix hsinglePrefix hslash hne
  have hjoin := joinGroupPrefix_eq hslash hpath hpop
  have hsegments := splitPath_of_popped hfrom
  by_cases hcarries : rooted path = p ∨ (p ++ ['/']).isPrefixOf (rooted path) = true
  · rw [if_pos hcarries] at hjoin
    refine .inl ⟨hjoin, ?_⟩
    rw [hsegments, ← splitPath_rooted path]
    rcases hcarries with heq | hstarts
    · have hsame : splitPath (rooted path) = splitPath p := congrArg splitPath heq
      exact hsame ▸ List.prefix_rfl
    · obtain ⟨rest, hrest⟩ := List.isPrefixOf_iff_prefix.mp hstarts
      rw [← hrest, List.append_assoc]
      change splitPath p <+: splitPath (p ++ '/' :: rest)
      rw [splitPath_append_slash]
      exact List.prefix_append _ _
  · rw [if_neg hcarries] at hjoin
    refine .inr ⟨p ++ rooted path, hjoin, ?_, ?_, ?_, ?_⟩
    · have hhead : groupPrefix.head? = p.head? := by
        rcases hfrom with rfl | rfl
        · rfl
        · exact List.head?_append_of_ne_nil p hp
      rw [List.head?_append_of_ne_nil p hp, ← hhead, hslash]
    · refine not_doubleSlash_append (fun h => hsinglePrefix ?_) (not_doubleSlash_rooted hsinglePath) hlast
      rcases hfrom with rfl | rfl
      · exact h
      · exact h.of_prefix (List.prefix_append _ _)
    · obtain ⟨tail, htail⟩ := exists_rooted path
      have hrooted : rooted path ≠ [] := by rw [htail]; exact List.cons_ne_nil _ _
      rw [List.getLast?_append_of_ne_nil p hrooted, getLast_rooted hpath]
    · obtain ⟨tail, htail⟩ := exists_rooted path
      rw [hsegments, ← splitPath_rooted path, htail, splitPath_append_slash, splitPath_slash]

theorem not_joins_slash (hpath : path ≠ []) (hsingle : ¬ DoubleSlash path) (hne : path ≠ ['/']) :
    ¬ Joins ['/'] path := by
  have hjoin := @joinGroupPrefix_eq ['/'] path rfl hpath ['/'] rfl
  have hcarries : ¬ (rooted path = ['/'] ∨ (['/'] ++ ['/']).isPrefixOf (rooted path) = true) := by
    rintro (heq | hstarts)
    · exact hne (rooted_eq_slash hpath heq)
    · exact not_doubleSlash_rooted hsingle (List.isPrefixOf_iff_prefix.mp hstarts).isInfix
  rw [if_neg hcarries] at hjoin
  rintro (⟨herror, -⟩ | ⟨joined, hok, hjoined⟩)
  · cases hjoin.symm.trans herror
  · obtain rfl := Except.ok.inj (hjoin.symm.trans hok)
    obtain ⟨tail, htail⟩ := exists_rooted path
    refine hjoined.single ⟨[], tail, ?_⟩
    rw [htail]
    rfl

/-- The join does what it should with every prefix but `/`, which joins no path but its own. -/
theorem joins_iff (hslash : groupPrefix.head? = some '/') (hpath : path ≠ [])
    (hsinglePrefix : ¬ DoubleSlash groupPrefix) (hsinglePath : ¬ DoubleSlash path) :
    Joins groupPrefix path ↔ groupPrefix ≠ ['/'] ∨ path = ['/'] := by
  by_cases hne : groupPrefix = ['/']
  · subst hne
    rw [or_iff_right (not_not.mpr rfl)]
    refine ⟨fun h => by_contra fun hslash => not_joins_slash hpath hsinglePath hslash h, ?_⟩
    rintro rfl
    exact .inl ⟨rfl, List.prefix_rfl⟩
  · exact iff_of_true (joins_of_ne_slash hslash hpath hsinglePrefix hsinglePath hne) (.inl hne)

theorem joins_api_items : Joins "/api/v1/".toList "items/".toList :=
  (joins_iff rfl (by decide) (by decide +kernel) (by decide +kernel)).mpr (.inl (by decide))

theorem slash_prefix_doubles :
    joinGroupPrefix ['/'] "/items".toList = .ok "//items".toList ∧ ¬ Joins ['/'] "/items".toList :=
  ⟨by decide, not_joins_slash (by decide) (by decide +kernel) (by decide)⟩

end Quackapi.Ddl
