import Mathlib.Data.List.Basic

/-! URI references: their components by the grammar's regular expression, and their resolution
against a base with an authority. Dot segments go; nothing else of a path does. -/

namespace Library

structure UriRef where
  scheme : Option (List Char)
  authority : Option (List Char)
  path : List Char
  query : Option (List Char)
  fragment : Option (List Char)
deriving DecidableEq, Repr

def hierPart (s : List Char) : List Char := s.takeWhile fun c => c ≠ '?' && c ≠ '#'

def parseScheme (hier : List Char) : Option (List Char) × List Char :=
  let name := hier.takeWhile fun c => c ≠ ':' && c ≠ '/'
  match name, hier.dropWhile (fun c => c ≠ ':' && c ≠ '/') with
  | _ :: _, ':' :: rest => (some name, rest)
  | _, _ => (none, hier)

def parseAuthority : List Char → Option (List Char) × List Char
  | '/' :: '/' :: rest => (some (rest.takeWhile (· ≠ '/')), rest.dropWhile (· ≠ '/'))
  | rest => (none, rest)

def parseQuery : List Char → Option (List Char) × List Char
  | '?' :: rest => (some (rest.takeWhile (· ≠ '#')), rest.dropWhile (· ≠ '#'))
  | rest => (none, rest)

def parseFragment : List Char → Option (List Char)
  | '#' :: rest => some rest
  | _ => none

def parseUriRef (s : List Char) : UriRef :=
  let afterScheme := parseScheme (hierPart s)
  let afterAuthority := parseAuthority afterScheme.2
  let afterQuery := parseQuery (s.dropWhile fun c => c ≠ '?' && c ≠ '#')
  ⟨afterScheme.1, afterAuthority.1, afterAuthority.2, afterQuery.1, parseFragment afterQuery.2⟩

def isDotSegment (s : List Char) : Bool := decide (s = ['.']) || decide (s = ['.', '.'])

/-- The segments that follow a slash each, over the pieces that stand so far, last first. -/
def dotSegments : List (List Char) → List (List Char) → List Char
  | out, [] => out.reverse.flatten
  | out, s :: segments =>
    if s = ['.'] then dotSegments (if segments.isEmpty then ['/'] :: out else out) segments
    else if s = ['.', '.'] then
      dotSegments (if segments.isEmpty then ['/'] :: out.tail else out.tail) segments
    else dotSegments (('/' :: s) :: out) segments

/-- A path that starts without a slash loses the dot segments it starts with. -/
def rootlessDotSegments : List (List Char) → List Char
  | [] => []
  | s :: segments => if isDotSegment s then rootlessDotSegments segments else dotSegments [s] segments

def removeDotSegments : List Char → List Char
  | '/' :: rest => dotSegments [] (rest.splitOn '/')
  | path => rootlessDotSegments (path.splitOn '/')

/-- A base URI with an authority, as the target of every HTTP request has. -/
structure HttpUri where
  scheme : List Char
  authority : List Char
  path : List Char
  query : Option (List Char)
  rooted : path = [] ∨ path.head? = some '/'

/-- The reference's path in the place of the last segment of the base's. -/
def HttpUri.merge (base : HttpUri) (path : List Char) : List Char :=
  if base.path = [] then '/' :: path
  else (base.path.reverse.dropWhile (· ≠ '/')).reverse ++ path

def HttpUri.resolve (base : HttpUri) (r : UriRef) : UriRef :=
  if r.scheme.isSome then { r with path := removeDotSegments r.path }
  else if r.authority.isSome then
    { r with scheme := some base.scheme, path := removeDotSegments r.path }
  else if r.path = [] then
    ⟨some base.scheme, some base.authority, base.path, r.query.or base.query, r.fragment⟩
  else if r.path.head? = some '/' then
    ⟨some base.scheme, some base.authority, removeDotSegments r.path, r.query, r.fragment⟩
  else
    ⟨some base.scheme, some base.authority, removeDotSegments (base.merge r.path), r.query,
      r.fragment⟩

def slashes (segments : List (List Char)) : List Char := segments.flatMap ('/' :: ·)

theorem splitOn_slash (path : List Char) :
    ∃ s segments, path.splitOn '/' = s :: segments ∧ path = s ++ slashes segments := by
  have hjoin : ∀ (s : List Char) (segments : List (List Char)),
      ['/'].intercalate (s :: segments) = s ++ slashes segments := by
    intro s segments
    induction segments generalizing s with
    | nil => exact (List.intercalate_singleton).trans (List.append_nil s).symm
    | cons t segments ih =>
      rw [List.intercalate_cons_cons, ih t]
      exact List.append_assoc ..
  rcases hsplit : path.splitOn '/' with _ | ⟨s, segments⟩
  · exact (List.splitOn_ne_nil _ _ hsplit).elim
  · refine ⟨s, segments, rfl, ?_⟩
    rw [← hjoin, ← hsplit, List.intercalate_splitOn]

theorem slash_splitOn (rest : List Char) : '/' :: rest = slashes (rest.splitOn '/') := by
  obtain ⟨s, segments, hsplit, hrest⟩ := splitOn_slash rest
  rw [hsplit, hrest]
  rfl

theorem length_dotSegments_le (out segments : List (List Char)) :
    (dotSegments out segments).length + segments.countP isDotSegment ≤
      out.flatten.length + (slashes segments).length := by
  induction segments generalizing out with
  | nil =>
    show out.reverse.flatten.length + 0 ≤ out.flatten.length + 0
    refine Nat.le_of_eq ?_
    rw [List.length_flatten, List.length_flatten, List.map_reverse, List.sum_reverse]
  | cons s segments ih =>
    have hslashes : (slashes (s :: segments)).length = s.length + 1 + (slashes segments).length := by
      show (('/' :: s) ++ slashes segments).length = _
      rw [List.length_append, List.length_cons]
    have htail : out.tail.flatten.length ≤ out.flatten.length := by
      cases out with
      | nil => exact Nat.le_refl _
      | cons piece out =>
        show out.flatten.length ≤ (piece ++ out.flatten).length
        rw [List.length_append]
        exact Nat.le_add_left ..
    -- what is left of the pieces when a final dot segment leaves its slash
    have hlast : ∀ out : List (List Char),
        (if segments.isEmpty then ['/'] :: out else out).flatten.length ≤ out.flatten.length + 1 := by
      intro out
      split
      · show (['/'] ++ out.flatten).length ≤ _
        rw [List.length_append, Nat.add_comm]
        exact Nat.le_refl _
      · exact Nat.le_succ _
    rw [hslashes, dotSegments]
    by_cases hdot : s = ['.']
    · have hcount : (s :: segments).countP isDotSegment = segments.countP isDotSegment + 1 :=
        List.countP_cons_of_pos (by rw [hdot]; rfl)
      have hrest := ih (if segments.isEmpty then ['/'] :: out else out)
      have hpiece := hlast out
      have hlength : s.length = 1 := by rw [hdot]; rfl
      rw [if_pos hdot, hcount]
      omega
    · by_cases hdots : s = ['.', '.']
      · have hcount : (s :: segments).countP isDotSegment = segments.countP isDotSegment + 1 :=
          List.countP_cons_of_pos (by rw [hdots]; rfl)
        have hrest := ih (if segments.isEmpty then ['/'] :: out.tail else out.tail)
        have hpiece := hlast out.tail
        have hlength : s.length = 2 := by rw [hdots]; rfl
        rw [if_neg hdot, if_pos hdots, hcount]
        omega
      · have hnot : ¬ isDotSegment s = true := by
          rw [isDotSegment, Bool.or_eq_true, decide_eq_true_eq, decide_eq_true_eq, not_or]
          exact ⟨hdot, hdots⟩
        have hcount : (s :: segments).countP isDotSegment = segments.countP isDotSegment :=
          List.countP_cons_of_neg hnot
        have hrest := ih (('/' :: s) :: out)
        have hpiece : (('/' :: s) :: out).flatten.length = s.length + 1 + out.flatten.length := by
          show (('/' :: s) ++ out.flatten).length = _
          rw [List.length_append, List.length_cons]
        rw [if_neg hdot, if_neg hdots, hcount]
        omega

theorem dotSegments_of_none {out segments : List (List Char)}
    (h : ∀ s ∈ segments, isDotSegment s = false) :
    dotSegments out segments = out.reverse.flatten ++ slashes segments := by
  induction segments generalizing out with
  | nil => exact (List.append_nil _).symm
  | cons s segments ih =>
    obtain ⟨hs, hsegments⟩ := List.forall_mem_cons.mp h
    rw [isDotSegment, Bool.or_eq_false_iff, decide_eq_false_iff_not, decide_eq_false_iff_not] at hs
    rw [dotSegments, if_neg hs.1, if_neg hs.2, ih hsegments, List.reverse_cons, List.flatten_append,
      List.flatten_singleton, List.append_assoc]
    rfl

theorem length_rootlessDotSegments_le (s : List Char) (segments : List (List Char)) :
    (rootlessDotSegments (s :: segments)).length ≤ s.length + (slashes segments).length := by
  induction segments generalizing s with
  | nil =>
    have hbound := length_dotSegments_le [s] []
    rw [rootlessDotSegments]
    split
    · exact Nat.zero_le _
    · simpa using hbound
  | cons t segments ih =>
    have hbound := length_dotSegments_le [s] (t :: segments)
    rw [rootlessDotSegments]
    split
    · have hrest := ih t
      have hslashes : (slashes (t :: segments)).length = t.length + 1 + (slashes segments).length := by
        show (('/' :: t) ++ slashes segments).length = _
        rw [List.length_append, List.length_cons]
      omega
    · have hpiece : [s].flatten.length = s.length := by
        rw [List.flatten_singleton]
      omega

theorem removeDotSegments_rootless {path : List Char} (h : path.head? ≠ some '/') :
    removeDotSegments path = rootlessDotSegments (path.splitOn '/') := by
  unfold removeDotSegments
  split
  · exact absurd rfl h
  · rfl

theorem rooted_cases (path : List Char) :
    (∃ rest, path = '/' :: rest) ∨ path.head? ≠ some '/' := by
  rcases path with _ | ⟨c, rest⟩
  · exact .inr nofun
  · by_cases hc : c = '/'
    · exact .inl ⟨rest, by rw [hc]⟩
    · exact .inr fun h => hc (Option.some.inj h)

theorem length_removeDotSegments_le (path : List Char) :
    (removeDotSegments path).length ≤ path.length := by
  rcases rooted_cases path with ⟨rest, rfl⟩ | hrootless
  · have hbound := length_dotSegments_le [] (rest.splitOn '/')
    rw [← slash_splitOn] at hbound
    have hnil : ([] : List (List Char)).flatten.length = 0 := rfl
    show (dotSegments [] (rest.splitOn '/')).length ≤ _
    omega
  · obtain ⟨s, segments, hsplit, hpath⟩ := splitOn_slash path
    have hbound := length_rootlessDotSegments_le s segments
    rw [removeDotSegments_rootless hrootless, hsplit]
    rwa [hpath, List.length_append]

theorem removeDotSegments_eq_self_iff {rest : List Char} :
    removeDotSegments ('/' :: rest) = '/' :: rest ↔
      ∀ s ∈ rest.splitOn '/', isDotSegment s = false := by
  have hremove : removeDotSegments ('/' :: rest) = dotSegments [] (rest.splitOn '/') := rfl
  constructor
  · intro h s hs
    by_contra hdot
    have hcount : 0 < (rest.splitOn '/').countP isDotSegment :=
      List.countP_pos_iff.mpr ⟨s, hs, by rwa [Bool.not_eq_false] at hdot⟩
    have hbound := length_dotSegments_le [] (rest.splitOn '/')
    rw [← hremove, h, ← slash_splitOn] at hbound
    have hnil : ([] : List (List Char)).flatten.length = 0 := rfl
    omega
  · intro h
    rw [hremove, dotSegments_of_none h, ← slash_splitOn]
    rfl

theorem dotSegments_rooted {out segments : List (List Char)}
    (hout : ∀ piece ∈ out, piece.head? = some '/') (hne : segments ≠ [] ∨ out ≠ []) :
    (dotSegments out segments).head? = some '/' := by
  induction segments generalizing out with
  | nil =>
    have hne : out.reverse ≠ [] := fun h => hne.elim (fun h => h rfl) fun hne =>
      hne (List.reverse_eq_nil_iff.mp h)
    rw [dotSegments]
    rcases hrev : out.reverse with _ | ⟨piece, rest⟩
    · exact absurd hrev hne
    · have hpiece : piece.head? = some '/' := by
        refine hout piece (List.mem_reverse.mp ?_)
        rw [hrev]
        exact List.mem_cons_self
      rw [List.flatten_cons, List.head?_append, hpiece]
      rfl
  | cons s segments ih =>
    have htail : ∀ piece ∈ out.tail, piece.head? = some '/' := fun piece hpiece =>
      hout piece (List.mem_of_mem_tail hpiece)
    -- after a dot segment there is a segment left, or the slash of the last one
    have hdot : ∀ out : List (List Char), (∀ piece ∈ out, piece.head? = some '/') →
        (dotSegments (if segments.isEmpty then ['/'] :: out else out) segments).head? =
          some '/' := by
      intro out hout
      split
      · exact ih (List.forall_mem_cons.mpr ⟨rfl, hout⟩) (.inr (List.cons_ne_nil _ _))
      · next h => exact ih hout (.inl fun hnil => h (List.isEmpty_iff.mpr hnil))
    rw [dotSegments]
    split
    · exact hdot out hout
    · split
      · exact hdot out.tail htail
      · exact ih (List.forall_mem_cons.mpr ⟨rfl, hout⟩) (.inr (List.cons_ne_nil _ _))

theorem removeDotSegments_rooted {path : List Char} (h : path.head? = some '/') :
    (removeDotSegments path).head? = some '/' := by
  rcases rooted_cases path with ⟨rest, rfl⟩ | hrootless
  · exact dotSegments_rooted nofun (.inl fun hnil => List.splitOn_ne_nil _ _ hnil)
  · exact absurd h hrootless

theorem parseScheme_cases (hier : List Char) :
    (∃ name rest, parseScheme hier = (some name, rest) ∧ rest.length < hier.length) ∨
      parseScheme hier = (none, hier) := by
  unfold parseScheme
  dsimp only
  split
  · next c name rest hname hrest =>
    have hsplit := List.takeWhile_append_dropWhile (p := fun c => c ≠ ':' && c ≠ '/') (l := hier)
    rw [hname, hrest] at hsplit
    have hlength : rest.length < hier.length := by
      rw [← hsplit, List.length_append, List.length_cons, List.length_cons]
      omega
    exact .inl ⟨_, rest, rfl, hlength⟩
  · exact .inr rfl

theorem parseAuthority_cases (s : List Char) :
    (∃ name rest, parseAuthority s = (some name, rest) ∧ rest.length < s.length) ∨
      parseAuthority s = (none, s) := by
  unfold parseAuthority
  split
  · next rest =>
    have hdrop : (rest.dropWhile (· ≠ '/')).length ≤ rest.length :=
      (List.dropWhile_suffix _).length_le
    have hlength : (rest.dropWhile (· ≠ '/')).length < ('/' :: '/' :: rest).length :=
      Nat.lt_succ_of_le (Nat.le_succ_of_le hdrop)
    exact .inl ⟨_, _, rfl, hlength⟩
  · exact .inr rfl

theorem hierPart_isInitial (s : List Char) : hierPart s <+: s := List.takeWhile_prefix _

theorem resolve_cases (base : HttpUri) (s : List Char) :
    (base.resolve (parseUriRef s)).path.length < (hierPart s).length ∨
      ((parseUriRef s).scheme = none ∧ (parseUriRef s).authority = none ∧
        (parseUriRef s).path = hierPart s) := by
  have hscheme : (parseUriRef s).scheme = (parseScheme (hierPart s)).1 := rfl
  have hauthority : (parseUriRef s).authority =
    (parseAuthority (parseScheme (hierPart s)).2).1 := rfl
  have hpath : (parseUriRef s).path = (parseAuthority (parseScheme (hierPart s)).2).2 := rfl
  have hdots := length_removeDotSegments_le (parseUriRef s).path
  rcases parseScheme_cases (hierPart s) with ⟨name, rest, hparse, hshort⟩ | hparse
  · left
    rw [hparse] at hscheme hpath
    have hrest : (parseUriRef s).path.length ≤ rest.length := by
      rw [hpath]
      rcases parseAuthority_cases rest with ⟨_, _, h, hle⟩ | h
      · rw [h]
        exact Nat.le_of_lt hle
      · refine Nat.le_of_eq ?_
        rw [h]
    rw [HttpUri.resolve, hscheme, Option.isSome_some, if_pos rfl]
    show (removeDotSegments (parseUriRef s).path).length < _
    omega
  · rw [hparse] at hscheme hauthority hpath
    rcases parseAuthority_cases (hierPart s) with ⟨name, rest, h, hshort⟩ | h
    · left
      rw [h] at hauthority hpath
      rw [HttpUri.resolve, hscheme, hauthority, Option.isSome_none, Option.isSome_some,
        if_neg Bool.false_ne_true, if_pos rfl]
      have hpath : (parseUriRef s).path = rest := hpath
      show (removeDotSegments (parseUriRef s).path).length < _
      rw [hpath] at hdots ⊢
      omega
    · rw [h] at hauthority hpath
      exact .inr ⟨hscheme, hauthority, hpath⟩

theorem resolve_rooted {base : HttpUri} {r : UriRef} (hscheme : r.scheme = none)
    (hauthority : r.authority = none) (hpath : r.path.head? = some '/') :
    base.resolve r = ⟨some base.scheme, some base.authority, removeDotSegments r.path, r.query,
      r.fragment⟩ := by
  have hne : r.path ≠ [] := by
    intro hnil
    rw [hnil] at hpath
    cases hpath
  rw [HttpUri.resolve, hscheme, hauthority, Option.isSome_none, if_neg Bool.false_ne_true,
    if_neg Bool.false_ne_true, if_neg hne, if_pos hpath]

theorem merge_rooted (base : HttpUri) (path : List Char) : (base.merge path).head? = some '/' := by
  unfold HttpUri.merge
  split
  · rfl
  · next hne =>
    have hhead : base.path.head? = some '/' := base.rooted.resolve_left hne
    obtain ⟨rest, hrest⟩ : ∃ rest, base.path = '/' :: rest := by
      rcases hpath : base.path with _ | ⟨c, rest⟩
      · exact absurd hpath hne
      · rw [hpath] at hhead
        cases hhead
        exact ⟨rest, rfl⟩
    -- the first slash is never dropped: the segment that goes comes after one
    have hkeep : (base.path.reverse.dropWhile (· ≠ '/')).reverse.head? = some '/' := by
      rw [hrest, List.reverse_cons, List.dropWhile_append]
      split
      · rfl
      · rw [List.reverse_append]
        rfl
    rw [List.head?_append, hkeep]
    rfl

/-- A reference without scheme, authority and leading slash resolves to the base's path or to a path
with a slash at its start. -/
theorem resolve_rootless {base : HttpUri} {r : UriRef} (hscheme : r.scheme = none)
    (hauthority : r.authority = none) (hpath : r.path.head? ≠ some '/') :
    (base.resolve r).path = [] ∨ (base.resolve r).path.head? = some '/' := by
  rw [HttpUri.resolve, hscheme, hauthority, Option.isSome_none, if_neg Bool.false_ne_true,
    if_neg Bool.false_ne_true]
  split
  · exact base.rooted
  · exact .inr (removeDotSegments_rooted (merge_rooted base r.path))

end Library
