import Quackapi.Library.FirstMatch
import Quackapi.Library.Machine
import Quackapi.Util.Str

/-! The auth registry: the schemes, found by name whatever its case, and the hashed keys of the API
key schemes. Both live under one mutex, so every operation is one step. -/

namespace Quackapi.Auth
open Library

inductive AuthKind
  | apiKey | jwtHs256
deriving DecidableEq, Repr

structure QuackapiAuth where
  name : Str
  kind : AuthKind := .apiKey
  header : Str := "X-API-Key".toList
  secret : Str := []
deriving DecidableEq, Repr

structure ApiKeyEntry where
  authName : Str
  keyHash : Str
  subject : Str
deriving DecidableEq, Repr

structure AuthState where
  auths : List QuackapiAuth
  apiKeys : List ApiKeyEntry
deriving DecidableEq, Repr

def emptyAuths : AuthState := ⟨[], []⟩

/-- The message of the `InvalidInputException` an operation throws. -/
abbrev AuthOutcome := Except Str AuthState

def QuackapiAuth.key (a : QuackapiAuth) : Str := lower a.name

/-- Two entries are the same key when their schemes agree, ignoring case, and their hashes agree. -/
def ApiKeyEntry.key (e : ApiKeyEntry) : Str × Str := (lower e.authName, e.keyHash)

def getAuth (s : AuthState) (name : Str) : Option QuackapiAuth :=
  findKey QuackapiAuth.key (lower name) s.auths

def renameKeys (oldName newName : Str) (keys : List ApiKeyEntry) : List ApiKeyEntry :=
  keys.map fun e => if lower e.authName = lower oldName then { e with authName := newName } else e

def purgeKeys (name : Str) (keys : List ApiKeyEntry) : List ApiKeyEntry :=
  keys.filter fun e => lower e.authName ≠ lower name

def addAuth (s : AuthState) (auth : QuackapiAuth) (orReplace : Bool) : AuthOutcome :=
  match getAuth s auth.name with
  | some old =>
    if !orReplace then
      .error ("Auth \"".toList ++ auth.name ++
        "\" already exists — use CREATE OR REPLACE AUTH".toList)
    else
      -- keys do not outlive an API key scheme, and follow one whose name changes case
      let keys :=
        if old.kind = .apiKey ∧ auth.kind ≠ .apiKey then purgeKeys old.name s.apiKeys
        else if old.name ≠ auth.name then renameKeys old.name auth.name s.apiKeys
        else s.apiKeys
      .ok ⟨replaceKey QuackapiAuth.key auth s.auths, keys⟩
  | none => .ok { s with auths := s.auths ++ [auth] }

def dropAuth (s : AuthState) (name : Str) : AuthOutcome :=
  match getAuth s name with
  | some old => .ok ⟨eraseKey QuackapiAuth.key (lower name) s.auths, purgeKeys old.name s.apiKeys⟩
  | none => .error ("Auth \"".toList ++ name ++ "\" does not exist".toList)

/-- `sha256` is the digest the entries store. -/
def addApiKey (sha256 : Str → Str) (s : AuthState) (authName rawKey subject : Str) : AuthOutcome :=
  if rawKey.isEmpty then .error "quackapi_add_api_key: raw_key must not be empty".toList
  else if subject.isEmpty then .error "quackapi_add_api_key: subject must not be empty".toList
  else
    match getAuth s authName with
    | none => .error ("Auth \"".toList ++ authName ++ "\" does not exist".toList)
    | some auth =>
      if auth.kind ≠ .apiKey then
        .error ("Auth \"".toList ++ authName ++ "\" is not an API_KEY scheme".toList)
      else
        let entry : ApiKeyEntry := ⟨auth.name, sha256 rawKey, subject⟩
        match findKey ApiKeyEntry.key entry.key s.apiKeys with
        | some _ => .ok { s with apiKeys := replaceKey ApiKeyEntry.key entry s.apiKeys }
        | none => .ok { s with apiKeys := s.apiKeys ++ [entry] }

def snapshotApiKeys (s : AuthState) (authName : Str) : List ApiKeyEntry :=
  s.apiKeys.filter fun e => lower e.authName = lower authName

inductive AuthAction
  | addAuth (auth : QuackapiAuth) (orReplace : Bool)
  | dropAuth (name : Str)
  | addApiKey (authName rawKey subject : Str)
deriving DecidableEq

def applyAuth (sha256 : Str → Str) (s : AuthState) : AuthAction → AuthOutcome
  | .addAuth auth orReplace => addAuth s auth orReplace
  | .dropAuth name => dropAuth s name
  | .addApiKey authName rawKey subject => addApiKey sha256 s authName rawKey subject

def authStep (sha256 : Str → Str) (s : AuthState) (a : AuthAction) : AuthState × Except Str Unit :=
  match applyAuth sha256 s a with
  | .ok t => (t, .ok ())
  | .error e => (s, .error e)

def authMachine (sha256 : Str → Str) : Machine AuthState AuthAction (Except Str Unit) :=
  ⟨authStep sha256⟩

theorem authStep_cases (sha256 : Str → Str) (s : AuthState) (a : AuthAction) :
    (∃ t, applyAuth sha256 s a = .ok t ∧ authStep sha256 s a = (t, .ok ())) ∨
      ∃ e, authStep sha256 s a = (s, .error e) := by
  unfold authStep
  rcases applyAuth sha256 s a with e | t
  · exact .inr ⟨e, rfl⟩
  · exact .inl ⟨t, rfl, rfl⟩

theorem addAuth_ok {s t : AuthState} {auth : QuackapiAuth} {orReplace : Bool}
    (h : addAuth s auth orReplace = .ok t) :
    (auth.key ∉ s.auths.map QuackapiAuth.key ∧ t = { s with auths := s.auths ++ [auth] }) ∨
    ∃ old ∈ s.auths, old.key = auth.key ∧
      t.auths = replaceKey QuackapiAuth.key auth s.auths ∧
      ((old.kind = .apiKey ∧ auth.kind ≠ .apiKey ∧ t.apiKeys = purgeKeys auth.name s.apiKeys) ∨
        ((old.kind = .apiKey → auth.kind = .apiKey) ∧
          (t.apiKeys = s.apiKeys ∨ t.apiKeys = renameKeys auth.name auth.name s.apiKeys))) := by
  unfold addAuth at h
  split at h
  · next old hf =>
    obtain ⟨hmem, hkey⟩ := findKey_eq_some hf
    have hlower : lower old.name = lower auth.name := hkey
    split at h
    · cases h
    cases h
    refine .inr ⟨old, hmem, hkey, rfl, ?_⟩
    by_cases hc : old.kind = .apiKey ∧ auth.kind ≠ .apiKey
    · refine .inl ⟨hc.1, hc.2, ?_⟩
      simp only [if_pos hc, purgeKeys, hlower]
    · refine .inr ⟨fun ho => by_contra fun ha => hc ⟨ho, ha⟩, ?_⟩
      simp only [if_neg hc]
      split
      · exact .inr (by simp only [renameKeys, hlower])
      · exact .inl rfl
  · next hf =>
    cases h
    exact .inl ⟨findKey_eq_none.mp hf, rfl⟩

theorem dropAuth_ok {s t : AuthState} {name : Str} (h : dropAuth s name = .ok t) :
    lower name ∈ s.auths.map QuackapiAuth.key ∧
      t = ⟨eraseKey QuackapiAuth.key (lower name) s.auths, purgeKeys name s.apiKeys⟩ := by
  unfold dropAuth at h
  split at h
  · next old hf =>
    obtain ⟨hmem, hkey⟩ := findKey_eq_some hf
    have hlower : lower old.name = lower name := hkey
    cases h
    exact ⟨hkey ▸ List.mem_map_of_mem hmem, by simp only [purgeKeys, hlower]⟩
  · cases h

theorem addApiKey_ok {sha256 : Str → Str} {s t : AuthState} {authName rawKey subject : Str}
    (h : addApiKey sha256 s authName rawKey subject = .ok t) :
    rawKey ≠ [] ∧ ∃ auth ∈ s.auths, auth.key = lower authName ∧ auth.kind = .apiKey ∧
      t.auths = s.auths ∧
      ((auth.key, sha256 rawKey) ∈ s.apiKeys.map ApiKeyEntry.key ∧
          t.apiKeys = replaceKey ApiKeyEntry.key ⟨auth.name, sha256 rawKey, subject⟩ s.apiKeys ∨
        (auth.key, sha256 rawKey) ∉ s.apiKeys.map ApiKeyEntry.key ∧
          t.apiKeys = s.apiKeys ++ [⟨auth.name, sha256 rawKey, subject⟩]) := by
  unfold addApiKey at h
  split at h
  · cases h
  next hraw =>
  split at h
  · cases h
  split at h
  · cases h
  next auth hf =>
  obtain ⟨hmem, hkey⟩ := findKey_eq_some hf
  split at h
  · cases h
  next hkind =>
  refine ⟨by simpa using hraw, auth, hmem, hkey, not_not.mp hkind, ?_⟩
  simp only at h
  split at h
  · next old hold =>
    cases h
    obtain ⟨hom, hok⟩ := findKey_eq_some hold
    exact ⟨rfl, .inl ⟨List.mem_map.mpr ⟨old, hom, hok⟩, rfl⟩⟩
  · next hno =>
    cases h
    exact ⟨rfl, .inr ⟨findKey_eq_none.mp hno, rfl⟩⟩

end Quackapi.Auth
