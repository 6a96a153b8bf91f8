import Quackapi.Auth.Verify
import Quackapi.Library.KeyedTable
import Quackapi.Library.Since
import Mathlib.Logic.Equiv.Basic

/-! The life of an API key. The registry stays consistent whatever is asked of it, and the stored
digests are a summary of its history: a key is there from the step that adds it until its scheme is
dropped or changes its kind. -/

namespace Quackapi.Auth
open Library

abbrev AuthEvent := AuthAction × Except Str Unit

def Adds (scheme rawKey : Str) : AuthEvent → Prop
  | (.addApiKey name key _, .ok ()) => lower name = lower scheme ∧ key = rawKey
  | _ => False

/-- The scheme is dropped, or stands for another kind from now on. -/
def Ends (scheme : Str) : AuthEvent → Prop
  | (.dropAuth name, .ok ()) => lower name = lower scheme
  | (.addAuth auth _, .ok ()) => lower auth.name = lower scheme ∧ auth.kind ≠ .apiKey
  | _ => False

structure Consistent (s : AuthState) : Prop where
  schemes : (s.auths.map QuackapiAuth.key).Nodup
  owned : ∀ e ∈ s.apiKeys, ∃ a ∈ s.auths, a.key = lower e.authName ∧ a.kind = .apiKey
  keys : (s.apiKeys.map ApiKeyEntry.key).Nodup

def AuthState.keyed (s : AuthState) : List (Str × Str) := s.apiKeys.map ApiKeyEntry.key

theorem Consistent.owner {s : AuthState} (hs : Consistent s) {k : Str × Str} (hk : k ∈ s.keyed) :
    ∃ a ∈ s.auths, a.key = k.1 ∧ a.kind = .apiKey := by
  obtain ⟨e, he, rfl⟩ := List.mem_map.mp hk
  exact hs.owned e he

theorem Consistent.same {s : AuthState} (hs : Consistent s) {a b : QuackapiAuth}
    (ha : a ∈ s.auths) (hb : b ∈ s.auths) (h : a.key = b.key) : a = b :=
  List.inj_on_of_nodup_map hs.schemes ha hb h

theorem key_renameKeys (name : Str) (l : List ApiKeyEntry) :
    (renameKeys name name l).map ApiKeyEntry.key = l.map ApiKeyEntry.key := by
  rw [renameKeys, List.map_map]
  refine List.map_congr_left fun e _ => ?_
  rw [Function.comp_apply]
  split
  · next h => rw [ApiKeyEntry.key, ApiKeyEntry.key, h]
  · rfl

theorem key_purgeKeys {name : Str} {l : List ApiKeyEntry} {k : Str × Str} :
    k ∈ (purgeKeys name l).map ApiKeyEntry.key ↔
      k ∈ l.map ApiKeyEntry.key ∧ k.1 ≠ lower name := by
  simp only [purgeKeys, List.mem_map, List.mem_filter, decide_eq_true_eq]
  constructor
  · rintro ⟨e, ⟨he, hne⟩, rfl⟩
    exact ⟨⟨e, he, rfl⟩, hne⟩
  · rintro ⟨⟨e, he, rfl⟩, hne⟩
    exact ⟨e, ⟨he, hne⟩, rfl⟩

theorem nodup_purgeKeys {name : Str} {l : List ApiKeyEntry}
    (h : (l.map ApiKeyEntry.key).Nodup) : ((purgeKeys name l).map ApiKeyEntry.key).Nodup :=
  h.sublist (List.filter_sublist.map _)

theorem owned_of_keyed {s : AuthState}
    (h : ∀ k ∈ s.keyed, ∃ a ∈ s.auths, a.key = k.1 ∧ a.kind = .apiKey) :
    ∀ e ∈ s.apiKeys, ∃ a ∈ s.auths, a.key = lower e.authName ∧ a.kind = .apiKey :=
  fun _ he => h _ (List.mem_map_of_mem he)

theorem keyed_addAuth {s t : AuthState} (hs : Consistent s) {auth : QuackapiAuth}
    {orReplace : Bool} (h : addAuth s auth orReplace = .ok t) (k : Str × Str) :
    k ∈ t.keyed ↔ k ∈ s.keyed ∧ ¬ (auth.key = k.1 ∧ auth.kind ≠ .apiKey) := by
  rcases addAuth_ok h with ⟨hnew, rfl⟩ | ⟨old, hold, hkey, -, hkeys⟩
  · -- a scheme that did not exist owns no digest
    refine ⟨fun hk => ⟨hk, fun ⟨he, _⟩ => ?_⟩, And.left⟩
    obtain ⟨a, ha, hak, _⟩ := hs.owner hk
    rw [he, ← hak] at hnew
    exact hnew (List.mem_map_of_mem ha)
  · rcases hkeys with ⟨_, hkind, hpurge⟩ | ⟨hkind, hkept⟩
    · rw [AuthState.keyed, hpurge, key_purgeKeys]
      refine and_congr_right fun _ => ?_
      rw [and_iff_left hkind, ← ne_eq, ne_comm]
      rfl
    · have hsame : t.keyed = s.keyed := by
        rcases hkept with hkept | hkept
        · rw [AuthState.keyed, hkept]
          rfl
        · rw [AuthState.keyed, hkept, key_renameKeys]
          rfl
      rw [hsame]
      -- a digest of this scheme says that the old one is an API key scheme, so the new one is
      refine ⟨fun hk => ⟨hk, fun ⟨he, hne⟩ => hne (hkind ?_)⟩, And.left⟩
      obtain ⟨a, ha, hak, hapi⟩ := hs.owner hk
      rwa [hs.same hold ha (hkey.trans (he.trans hak.symm))]

theorem Consistent.addAuth {s t : AuthState} (hs : Consistent s) {auth : QuackapiAuth}
    {orReplace : Bool} (h : addAuth s auth orReplace = .ok t) : Consistent t := by
  have hkeyed := keyed_addAuth hs h
  rcases addAuth_ok h with ⟨hnew, rfl⟩ | ⟨old, hold, hkey, hauths, hkeys⟩
  · refine ⟨nodup_concat_of_not_mem hs.schemes hnew, fun e he => ?_, hs.keys⟩
    obtain ⟨a, ha, hak⟩ := hs.owned e he
    exact ⟨a, List.mem_append_left _ ha, hak⟩
  · have hmem : auth.key ∈ s.auths.map QuackapiAuth.key := hkey ▸ List.mem_map_of_mem hold
    refine ⟨?_, owned_of_keyed fun k hk => ?_, ?_⟩
    · rw [hauths, map_key_replaceKey]
      exact hs.schemes
    · obtain ⟨hk, hkind⟩ := (hkeyed k).mp hk
      obtain ⟨a, ha, hak, hapi⟩ := hs.owner hk
      rw [hauths]
      by_cases he : a.key = auth.key
      · have hauth : auth.key = k.1 := he.symm.trans hak
        exact ⟨auth, mem_replaceKey_self hmem, hauth,
          by_contra fun hne => hkind ⟨hauth, hne⟩⟩
      · exact ⟨a, mem_replaceKey_of_ne ha he, hak, hapi⟩
    · rcases hkeys with ⟨_, _, hpurge⟩ | ⟨_, hkept | hkept⟩
      · rw [hpurge]
        exact nodup_purgeKeys hs.keys
      · rw [hkept]
        exact hs.keys
      · rw [hkept, key_renameKeys]
        exact hs.keys

theorem keyed_dropAuth {s t : AuthState} {name : Str} (h : dropAuth s name = .ok t)
    (k : Str × Str) : k ∈ t.keyed ↔ k ∈ s.keyed ∧ k.1 ≠ lower name := by
  obtain ⟨_, rfl⟩ := dropAuth_ok h
  exact key_purgeKeys

theorem Consistent.dropAuth {s t : AuthState} (hs : Consistent s) {name : Str}
    (h : dropAuth s name = .ok t) : Consistent t := by
  have hkeyed := keyed_dropAuth h
  obtain ⟨_, rfl⟩ := dropAuth_ok h
  refine ⟨nodup_eraseKey hs.schemes _, owned_of_keyed fun k hk => ?_, nodup_purgeKeys hs.keys⟩
  obtain ⟨hk, hne⟩ := (hkeyed k).mp hk
  obtain ⟨a, ha, hak, hapi⟩ := hs.owner hk
  exact ⟨a, (mem_eraseKey hs.schemes).mpr ⟨ha, hak ▸ hne⟩, hak, hapi⟩

theorem keyed_addApiKey {sha256 : Str → Str} {s t : AuthState} {authName rawKey subject : Str}
    (h : addApiKey sha256 s authName rawKey subject = .ok t) (k : Str × Str) :
    k ∈ t.keyed ↔ k = (lower authName, sha256 rawKey) ∨ k ∈ s.keyed := by
  obtain ⟨_, auth, _, hname, _, _, hkeys⟩ := addApiKey_ok h
  rw [← hname]
  rcases hkeys with ⟨hmem, hkeys⟩ | ⟨_, hkeys⟩
  · rw [AuthState.keyed, hkeys, map_key_replaceKey]
    refine ⟨.inr, ?_⟩
    rintro (rfl | hk)
    · exact hmem
    · exact hk
  · rw [AuthState.keyed, hkeys, List.map_append, List.mem_append, or_comm, List.map_singleton,
      List.mem_singleton]
    rfl

theorem Consistent.addApiKey {sha256 : Str → Str} {s t : AuthState} (hs : Consistent s)
    {authName rawKey subject : Str} (h : addApiKey sha256 s authName rawKey subject = .ok t) :
    Consistent t := by
  have hkeyed := keyed_addApiKey h
  obtain ⟨_, auth, hauth, hname, hkind, hauths, hkeys⟩ := addApiKey_ok h
  refine ⟨by rw [hauths]; exact hs.schemes, owned_of_keyed fun k hk => ?_, ?_⟩
  · rw [hauths]
    rcases (hkeyed k).mp hk with rfl | hk
    · exact ⟨auth, hauth, hname, hkind⟩
    · exact hs.owner hk
  · rcases hkeys with ⟨_, hkeys⟩ | ⟨hnew, hkeys⟩
    · rw [hkeys, map_key_replaceKey]
      exact hs.keys
    · rw [hkeys]
      exact nodup_concat_of_not_mem hs.keys hnew

theorem Consistent.step {sha256 : Str → Str} {s : AuthState} (hs : Consistent s) (a : AuthAction) :
    Consistent ((authMachine sha256).step s a).1 := by
  show Consistent (authStep sha256 s a).1
  rcases authStep_cases sha256 s a with ⟨t, ht, hstep⟩ | ⟨_, hstep⟩
  · rw [hstep]
    cases a with
    | addAuth auth orReplace => exact hs.addAuth ht
    | dropAuth name => exact hs.dropAuth ht
    | addApiKey authName rawKey subject => exact hs.addApiKey ht
  · rw [hstep]
    exact hs

theorem consistent_emptyAuths : Consistent emptyAuths :=
  ⟨List.nodup_nil, fun _ he => (nomatch he), List.nodup_nil⟩

theorem keyed_step {sha256 : Str → Str} (hsha : Function.Injective sha256) {s t : AuthState}
    (hs : Consistent s) {a : AuthAction} (h : applyAuth sha256 s a = .ok t)
    (scheme rawKey : Str) :
    (lower scheme, sha256 rawKey) ∈ t.keyed ↔ Adds scheme rawKey (a, .ok ()) ∨
      ((lower scheme, sha256 rawKey) ∈ s.keyed ∧ ¬ Ends scheme (a, .ok ())) := by
  cases a with
  | addAuth auth orReplace =>
    rw [keyed_addAuth hs h]
    simp only [Adds, Ends, QuackapiAuth.key, false_or]
  | dropAuth name =>
    rw [keyed_dropAuth h]
    simp only [Adds, Ends, false_or, ne_eq, eq_comm]
  | addApiKey authName key subject =>
    rw [keyed_addApiKey h]
    simp only [Adds, Ends, not_false_eq_true, and_true, Prod.mk.injEq, hsha.eq_iff, eq_comm]

/-- The digests stored are those of the keys whose life has not ended. -/
def Alive (sha256 : Str → Str) (h : List AuthEvent) (s : AuthState) : Prop :=
  Consistent s ∧ ∀ scheme rawKey, (lower scheme, sha256 rawKey) ∈ s.keyed ↔
    Since (Adds scheme rawKey) (Ends scheme) h

theorem alive_step {sha256 : Str → Str} (hsha : Function.Injective sha256) {h : List AuthEvent}
    {s : AuthState} (hs : Alive sha256 h s) (a : AuthAction) :
    Alive sha256 (h ++ [(a, ((authMachine sha256).step s a).2)])
      ((authMachine sha256).step s a).1 := by
  obtain ⟨hcons, hlife⟩ := hs
  refine ⟨hcons.step a, fun scheme rawKey => ?_⟩
  show _ ∈ (authStep sha256 s a).1.keyed ↔ Since _ _ (h ++ [(a, (authStep sha256 s a).2)])
  rw [since_concat, ← hlife scheme rawKey]
  -- what is left is what one step does to one digest
  rcases authStep_cases sha256 s a with ⟨t, ht, hstep⟩ | ⟨msg, hstep⟩
  · rw [hstep]
    exact keyed_step hsha hcons ht scheme rawKey
  · -- a step that fails neither adds nor ends anything
    rw [hstep]
    cases a <;> simp only [Adds, Ends, false_or, not_false_eq_true, and_true]

theorem alive_run {sha256 : Str → Str} (hsha : Function.Injective sha256) (as : List AuthAction) :
    Alive sha256 ((authMachine sha256).history emptyAuths as)
      ((authMachine sha256).run emptyAuths as) := by
  have hnil : Alive sha256 [] emptyAuths :=
    ⟨consistent_emptyAuths, fun _ _ => iff_of_false (fun h => nomatch h) not_since_nil⟩
  exact (authMachine sha256).history_invariant hnil (fun _ _ a ha => alive_step hsha ha a) as

theorem ne_nil_of_adds {sha256 : Str → Str} {as : List AuthAction} {scheme rawKey : Str}
    {x : AuthEvent} (hx : x ∈ (authMachine sha256).history emptyAuths as)
    (h : Adds scheme rawKey x) : rawKey ≠ [] := by
  obtain ⟨a, r⟩ := x
  obtain ⟨pre, post, _, hr⟩ := (authMachine sha256).mem_history hx
  replace hr : r = (authStep sha256 ((authMachine sha256).run emptyAuths pre) a).2 := hr
  rcases authStep_cases sha256 ((authMachine sha256).run emptyAuths pre) a with
    ⟨t, ht, hstep⟩ | ⟨msg, hstep⟩
  · cases a with
    | addApiKey name key subject =>
      rw [hr, hstep] at h
      have hkey : key = rawKey := h.2
      rw [← hkey]
      exact (addApiKey_ok ht).1
    | addAuth auth orReplace => rw [hr, hstep] at h; exact h.elim
    | dropAuth name => rw [hr, hstep] at h; exact h.elim
  · rw [hr, hstep] at h
    cases a <;> exact h.elim

theorem verifyApiKey_ok {e : AuthEngine} {s : AuthState} {auth : QuackapiAuth} {rawKey : Str} :
    (verifyApiKey e s auth rawKey).ok = true ↔
      rawKey ≠ [] ∧ (auth.key, e.sha256 rawKey) ∈ s.keyed := by
  unfold verifyApiKey
  split
  · next hempty =>
    refine iff_of_false (by simp only [fail401, Bool.false_eq_true, not_false_eq_true]) ?_
    rintro ⟨hne, _⟩
    exact hne (List.isEmpty_iff.mp hempty)
  next hempty =>
  have hne : rawKey ≠ [] := fun h => hempty (List.isEmpty_iff.mpr h)
  -- the lookup by digest is membership of the pair the entries are keyed by
  have hmem : (auth.key, e.sha256 rawKey) ∈ s.keyed ↔
      ∃ entry ∈ snapshotApiKeys s auth.name, e.sha256 rawKey = entry.keyHash := by
    simp only [AuthState.keyed, snapshotApiKeys, List.mem_map, List.mem_filter, ApiKeyEntry.key,
      QuackapiAuth.key, Prod.mk.injEq, decide_eq_true_eq]
    constructor
    · rintro ⟨entry, hentry, hname, hhash⟩
      exact ⟨entry, ⟨hentry, hname⟩, hhash.symm⟩
    · rintro ⟨entry, ⟨hentry, hname⟩, hhash⟩
      exact ⟨entry, hentry, hname, hhash.symm⟩
  rw [hmem]
  split
  · next hnone =>
    refine iff_of_false (by simp only [fail401, Bool.false_eq_true, not_false_eq_true]) ?_
    rintro ⟨_, entry, hentry, hhash⟩
    exact absurd hhash (by simpa using List.find?_eq_none.mp hnone entry hentry)
  · next entry hsome =>
    refine iff_of_true rfl ⟨hne, entry, List.mem_of_find?_eq_some hsome, ?_⟩
    simpa using List.find?_some hsome

/-- The scheme takes API keys, and takes this one. To another kind of scheme the string is a token
and no key. -/
def AcceptsKey (e : AuthEngine) (s : AuthState) (clock : JwtClock) (scheme rawKey : Str) : Prop :=
  (∃ auth, getAuth s scheme = some auth ∧ auth.kind = .apiKey) ∧
    ∃ r, verifyAuthScheme e s clock scheme rawKey = some r ∧ r.ok = true

theorem acceptsKey_iff {e : AuthEngine} {s : AuthState} (hs : Consistent s) {clock : JwtClock}
    {scheme rawKey : Str} : AcceptsKey e s clock scheme rawKey ↔
      rawKey ≠ [] ∧ (lower scheme, e.sha256 rawKey) ∈ s.keyed := by
  constructor
  · rintro ⟨⟨auth, hget, hkind⟩, r, hr, hok⟩
    rw [verifyAuthScheme, hget] at hr
    simp only [hkind, Option.some.injEq] at hr
    rw [← hr, verifyApiKey_ok, (findKey_eq_some hget).2] at hok
    exact hok
  · rintro ⟨hne, hmem⟩
    obtain ⟨auth, hauth, hkey, hkind⟩ := hs.owner hmem
    have hget : getAuth s scheme = some auth := (findKey_eq_some_iff hs.schemes).mpr ⟨hauth, hkey⟩
    refine ⟨⟨auth, hget, hkind⟩, verifyApiKey e s auth rawKey, ?_, ?_⟩
    · rw [verifyAuthScheme, hget]
      simp only [hkind]
    · rw [verifyApiKey_ok, hkey]
      exact ⟨hne, hmem⟩

/-- Whatever is asked of the registry, it stays consistent, and a raw key is accepted exactly from
the step that adds it until its scheme is dropped or stands for another kind. -/
theorem api_key_lifetime (e : AuthEngine) (hsha : Function.Injective e.sha256)
    (as : List AuthAction) :
    Consistent ((authMachine e.sha256).run emptyAuths as) ∧
    ∀ clock scheme rawKey,
      AcceptsKey e ((authMachine e.sha256).run emptyAuths as) clock scheme rawKey ↔
        Since (Adds scheme rawKey) (Ends scheme) ((authMachine e.sha256).history emptyAuths as) := by
  obtain ⟨hcons, hlife⟩ := alive_run hsha as
  refine ⟨hcons, fun clock scheme rawKey => ?_⟩
  rw [acceptsKey_iff hcons, hlife scheme rawKey, and_iff_right_iff_imp]
  rintro ⟨pre, x, post, hsplit, hadds, _⟩
  exact ne_nil_of_adds (hsplit ▸ List.mem_append_right _ List.mem_cons_self) hadds

/-- The digest of `k1`, exchanged with it by an injective stand-in for the hash. -/
def digestOfK1 : Str :=
  [106, 185, 241, 235, 143, 125, 51, 136, 244, 249, 213, 134, 246, 110, 153, 253, 84, 8, 13, 242,
    196, 70, 240, 229, 134, 104, 176, 156, 8, 161, 109, 208].map Char.ofNat

def swapEngine : AuthEngine where
  sha256 := Equiv.swap "k1".toList digestOfK1
  hmacSha256 _ message := message
  base64Decode := some
  parseJson _ := .invalid

/-- `CREATE AUTH Site`, a key, and a replacement that spells the name differently. -/
def respelled : List AuthAction :=
  [.addAuth ⟨"Site".toList, .apiKey, "X-API-Key".toList, []⟩ false,
    .addApiKey "site".toList "k1".toList "ada".toList,
    .addAuth ⟨"SITE".toList, .apiKey, "X-Key".toList, []⟩ true]

def recreated : List AuthAction :=
  respelled ++ [.dropAuth "site".toList,
    .addAuth ⟨"Site".toList, .apiKey, "X-API-Key".toList, []⟩ false]

theorem api_key_lifetime_respelled :
    Function.Injective swapEngine.sha256 ∧
    AcceptsKey swapEngine ((authMachine swapEngine.sha256).run emptyAuths respelled) ⟨0, 0⟩
      "site".toList "k1".toList ∧
    ¬ AcceptsKey swapEngine ((authMachine swapEngine.sha256).run emptyAuths recreated) ⟨0, 0⟩
      "site".toList "k1".toList := by
  have hsha : Function.Injective swapEngine.sha256 := Equiv.injective _
  refine ⟨hsha, ?_, ?_⟩
  · rw [(api_key_lifetime swapEngine hsha respelled).2]
    refine ⟨[_], (.addApiKey _ _ _, .ok ()), [_], rfl, ⟨by decide, rfl⟩, ?_⟩
    intro y hy
    rw [List.mem_singleton.mp hy]
    exact fun h => h.2 rfl
  · rw [(api_key_lifetime swapEngine hsha recreated).2]
    -- the drop ends the life of the key, and creating the scheme again does not bring it back
    have hhist : (authMachine swapEngine.sha256).history emptyAuths recreated =
        (authMachine swapEngine.sha256).history emptyAuths respelled ++
          [(.dropAuth "site".toList, .ok ()), (.addAuth ⟨"Site".toList, .apiKey,
            "X-API-Key".toList, []⟩ false, .ok ())] := rfl
    rw [hhist, List.append_cons, since_concat, since_concat]
    rintro (h | ⟨h | ⟨_, h⟩, _⟩)
    · exact h
    · exact h
    · exact h rfl

end Quackapi.Auth
