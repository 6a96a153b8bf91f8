import Quackapi.Auth.Verify
import Quackapi.Library.Base64

/-! The base64url texts of a token's segments, over the standard codec of the bundled library. -/

namespace Quackapi.Auth
open Library Library.Base64

/-- `+` and `/` to `-` and `_`, with the padding stripped. -/
def stdToBase64Url (std : Str) : Str :=
  std.filterMap fun c =>
    if c = '+' then some '-' else if c = '/' then some '_' else if c = '=' then none else some c

def base64UrlEncode (base64Encode : Str → Str) (data : Str) : Str :=
  stdToBase64Url (base64Encode data)

def base64UrlAlphabet : Str := "ABCDEFGHIJKLMNOPQRSTUVWXYZabcdefghijklmnopqrstuvwxyz0123456789-_".toList

/-- Digits of the url alphabet, then at most two signs of padding. -/
def IsBase64Url (text : Str) : Prop :=
  ∃ body pad, text = body ++ List.replicate pad '=' ∧ (∀ c ∈ body, c ∈ base64UrlAlphabet) ∧ pad ≤ 2

theorem stdToBase64Url_append (s t : Str) :
    stdToBase64Url (s ++ t) = stdToBase64Url s ++ stdToBase64Url t := List.filterMap_append

theorem stdToBase64Url_pad (n : Nat) : stdToBase64Url (List.replicate n '=') = [] := by
  apply List.filterMap_eq_nil_iff.mpr
  intro c hc
  rw [List.eq_of_mem_replicate hc]
  rfl

theorem base64UrlToStd_digit {c : Char} (hc : c ∈ alphabet) :
    base64UrlToStd (stdToBase64Url [c]) = [c] := by
  have hall := List.all_eq_true.mp
    (show alphabet.all (fun c => base64UrlToStd (stdToBase64Url [c]) = [c]) = true by decide)
  exact of_decide_eq_true (hall c hc)

theorem base64UrlToStd_stdToBase64Url {body : Str} (h : ∀ c ∈ body, c ∈ alphabet) :
    base64UrlToStd (stdToBase64Url body) = body := by
  induction body with
  | nil => rfl
  | cons c body ih =>
    obtain ⟨hc, hbody⟩ := List.forall_mem_cons.mp h
    have happend : base64UrlToStd (stdToBase64Url ([c] ++ body)) =
        base64UrlToStd (stdToBase64Url [c]) ++ base64UrlToStd (stdToBase64Url body) := by
      rw [stdToBase64Url_append, base64UrlToStd, List.map_append]
      rfl
    rw [← List.singleton_append, happend, base64UrlToStd_digit hc, ih hbody]

theorem padBase64_stripped {s : Str} (h : IsBase64 s) :
    padBase64 (base64UrlToStd (stdToBase64Url s)) = s := by
  obtain ⟨body, pad, rfl, hbody, hpad, hlength⟩ := h
  rw [List.length_append, List.length_replicate] at hlength
  have hcount : (4 - body.length % 4) % 4 = pad := by omega
  rw [stdToBase64Url_append, stdToBase64Url_pad, List.append_nil,
    base64UrlToStd_stdToBase64Url hbody, padBase64, hcount]

theorem padding_of_append {s body : Str} {k pad : Nat} (hbody : ∀ c ∈ body, c ≠ '=')
    (h : s ++ List.replicate k '=' = body ++ List.replicate pad '=') :
    ∃ j ≤ pad, s = body ++ List.replicate j '=' := by
  rcases List.append_eq_append_iff.mp h with ⟨t, ht, hrest⟩ | ⟨t, ht, hrest⟩
  · have hnil : t = [] := by
      apply List.eq_nil_iff_forall_not_mem.mpr
      intro c hc
      have hpad : c = '=' := List.eq_of_mem_replicate (hrest ▸ List.mem_append_left _ hc)
      exact hbody c (ht ▸ List.mem_append_right s hc) hpad
    exact ⟨0, Nat.zero_le pad, by rw [ht, hnil]; simp⟩
  · have hrep := List.append_eq_replicate_iff.mp hrest.symm
    exact ⟨t.length, by omega, by rw [ht, ← hrep.2.1]⟩

theorem url_of_digit {c : Char} (hc : c ≠ '+' ∧ c ≠ '/')
    (h : (if c = '-' then '+' else if c = '_' then '/' else c) ∈ alphabet) :
    c ∈ base64UrlAlphabet := by
  have hall := List.all_eq_true.mp
    (show alphabet.all (fun c => c = '+' ∨ c = '/' ∨ c ∈ base64UrlAlphabet) = true by decide)
  split at h
  · case isTrue hdash => exact hdash ▸ (by decide)
  · case isFalse =>
    split at h
    · case isTrue hline => exact hline ▸ (by decide)
    · case isFalse => exact ((of_decide_eq_true (hall c h)).resolve_left hc.1).resolve_left hc.2

theorem pad_of_std {c : Char} (h : (if c = '-' then '+' else if c = '_' then '/' else c) = '=') :
    c = '=' := by
  split at h
  · cases h
  · split at h
    · cases h
    · exact h

theorem url_of_std {text : Str} (htext : ∀ c ∈ text, c ≠ '+' ∧ c ≠ '/')
    (h : IsBase64 (padBase64 (base64UrlToStd text))) : IsBase64Url text := by
  obtain ⟨body, pad, hs, hbody, hpad, -⟩ := h
  have hdigits : ∀ c ∈ body, c ≠ '=' := fun c hc heq => pad_not_mem (heq ▸ hbody c hc)
  obtain ⟨j, hj, hstd⟩ := padding_of_append hdigits hs
  obtain ⟨digits, signs, rfl, rfl, hsigns⟩ := List.map_eq_append_iff.mp hstd
  have hpads : signs = List.replicate j '=' := by
    obtain ⟨hcount, hall⟩ := List.eq_replicate_iff.mp hsigns
    refine List.eq_replicate_iff.mpr ⟨by simpa using hcount, fun c hc => ?_⟩
    exact pad_of_std (hall _ (List.mem_map_of_mem hc))
  refine ⟨digits, j, by rw [hpads], ?_, hj.trans hpad⟩
  · intro c hc
    exact url_of_digit (htext c (List.mem_append_left _ hc)) (hbody _ (List.mem_map_of_mem hc))

theorem std_of_url {text : Str} (h : IsBase64Url text) : ∀ c ∈ text, c ≠ '+' ∧ c ≠ '/' := by
  obtain ⟨body, pad, rfl, hbody, -⟩ := h
  have hall := List.all_eq_true.mp
    (show base64UrlAlphabet.all (fun c => c ≠ '+' ∧ c ≠ '/') = true by decide)
  intro c hc
  rcases List.mem_append.mp hc with hc | hc
  · exact of_decide_eq_true (hall c (hbody c hc))
  · rw [List.eq_of_mem_replicate hc]
    decide

/-- A text is taken as the standard one it translates to: one with `+` or `/` in it too. -/
theorem base64Url_exact_iff (e : AuthEngine) (base64Encode : Str → Str)
    (hcodec : IsCodec base64Encode e.base64Decode) :
    (∀ data, IsBytes data → base64UrlDecode e (base64UrlEncode base64Encode data) = some data) ∧
    ∀ text, ((base64UrlDecode e text).isSome = true → IsBase64Url text) ↔
      (∀ c ∈ text, c ≠ '+' ∧ c ≠ '/') ∨ ¬ IsBase64 (padBase64 (base64UrlToStd text)) := by
  refine ⟨fun data hdata => ?_, fun text => ?_⟩
  · have hdecode := hcodec.roundTrip data hdata
    have hform : IsBase64 (base64Encode data) :=
      (hcodec.accepts _).mp (by rw [hdecode]; rfl)
    rw [base64UrlDecode, base64UrlEncode, padBase64_stripped hform, hdecode]
  · rw [base64UrlDecode, hcodec.accepts]
    constructor
    · intro h
      by_cases hform : IsBase64 (padBase64 (base64UrlToStd text))
      · exact .inl (std_of_url (h hform))
      · exact .inr hform
    · rintro (htext | hform) haccepted
      · exact url_of_std htext haccepted
      · exact absurd haccepted hform

def base64Engine : AuthEngine where
  sha256 s := s
  hmacSha256 _ s := s
  base64Decode := decode
  parseJson _ := .invalid

/-- `??>` has both of the signs that are translated. -/
theorem base64Url_exact_iff_standard :
    IsCodec encode base64Engine.base64Decode ∧
    base64UrlEncode encode "??>".toList = "Pz8-".toList ∧
    base64UrlDecode base64Engine (base64UrlEncode encode "??>".toList) = some "??>".toList := by
  have hbytes : IsBytes "??>".toList := by decide
  exact ⟨isCodec, by decide +kernel, (base64Url_exact_iff base64Engine encode isCodec).1 _ hbytes⟩

/-- A text of the standard alphabet is taken, and for the same bytes as the one of the url alphabet. -/
theorem standard_text_accepted :
    IsCodec encode base64Engine.base64Decode ∧
    base64UrlDecode base64Engine "Pz8+".toList = some "??>".toList ∧
    base64UrlDecode base64Engine "Pz8-".toList = some "??>".toList ∧
    ¬ IsBase64Url "Pz8+".toList := by
  refine ⟨isCodec, by decide +kernel, by decide +kernel, fun h => ?_⟩
  exact (std_of_url h '+' (by decide)).1 rfl

end Quackapi.Auth
