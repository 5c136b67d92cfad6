import AgentShim.Providers.AnthropicEncode
import AgentShim.Router.RateLimit

/-
  The identity of a request

  A request presents a plaintext key as a bearer token or in `x-api-key`; its
  identity is the hash of that key, or anonymous without one.

  What is proved:
    1. `presentedKey_of_trimmed` — a trimmed key is presented by either header.
    2. `extractIdentity_eq` — the identity is that of the presented key.
    3. `logId_eq_anonymous_iff` — no hash is logged as the anonymous identity.

  Correspondence (Rust ↔ Lean):
    `hash_key`                      ↔ `hashKey`, over the digest as a parameter
    `extract_identity_from_headers` ↔ `extractIdentityFromHeaders`
-/

namespace AgentShim.Auth

open AgentShim.AnthropicEncode (trim)
open AgentShim.RateLimit

/-- `{:02x}` of a byte. -/
def hexByte (b : UInt8) : List Char :=
  [Nat.digitChar (b.toNat / 16), Nat.digitChar (b.toNat % 16)]

theorem hexByte_digits (b : UInt8) : (hexByte b).all Text.isAsciiHexdigit = true := by
  have hdigit : ∀ n < 16, Text.isAsciiHexdigit (Nat.digitChar n) = true := by decide
  have hb : b.toNat < 256 := b.toNat_lt
  rw [hexByte, List.all_cons, List.all_cons, hdigit _ (by omega), hdigit _ (by omega)]
  rfl

theorem len_hexBytes (bytes : List UInt8) :
    Text.len (String.ofList (bytes.flatMap hexByte)) = 2 * bytes.length := by
  have hsize : ∀ n < 16, (Nat.digitChar n).utf8Size = 1 := by decide
  induction bytes with
  | nil => rfl
  | cons b bytes ih =>
    have hb : b.toNat < 256 := b.toNat_lt
    have hbyte : (String.ofList (hexByte b)).utf8ByteSize = 2 := by
      simp [hexByte, String.ofList_cons, hsize (b.toNat / 16) (by omega),
        hsize (b.toNat % 16) (by omega)]
    rw [Text.len] at *
    rw [List.flatMap_cons, String.ofList_append, String.utf8ByteSize_append, hbyte, ih,
      List.length_cons]
    omega

/-- `sha256:` and the digest of the key in hex digits. -/
def hashKey (sha256 : List UInt8 → List UInt8) (plaintext : String) : String :=
  "sha256:" ++ String.ofList ((sha256 plaintext.toUTF8.toList).flatMap hexByte)

def nonEmpty (s : String) : Option String := if Text.isEmpty s then none else some s

/-- The key of an `Authorization: Bearer` header; the scheme in any case. -/
def bearerKey (authorization : String) : Option String :=
  match Text.splitOnce authorization ' ' with
  | some (scheme, rest) =>
    if Text.toAsciiLowercase scheme == "bearer" then nonEmpty (trim rest.toList) else none
  | none => none

/-- The key of an `x-api-key` header. -/
def apiKey (value : String) : Option String := nonEmpty (trim value.toList)

def extractIdentityFromHeaders (sha256 : List UInt8 → List UInt8)
    (authorization xApiKey : Option String) : AgentIdentity :=
  match authorization.bind bearerKey with
  | some key => .keyHash (hashKey sha256 key)
  | none =>
    match xApiKey.bind apiKey with
    | some key => .keyHash (hashKey sha256 key)
    | none => .anonymous

/-- The key a request presents: its bearer token, else its `x-api-key`. -/
def presentedKey (authorization xApiKey : Option String) : Option String :=
  (authorization.bind bearerKey).or (xApiKey.bind apiKey)

theorem bearerKey_of_scheme {scheme key : String}
    (hscheme : Text.toAsciiLowercase scheme = "bearer") (htrim : trim key.toList = key)
    (hne : Text.isEmpty key = false) :
    bearerKey (scheme ++ String.singleton ' ' ++ key) = some key := by
  have hno : ' ' ∉ scheme.toList := by
    intro hmem
    have hlower : ' '.toLower ∈ (Text.toAsciiLowercase scheme).toList := by
      rw [Text.toAsciiLowercase, String.toList_ofList]
      exact List.mem_map_of_mem hmem
    rw [hscheme] at hlower
    exact absurd hlower (by decide)
  rw [bearerKey, Text.splitOnce_append hno]
  dsimp only
  rw [hscheme, if_pos (beq_self_eq_true "bearer"), htrim, nonEmpty, hne]
  rfl

/-- A trimmed key is presented by either header. -/
theorem presentedKey_of_trimmed {key : String} (htrim : trim key.toList = key)
    (hne : Text.isEmpty key = false) :
    (∀ scheme xApiKey, Text.toAsciiLowercase scheme = "bearer" →
      presentedKey (some (scheme ++ String.singleton ' ' ++ key)) xApiKey = some key) ∧
      presentedKey none (some key) = some key := by
  constructor
  · intro scheme xApiKey hscheme
    rw [presentedKey, Option.bind_some, bearerKey_of_scheme hscheme htrim hne]
    rfl
  · rw [presentedKey, Option.bind_some, apiKey, htrim, nonEmpty, hne]
    rfl

theorem extractIdentity_eq (sha256 : List UInt8 → List UInt8)
    (authorization xApiKey : Option String) :
    extractIdentityFromHeaders sha256 authorization xApiKey =
      match presentedKey authorization xApiKey with
      | some key => .keyHash (hashKey sha256 key)
      | none => .anonymous := by
  unfold extractIdentityFromHeaders presentedKey
  cases authorization.bind bearerKey with
  | some key => rfl
  | none => cases xApiKey.bind apiKey <;> rfl

theorem hashKey_ne_anonymous (sha256 : List UInt8 → List UInt8) (plaintext : String) :
    hashKey sha256 plaintext ≠ "anonymous" := by
  intro h
  have hchars := congrArg String.toList h
  rw [hashKey, String.toList_append] at hchars
  exact absurd (List.cons.inj hchars).1 (by decide)

/-- Only a request without a key has the anonymous identity's name. -/
theorem logId_eq_anonymous_iff (sha256 : List UInt8 → List UInt8)
    (authorization xApiKey : Option String) :
    (extractIdentityFromHeaders sha256 authorization xApiKey).logId = "anonymous" ↔
      presentedKey authorization xApiKey = none := by
  rw [extractIdentity_eq]
  cases presentedKey authorization xApiKey with
  | none => simp [AgentIdentity.logId]
  | some key => simp [AgentIdentity.logId, hashKey_ne_anonymous]

example : presentedKey (some "BEARER  abc ") (some "def") = some "abc" := by decide +kernel

end AgentShim.Auth
