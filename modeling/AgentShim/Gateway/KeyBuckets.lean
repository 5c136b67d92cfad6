import AgentShim.Gateway.AnonymousBucket
import AgentShim.Gateway.BucketCharges

/-
  Whether a configured key is recognised

  A configured key is the digest of a plaintext key in hex digits, of either case as far
  as validation goes. A request is recognised by the digest of the key it presents, in
  lower-case digits, and the two are compared as strings: among the configured keys by
  authentication, among the overrides by the rate limits.

  What is proved:
    1. `checkSha256Key_of_spells` — validation accepts a digest in either case.
    2. `authenticates_iff` — a request with a configured key passes, and draws from the
       key's own override, exactly if what is asked of the key is asked of its lower-case
       spelling.
-/

namespace AgentShim.Gateway

open AgentShim.Auth AgentShim.Config AgentShim.Plugins AgentShim.RateLimit Checks

variable {P V : Type}

/-- The digest of a key in lower-case hex digits. -/
def hexDigest (sha256 : List UInt8 → List UInt8) (key : String) : String :=
  String.ofList ((sha256 key.toUTF8.toList).flatMap hexByte)

/-- A configured key is the digest of a plaintext key, its hex digits in either case. -/
def Spells (sha256 : List UInt8 → List UInt8) (entry key : String) : Prop :=
  ∃ hex, entry = "sha256:" ++ hex ∧ Text.toAsciiLowercase hex = hexDigest sha256 key

/-- The request passes authentication and draws from the bucket of the configured key's
own override, if it has one. -/
def Authenticates (sha256 : List UInt8 → List UInt8) (toStr : V → Option String)
    (cfg : GatewayConfig) (plugins : PluginRegistry P) (headers : List (String × V))
    (entry : String) : Prop :=
  ∃ identity, checkAuth sha256 toStr (.ofConfig cfg plugins) headers = .ok identity ∧
    ∀ b, cfg.rateLimit.perKey.overrides.get? entry = some b →
      ChargesKey cfg.rateLimit identity entry (.ofYaml b)

/-! ## One key -/

variable {sha256 : List UInt8 → List UInt8} {entry key : String}

/-- What a request with the key is recognised by. -/
theorem hashKey_of_spells (h : Spells sha256 entry key) :
    hashKey sha256 key = Text.toAsciiLowercase entry := by
  obtain ⟨hex, rfl, hhex⟩ := h
  rw [Text.toAsciiLowercase_append, hhex]
  rfl

/-- Validation accepts the digest of a key in either case. -/
theorem checkSha256Key_of_spells (hbytes : (sha256 key.toUTF8.toList).length = 32)
    (h : Spells sha256 entry key) (ctx : String) : checkSha256Key ctx entry = .ok () := by
  obtain ⟨hex, rfl, hhex⟩ := h
  have hstrip : Text.stripStart ("sha256:" ++ hex) "sha256:" = some hex := by
    unfold Text.stripStart
    rw [if_pos (Text.startsWith_iff.mpr (by simp)), String.toList_append, List.drop_left,
      String.ofList_toList]
  have hdigits : hex.toList.all Text.isAsciiHexdigit = true := by
    rw [List.all_eq_true]
    intro c hc
    apply Text.isAsciiHexdigit_of_toLower
    have hlower : c.toLower ∈ (hexDigest sha256 key).toList := by
      rw [← hhex, Text.toAsciiLowercase, String.toList_ofList]
      exact List.mem_map_of_mem hc
    rw [hexDigest, String.toList_ofList, List.mem_flatMap] at hlower
    obtain ⟨b, -, hb⟩ := hlower
    exact List.all_eq_true.mp (hexByte_digits b) _ hb
  have hlen : Text.len hex = 64 := by
    calc Text.len hex
        = Text.len (Text.toAsciiLowercase hex) := (Text.len_toAsciiLowercase hex).symm
      _ = 2 * (sha256 key.toUTF8.toList).length := by rw [hhex]; exact len_hexBytes _
      _ = 64 := by rw [hbytes]
  rw [checkSha256Key, hstrip]
  dsimp only
  rw [ensure_eq_ok, hlen, hdigits]
  rfl

theorem spells_ne_anonymous (h : Spells sha256 entry key) : entry ≠ "anonymous" := by
  obtain ⟨hex, rfl, -⟩ := h
  intro heq
  have hchars := congrArg String.toList heq
  rw [String.toList_append] at hchars
  exact absurd (List.cons.inj hchars).1 (by decide)

/-- A hash draws from an override exactly if rate limits are on and it is the override's
own spelling. -/
theorem draws_keyHash_iff (cfg : RateLimitConfig) (hash entry : String) :
    (∀ b, cfg.perKey.overrides.get? entry = some b →
      ChargesKey cfg (.keyHash hash) entry (.ofYaml b)) ↔
      (entry ∈ cfg.perKey.overrides.keys → cfg.enabled = true ∧ hash = entry) := by
  rw [OrdMap.mem_keys_iff]
  constructor
  · rintro hdraws ⟨b, hb⟩
    exact eq_of_chargesKey (hdraws b hb)
  · intro h b hb
    obtain ⟨henabled, rfl⟩ := h ⟨b, hb⟩
    exact chargesKey_of_override henabled hb

theorem draws_anonymous_iff (cfg : RateLimitConfig) (hentry : entry ≠ "anonymous") :
    (∀ b, cfg.perKey.overrides.get? entry = some b →
      ChargesKey cfg .anonymous entry (.ofYaml b)) ↔ entry ∉ cfg.perKey.overrides.keys := by
  rw [OrdMap.mem_keys_iff]
  constructor
  · rintro hdraws ⟨b, hb⟩
    exact hentry (eq_of_chargesKey (hdraws b hb)).2.symm
  · intro h b hb
    exact absurd ⟨b, hb⟩ h

/-! ## One request -/

theorem checkAuth_presented {cfg : GatewayConfig} (henabled : cfg.auth.enabled = true)
    (toStr : V → Option String) (plugins : PluginRegistry P) {headers : List (String × V)}
    (hpresented : presentedKey (headerStr toStr headers "authorization")
      (headerStr toStr headers "x-api-key") = some key) :
    checkAuth sha256 toStr (.ofConfig cfg plugins) headers =
      if cfg.auth.required = true ∧ hashKey sha256 key ∉ cfg.auth.keys.keys then
        .error .unauthorized
      else .ok (.keyHash (hashKey sha256 key)) := by
  unfold checkAuth
  simp only [AppSnapshot.ofConfig, henabled, Bool.not_true, Bool.false_eq_true, if_false,
    extractIdentity_eq, hpresented, List.mem_toFinset]
  cases cfg.auth.required with
  | false => rfl
  | true =>
    by_cases hmem : hashKey sha256 key ∈ cfg.auth.keys.keys <;> simp [hmem]

/-- **When a configured key is recognised.** Where authentication is required the
lower-case spelling must be a configured key; and an override is drawn from exactly where
authentication and rate limits are on and it is spelled in lower case. -/
theorem authenticates_iff {cfg : GatewayConfig} (hvalid : validateAuth cfg = .ok ())
    (hspells : Spells sha256 entry key) (toStr : V → Option String) (plugins : PluginRegistry P)
    {headers : List (String × V)}
    (hpresented : presentedKey (headerStr toStr headers "authorization")
      (headerStr toStr headers "x-api-key") = some key) :
    Authenticates sha256 toStr cfg plugins headers entry ↔
      (cfg.auth.required = true → Text.toAsciiLowercase entry ∈ cfg.auth.keys.keys) ∧
      (entry ∈ cfg.rateLimit.perKey.overrides.keys →
        cfg.auth.enabled = true ∧ cfg.rateLimit.enabled = true ∧
          Text.toAsciiLowercase entry = entry) := by
  unfold Authenticates
  cases henabled : cfg.auth.enabled with
  | false =>
    -- everyone is anonymous
    have hrequired : cfg.auth.required = false := by
      rw [validateAuth, andThen_eq_ok, ensure_eq_ok, henabled] at hvalid
      simpa using hvalid.1
    have hcheck : checkAuth sha256 toStr (.ofConfig cfg plugins) headers = .ok .anonymous := by
      rw [checkAuth]
      simp only [AppSnapshot.ofConfig, henabled, Bool.not_false, if_true]
    rw [hcheck, hrequired]
    have hdraws := draws_anonymous_iff cfg.rateLimit (spells_ne_anonymous hspells)
    constructor
    · rintro ⟨identity, hid, h⟩
      cases hid
      refine ⟨?_, fun hmem => absurd hmem (hdraws.mp h)⟩
      intro hrequired
      cases hrequired
    · rintro ⟨-, h⟩
      refine ⟨.anonymous, rfl, hdraws.mpr fun hmem => ?_⟩
      cases (h hmem).1
  | true =>
    rw [checkAuth_presented henabled toStr plugins hpresented, hashKey_of_spells hspells]
    have hdraws := draws_keyHash_iff cfg.rateLimit (Text.toAsciiLowercase entry) entry
    split
    · rename_i hrefused
      refine iff_of_false ?_ fun h => hrefused.2 (h.1 hrefused.1)
      rintro ⟨identity, hid, -⟩
      cases hid
    · rename_i hpassed
      rw [not_and_not_right] at hpassed
      constructor
      · rintro ⟨identity, hid, h⟩
        cases hid
        exact ⟨hpassed, fun hmem => ⟨rfl, hdraws.mp h hmem⟩⟩
      · rintro ⟨-, h⟩
        exact ⟨_, rfl, hdraws.mpr fun hmem => (h hmem).2⟩

/-! ## One key, spelled twice -/

/-- One configured key with a bucket of its own. -/
def keyedGate (required : Bool) (entry : String) : GatewayConfig :=
  { openGate with
    auth :=
      { enabled := true
        required := required
        keys := { entries := [(entry, "team")], sorted := List.pairwise_singleton _ _ } }
    rateLimit :=
      { openGate.rateLimit with
        perKey :=
          { default := none
            anonymous := none
            overrides :=
              { entries := [(entry, { ratePerSec := 1, burst := 1 })]
                sorted := List.pairwise_singleton _ _ } } } }

def lowerEntry : String :=
  "sha256:2cf24dba5fb0a30e26e83b2ac5b9e29e1b161e5c1fa7425e73043362938b9824"

def upperEntry : String :=
  "sha256:2CF24DBA5FB0A30E26E83B2AC5B9E29E1B161E5C1FA7425E73043362938B9824"

def bearerHello : List (String × String) := [("authorization", "Bearer hello")]

theorem presentedKey_bearerHello :
    presentedKey (headerStr some bearerHello "authorization")
      (headerStr some bearerHello "x-api-key") = some "hello" := by
  have htrim : AnthropicEncode.trim "hello".toList = "hello" := by decide +kernel
  exact (presentedKey_of_trimmed htrim rfl).1 "Bearer" none (by decide +kernel)

theorem authenticates_lowerEntry :
    Authenticates (fun _ => helloDigest) some (keyedGate true lowerEntry) noPlugins bearerHello
      lowerEntry := by
  have hvalid : validateAuth (keyedGate true lowerEntry) = .ok () := rfl
  have hspells : Spells (fun _ => helloDigest) lowerEntry "hello" :=
    ⟨"2cf24dba5fb0a30e26e83b2ac5b9e29e1b161e5c1fa7425e73043362938b9824", rfl, by decide +kernel⟩
  have hlower : Text.toAsciiLowercase lowerEntry = lowerEntry := by decide +kernel
  refine (authenticates_iff hvalid hspells some noPlugins presentedKey_bearerHello).mpr ⟨?_, ?_⟩
  · intro _
    rw [hlower]
    exact List.mem_singleton_self _
  · intro _
    exact ⟨rfl, rfl, hlower⟩

/-- In upper case the key is accepted and never recognised: it is refused where keys are
required, and charged to another bucket where they are not. -/
theorem upperEntry_not_recognised :
    validate (keyedGate true upperEntry) = .ok () ∧
    validate (keyedGate false upperEntry) = .ok () ∧
    Spells (fun _ => helloDigest) upperEntry "hello" ∧
    presentedKey (headerStr some bearerHello "authorization")
      (headerStr some bearerHello "x-api-key") = some "hello" ∧
    checkAuth (fun _ => helloDigest) some (.ofConfig (keyedGate true upperEntry) noPlugins)
      bearerHello = .error .unauthorized ∧
    checkAuth (fun _ => helloDigest) some (.ofConfig (keyedGate false upperEntry) noPlugins)
      bearerHello = .ok (.keyHash lowerEntry) ∧
    ¬ Authenticates (fun _ => helloDigest) some (keyedGate true upperEntry) noPlugins bearerHello
      upperEntry ∧
    ¬ Authenticates (fun _ => helloDigest) some (keyedGate false upperEntry) noPlugins bearerHello
      upperEntry := by
  have hspells : Spells (fun _ => helloDigest) upperEntry "hello" :=
    ⟨"2CF24DBA5FB0A30E26E83B2AC5B9E29E1B161E5C1FA7425E73043362938B9824", rfl, by decide +kernel⟩
  have hhash : hashKey (fun _ => helloDigest) "hello" = lowerEntry := by decide +kernel
  have hne : lowerEntry ≠ upperEntry := by decide +kernel
  have hrefused : checkAuth (fun _ => helloDigest) some
      (.ofConfig (keyedGate true upperEntry) noPlugins) bearerHello = .error .unauthorized := by
    rw [checkAuth_presented rfl some noPlugins presentedKey_bearerHello, hhash]
    exact if_pos ⟨rfl, fun hmem => hne (List.mem_singleton.mp hmem)⟩
  have hother : checkAuth (fun _ => helloDigest) some
      (.ofConfig (keyedGate false upperEntry) noPlugins) bearerHello =
        .ok (.keyHash lowerEntry) := by
    rw [checkAuth_presented rfl some noPlugins presentedKey_bearerHello, hhash]
    exact if_neg fun h => by cases h.1
  refine ⟨rfl, rfl, hspells, presentedKey_bearerHello, hrefused, hother, ?_, ?_⟩
  · rintro ⟨identity, hid, -⟩
    rw [hrefused] at hid
    cases hid
  · rintro ⟨identity, hid, hdraws⟩
    rw [hother] at hid
    cases hid
    exact hne (eq_of_chargesKey (hdraws _ rfl)).2

end AgentShim.Gateway
