import AgentShim.Frontends.Keepalive
import AgentShim.Gateway.RouteEntries

/-
  The keepalive setting

  Every frontend is built with the interval of `server.keepalive_secs`, zero too: the
  `None` of the encoders, which wraps nothing, is never given. Zero is documented as
  disabled and is accepted, and the interval is then not built.

  What is proved:
    1. `keepalive_transparent_iff` — pings leave a stream as it is, and the wrapper is
       built, iff the setting is not zero.

  Correspondence (Rust ↔ Lean):
    `Duration::from_secs`                   ↔ `fromSecs`, in nanoseconds
    the frontends of `AppState::build`      ↔ `frontendKeepalive`
-/

namespace AgentShim.KeepaliveSetting

open AgentShim.Config AgentShim.RouteEntries AgentShim.Sse

def fromSecs (secs : Nat) : Nat := secs * 1000000000

def frontendKeepalive (config : GatewayConfig) : Option Nat :=
  some (fromSecs config.server.keepaliveSecs)

variable {E σ τ : Type} (timer : Timer τ) (config : GatewayConfig)
  (source : Source σ (Except E String)) (s : σ) (times : List Nat)

/-- The response stream is built. Polled, it is the encoder's stream with pings between
its items, and with none where the setting is zero. -/
def KeepaliveLaw : Prop :=
  ∃ stream : SseStream σ τ, encode timer s (frontendKeepalive config) = some stream ∧
    Transparent (trace source times s) (polls (SseStream.pollNext timer source) times stream) ∧
    (config.server.keepaliveSecs = 0 →
      polls (SseStream.pollNext timer source) times stream = trace source times s)

theorem keepalive_transparent_iff :
    KeepaliveLaw timer config source s times ↔ 1 ≤ config.server.keepaliveSecs := by
  constructor
  · rintro ⟨stream, hstream, -⟩
    by_contra hzero
    have hsecs : config.server.keepaliveSecs = 0 := by omega
    rw [frontendKeepalive, hsecs] at hstream
    exact Option.some_ne_none stream (hstream.symm.trans (encode_zero timer s))
  · intro hsecs
    have hperiod : 0 < fromSecs config.server.keepaliveSecs := by
      rw [fromSecs]
      omega
    obtain ⟨k, hencode, hinner, hopen⟩ := encode_of_pos timer hperiod s
    refine ⟨.kept k, hencode, ?_, fun hzero => absurd hzero (by omega)⟩
    rw [polls_kept, ← hinner]
    exact transparent_polls timer source times hopen

/-- A timer that ticks when it is first polled and then whenever its period is over. -/
def tokioTimer : Timer (Nat × Option Nat) where
  interval period := if period = 0 then none else some (period, none)
  pollTick now
    | (period, none) => ((period, some (now + period)), .ready ())
    | (period, some next) =>
      if next ≤ now then ((period, some (next + period)), .ready ())
      else ((period, some next), .pending)
  interval_eq_none period := by
    split <;> simp_all

/-- A stream that is pending at every poll. -/
def idle : Source Unit (Except Empty String) := fun _ s => (s, .pending)

/-- With fifteen seconds an idle stream is pinged at once and at the next tick. -/
example : polls (pollNext tokioTimer idle) [0, 5000000000, 15000000000]
    { inner := (), interval := (fromSecs 15, none), innerDone := false } =
    [.ready (some ping), .pending, .ready (some ping)] := rfl

/-- A configuration that turns the pings off. -/
def disabledConfig : GatewayConfig :=
  { plainConfig [.singular "openai_chat" "gpt-4o" "openai" "gpt-4o"] with
    server := { bind := "127.0.0.1", port := 8787, keepaliveSecs := 0 } }

theorem disabled_setting_panics :
    validate disabledConfig = .ok () ∧
      encode tokioTimer () (frontendKeepalive disabledConfig) = none ∧
      ¬ KeepaliveLaw tokioTimer disabledConfig idle () [0] := by
  refine ⟨rfl, rfl, ?_⟩
  rintro ⟨stream, hstream, -⟩
  cases hstream

end AgentShim.KeepaliveSetting
