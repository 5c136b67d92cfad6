import AgentShim.Frontends.AnthropicRoundTrip
import AgentShim.Frontends.ChatRoundTrip
import AgentShim.Frontends.ResponsesRoundTrip
import AgentShim.Gateway.Collect

/-
  The usage a client is told

  The same events of usage go to every client, and each encoder makes its own sum
  of them: Anthropic and Responses add the deltas and let the end of the response
  replace the counts it has, Chat tells what came with the end and nothing else,
  the collector what came last.

  What is proved:
    1. `anthropicReport_eq`, `chatReport_eq`, `responsesReport_eq`,
       `collectorReport_eq` — what each tells of a lifecycle-valid stream.
    2. `reports_agree_iff` — they agree exactly if the stream has no usage, or the
       end of the response has the counts that the deltas did not add up to 0.
-/

namespace AgentShim

open Transducer

/-- Input and output tokens. -/
abbrev Counts := Nat × Nat

/-- The counts of a usage; a count that is missing is zero. -/
def Usage.counts (u : Usage) : Counts := (u.inputTokens.getD 0, u.outputTokens.getD 0)

/-- Adds a delta, in `u32`. -/
def addDelta (acc : Counts) : StreamEvent → Counts
  | .usageDelta u =>
    (Wire.addU32 acc.1 (u.inputTokens.getD 0), Wire.addU32 acc.2 (u.outputTokens.getD 0))
  | _ => acc

/-- What the deltas of a stream add up to. -/
def deltaCounts (es : List StreamEvent) : Counts := es.foldl addDelta (0, 0)

/-- The counts that a final usage replaces the summed ones with. -/
def overrideCounts (usage : Option Usage) (sum : Counts) : Counts :=
  match usage with
  | some u => (u.inputTokens.getD sum.1, u.outputTokens.getD sum.2)
  | none => sum

/-- A number of tokens. -/
def Json.tokens : Json → Option Nat
  | .num (.int n) => some n.toNat
  | _ => none

/-- The counts under the two keys of the usage of a JSON object. -/
def usageCounts (inputKey outputKey : String) (v : Json) : Option Counts :=
  (v.get "usage").bind fun usage =>
    ((usage.get inputKey).bind Json.tokens).bind fun input =>
      ((usage.get outputKey).bind Json.tokens).map fun output => (input, output)

variable {nested : Bool} {m : Envelope} {front : List StreamEvent} {usage : Option Usage}
  {e : StreamEvent}

namespace AnthropicMessages

/-- The counts in the end of the message. -/
def OutboundEvent.counts? (o : OutboundEvent) : Option Counts :=
  o.finalUsage.map fun usage => (usage.inputTokens, usage.outputTokens)

def report (es : List StreamEvent) : Option Counts := (wire es).findSome? OutboundEvent.counts?

theorem counts_encodeEvent (h : e.isResponseStop = false) (s : EncoderState) :
    ((encodeEvent e s).1.inputTokens, (encodeEvent e s).1.outputTokens) =
      addDelta (s.inputTokens, s.outputTokens) e := by
  cases e with
  | responseStop usage => cases h
  | contentBlockStart index kind =>
    rw [encodeEvent]
    split <;> rfl
  | _ => rfl

theorem pendingStop_encodeEvent (h : e.isResponseStop = false) (s : EncoderState) :
    (encodeEvent e s).1.pendingStop = e.stop.or s.pendingStop := by
  cases e with
  | responseStop usage => cases h
  | contentBlockStart index kind =>
    rw [encodeEvent]
    split <;> rfl
  | _ => rfl

/-- Nothing but the end of the response has a final usage. -/
theorem counts_eq_none (h : e.isResponseStop = false) (s : EncoderState) :
    ∀ o ∈ (encodeEvent e s).2, o.counts? = none := by
  intro o ho
  have hearly := isEarly_of_mem h ho
  cases o <;> first | rfl | cases hearly

/-- The deltas are summed, and the end of the response replaces the counts it has. -/
theorem anthropicReport_eq (hexec : Runs.exec (Envelope.step nested) {} front = some m)
    (hstop : m.stopped = true) (hnoEnd : ∀ e ∈ front, e.isResponseStop = false) :
    report (front ++ [.responseStop usage]) =
      some (overrideCounts usage (deltaCounts front)) := by
  obtain ⟨⟨reason, sequence⟩, hone⟩ := stops_of_stopped hexec hstop
  have hcounts := forEach_field (f := fun s : EncoderState => (s.inputTokens, s.outputTokens))
    (fun e he s => counts_encodeEvent (hnoEnd e he) s) {}
  have hpending := forEach_field (f := EncoderState.pendingStop)
    (g := fun acc e => e.stop.or acc) (fun e he s => pendingStop_encodeEvent (hnoEnd e he) s) {}
  have hreason : (forEach encodeEvent front {}).1.pendingStop = some (reason, sequence) := by
    rw [hpending, Lists.foldl_or, ← stops, hone]
    rfl
  rw [report, wire_eq _ hnoEnd,
    findSome?_forEach_concat _ fun e he s => counts_eq_none (hnoEnd e he) s,
    encode_responseStop hreason]
  rw [deltaCounts, ← hcounts]
  cases usage <;> rfl

end AnthropicMessages

namespace OpenAiChat

def Frame.counts? : Frame → Option Counts
  | .data v => usageCounts "prompt_tokens" "completion_tokens" v
  | .done => none

def report (clockOverride : Option Nat) (now : Nat) (es : List StreamEvent) : Option Counts :=
  (encode clockOverride now (es.map .ok)).findSome? Frame.counts?

theorem counts_makeChunk (s : EncoderState) (delta : DeltaOut) (finishReason : Option String) :
    (makeChunk s delta finishReason).counts? = none := rfl

theorem counts_makeUsageChunk (s : EncoderState) (u : Usage) :
    (makeUsageChunk s u).counts? = some u.counts := by
  show some (((usageOut u).promptTokens : Int).toNat,
    ((usageOut u).completionTokens : Int).toNat) = _
  rw [Int.toNat_natCast, Int.toNat_natCast]
  rfl

theorem counts_eq_none {clock : Option Nat} (h : e.isResponseStop = false)
    (s : EncoderState) : ∀ frame ∈ (encodeEvent clock e s).2, frame.counts? = none := by
  intro frame hframe
  cases e with
  | responseStop usage => cases h
  | error message =>
    obtain rfl := List.mem_singleton.mp hframe
    rfl
  | messageStart role => cases hframe
  | contentBlockStart index kind => cases hframe
  | reasoningDelta index text => cases hframe
  | toolCallStop index => cases hframe
  | contentBlockStop index => cases hframe
  | usageDelta usage => cases hframe
  | rawProviderEvent provider eventName data => cases hframe
  | _ =>
    obtain rfl := List.mem_singleton.mp hframe
    exact counts_makeChunk _ _ _

/-- What comes with the end of the response is all that is told. -/
theorem chatReport_eq (clock : Option Nat) (now : Nat)
    (hnoEnd : ∀ e ∈ front, e.isResponseStop = false) :
    report clock now (front ++ [.responseStop usage]) = usage.map Usage.counts := by
  rw [report, encode_eq _ now hnoEnd,
    findSome?_forEach_concat _ fun e he s => counts_eq_none (hnoEnd e he) s]
  cases usage with
  | none => rfl
  | some u =>
    show List.findSome? Frame.counts? [makeUsageChunk _ u, .done] = _
    rw [List.findSome?_cons, counts_makeUsageChunk]
    rfl

end OpenAiChat

namespace OpenAiResponses

/-- The counts in the event that completes the response. -/
def counts? : Chunk → Option Counts
  | .ok (name, data) =>
    if name = "response.completed" then usageCounts "input_tokens" "output_tokens" data else none
  | .error _ => none

def report (clockOverride : Option Nat) (es : List StreamEvent) : Option Counts :=
  (encode clockOverride (es.map .ok)).findSome? counts?

/-- The counts the encoder has. -/
def tokens (s : EncoderState) : Counts := (s.inputTokens, s.outputTokens)

theorem counts_withOutput {what : String} {index : Nat} {f : Nat → Encode} (s : EncoderState)
    (h : ∀ oi, ∀ o ∈ (f oi s).2, counts? o = none) :
    ∀ o ∈ (withOutput what index f s).2, counts? o = none := by
  unfold withOutput
  split
  · exact h _
  · exact List.forall_mem_singleton.mpr rfl

theorem counts_encodeEvent {clock : Option Nat} (h : e.isResponseStop = false)
    (s : EncoderState) :
    tokens (encodeEvent clock e s).1 = addDelta (tokens s) e := by
  cases e with
  | responseStop usage => cases h
  | contentBlockStart index kind =>
    rw [encodeEvent]
    split
    · rfl
    · split <;> rfl
  | contentBlockStop index =>
    simp only [encodeEvent, stopBlock]
    split
    · rfl
    · split
      · rfl
      · split <;> rfl
  | textDelta index text => exact field_withOutput (f := tokens) (fun _ _ => rfl) s
  | reasoningDelta index text => exact field_withOutput (f := tokens) (fun _ _ => rfl) s
  | toolCallArgumentsDelta index fragment =>
    exact field_withOutput (f := tokens) (fun _ _ => rfl) s
  | toolCallStop index => exact field_withOutput (f := tokens) (fun _ _ => rfl) s
  | _ => rfl

/-- Nothing but the end of the response completes it. -/
theorem counts_eq_none {clock : Option Nat} (h : e.isResponseStop = false)
    (s : EncoderState) : ∀ o ∈ (encodeEvent clock e s).2, counts? o = none := by
  have hnone : ∀ {o : Chunk} {os : List Chunk}, counts? o = none →
      (∀ o ∈ os, counts? o = none) → ∀ o' ∈ o :: os, counts? o' = none :=
    fun ho hos => List.forall_mem_cons.mpr ⟨ho, hos⟩
  have hnil : ∀ o ∈ ([] : List Chunk), counts? o = none := List.forall_mem_nil _
  cases e with
  | responseStop usage => cases h
  | contentBlockStart index kind =>
    rw [encodeEvent]
    split
    · exact hnone rfl (hnone rfl hnil)
    · split
      · exact hnone rfl hnil
      · exact hnil
  | contentBlockStop index =>
    simp only [encodeEvent, stopBlock]
    split
    · exact hnil
    · split
      · exact hnone rfl (hnone rfl (hnone rfl hnil))
      · split
        · exact hnone rfl (hnone rfl hnil)
        · exact hnil
  | textDelta index text => exact counts_withOutput s fun _ => hnone rfl hnil
  | reasoningDelta index text => exact counts_withOutput s fun _ => hnone rfl hnil
  | toolCallArgumentsDelta index fragment => exact counts_withOutput s fun _ => hnone rfl hnil
  | toolCallStop index => exact counts_withOutput s fun _ => hnone rfl (hnone rfl hnil)
  | responseStart id model created => exact hnone rfl hnil
  | toolCallStart index id name => exact hnone rfl hnil
  | error message => exact hnone rfl hnil
  | _ => exact hnil

theorem counts_completeResponse (s : EncoderState) :
    (completeResponse s).2.findSome? counts? = some (tokens s) := by
  show some ((s.inputTokens : Int).toNat, (s.outputTokens : Int).toNat) = _
  rw [Int.toNat_natCast, Int.toNat_natCast]
  rfl

/-- The deltas are summed, and the end of the response replaces the counts it has. -/
theorem responsesReport_eq (clock : Option Nat) (hnoEnd : ∀ e ∈ front, e.isResponseStop = false) :
    report clock (front ++ [.responseStop usage]) =
      some (overrideCounts usage (deltaCounts front)) := by
  have hcounts : tokens (forEach (encodeEvent clock) front { createdAt := clock.getD 0 }).1 =
      deltaCounts front :=
    forEach_field (fun e he s => counts_encodeEvent (hnoEnd e he) s) _
  rw [report, encode_eq _ hnoEnd,
    findSome?_forEach_concat _ fun e he s => counts_eq_none (hnoEnd e he) s]
  show (completeResponse (overrideUsage usage _)).2.findSome? counts? = _
  rw [counts_completeResponse, ← hcounts]
  cases usage <;> rfl

end OpenAiResponses

namespace Gateway

def report (c : Codec) (freshId : String) (es : List StreamEvent) : Option Counts :=
  match collectStream c freshId (es.map .ok) with
  | .ok response => response.usage.map Usage.counts
  | .error _ => none

theorem usage_collectEvent {c : Codec} {s s' : Collector} (h : collectEvent c s e = .ok s') :
    s'.usage = e.usage?.or s.usage := by
  cases e with
  | error message => cases h
  | contentBlockStop index =>
    cases h
    simp only [Collector.stopCall, Collector.stopText]
    split <;> split <;> rfl
  | responseStop usage => cases usage <;> cases h <;> rfl
  | _ =>
    cases h
    rfl

theorem usage_foldlM {c : Codec} {es : List StreamEvent} {s s' : Collector}
    (h : (es.map Except.ok).foldlM (collectItem c) s = .ok s') :
    s'.usage = es.foldl (fun acc e => e.usage?.or acc) s.usage := by
  induction es generalizing s with
  | nil =>
    cases h
    rfl
  | cons e es ih =>
    rw [List.map_cons, List.foldlM_cons] at h
    cases he : collectEvent c s e with
    | error err =>
      have hfail : collectItem c s (.ok e) = .error err := he
      rw [hfail] at h
      cases h
    | ok s₁ =>
      have hnext : collectItem c s (.ok e) = .ok s₁ := he
      rw [hnext] at h
      rw [List.foldl_cons, ← usage_collectEvent he]
      exact ih h

/-- What comes last is what is told. -/
theorem collectorReport_eq (c : Codec) (freshId : String) {es : List StreamEvent}
    (hexec : Runs.exec (Envelope.step nested) {} es = some m)
    (herrors : ∀ e ∈ es, e.isError = false) :
    report c freshId es = ((es.filterMap StreamEvent.usage?).getLast?).map Usage.counts := by
  obtain ⟨s, hs, -⟩ := gathers_of_exec c freshId hexec herrors
  have husage : s.usage = (es.filterMap StreamEvent.usage?).getLast? :=
    (usage_foldlM hs).trans (Lists.foldl_or _ _)
  rw [report, collectStream, hs, ← husage]
  rfl

/-! ## Agreement -/

/-- What the four outputs tell of a stream. -/
def reports (c : Codec) (clockOverride : Option Nat) (now : Nat) (freshId : String)
    (es : List StreamEvent) : List (Option Counts) :=
  [AnthropicMessages.report es, OpenAiChat.report clockOverride now es,
    OpenAiResponses.report clockOverride es, report c freshId es]

/-- All that tell the usage tell the same, and all tell it if the stream has any. -/
def Agree (es : List StreamEvent) (told : List (Option Counts)) : Prop :=
  (∀ x ∈ told, ∀ y ∈ told, ∀ p q, x = some p → y = some q → p = q) ∧
    ((∃ e ∈ es, e.usage? ≠ none) → ∀ x ∈ told, x ≠ none)

/-- The final usage has the counts that the deltas did not add up to 0. -/
def FinalCounts (u : Usage) (sum : Counts) : Prop :=
  (u.inputTokens.isSome = true ∨ sum.1 = 0) ∧ (u.outputTokens.isSome = true ∨ sum.2 = 0)

instance (u : Usage) (sum : Counts) : Decidable (FinalCounts u sum) :=
  inferInstanceAs (Decidable (_ ∧ _))

theorem finalCounts_iff {u : Usage} {sum : Counts} :
    FinalCounts u sum ↔ overrideCounts (some u) sum = u.counts := by
  have hcount : ∀ (n : Option Nat) (k : Nat), (n.isSome = true ∨ k = 0) ↔ n.getD k = n.getD 0 := by
    intro n k
    cases n <;> simp
  rw [FinalCounts, hcount, hcount, overrideCounts, Usage.counts, Prod.mk.injEq]

theorem same_of_forall {told : List (Option Counts)} {r : Counts}
    (h : ∀ x ∈ told, x = none ∨ x = some r) :
    ∀ x ∈ told, ∀ y ∈ told, ∀ p q, x = some p → y = some q → p = q := by
  have hval : ∀ x ∈ told, ∀ p, x = some p → p = r := by
    rintro x hx p rfl
    rcases h _ hx with hnone | hsome
    · cases hnone
    · exact Option.some.inj hsome
  intro x hx y hy p q hp hq
  rw [hval x hx p hp, hval y hy q hq]

/-- The four outputs agree exactly if the stream has no usage, or its end has the counts
that the deltas did not add up to 0. -/
theorem reports_agree_iff (c : Codec) (clockOverride : Option Nat) (now : Nat) (freshId : String)
    {es : List StreamEvent} (hvalid : LifecycleValid es) (herrors : ∀ e ∈ es, e.isError = false) :
    Agree es (reports c clockOverride now freshId es) ↔
      (∀ e ∈ es, e.usage? = none) ∨
        ∃ u, es.getLast? = some (.responseStop (some u)) ∧ FinalCounts u (deltaCounts es) := by
  obtain ⟨front, usage, m, rfl, hexec, hstop, -, hnoEnd⟩ := hvalid.split (hvalid.getLast herrors)
  obtain ⟨m', hm', -⟩ := lifecycleValid_iff.mp hvalid
  have hsum : deltaCounts (front ++ [.responseStop usage]) = deltaCounts front := by
    rw [deltaCounts, List.foldl_append]
    rfl
  rw [reports, AnthropicMessages.anthropicReport_eq hexec hstop hnoEnd,
    OpenAiChat.chatReport_eq clockOverride now hnoEnd,
    OpenAiResponses.responsesReport_eq clockOverride hnoEnd,
    collectorReport_eq c freshId hm' herrors, hsum, List.getLast?_concat]
  cases usage with
  | none =>
    -- Chat tells nothing, so that no event may have a usage
    constructor
    · rintro ⟨-, hall⟩
      left
      intro e he
      refine not_not.mp fun husage => ?_
      exact hall ⟨e, he, husage⟩ none (List.mem_cons_of_mem _ List.mem_cons_self) rfl
    · rintro (hnone | ⟨u, hu, -⟩)
      · rw [List.filterMap_eq_nil_iff.mpr hnone]
        refine ⟨same_of_forall (r := overrideCounts none (deltaCounts front)) (by simp), ?_⟩
        rintro ⟨e, he, husage⟩
        exact absurd (hnone e he) husage
      · cases hu
  | some u =>
    have hlast : ((front ++ [StreamEvent.responseStop (some u)]).filterMap
        StreamEvent.usage?).getLast? = some u := by
      rw [List.filterMap_append]
      exact List.getLast?_concat
    have hcarries : ¬ ∀ e ∈ front ++ [StreamEvent.responseStop (some u)], e.usage? = none :=
      fun hall => nomatch hall _ (List.mem_append_right _ List.mem_cons_self)
    rw [hlast, or_iff_right hcarries]
    constructor
    · rintro ⟨hsame, -⟩
      refine ⟨u, rfl, finalCounts_iff.mpr ?_⟩
      exact hsame _ List.mem_cons_self _ (List.mem_cons_of_mem _ List.mem_cons_self) _ _ rfl rfl
    · rintro ⟨v, hv, hfinal⟩
      cases hv
      rw [finalCounts_iff.mp hfinal]
      exact ⟨same_of_forall (r := u.counts) (by simp), fun _ => by simp⟩

/-- Usage along the way, and the counts of it all at the end. -/
def countedTwice : List StreamEvent :=
  [.responseStart "resp_1" "claude" 0, .messageStart .assistant,
    .usageDelta { inputTokens := some 12 }, .contentBlockStart 0 .text, .textDelta 0 "Hi.",
    .contentBlockStop 0, .usageDelta { outputTokens := some 3 }, .messageStop .endTurn none,
    .responseStop (some { inputTokens := some 12, outputTokens := some 3 })]

theorem countedTwice_agree :
    Agree countedTwice (reports objectCodec none 0 "resp_0" countedTwice) :=
  (reports_agree_iff objectCodec none 0 "resp_0" (by decide) (by decide)).mpr
    (Or.inr ⟨_, rfl, by decide⟩)

/-- Usage along the way, and none at the end. -/
def countedOnce : List StreamEvent :=
  [.responseStart "resp_1" "claude" 0, .messageStart .assistant,
    .usageDelta { inputTokens := some 12 }, .contentBlockStart 0 .text, .textDelta 0 "Hi.",
    .contentBlockStop 0, .usageDelta { outputTokens := some 3 }, .messageStop .endTurn none,
    .responseStop none]

/-- Two add it up, one tells nothing, and one the last of it. -/
theorem countedOnce_disagree :
    LifecycleValid countedOnce ∧ (∀ e ∈ countedOnce, e.isError = false) ∧
      reports objectCodec none 0 "resp_0" countedOnce =
        [some (12, 3), none, some (12, 3), some (0, 3)] ∧
      ¬ Agree countedOnce (reports objectCodec none 0 "resp_0" countedOnce) := by
  have hreports : reports objectCodec none 0 "resp_0" countedOnce =
      [some (12, 3), none, some (12, 3), some (0, 3)] := rfl
  refine ⟨by decide, by decide, hreports, ?_⟩
  rw [hreports]
  rintro ⟨hsame, -⟩
  exact absurd (hsame (some (12, 3)) (by decide) (some (0, 3)) (by decide) _ _ rfl rfl) (by decide)

end Gateway

end AgentShim
