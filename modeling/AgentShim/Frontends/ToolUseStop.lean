import AgentShim.Frontends.AnthropicStream
import AgentShim.Frontends.ChatStream
import AgentShim.Providers.ResponsesLifecycle
import AgentShim.Stream.Blocks

/-
  How a Responses stream that asks for a tool is stopped

  A client runs a tool when the message was stopped for one. The Responses wire has
  no such reason: a response is completed or it is not, and that it asks for a tool
  is seen from its items. The parser looks at the status alone, so no client of a
  Responses upstream is told to run a tool.

  What is proved:
    1. `stop_events` — the reasons the parser stops a message for.
    2. `anthropicStop_mem`, `chatFinish_mem` — the encoders report the reasons of the
       stream, or their own end of turn.
    3. `toolUse_never_reported` — the tool use is reported for no upstream.
    4. `weather_endTurn` — a single function call, stopped as the end of a turn.
-/

namespace AgentShim

open Transducer

namespace ResponsesSse

/-- A function call was added, and was done. -/
def AsksForTool (upstream : List (String × Json)) : Prop :=
  ∃ index callId name, .added index (some (.functionCall callId name)) ∈ signals upstream ∧
    .done index .functionCall ∈ signals upstream

/-- The last event completes the response. -/
def Completes (upstream : List (String × Json)) : Prop :=
  upstream.getLast?.any (fun e => e.1 = "response.completed") = true

instance : DecidablePred Completes := fun _ => inferInstanceAs (Decidable (_ = true))

/-- The reasons that are read of a status. -/
def FromStatus (reason : StopReason) : Prop := reason = .endTurn ∨ reason = .contentFilter

theorem fromStatus_stopReason (data : Json) : FromStatus (stopReason data) := by
  unfold stopReason
  split
  · exact Or.inr rfl
  · exact Or.inl rfl

theorem FromStatus.ne_toolUse {reason : StopReason} (h : FromStatus reason) :
    reason ≠ .toolUse := by
  rcases h with rfl | rfl <;> decide

theorem fromStatus_of_signal {upstream : List (String × Json)} {reason : StopReason}
    {usage : Option Usage} (h : .completed reason usage ∈ signals upstream) :
    FromStatus reason := by
  obtain ⟨⟨eventType, data⟩, -, h⟩ := List.mem_flatMap.mp h
  have h : signal eventType data = some (.completed reason usage) := Option.mem_toList.mp h
  unfold signal at h
  split at h <;> simp at h
  obtain ⟨rfl, -⟩ := h
  exact fromStatus_stopReason data

theorem stops_ensureMessageStart (s : ParserState) : stops (ensureMessageStart s).2 = [] := by
  unfold ensureMessageStart
  split <;> rfl

/-- Only a completion stops the message. -/
theorem stops_apply (f : Signal) (s : ParserState) :
    stops (apply f s).2 =
      match f with
      | .completed reason _ => [(reason, none)]
      | _ => [] := by
  cases f with
  | created id model createdAt =>
    simp only [apply, startResponse]
    split <;> rfl
  | added index item =>
    cases item with
    | none => exact stops_ensureMessageStart s
    | some item =>
      cases item <;> simp only [apply, andThen_apply, stops, List.filterMap_append] <;>
        rw [← stops, stops_ensureMessageStart] <;> rfl
  | done index kind => cases kind <;> rfl
  | failed ended message => cases ended <;> rfl
  | _ => rfl

/-- The drain stops the message for the end of a turn, if at all. -/
theorem stops_finalize {stop : StopReason × Option String} {s : ParserState}
    (h : stop ∈ stops (finalize s).2) : stop = (.endTurn, none) := by
  unfold finalize at h
  split at h
  · cases h
  · split at h
    · have hstop : ∀ t : ParserState, ∀ stop ∈ stops (ensureMessageStop t).2,
          stop = (.endTurn, none) := by
        intro t stop hmem
        unfold ensureMessageStop at hmem
        split at hmem
        · cases hmem
        · exact List.mem_singleton.mp hmem
      simp only [inOrder_cons, inOrder_nil, andThen_skip, andThen_apply, closeOrphaned,
        stopResponse, stops, List.filterMap_append] at h
      rw [← stops, ← stops, ← stops, stops_ensureMessageStart, stops_closeBlocks] at h
      simp only [List.nil_append, List.mem_append] at h
      rcases h with h | h
      · exact hstop _ _ h
      · cases h
    · cases h

/-- Every reason the message is stopped for is that of a status, or the drain's. -/
theorem stop_events {upstream : List (String × Json)} {stop : StopReason × Option String}
    (h : stop ∈ stops (events upstream)) : FromStatus stop.1 := by
  rw [events_eq, andThen_apply, stops_append] at h
  rcases List.mem_append.mp h with h | h
  · obtain ⟨e, he, hstop⟩ := List.mem_filterMap.mp h
    obtain ⟨f, hf, s, he⟩ := exists_of_mem_forEach he
    have hmem : stop ∈ stops (apply f s).2 := List.mem_filterMap.mpr ⟨e, he, hstop⟩
    rw [stops_apply] at hmem
    split at hmem
    · obtain rfl := List.mem_singleton.mp hmem
      exact fromStatus_of_signal hf
    · cases hmem
  · exact Or.inl (congrArg Prod.fst (stops_finalize h))

/-- A completed response is stopped. -/
theorem stops_of_completes {upstream : List (String × Json)} (h : Completes upstream) :
    stops (events upstream) ≠ [] := by
  rcases List.eq_nil_or_concat upstream with rfl | ⟨front, ⟨eventType, data⟩, rfl⟩
  · cases h
  · rw [List.concat_eq_append] at h ⊢
    obtain rfl : eventType = "response.completed" := by simpa [Completes] using h
    have hsignals : signals (front ++ [("response.completed", data)]) =
        signals front ++ [.completed (stopReason data) (parseUsage data)] := by
      rw [signals, List.flatMap_append, List.flatMap_singleton, ← signals]
      rfl
    rw [events_eq, hsignals, forEach_append, forEach_singleton, andThen_apply, andThen_apply,
      stops_append, stops_append, stops_apply]
    simp

end ResponsesSse

variable {es : List StreamEvent}

namespace AnthropicMessages

/-- The stop reason a client reads. -/
def OutboundEvent.stopReason? : OutboundEvent → Option String
  | messageDelta delta _ => some delta.stopReason
  | _ => none

/-- The encoder reports reasons of the stream. -/
theorem anthropicStop_mem {o : OutboundEvent} {reported : String}
    (h : o ∈ encode (es.map .ok)) (hreported : o.stopReason? = some reported) :
    ∃ stop ∈ stops es, reported = stopReasonToAnthropic stop.1 := by
  refine untilDone_outputs (I := fun s => ∀ stop, s.pendingStop = some stop → stop ∈ stops es)
    (P := fun o => ∀ reported, o.stopReason? = some reported →
      ∃ stop ∈ stops es, reported = stopReasonToAnthropic stop.1) ?_
    (fun _ hnone => by cases hnone) o h reported hreported
  intro item hitem s hs
  obtain ⟨e, he, rfl⟩ := List.mem_map.mp hitem
  -- no other event touches the stop, or writes a message delta
  have hother : ∀ {os : List OutboundEvent} {s' : EncoderState}, s'.pendingStop = s.pendingStop →
      (∀ o ∈ os, o.stopReason? = none) →
      (∀ stop, s'.pendingStop = some stop → stop ∈ stops es) ∧ ∀ o ∈ os, ∀ reported,
        o.stopReason? = some reported →
          ∃ stop ∈ stops es, reported = stopReasonToAnthropic stop.1 := by
    intro os s' hsame hnone
    refine ⟨fun stop hstop => hs stop (hsame ▸ hstop), fun o ho reported hreported => ?_⟩
    rw [hnone o ho] at hreported
    cases hreported
  show (∀ stop, (encodeEvent e s).1.pendingStop = some stop → stop ∈ stops es) ∧ _
  cases e with
  | messageStop reason sequence =>
    refine ⟨fun stop hstop => ?_, nofun⟩
    cases hstop
    exact List.mem_filterMap.mpr ⟨_, he, rfl⟩
  | responseStop usage =>
    have hsame : (overrideUsage usage s).pendingStop = s.pendingStop := by cases usage <;> rfl
    show (∀ stop, (stopMessage (overrideUsage usage s)).1.pendingStop = some stop → _) ∧
      ∀ o ∈ (stopMessage (overrideUsage usage s)).2, _
    unfold stopMessage
    split
    · rename_i reason sequence hpending
      refine ⟨nofun, fun o ho reported hreported => ?_⟩
      have hmem := hs _ (hsame ▸ hpending)
      rcases List.mem_cons.mp ho with rfl | ho
      · cases hreported
        exact ⟨_, hmem, rfl⟩
      · obtain rfl := List.mem_singleton.mp ho
        cases hreported
    · exact hother hsame nofun
  | contentBlockStart index kind =>
    show (∀ stop, (encodeEvent (.contentBlockStart index kind) s).1.pendingStop = some stop → _) ∧
      ∀ o ∈ (encodeEvent (.contentBlockStart index kind) s).2, _
    rw [encodeEvent]
    split
    · exact hother rfl nofun
    · exact hother rfl (by simp [emit, OutboundEvent.stopReason?])
  | _ => exact hother rfl (by simp [handle, encodeEvent, emit, skip, update, andThen,
      OutboundEvent.stopReason?])

end AnthropicMessages

namespace OpenAiChat

/-- The finish reasons a client reads. -/
def Frame.finishReasons : Frame → List String
  | data v => ((v.getArray "choices").getD []).filterMap fun choice => choice.getStr "finish_reason"
  | done => []

theorem finishReasons_encodeEvent (clock : Option Nat) (e : StreamEvent) (s : EncoderState) :
    (encodeEvent clock e s).2.flatMap Frame.finishReasons =
      e.stop.toList.map fun stop => finishReasonFromCanonical stop.1 := by
  cases e with
  | responseStop usage => cases usage <;> rfl
  | _ => rfl

/-- The encoder reports reasons of the stream. -/
theorem chatFinish_mem {frame : Frame} {clock : Option Nat} {now : Nat} {reported : String}
    (h : frame ∈ encode clock now (es.map .ok)) (hreported : reported ∈ frame.finishReasons) :
    ∃ stop ∈ stops es, reported = finishReasonFromCanonical stop.1 := by
  refine untilDone_outputs (I := fun _ => True) (P := fun frame => ∀ reported ∈
    frame.finishReasons, ∃ stop ∈ stops es, reported = finishReasonFromCanonical stop.1) ?_ trivial
      frame h reported hreported
  intro item hitem s _
  obtain ⟨e, he, rfl⟩ := List.mem_map.mp hitem
  refine ⟨trivial, fun frame hframe reported hreported => ?_⟩
  have hmem : reported ∈ (encodeEvent clock e s).2.flatMap Frame.finishReasons :=
    List.mem_flatMap.mpr ⟨frame, hframe, hreported⟩
  rw [finishReasons_encodeEvent] at hmem
  obtain ⟨stop, hstop, rfl⟩ := List.mem_map.mp hmem
  exact ⟨stop, List.mem_filterMap.mpr ⟨e, he, Option.mem_toList.mp hstop⟩, rfl⟩

end OpenAiChat

namespace ResponsesSse

/-- No upstream that asks for a tool is reported to do so: the message is stopped, but
never for a tool use, and neither the Anthropic nor the Chat client reads of one. -/
theorem toolUse_never_reported {upstream : List (String × Json)} (hcompletes : Completes upstream)
    (_ : AsksForTool upstream) :
    stops (events upstream) ≠ [] ∧ (∀ stop ∈ stops (events upstream), stop.1 ≠ .toolUse) ∧
      (∀ o ∈ AnthropicMessages.encode ((events upstream).map .ok),
        o.stopReason? ≠ some "tool_use") ∧
      ∀ clockOverride now, ∀ frame ∈
        OpenAiChat.encode clockOverride now ((events upstream).map .ok),
          "tool_calls" ∉ frame.finishReasons := by
  refine ⟨stops_of_completes hcompletes, fun stop h => (stop_events h).ne_toolUse, ?_, ?_⟩
  · intro o ho hreported
    obtain ⟨stop, hstop, hreason⟩ := AnthropicMessages.anthropicStop_mem ho hreported
    rcases stop_events hstop with h | h <;> rw [h] at hreason <;> revert hreason <;> decide
  · intro clock now frame hframe hreported
    obtain ⟨stop, hstop, hreason⟩ := OpenAiChat.chatFinish_mem hframe hreported
    rcases stop_events hstop with h | h <;> rw [h] at hreason <;> revert hreason <;> decide

/-- One function call. -/
def weather : List (String × Json) :=
  [("response.created", .obj [("id", .str "resp_1"), ("model", .str "gpt-4o")]),
   ("response.output_item.added",
     .obj [("output_index", .num (.int 0)),
       ("item", .obj [("type", .str "function_call"), ("call_id", .str "call_1"),
         ("name", .str "get_weather")])]),
   ("response.function_call_arguments.delta",
     .obj [("output_index", .num (.int 0)), ("delta", .str "{}")]),
   ("response.output_item.done",
     .obj [("output_index", .num (.int 0)), ("item", .obj [("type", .str "function_call")])]),
   ("response.completed", .obj [("status", .str "completed")])]

theorem mem_signals {upstream : List (String × Json)} {e : String × Json} {f : Signal}
    (he : e ∈ upstream) (hf : signal e.1 e.2 = some f) : f ∈ signals upstream :=
  List.mem_flatMap.mpr ⟨e, he, Option.mem_toList.mpr hf⟩

theorem weather_asks : AsksForTool weather := by
  refine ⟨0, "call_1", "get_weather", ?_, ?_⟩
  · exact mem_signals (List.mem_of_getElem? (i := 1) rfl) rfl
  · exact mem_signals (List.mem_of_getElem? (i := 3) rfl) rfl

/-- It is stopped as the end of a turn. -/
theorem weather_endTurn :
    Completes weather ∧ AsksForTool weather ∧ LifecycleValid (events weather) ∧
      stops (events weather) = [(.endTurn, none)] :=
  ⟨by decide, weather_asks, by decide, rfl⟩

theorem weather_not_reported :
    stops (events weather) ≠ [] ∧ (∀ stop ∈ stops (events weather), stop.1 ≠ .toolUse) ∧
      (∀ o ∈ AnthropicMessages.encode ((events weather).map .ok),
        o.stopReason? ≠ some "tool_use") ∧
      ∀ clockOverride now, ∀ frame ∈
        OpenAiChat.encode clockOverride now ((events weather).map .ok),
          "tool_calls" ∉ frame.finishReasons :=
  toolUse_never_reported (by decide) weather_asks

end ResponsesSse

end AgentShim
