import AgentShim.Gateway.ChatRelay
import AgentShim.Gateway.PolicySnapshot

/-
  A Chat request through several gateways

  The upstream of a gateway may be a gateway. What one sends on is read by the next as a
  request, decoded, given a policy of its own and built again. Whatever a hop changes of
  the messages and the settings it leaves alone when it comes again, except the
  arguments of the calls: they are read and printed at every hop.

  What is proved:
    1. `heard_leading`, `heard_later` — what the next gateway reads of a message.
    2. `relayed_relayed_iff` — when the messages do not change any more.
    3. `settingsOf_read` — the settings do not.
    4. `request_relayed_iff` — so for any number of gateways.
-/

namespace AgentShim.RequestRelay

open ChatEncode Gateway ModelIndexing OpenAiChat

variable (c : Codec)

/-! ## What the next gateway reads -/

/-- A content as the wire types of the frontend take it; the encoder writes no other. -/
def readWire : Option Json → Option (Option InboundMessageContent)
  | none => some none
  | some (.str s) => some (some (.text s))
  | some (.arr parts) => (parts.mapM readPart).map fun parts => some (.parts parts)
  | some _ => none

def readCall (call : ToolCallOut) : InboundToolCall where
  id := call.id
  name := call.function.name
  arguments := call.function.arguments

def readMessage (out : MsgOut) : Option InboundMessage :=
  (readWire out.content).map fun content =>
    { role := out.role
      content := content
      name := out.name
      toolCalls := (out.toolCalls.getD []).map readCall
      toolCallId := out.toolCallId }

/-- Parameters are not null here: a null is read as none, and an object is sent on for it. -/
def readTool (t : FunctionDefOut) : InboundTool where
  name := t.name
  description := t.description
  parameters := some t.parameters

def readToolChoice : ToolChoiceOut → InboundToolChoice
  | .mode s => .mode s
  | .function name => .specific name

def readResponseFormat : ResponseFormatOut → InboundResponseFormat
  | .text => { ty := "text" }
  | .jsonObject => { ty := "json_object" }
  | .jsonSchema name schema strict =>
    { ty := "json_schema", jsonSchema := some { name := name, schema := schema, strict := strict } }

/-- An empty list of stops or tools is left out of the body. -/
def readBody (body : ChatBody) : Option ChatCompletionsRequest :=
  (body.messages.mapM readMessage).map fun messages =>
    { model := body.model
      messages := messages
      tools := if body.tools.isEmpty then none else some (body.tools.map readTool)
      toolChoice := body.toolChoice.map readToolChoice
      maxTokens := body.maxTokens
      temperature := body.temperature
      topP := body.topP
      presencePenalty := body.presencePenalty
      frequencyPenalty := body.frequencyPenalty
      stop := if body.stop.isEmpty then none else some (.many body.stop)
      stream := some body.stream
      responseFormat := body.responseFormat.map readResponseFormat
      seed := body.seed
      reasoningEffort := body.reasoningEffort }

/-! ## Gateways -/

/-- A gateway on the way: what it resolves a request to, and its catalog. -/
structure Hop where
  id : String
  index : ModelIndex ModelMetadata
  target : BackendTarget
  acceptsXhigh : Bool

/-- What a gateway sends on. -/
def sent (hop : Hop) (req : ChatCompletionsRequest) :
    Except OpenAiResponses.FrontendError ChatBody :=
  (decode c hop.id req).map fun canonical =>
    build c (snapshotPolicy hop.index hop.target canonical) hop.target hop.acceptsXhigh

/-- What the last of several gateways sends on. -/
def sentThrough : Hop → List Hop → ChatCompletionsRequest → Option ChatBody
  | hop, [], req => (sent c hop req).toOption
  | hop, next :: rest, req =>
    (sent c hop req).toOption.bind fun body => (readBody body).bind (sentThrough next rest)

/-- A message as it is heard: a string counts as its only part. -/
def inParts (m : InboundMessage) : InboundMessage := { m with content := some (.parts m.parts) }

def heard (out : MsgOut) : Option InboundMessage := (readMessage out).map inParts

/-- All but the messages and what a gateway chooses itself. -/
def settings (body : ChatBody) : ChatBody :=
  { body with model := "", messages := [], reasoningEffort := none }

/-- The two bodies say the same, whatever model and effort they ask for. -/
structure SameSent (body body' : ChatBody) : Prop where
  messages : body'.messages.map heard = body.messages.map heard
  settings : settings body' = settings body

/-! ## What comes of a message -/

/-- Arguments that are read and printed; a text that is no JSON is read as a string. -/
def printed (arguments : String) : String :=
  c.renderJson ((c.parseJson arguments).getD (.str arguments))

/-- Texts that are joined, if there is anything in them. -/
def joinedPart (blocks : List ContentBlock) : List InboundContentPart :=
  if joinText blocks = "" then [] else [.text (joinText blocks)]

def relayedLeading (m : InboundMessage) : InboundMessage where
  role := m.role
  content := some (.parts [.text (joinText (textContent c m))])

def relayedTool (m : InboundMessage) : InboundMessage where
  role := m.role
  content := some (.parts [.text (toolResultText c (toolContent c (textContent c m)))])
  name := m.name
  toolCallId := m.toolCallId

def relayedPlain (m : InboundMessage) : InboundMessage where
  role := m.role
  content := some (.parts (m.parts.filter (accepted c)))
  name := m.name

def relayedCalls (m : InboundMessage) : InboundMessage where
  role := m.role
  content := some (.parts (joinedPart (textContent c m)))
  name := m.name
  toolCalls := m.toolCalls.map fun tc => { tc with arguments := printed c tc.arguments }

/-- A system message has no calls to send. -/
def relayedLater (m : InboundMessage) : InboundMessage :=
  if m.role = "tool" then relayedTool c m
  else if m.isSystem = true ∨ m.toolCalls = [] then relayedPlain c m
  else relayedCalls c m

def relayed (msgs : List InboundMessage) : List InboundMessage :=
  Lists.mapRun InboundMessage.isSystem (relayedLeading c) (relayedLater c) msgs

variable {c} {m : InboundMessage} {msg : Message} {out : MsgOut}

theorem heard_eq (out : MsgOut) :
    heard out = (readContent out.content).map fun parts =>
      { role := out.role
        content := some (.parts parts)
        name := out.name
        toolCalls := (out.toolCalls.getD []).map readCall
        toolCallId := out.toolCallId } := by
  rw [heard, readMessage]
  cases out.content with
  | none => rfl
  | some v =>
    cases v with
    | arr parts =>
      rw [readWire, readContent, Option.map_map, Option.map_map]
      rfl
    | _ => rfl

/-- What is heard of a message that leads. -/
theorem heard_leading {sys : SystemInstruction} (h : DecodesLeading c m sys) :
    heard (systemOut sys) = some (relayedLeading c m) := by
  obtain ⟨source, hrole, rfl⟩ := h
  have hout : systemRole (some source) = m.role := (systemRole_eq hrole).1
  rw [heard_eq, relayedLeading, ← hout]
  rfl

theorem heard_plain
    (hbase64 : ∀ payload data, c.decodeBase64 payload = some data → c.encodeBase64 data = payload)
    (hrole : roleOut msg = m.role) (hname : msg.name = m.name)
    (hcontent : msg.content = textContent c m) :
    heard (plainOut c msg) = some (relayedPlain c m) := by
  have hread : readContent (plainOut c msg).content = some (m.parts.filter (accepted c)) := by
    rw [plainOut, hcontent]
    exact readContent_buildContentValue hbase64 m
  rw [heard_eq, hread, relayedPlain, ← hrole, ← hname]
  rfl

theorem heard_calls {role : MessageRole} (hrole : roleOut (turnMessage c role m) = m.role) :
    heard (callsOut c (turnMessage c role m)) = some (relayedCalls c m) := by
  have hread : readContent (callsOut c (turnMessage c role m)).content =
      some (joinedPart (textContent c m)) := by
    rw [callsOut, buildTextContentValue, joinText_turnMessage, joinedPart]
    by_cases hjoin : joinText (textContent c m) = ""
    · rw [hjoin]
      rfl
    · rw [if_neg hjoin, if_neg (by simpa [Text.isEmpty] using hjoin)]
      rfl
  have hcalls : ((callsOut c (turnMessage c role m)).toolCalls.getD []).map readCall =
      m.toolCalls.map fun tc => { tc with arguments := printed c tc.arguments } := by
    rw [callsOut, toolCalls_turnMessage, Option.getD_some, List.map_map, List.map_map]
    rfl
  rw [heard_eq, hread, hcalls, relayedCalls, ← hrole]
  rfl

/-- And of any other, which is sent on as one message. -/
theorem heard_later
    (hbase64 : ∀ payload data, c.decodeBase64 payload = some data → c.encodeBase64 data = payload)
    (h : DecodesLater c m msg) :
    (messageOuts c msg).map heard = [some (relayedLater c m)] := by
  rw [relayedLater]
  cases h with
  | @system source hrole =>
    obtain ⟨hout, hnot, hsystem⟩ := systemRole_eq hrole
    have hcalls : (systemMessage c source m).toolCalls = [] :=
      filterMap_textContent (fun _ => rfl) (fun _ => rfl) (fun _ => rfl) m
    have hresults : (systemMessage c source m).toolResults = [] :=
      filterMap_textContent (fun _ => rfl) (fun _ => rfl) (fun _ => rfl) m
    have hrole : roleOut (systemMessage c source m) = m.role := hout
    rw [messageOuts_plain hresults hcalls, if_neg hnot, if_pos (Or.inl hsystem),
      List.map_singleton, heard_plain hbase64 hrole rfl rfl]
  | @tool toolCallId hrole hid =>
    have htool : m.role = "tool" := role_eq_tool hrole
    have hresults : (toolMessage c toolCallId m).toolResults ≠ [] := List.cons_ne_nil _ _
    rw [messageOuts_of_results hresults, if_pos htool, relayedTool, hid, htool]
    rfl
  | @turn role hrole hturn =>
    have hturnRole : (turnMessage c role m).role = role := rfl
    obtain ⟨hout, hnot, hsystem⟩ := roleOut_eq hrole hturnRole hturn
    rw [if_neg hnot, hsystem]
    by_cases hcalls : m.toolCalls = []
    · have hnone : (turnMessage c role m).toolCalls = [] := by
        rw [toolCalls_turnMessage, hcalls, List.map_nil]
      have hcontent : (turnMessage c role m).content = textContent c m := by
        rw [turnMessage, hcalls]
        exact List.append_nil _
      rw [messageOuts_plain (toolResults_turnMessage role m) hnone, if_pos (Or.inr hcalls),
        List.map_singleton, heard_plain hbase64 hout rfl hcontent]
    · have hsome : (turnMessage c role m).toolCalls ≠ [] := by
        rw [toolCalls_turnMessage]
        exact fun hnil => hcalls (List.map_eq_nil_iff.mp hnil)
      rw [messageOuts_of_calls (toolResults_turnMessage role m) hsome,
        if_neg (by simp [hcalls]), List.map_singleton, heard_calls hout]

/-! ## The messages of a request -/

/-- A message the decoder takes. -/
def Taken (m : InboundMessage) : Prop :=
  (roleToCanonical m.role).isSome = true ∧ (m.role = "tool" → m.toolCallId.isSome = true)

theorem decodeMessage_isOk (s : OpenAiResponses.Decoding) (m : InboundMessage) :
    (∃ s', decodeMessage c s m = .ok s') ↔ Taken m := by
  unfold decodeMessage Taken
  cases hrole : roleToCanonical m.role with
  | none => simp
  | some cls =>
    cases cls with
    | system source =>
      have hnot : m.role ≠ "tool" := (systemRole_eq hrole).2.1
      cases s.preludePhase <;> simp [hnot]
    | message role =>
      have htool : m.role = "tool" ↔ role = .tool := by
        constructor
        · intro htool
          rw [htool] at hrole
          cases hrole
          rfl
        · exact fun htool => role_eq_tool (htool ▸ hrole)
      rcases role_of_message hrole with rfl | rfl | rfl
      · simp [htool]
      · simp [htool]
      · cases m.toolCallId <;> simp [htool]

/-- A list is decoded iff each message is taken, whatever came before. -/
theorem decodeMessages_isOk (msgs : List InboundMessage) :
    (∃ s, decodeMessages c msgs = .ok s) ↔ ∀ m ∈ msgs, Taken m := by
  have hany : ∀ s : OpenAiResponses.Decoding, (∃ s', msgs.foldlM (decodeMessage c) s = .ok s') ↔
      ∀ m ∈ msgs, Taken m := by
    induction msgs with
    | nil => exact fun s => iff_of_true ⟨s, rfl⟩ fun _ hm => absurd hm List.not_mem_nil
    | cons m msgs ih =>
      intro s
      rw [List.forall_mem_cons, ← decodeMessage_isOk s, List.foldlM_cons]
      constructor
      · intro h
        obtain ⟨s', hs'⟩ := h
        obtain ⟨t, ht, hrest⟩ := Checks.do_eq_ok.mp hs'
        exact ⟨⟨t, ht⟩, (ih t).mp ⟨s', hrest⟩⟩
      · intro h
        obtain ⟨⟨t, ht⟩, hrest⟩ := h
        obtain ⟨s', hs'⟩ := (ih t).mpr hrest
        exact ⟨s', Checks.do_eq_ok.mpr ⟨t, ht, hs'⟩⟩
  exact hany .start

theorem decodeMessages_inParts (msgs : List InboundMessage) :
    decodeMessages c (msgs.map inParts) = decodeMessages c msgs := by
  rw [decodeMessages, List.foldlM_map]
  rfl

theorem relayed_inParts (msgs : List InboundMessage) :
    relayed c (msgs.map inParts) = relayed c msgs := by
  rw [relayed, Lists.mapRun, List.takeWhile_map, List.dropWhile_map, List.map_map, List.map_map]
  rfl

theorem role_ne_tool (h : m.isSystem = true) : m.role ≠ "tool" := by
  intro htool
  rw [InboundMessage.isSystem, htool] at h
  exact absurd h (by decide)

theorem relayed_taken {msgs : List InboundMessage} (h : ∀ m ∈ msgs, Taken m) :
    ∀ m ∈ relayed c msgs, Taken m := by
  have hlater : ∀ m, Taken m → Taken (relayedLater c m) := by
    intro m hm
    rw [relayedLater]
    by_cases htool : m.role = "tool"
    · rw [if_pos htool]
      exact hm
    · rw [if_neg htool]
      by_cases hplain : m.isSystem = true ∨ m.toolCalls = []
      · rw [if_pos hplain]
        exact ⟨hm.1, fun h => absurd h htool⟩
      · rw [if_neg hplain]
        exact ⟨hm.1, fun h => absurd h htool⟩
  intro y hy
  obtain ⟨m, hm, ⟨hsystem, rfl⟩ | rfl⟩ := Lists.mem_mapRun hy
  · exact ⟨(h m hm).1, fun htool => absurd htool (role_ne_tool hsystem)⟩
  · exact hlater m (h m hm)

/-- What is heard of the messages that a gateway sends on. -/
theorem heard_sent
    (hbase64 : ∀ payload data, c.decodeBase64 payload = some data → c.encodeBase64 data = payload)
    {hop : Hop} {req : ChatCompletionsRequest} {body : ChatBody} (h : sent c hop req = .ok body) :
    body.messages.map heard = (relayed c req.messages).map some := by
  obtain ⟨canonical, hdecode, rfl⟩ := Checks.map_eq_ok.mp h
  obtain ⟨s, hs, rfl⟩ := Checks.map_eq_ok.mp hdecode
  obtain ⟨hleading, hlater⟩ := decodeMessages_spec hs
  show (s.system.map systemOut ++ s.out.flatMap (messageOuts c)).map heard = _
  have hfirst : (s.system.map systemOut).map heard =
      (req.messages.takeWhile InboundMessage.isSystem).map fun m => some (relayedLeading c m) := by
    rw [List.map_map]
    exact Lists.map_eq_of_forall₂ hleading fun m sys hm => heard_leading hm
  have hrest : (s.out.flatMap (messageOuts c)).map heard =
      (req.messages.dropWhile InboundMessage.isSystem).map fun m => some (relayedLater c m) := by
    rw [List.map_flatMap]
    exact Lists.flatMap_eq_of_forall₂ hlater fun m msg hm => heard_later hbase64 hm
  rw [List.map_append, hfirst, hrest, relayed, Lists.mapRun, List.map_append, List.map_map,
    List.map_map]
  rfl

/-! ## The same changes once more -/

/-- A message whose calls are sent on. -/
def SendsCalls (m : InboundMessage) : Prop := m.isSystem = false ∧ m.role ≠ "tool"

theorem joinText_single (text : String) : joinText [.ofText text] = text :=
  String.intercalate_singleton

theorem relayedLeading_twice (m : InboundMessage) :
    relayedLeading c (relayedLeading c m) = relayedLeading c m := by
  have hcontent : textContent c (relayedLeading c m) =
      [.ofText (joinText (textContent c m))] := rfl
  rw [relayedLeading, hcontent, joinText_single]
  rfl

theorem relayedPlain_twice (m : InboundMessage) :
    relayedPlain c (relayedPlain c m) = relayedPlain c m := by
  have hparts : (relayedPlain c m).parts = m.parts.filter (accepted c) := rfl
  rw [relayedPlain, hparts, List.filter_filter]
  simp only [Bool.and_self]
  rfl

theorem joinedPart_twice (m : InboundMessage) :
    joinedPart (textContent c (relayedCalls c m)) = joinedPart (textContent c m) := by
  have hcontent : textContent c (relayedCalls c m) =
      (joinedPart (textContent c m)).map (decodePart c) := rfl
  rw [hcontent]
  by_cases hjoin : joinText (textContent c m) = ""
  · have hempty : joinedPart (textContent c m) = [] := if_pos hjoin
    rw [hempty]
    rfl
  · have hone : joinedPart (textContent c m) = [.text (joinText (textContent c m))] := if_neg hjoin
    have hagain : joinText ([InboundContentPart.text (joinText (textContent c m))].map
        (decodePart c)) = joinText (textContent c m) := joinText_single _
    rw [hone, joinedPart, hagain, if_neg hjoin]

theorem relayedCalls_twice_iff (m : InboundMessage) :
    relayedCalls c (relayedCalls c m) = relayedCalls c m ↔
      ∀ tc ∈ m.toolCalls, printed c (printed c tc.arguments) = printed c tc.arguments := by
  have hcalls : (relayedCalls c (relayedCalls c m)).toolCalls =
      m.toolCalls.map fun tc => { tc with arguments := printed c (printed c tc.arguments) } := by
    show ((m.toolCalls.map fun tc => { tc with arguments := printed c tc.arguments }).map
      fun tc => { tc with arguments := printed c tc.arguments }) = _
    rw [List.map_map]
    rfl
  constructor
  · intro h tc htc
    have hsame := (congrArg InboundMessage.toolCalls h).symm.trans hcalls
    have hone := List.map_inj_left.mp hsame tc htc
    exact (congrArg InboundToolCall.arguments hone).symm
  · intro h
    have hsame : (relayedCalls c (relayedCalls c m)).toolCalls = (relayedCalls c m).toolCalls := by
      rw [hcalls]
      exact List.map_congr_left fun tc htc => by rw [h tc htc]
    show ({ relayedCalls c m with
      content := some (.parts (joinedPart (textContent c (relayedCalls c m))))
      toolCalls := (relayedCalls c (relayedCalls c m)).toolCalls } : InboundMessage) = _
    rw [joinedPart_twice, hsame]
    rfl

theorem relayedLater_role (m : InboundMessage) : (relayedLater c m).role = m.role := by
  unfold relayedLater
  split
  · rfl
  · split <;> rfl

theorem relayedLater_isSystem (m : InboundMessage) :
    (relayedLater c m).isSystem = m.isSystem := by
  rw [InboundMessage.isSystem, relayedLater_role]
  rfl

/-- Only the arguments of calls may change again. -/
theorem relayedLater_twice_iff (m : InboundMessage) :
    relayedLater c (relayedLater c m) = relayedLater c m ↔
      (SendsCalls m →
        ∀ tc ∈ m.toolCalls, printed c (printed c tc.arguments) = printed c tc.arguments) := by
  by_cases htool : m.role = "tool"
  · have honce : relayedLater c m = relayedTool c m := if_pos htool
    have hagain : relayedLater c (relayedTool c m) = relayedTool c (relayedTool c m) :=
      if_pos htool
    rw [honce, hagain]
    exact iff_of_true rfl fun hsends => absurd htool hsends.2
  · by_cases hplain : m.isSystem = true ∨ m.toolCalls = []
    · have honce : relayedLater c m = relayedPlain c m := by
        rw [relayedLater, if_neg htool, if_pos hplain]
      have hnot : (relayedPlain c m).role ≠ "tool" := htool
      have hnone : (relayedPlain c m).toolCalls = [] := rfl
      have hagain : relayedLater c (relayedPlain c m) = relayedPlain c (relayedPlain c m) := by
        rw [relayedLater, if_neg hnot, if_pos (Or.inr hnone)]
      rw [honce, hagain]
      refine iff_of_true (relayedPlain_twice m) fun hsends tc htc => ?_
      rcases hplain with hsystem | hnil
      · rw [hsends.1] at hsystem
        cases hsystem
      · rw [hnil] at htc
        exact absurd htc List.not_mem_nil
    · have honce : relayedLater c m = relayedCalls c m := by
        rw [relayedLater, if_neg htool, if_neg hplain]
      have hcalls : ¬ ((relayedCalls c m).isSystem = true ∨ (relayedCalls c m).toolCalls = []) := by
        intro h
        exact hplain (h.imp id List.map_eq_nil_iff.mp)
      have hnot : (relayedCalls c m).role ≠ "tool" := htool
      have hagain : relayedLater c (relayedCalls c m) = relayedCalls c (relayedCalls c m) := by
        rw [relayedLater, if_neg hnot, if_neg hcalls]
      have hsends : SendsCalls m := ⟨by simpa using (not_or.mp hplain).1, htool⟩
      rw [honce, hagain, relayedCalls_twice_iff]
      exact ⟨fun h _ => h, fun h => h hsends⟩

/-- The messages do not change any more iff no arguments of a call do. -/
theorem relayed_relayed_iff (msgs : List InboundMessage) :
    relayed c (relayed c msgs) = relayed c msgs ↔
      ∀ m ∈ msgs, SendsCalls m →
        ∀ tc ∈ m.toolCalls, printed c (printed c tc.arguments) = printed c tc.arguments := by
  have hleading : ∀ m, (relayedLeading c m).isSystem = m.isSystem := fun _ => rfl
  rw [relayed, relayed, Lists.mapRun_mapRun hleading relayedLater_isSystem, Lists.mapRun_eq_iff]
  have hsplit := List.takeWhile_append_dropWhile (p := InboundMessage.isSystem) (l := msgs)
  constructor
  · intro h m hm hsends
    rw [← hsplit] at hm
    -- a message whose calls are sent on does not lead
    rcases List.mem_append.mp hm with hleading | hlater
    · have hsystem : m.isSystem = true := List.all_eq_true.mp List.all_takeWhile m hleading
      rw [hsends.1] at hsystem
      cases hsystem
    · exact (relayedLater_twice_iff m).mp (h.2 m hlater) hsends
  · intro h
    refine ⟨fun m _ => relayedLeading_twice m, fun m hm => ?_⟩
    exact (relayedLater_twice_iff m).mpr (h m ((List.dropWhile_sublist _).subset hm))

/-! ## The settings of a request -/

/-- What a gateway makes of the settings, whichever it is. -/
def settingsOf (req : ChatCompletionsRequest) : ChatBody :=
  let tools := (req.tools.getD []).map fun t => functionOut (toolDefinition t)
  { model := ""
    messages := []
    maxTokens := req.maxCompletionTokens.or req.maxTokens
    temperature := req.temperature
    topP := req.topP
    presencePenalty := req.presencePenalty
    frequencyPenalty := req.frequencyPenalty
    stop := (req.stop.map StopField.intoVec).getD []
    seed := req.seed
    responseFormat := (req.responseFormat.bind decodeResponseFormat).map responseFormatOut
    tools := tools
    toolChoice :=
      if tools.isEmpty then none else some (toolChoiceOut (decodeToolChoice req.toolChoice))
    stream := req.stream.getD false
    includeUsage := if req.stream.getD false then some true else none
    reasoningEffort := none }

theorem settings_sent {hop : Hop} {req : ChatCompletionsRequest} {body : ChatBody}
    (h : sent c hop req = .ok body) : settings body = settingsOf req := by
  obtain ⟨canonical, hdecode, rfl⟩ := Checks.map_eq_ok.mp h
  obtain ⟨s, -, rfl⟩ := Checks.map_eq_ok.mp hdecode
  have hempty : ((req.tools.getD []).map toolDefinition).isEmpty =
      ((req.tools.getD []).map fun t => functionOut (toolDefinition t)).isEmpty := by
    rw [List.isEmpty_map, List.isEmpty_map]
  simp only [settings, build, snapshotPolicy, settingsOf, hempty, List.map_map]
  rfl

theorem tools_read (tools : List FunctionDefOut) :
    ((if tools.isEmpty then none else some (tools.map readTool)).getD []).map
      (fun t => functionOut (toolDefinition t)) = tools := by
  have hone : (fun t => functionOut (toolDefinition t)) ∘ readTool = id := rfl
  cases tools with
  | nil => rfl
  | cons t tools =>
    rw [List.isEmpty_cons, if_neg Bool.false_ne_true, Option.getD_some, List.map_map, hone,
      List.map_id]

theorem stops_read (stops : List String) :
    ((if stops.isEmpty then none else some (StopField.many stops)).map StopField.intoVec).getD [] =
      stops := by
  cases stops <;> rfl

theorem toolChoice_read (choice : ToolChoice) :
    decodeToolChoice (some (readToolChoice (toolChoiceOut choice))) = choice := by
  cases choice <;> rfl

/-- No format is decoded as the text format, which would be left out. -/
theorem responseFormat_read (rf : Option InboundResponseFormat) :
    ((rf.bind decodeResponseFormat).map responseFormatOut).bind
      (fun out => decodeResponseFormat (readResponseFormat out)) =
        rf.bind decodeResponseFormat := by
  cases hformat : rf.bind decodeResponseFormat with
  | none => rfl
  | some format =>
    obtain ⟨rf, -, hdecode⟩ := Option.bind_eq_some_iff.mp hformat
    unfold decodeResponseFormat at hdecode
    split at hdecode
    · cases hdecode
      rfl
    · obtain ⟨js, -, rfl⟩ := Option.map_eq_some_iff.mp hdecode
      rfl
    · cases hdecode

/-- The settings a gateway reads of a body are those it was sent with. -/
theorem settingsOf_read {req req' : ChatCompletionsRequest} {body : ChatBody}
    (hbody : settings body = settingsOf req) (hread : readBody body = some req') :
    settingsOf req' = settings body := by
  obtain ⟨messages, -, rfl⟩ := Option.map_eq_some_iff.mp hread
  have htools : body.tools = (settingsOf req).tools := by
    rw [← hbody]
    rfl
  have hchoice : body.toolChoice = if body.tools.isEmpty then none
      else some (toolChoiceOut (decodeToolChoice req.toolChoice)) := by
    calc body.toolChoice = (settings body).toolChoice := rfl
      _ = (settingsOf req).toolChoice := by rw [hbody]
      _ = _ := by rw [htools]; rfl
  have hformat : body.responseFormat =
      (req.responseFormat.bind decodeResponseFormat).map responseFormatOut := by
    calc body.responseFormat = (settings body).responseFormat := rfl
      _ = (settingsOf req).responseFormat := by rw [hbody]
      _ = _ := rfl
  have hincluded : body.includeUsage = if body.stream then some true else none := by
    calc body.includeUsage = (settings body).includeUsage := rfl
      _ = if (settingsOf req).stream then some true else none := by rw [hbody]; rfl
      _ = if body.stream then some true else none := by rw [← hbody]; rfl
  have hchoiceAgain : (if body.tools.isEmpty then none
      else some (toolChoiceOut (decodeToolChoice (body.toolChoice.map readToolChoice)))) =
        body.toolChoice := by
    rw [hchoice]
    cases body.tools.isEmpty with
    | true => rfl
    | false =>
      simp only [Bool.false_eq_true, if_false, Option.map_some, toolChoice_read]
  have hformatAgain : ((body.responseFormat.map readResponseFormat).bind
      decodeResponseFormat).map responseFormatOut = body.responseFormat := by
    rw [Option.bind_map, hformat]
    exact congrArg (Option.map responseFormatOut) (responseFormat_read req.responseFormat)
  simp only [settingsOf, settings, tools_read, stops_read, hchoiceAgain, hformatAgain, hincluded,
    Option.none_or, Option.getD_some]

/-! ## Several gateways -/

/-- Whether a request is taken does not depend on the gateway. -/
theorem sent_isOk (hop : Hop) (req : ChatCompletionsRequest) :
    (∃ body, sent c hop req = .ok body) ↔ ∀ m ∈ req.messages, Taken m := by
  rw [← decodeMessages_isOk (c := c)]
  constructor
  · intro h
    obtain ⟨body, hbody⟩ := h
    obtain ⟨canonical, hdecode, -⟩ := Checks.map_eq_ok.mp hbody
    obtain ⟨s, hs, -⟩ := Checks.map_eq_ok.mp hdecode
    exact ⟨s, hs⟩
  · intro h
    obtain ⟨s, hs⟩ := h
    exact ⟨_, Checks.map_eq_ok.mpr ⟨_, Checks.map_eq_ok.mpr ⟨s, hs, rfl⟩, rfl⟩⟩

/-- What is heard of the messages is what the next gateway reads, as far as it counts. -/
theorem mapM_readMessage {outs : List MsgOut} {ms : List InboundMessage}
    (h : outs.map heard = ms.map some) :
    ∃ msgs, outs.mapM readMessage = some msgs ∧ msgs.map inParts = ms := by
  induction outs generalizing ms with
  | nil =>
    obtain rfl := List.map_eq_nil_iff.mp h.symm
    exact ⟨[], rfl, rfl⟩
  | cons out outs ih =>
    cases ms with
    | nil => cases h
    | cons m ms =>
      obtain ⟨hout, houts⟩ := List.cons.inj h
      obtain ⟨msg, hmsg, hparts⟩ := Option.map_eq_some_iff.mp hout
      obtain ⟨msgs, hmsgs, hrest⟩ := ih houts
      refine ⟨msg :: msgs, ?_, ?_⟩
      · rw [List.mapM_cons, hmsg, hmsgs]
        rfl
      · rw [List.map_cons, hparts, hrest]

theorem sentThrough_one {hop : Hop} {req : ChatCompletionsRequest} {body : ChatBody}
    (h : sent c hop req = .ok body) : sentThrough c hop [] req = some body := by
  rw [sentThrough, h]
  rfl

theorem sentThrough_next {hop : Hop} {req req' : ChatCompletionsRequest} {body : ChatBody}
    (h : sent c hop req = .ok body) (hread : readBody body = some req') (next : Hop)
    (rest : List Hop) :
    sentThrough c hop (next :: rest) req = sentThrough c next rest req' := by
  rw [sentThrough, h]
  show (readBody body).bind (sentThrough c next rest) = _
  rw [hread, Option.bind_some]

/-- A gateway behind another: it takes the body, and makes of it what comes of the
messages a second time. -/
theorem sent_next
    (hbase64 : ∀ payload data, c.decodeBase64 payload = some data → c.encodeBase64 data = payload)
    {hop : Hop} {req : ChatCompletionsRequest} {body : ChatBody}
    (h : sent c hop req = .ok body) (next : Hop) :
    ∃ req' body', readBody body = some req' ∧ sent c next req' = .ok body' ∧
      relayed c req'.messages = relayed c (relayed c req.messages) ∧
      body'.messages.map heard = (relayed c (relayed c req.messages)).map some ∧
      settings body' = settings body := by
  have hheard : body.messages.map heard = (relayed c req.messages).map some := heard_sent hbase64 h
  obtain ⟨msgs, hmsgs, hparts⟩ := mapM_readMessage hheard
  obtain ⟨req', hread, hreq'⟩ : ∃ req', readBody body = some req' ∧ req'.messages = msgs := by
    rw [readBody, hmsgs]
    exact ⟨_, rfl, rfl⟩
  have htaken : ∀ m ∈ req'.messages, Taken m := by
    have hrelayed : ∀ m ∈ relayed c req.messages, Taken m :=
      relayed_taken ((sent_isOk hop req).mp ⟨body, h⟩)
    rw [← hparts, ← decodeMessages_isOk (c := c), decodeMessages_inParts, decodeMessages_isOk,
      ← hreq'] at hrelayed
    exact hrelayed
  obtain ⟨body', hbody'⟩ := (sent_isOk next req').mpr htaken
  have hagain : relayed c req'.messages = relayed c (relayed c req.messages) := by
    rw [hreq', ← hparts, relayed_inParts]
  refine ⟨req', body', hread, hbody', hagain, ?_, ?_⟩
  · rw [heard_sent hbase64 hbody', hagain]
  · rw [settings_sent hbody', settingsOf_read (settings_sent h) hread]

/-- Through any number of gateways, where the messages do not change any more. -/
theorem sentThrough_of_stable
    (hbase64 : ∀ payload data, c.decodeBase64 payload = some data → c.encodeBase64 data = payload)
    (hops : List Hop) {hop : Hop} {req : ChatCompletionsRequest} {body : ChatBody}
    (h : sent c hop req = .ok body)
    (hstable : relayed c (relayed c req.messages) = relayed c req.messages) :
    ∃ body', sentThrough c hop hops req = some body' ∧ SameSent body body' := by
  induction hops generalizing hop req body with
  | nil => exact ⟨body, sentThrough_one h, rfl, rfl⟩
  | cons next rest ih =>
    obtain ⟨req', body', hread, hbody', hagain, hheard, hsettings⟩ := sent_next hbase64 h next
    have hstable' : relayed c (relayed c req'.messages) = relayed c req'.messages := by
      rw [hagain, hstable, hstable]
    obtain ⟨last, hlast, hsame⟩ := ih hbody' hstable'
    refine ⟨last, ?_, ?_, hsame.settings.trans hsettings⟩
    · rw [sentThrough_next h hread, hlast]
    · rw [hsame.messages, hheard, hstable, heard_sent hbase64 h]

/-- What a gateway sends on is what any number of gateways behind one another send on, up
to the model and the effort, iff the arguments of every call are printed as they were
printed before. -/
theorem request_relayed_iff
    (hbase64 : ∀ payload data, c.decodeBase64 payload = some data → c.encodeBase64 data = payload)
    {hop : Hop} {req : ChatCompletionsRequest} {body : ChatBody}
    (h : sent c hop req = .ok body) :
    (∀ hops, ∃ body', sentThrough c hop hops req = some body' ∧ SameSent body body') ↔
      ∀ m ∈ req.messages, SendsCalls m →
        ∀ tc ∈ m.toolCalls, printed c (printed c tc.arguments) = printed c tc.arguments := by
  rw [← relayed_relayed_iff]
  constructor
  · intro hall
    -- one more gateway is enough to tell
    obtain ⟨last, hlast, hsame⟩ := hall [hop]
    obtain ⟨req', body', hread, hbody', -, hheard, -⟩ := sent_next hbase64 h hop
    have hbody : last = body' := by
      rw [sentThrough_next h hread, sentThrough_one hbody'] at hlast
      exact (Option.some.inj hlast).symm
    have htwice := hsame.messages
    rw [hbody, hheard, heard_sent hbase64 h] at htwice
    exact List.map_injective_iff.mpr (Option.some_injective _) htwice
  · exact fun hstable hops => sentThrough_of_stable hbase64 hops h hstable

/-! ## A question about a picture -/

/-- A gateway that discovered no models. -/
def gateway (id : String) : Hop where
  id := id
  index := { metadata := ∅, fuzzy := ∅ }
  target := Gateway.gpt4o
  acceptsXhigh := false

theorem request_relayed_iff_aboutPicture :
    ∃ body, sent quotingCodec (gateway "req_1") aboutPicture = .ok body ∧
      ∀ hops, ∃ body',
        sentThrough quotingCodec (gateway "req_1") hops aboutPicture = some body' ∧
          SameSent body body' := by
  obtain ⟨body, hbody⟩ : ∃ body, sent quotingCodec (gateway "req_1") aboutPicture = .ok body :=
    ⟨_, rfl⟩
  refine ⟨body, hbody, (request_relayed_iff quotingCodec_base64 hbody).mpr ?_⟩
  intro m hm _ tc htc
  have harguments : tc.arguments = "{}" := by
    simp only [aboutPicture, List.mem_cons, List.not_mem_nil, or_false] at hm
    rcases hm with rfl | rfl | rfl | rfl
    · exact absurd htc List.not_mem_nil
    · exact absurd htc List.not_mem_nil
    · rw [List.mem_singleton.mp htc]
    · exact absurd htc List.not_mem_nil
  rw [harguments]
  rfl

end AgentShim.RequestRelay
