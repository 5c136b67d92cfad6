import AgentShim.Frontends.AnthropicDecode
import AgentShim.Frontends.ResponsesRequest
import AgentShim.Gateway.ChatRelay
import AgentShim.Providers.AnthropicEncode
import AgentShim.Providers.GeminiEncode
import AgentShim.Providers.ResponsesEncode
import Mathlib.Data.List.Flatten

/-
  The arguments of a tool call, from a client to an upstream

  A client gives the arguments of a call as text that holds JSON or as the value
  itself, by its dialect; an upstream takes one or the other, by its own. In
  between they are a JSON value, and text that is no JSON is a string there, which
  every encoder takes for the value of the arguments.

  What is proved:
    1. `calls_decoded` — the calls of a decoded request are the client's, in order.
    2. `calls_sent` — the calls of a body are those of the request it is built from.
    3. `faithful_iff` — what is sent for one call is what the client's arguments ask
       for iff they are JSON.
    4. `argumentFidelity_iff` — the same of every call of a request, whatever its
       dialect and its upstream.
    5. `emptyArguments_quoted` — the empty text becomes two quotes, or a string where
       an object is due.

  The encoders do have a way for text that is no JSON, `ToolCallArguments::Streaming`:
  sent as it is to Chat and Responses upstreams, as an empty object to Anthropic, left
  out for Gemini. No decoder takes it.
-/

namespace AgentShim.ToolArguments

open OpenAiResponses (FrontendError)

/-! ## Clients -/

/-- The arguments as a client gives them. -/
inductive ClientArguments
  | text (s : String)
  | value (v : Json)

structure ClientCall where
  name : String
  arguments : ClientArguments

inductive ClientRequest
  | chat (req : OpenAiChat.ChatCompletionsRequest)
  | responses (req : OpenAiResponses.ResponsesRequest)
  | anthropic (req : AnthropicMessages.MessagesRequest)

/-- The arguments of a `function_call` item: text in a string, or the value. -/
def itemArguments : Json → ClientArguments
  | .str s => .text s
  | other => .value other

def itemCall? : OpenAiResponses.InputItem → Option ClientCall
  | .functionCall _ _ name arguments => some { name := name, arguments := itemArguments arguments }
  | _ => none

/-- Only a list of typed items holds calls. -/
def itemsOf : OpenAiResponses.InputField → List OpenAiResponses.InputItem
  | .items items => items
  | _ => []

def blockCall? : AnthropicMessages.InboundContentBlock → Option ClientCall
  | .toolUse _ name input _ => some { name := name, arguments := .value input }
  | _ => none

def chatCalls (m : OpenAiChat.InboundMessage) : List ClientCall :=
  m.toolCalls.map fun tc => { name := tc.name, arguments := .text tc.arguments }

def systemBlocks : Option AnthropicMessages.SystemField → List AnthropicMessages.InboundContentBlock
  | some (.blocks bs) => bs
  | _ => []

/-- The tool calls of a request, in order. -/
def ClientRequest.calls : ClientRequest → List ClientCall
  | .chat req => req.messages.flatMap chatCalls
  | .responses req => (itemsOf req.input).filterMap itemCall?
  | .anthropic req =>
    (systemBlocks req.system ++ req.messages.flatMap fun m => m.content.toBlocks).filterMap
      blockCall?

variable (c : Codec)

def ClientRequest.decode (id : String) : ClientRequest → Except FrontendError CanonicalRequest
  | .chat req => OpenAiChat.decode c id req
  | .responses req => OpenAiResponses.decode c id req
  | .anthropic req => AnthropicMessages.decode c id req

/-- The JSON value of the arguments, where they have one. -/
def ClientArguments.value? : ClientArguments → Option Json
  | .text s => c.parseJson s
  | .value v => some v

/-- What the decoders make of the arguments. -/
def ClientArguments.read : ClientArguments → ToolCallArguments
  | .text s => .complete ((c.parseJson s).getD (.str s))
  | .value v => .complete v

/-! ## Upstreams -/

/-- The encoders; a Chat upstream may take the effort above high. -/
inductive Encoder
  | chat (acceptsXhigh : Bool)
  | responses
  | anthropic
  | gemini

/-- The upstreams that take the arguments as text. -/
def Encoder.takesText : Encoder → Bool
  | .chat _ | .responses => true
  | .anthropic | .gemini => false

/-- The arguments as an upstream is sent them. -/
inductive SentArguments
  | text (s : String)
  | value (v : Json)
  | absent

structure SentCall where
  name : String
  arguments : SentArguments

def valueOrAbsent : Option Json → SentArguments
  | some v => .value v
  | none => .absent

def chatSent (out : ChatEncode.MsgOut) : List SentCall :=
  (out.toolCalls.getD []).map fun tc =>
    { name := tc.function.name, arguments := .text tc.function.arguments }

def toolItemSent? : ResponsesEncode.ToolItem → Option SentCall
  | .call _ name arguments => some { name := name, arguments := .text arguments }
  | .output _ _ => none

def blockSent? : AnthropicEncode.OutgoingContentBlock → Option SentCall
  | .toolUse _ name input _ => some { name := name, arguments := .value input }
  | _ => none

def systemSent : Option AnthropicEncode.OutgoingSystem → List SentCall
  | some (.blocks bs) => bs.filterMap blockSent?
  | _ => []

def partSent? (part : GeminiEncode.Part) : Option SentCall :=
  part.functionCall.map fun fc => { name := fc.name, arguments := valueOrAbsent fc.args }

/-- The tool calls of the body an encoder builds, in order. -/
def sentCalls (enc : Encoder) (target : BackendTarget) (req : CanonicalRequest) : List SentCall :=
  match enc with
  | .chat acceptsXhigh => (ChatEncode.build c req target acceptsXhigh).messages.flatMap chatSent
  | .responses =>
    (ResponsesEncode.inputItems (ResponsesEncode.build c req target)).filterMap fun item =>
      (ResponsesEncode.toolItem? item).bind toolItemSent?
  | .anthropic =>
    let body := AnthropicEncode.build c req target
    systemSent body.system ++ body.messages.flatMap fun msg => msg.content.filterMap blockSent?
  | .gemini =>
    (GeminiEncode.build c req target).contents.flatMap fun content =>
      content.parts.filterMap partSent?

/-- What an encoder makes of the arguments. -/
def Encoder.send : Encoder → ToolCallArguments → SentArguments
  | .chat _, args => .text (args.toText c)
  | .responses, args => .text (args.toText c)
  | .anthropic, args => .value (AnthropicEncode.toolInput c args)
  | .gemini, args => valueOrAbsent (GeminiEncode.callArgs c args)

/-- What is sent for a call of a client. -/
def sentCall (enc : Encoder) (call : ClientCall) : SentCall where
  name := call.name
  arguments := enc.send c (call.arguments.read c)

/-! ## Fidelity -/

/-- Text that reads as the value, or the value itself. -/
def SentArguments.Denotes (v : Json) : SentArguments → Prop
  | .text s => c.parseJson s = some v
  | .value w => w = v
  | .absent => False

/-- What is sent denotes the client's value; text without one goes to an upstream that
takes text as it is, to another as an object. -/
structure Faithful (enc : Encoder) (args : ClientArguments) (sent : SentArguments) : Prop where
  parsed : ∀ v, args.value? c = some v → sent.Denotes c v
  unparsed : ∀ s, args = .text s → c.parseJson s = none →
    if enc.takesText then sent = .text s else ∃ members, sent = .value (.obj members)

/-- The arguments are JSON, of a value that is printed as it is read where the
upstream takes text. -/
def ArgumentsAreJson (enc : Encoder) (args : ClientArguments) : Prop :=
  ∃ v, args.value? c = some v ∧
    (enc.takesText = true → c.parseJson (c.renderJson v) = some v)

variable {c}

/-! ## The calls of a decoded request -/

/-- The name and the arguments of a call. -/
def namedCall? (b : ContentBlock) : Option (String × ToolCallArguments) :=
  b.toolCall?.map fun tc => (tc.name, tc.arguments)

def canonicalCalls (req : CanonicalRequest) : List (String × ToolCallArguments) :=
  (req.system.flatMap fun sys => sys.content.filterMap namedCall?) ++
    req.messages.flatMap fun msg => msg.content.filterMap namedCall?

/-- A call of a client as its decoder reads it. -/
def readCall (c : Codec) (call : ClientCall) : String × ToolCallArguments :=
  (call.name, call.arguments.read c)

/-- Only tool blocks are calls. -/
theorem namedCalls_filter_isTool (bs : List ContentBlock) :
    (bs.filter ContentBlock.isTool).filterMap namedCall? = bs.filterMap namedCall? := by
  rw [List.filterMap_filter]
  apply List.filterMap_congr
  intro b _
  cases b <;> rfl

theorem namedCalls_of_isTool {bs : List ContentBlock} (h : bs.filter ContentBlock.isTool = []) :
    bs.filterMap namedCall? = [] := by
  rw [← namedCalls_filter_isTool, h, List.filterMap_nil]

/-- The calls of instructions and messages are those of what they were decoded from. -/
theorem sublist_of_prelude {ι : Type} {isSystem : ι → Bool} {Leading : ι → SystemInstruction → Prop}
    {Later : ι → Message → Prop} {calls : ι → List (String × ToolCallArguments)} {msgs : List ι}
    {system : List SystemInstruction} {out : List Message}
    (hleading : List.Forall₂ Leading (msgs.takeWhile isSystem) system)
    (hlater : List.Forall₂ Later (msgs.dropWhile isSystem) out)
    (hinstruction : ∀ m sys, Leading m sys → (sys.content.filterMap namedCall?).Sublist (calls m))
    (hmessage : ∀ m msg, Later m msg → (msg.content.filterMap namedCall?).Sublist (calls m)) :
    ((system.flatMap fun sys => sys.content.filterMap namedCall?) ++
      out.flatMap fun msg => msg.content.filterMap namedCall?).Sublist (msgs.flatMap calls) := by
  rw [← List.takeWhile_append_dropWhile (p := isSystem) (l := msgs), List.flatMap_append]
  exact (Lists.flatMap_sublist_of_forall₂ hinstruction hleading).append
    (Lists.flatMap_sublist_of_forall₂ hmessage hlater)

section Chat

open OpenAiChat

theorem namedCalls_textContent (m : InboundMessage) :
    (textContent c m).filterMap namedCall? = [] :=
  Gateway.filterMap_textContent (fun _ => rfl) (fun _ => rfl) (fun _ => rfl) m

theorem namedCalls_turnMessage (role : MessageRole) (m : InboundMessage) :
    (turnMessage c role m).content.filterMap namedCall? = (chatCalls m).map (readCall c) := by
  rw [turnMessage, List.filterMap_append, namedCalls_textContent, List.nil_append,
    List.filterMap_map, chatCalls, List.map_map, ← List.filterMap_eq_map]
  rfl

theorem chat_decoded {id : String} {req : ChatCompletionsRequest} {canonical : CanonicalRequest}
    (h : OpenAiChat.decode c id req = .ok canonical) :
    (canonicalCalls canonical).Sublist ((req.messages.flatMap chatCalls).map (readCall c)) := by
  obtain ⟨s, hs, rfl⟩ := Checks.map_eq_ok.mp h
  obtain ⟨hleading, hlater⟩ := decodeMessages_spec hs
  rw [List.map_flatMap]
  refine sublist_of_prelude hleading hlater (fun m sys hm => ?_) (fun m msg hm => ?_)
  · obtain ⟨source, -, rfl⟩ := hm
    rw [instruction, namedCalls_textContent]
    exact List.nil_sublist _
  · cases hm with
    | system hrole =>
      rw [systemMessage, namedCalls_textContent]
      exact List.nil_sublist _
    | tool hrole hid => exact List.nil_sublist _
    | turn hrole hturn => rw [namedCalls_turnMessage]

end Chat

section Responses

open OpenAiResponses

/-- No instruction holds a tool block. -/
def ToolFree (system : List SystemInstruction) : Prop :=
  ∀ sys ∈ system, sys.content.filter ContentBlock.isTool = []

theorem toolFree_pushSystem {s : Decoding} (h : ToolFree s.system) (source : SystemSource)
    (content : Option InputMessageContent) :
    ToolFree (s.pushSystem source (decodeMessageContent c content)).system := by
  unfold Decoding.pushSystem
  split
  · intro sys hsys
    rcases List.mem_append.mp hsys with hsys | hsys
    · exact h sys hsys
    · rw [List.mem_singleton.mp hsys]
      exact filter_isTool_decodeMessageContent content
  · exact h

theorem toolFree_decodeMessage {what role : String} {s s' : Decoding}
    {content : Option InputMessageContent} (hfree : ToolFree s.system)
    (h : decodeMessage c what s role content = .ok s') : ToolFree s'.system := by
  unfold decodeMessage at h
  split at h
  · cases h
    exact toolFree_pushSystem hfree .openAiSystem content
  · cases h
    exact toolFree_pushSystem hfree .openAiDeveloper content
  · cases h
    exact hfree
  · cases h
    exact hfree
  · cases h

theorem toolFree_decodeItem {s s' : Decoding} {item : InputItem} (hfree : ToolFree s.system)
    (h : decodeItem c s item = .ok s') : ToolFree s'.system := by
  cases item with
  | message role content => exact toolFree_decodeMessage hfree h
  | functionCall id callId name arguments =>
    cases h
    exact hfree
  | functionCallOutput callId output =>
    cases h
    exact hfree
  | reasoning summary content =>
    cases h
    unfold Decoding.pushReasoning
    split
    · split <;> exact hfree
    · exact hfree
  | other =>
    cases h
    exact hfree

/-- A call of an item, as it is decoded. -/
theorem namedCall_toolBlock (item : InputItem) :
    (toolBlock? c item).bind namedCall? = (itemCall? item).map (readCall c) := by
  cases item with
  | functionCall id callId name arguments => cases arguments <;> rfl
  | _ => rfl

theorem toolFree_decodeInput {input : InputField} {system : List SystemInstruction}
    {messages : List Message} (h : decodeInput c input = .ok (system, messages)) :
    ToolFree system := by
  have hstart : ToolFree Decoding.start.system := nofun
  cases input with
  | text t =>
    cases h
    exact nofun
  | messages msgs =>
    obtain ⟨s, hs, heq⟩ := Checks.map_eq_ok.mp h
    cases heq
    exact Checks.foldlM_invariant (I := fun s => ToolFree s.system)
      (fun _ _ _ hfree hstep => toolFree_decodeMessage hfree hstep) hstart hs
  | items items =>
    obtain ⟨s, hs, heq⟩ := Checks.map_eq_ok.mp h
    cases heq
    exact Checks.foldlM_invariant (I := fun s => ToolFree s.system)
      (fun _ _ _ hfree hstep => toolFree_decodeItem hfree hstep) hstart hs

theorem toolBlocks_decodeInput {input : InputField} {system : List SystemInstruction}
    {messages : List Message} (h : decodeInput c input = .ok (system, messages)) :
    toolBlocks messages = (itemsOf input).filterMap (toolBlock? c) := by
  cases input with
  | text t =>
    cases h
    rfl
  | messages msgs =>
    obtain ⟨s, hs, heq⟩ := Checks.map_eq_ok.mp h
    cases heq
    exact Checks.foldlM_invariant (I := fun s => toolBlocks s.out = [])
      (fun _ _ _ hnone hstep => (toolBlocks_decodeMessage hstep).trans hnone) rfl hs
  | items items => exact toolBlocks_decodeItems h

theorem responses_decoded {id : String} {req : ResponsesRequest} {canonical : CanonicalRequest}
    (h : OpenAiResponses.decode c id req = .ok canonical) :
    canonicalCalls canonical = (ClientRequest.responses req).calls.map (readCall c) := by
  obtain ⟨system, hinput, hsystem⟩ := decode_input h
  have hfree := toolFree_decodeInput hinput
  have hinstructions : (canonical.system.flatMap fun sys => sys.content.filterMap namedCall?) =
      [] := by
    rw [hsystem, List.flatMap_append, List.append_eq_nil_iff]
    constructor
    · cases req.instructions with
      | none => rfl
      | some text => rfl
    · rw [List.flatMap_eq_nil_iff]
      exact fun sys hsys => namedCalls_of_isTool (hfree sys hsys)
  have hmessages : (canonical.messages.flatMap fun msg => msg.content.filterMap namedCall?) =
      (toolBlocks canonical.messages).filterMap namedCall? := by
    rw [toolBlocks, List.filterMap_flatMap]
    simp only [namedCalls_filter_isTool]
  rw [canonicalCalls, hinstructions, List.nil_append, hmessages, toolBlocks_decodeInput hinput,
    ClientRequest.calls, List.filterMap_filterMap, List.map_filterMap]
  exact List.filterMap_congr fun item _ => namedCall_toolBlock item

end Responses

section Anthropic

open AnthropicMessages

theorem namedCalls_inbound (bs : List InboundContentBlock) :
    (bs.map (inboundBlockToCanonical c)).filterMap namedCall? =
      (bs.filterMap blockCall?).map (readCall c) := by
  rw [List.filterMap_map, List.map_filterMap]
  apply List.filterMap_congr
  intro b _
  cases b with
  | image source cacheControl =>
    show namedCall? (inboundBlockToCanonical c (.image source cacheControl)) = none
    rw [inboundBlockToCanonical]
    split <;> rfl
  | _ => rfl

theorem namedCalls_decodeSystem (field : Option SystemField) :
    ((decodeSystem c field).flatMap fun sys => sys.content.filterMap namedCall?) =
      ((systemBlocks field).filterMap blockCall?).map (readCall c) := by
  match field with
  | none => rfl
  | some (.text text) => rfl
  | some (.blocks bs) =>
    rw [decodeSystem, List.flatMap_singleton, instruction, namedCalls_inbound, systemBlocks]

theorem anthropic_decoded {id : String} {req : MessagesRequest} {canonical : CanonicalRequest}
    (h : AnthropicMessages.decode c id req = .ok canonical) :
    (canonicalCalls canonical).Sublist
      ((ClientRequest.anthropic req).calls.map (readCall c)) := by
  have hdecoded := decode_spec h
  obtain ⟨leading, hsystem, hleading⟩ := hdecoded.system
  have hcontent (m : InboundMessage) : (messageContent c m).filterMap namedCall? =
      (m.content.toBlocks.filterMap blockCall?).map (readCall c) :=
    namedCalls_inbound _
  rw [canonicalCalls, hsystem, List.flatMap_append, List.append_assoc, ClientRequest.calls,
    List.filterMap_append, List.map_append, namedCalls_decodeSystem, List.filterMap_flatMap,
    List.map_flatMap]
  refine (List.Sublist.refl _).append
    (sublist_of_prelude hleading hdecoded.messages (fun m sys hm => ?_) (fun m msg hm => ?_))
  · rw [hm, instruction, hcontent]
  · rw [hm.content, hcontent]

end Anthropic

/-- The calls of a decoded request are the client's, as their decoder reads them. -/
theorem calls_decoded {id : String} {request : ClientRequest} {canonical : CanonicalRequest}
    (h : request.decode c id = .ok canonical) :
    (canonicalCalls canonical).Sublist (request.calls.map (readCall c)) := by
  cases request with
  | chat req => exact chat_decoded h
  | responses req =>
    rw [responses_decoded h]
  | anthropic req => exact anthropic_decoded h

/-! ## The calls of a body -/

/-- What an encoder makes of a call. -/
def sendCall (c : Codec) (enc : Encoder) (call : String × ToolCallArguments) : SentCall where
  name := call.1
  arguments := enc.send c call.2

/-- A call of a block, as it is sent. -/
def blockCalls (c : Codec) (enc : Encoder) (bs : List ContentBlock) : List SentCall :=
  (bs.filterMap namedCall?).map (sendCall c enc)

theorem map_sendCall_canonicalCalls (enc : Encoder) (req : CanonicalRequest) :
    (canonicalCalls req).map (sendCall c enc) =
      (req.system.flatMap fun sys => blockCalls c enc sys.content) ++
        req.messages.flatMap fun msg => blockCalls c enc msg.content := by
  rw [canonicalCalls, List.map_append, List.map_flatMap, List.map_flatMap]
  rfl

section Chat

open ChatEncode

theorem flatMap_chatSent_of_none {outs : List MsgOut} (h : ∀ out ∈ outs, out.toolCalls = none) :
    outs.flatMap chatSent = [] := by
  rw [List.flatMap_eq_nil_iff]
  intro out hout
  rw [chatSent, h out hout]
  rfl

theorem chatSent_callsOut (acceptsXhigh : Bool) (msg : Message) :
    chatSent (callsOut c msg) = blockCalls c (.chat acceptsXhigh) msg.content := by
  have hnamed : msg.content.filterMap namedCall? =
      msg.toolCalls.map fun tc => (tc.name, tc.arguments) := by
    rw [Message.toolCalls, List.map_filterMap]
    rfl
  rw [blockCalls, hnamed, List.map_map, chatSent, callsOut, Option.getD_some, List.map_map]
  rfl

theorem chatSent_messageOuts (acceptsXhigh : Bool) (msg : Message) :
    ((messageOuts c msg).flatMap chatSent).Sublist
      (blockCalls c (.chat acceptsXhigh) msg.content) := by
  by_cases hresults : msg.toolResults = []
  · by_cases hcalls : msg.toolCalls = []
    · -- neither calls nor results: one message, without calls
      rw [messageOuts_plain hresults hcalls, List.flatMap_singleton]
      exact List.nil_sublist _
    · rw [messageOuts_of_calls hresults hcalls, List.flatMap_singleton,
        chatSent_callsOut acceptsXhigh]
  · -- beside its results a message sends no call
    have hnone : (messageOuts c msg).flatMap chatSent = [] := by
      rw [messageOuts_of_results hresults]
      refine flatMap_chatSent_of_none fun out hout => ?_
      rcases List.mem_append.mp hout with hout | hout
      · obtain ⟨tr, -, rfl⟩ := List.mem_map.mp hout
        rfl
      · exact (siblingOuts_spec hout).2
    rw [hnone]
    exact List.nil_sublist _

theorem chat_sent (acceptsXhigh : Bool) (target : BackendTarget) (req : CanonicalRequest) :
    (sentCalls c (.chat acceptsXhigh) target req).Sublist
      ((canonicalCalls req).map (sendCall c (.chat acceptsXhigh))) := by
  have hsystem : (req.system.map systemOut).flatMap chatSent = [] := by
    refine flatMap_chatSent_of_none fun out hout => ?_
    obtain ⟨sys, -, rfl⟩ := List.mem_map.mp hout
    rfl
  show ((req.system.map systemOut ++ req.messages.flatMap (messageOuts c)).flatMap chatSent).Sublist
    _
  rw [List.flatMap_append, hsystem, List.nil_append, List.flatMap_assoc,
    map_sendCall_canonicalCalls]
  exact (List.Sublist.flatMap_right _ fun msg _ => chatSent_messageOuts acceptsXhigh msg).trans
    (List.sublist_append_right _ _)

end Chat

section Responses

open ResponsesEncode

theorem responses_sent (target : BackendTarget) (req : CanonicalRequest) :
    (sentCalls c .responses target req).Sublist
      ((canonicalCalls req).map (sendCall c .responses)) := by
  have hplaces : (req.messages.flatMap fun msg => blockCalls c .responses msg.content) =
      (places req.messages).filterMap fun place =>
        (namedCall? place.2).map (sendCall c .responses) := by
    rw [places, List.filterMap_flatMap]
    congr 1
    funext msg
    rw [blockCalls, List.map_filterMap, List.filterMap_map]
    rfl
  -- a place emits its call or none
  have hweaker : Lists.Weaker (fun place => (emitted c place).bind toolItemSent?)
      (fun place => (namedCall? place.2).map (sendCall c .responses)) := by
    rintro ⟨role, b⟩
    cases role <;> cases b <;> first | exact Or.inl rfl | exact Or.inr rfl
  show ((inputItems (build c req target)).filterMap fun item =>
    (toolItem? item).bind toolItemSent?).Sublist _
  rw [← List.filterMap_filterMap, toolItems_build, List.filterMap_filterMap,
    map_sendCall_canonicalCalls, hplaces]
  exact (Lists.filterMap_sublist_of_weaker hweaker _).trans (List.sublist_append_right _ _)

end Responses

section Anthropic

open AnthropicEncode

theorem blockSent_outgoing (bs : List ContentBlock) :
    (bs.filterMap (contentBlockToOutgoing c)).filterMap blockSent? =
      blockCalls c .anthropic bs := by
  rw [List.filterMap_filterMap, blockCalls, List.map_filterMap]
  apply List.filterMap_congr
  intro b _
  cases b with
  | image b =>
    show ((outgoingSource c b.source).map _).bind blockSent? = none
    cases outgoingSource c b.source <;> rfl
  | _ => rfl

theorem systemSent_buildSystem (system : List SystemInstruction) :
    (systemSent (buildSystem c system)).Sublist
      (system.flatMap fun sys => blockCalls c .anthropic sys.content) := by
  have hblocks : ((system.flatMap SystemInstruction.content).filterMap
      (contentBlockToOutgoing c)).filterMap blockSent? =
        system.flatMap fun sys => blockCalls c .anthropic sys.content := by
    rw [blockSent_outgoing, blockCalls, List.filterMap_flatMap, List.map_flatMap]
    rfl
  unfold buildSystem
  dsimp only
  split
  · -- texts and nothing else
    split <;> exact List.nil_sublist _
  · split
    · exact List.nil_sublist _
    · rw [systemSent, hblocks]

theorem anthropic_sent (target : BackendTarget) (req : CanonicalRequest) :
    (sentCalls c .anthropic target req).Sublist
      ((canonicalCalls req).map (sendCall c .anthropic)) := by
  have hmessages : ((req.messages.map (messageToOutgoing c)).flatMap fun msg =>
      msg.content.filterMap blockSent?) =
        req.messages.flatMap fun msg => blockCalls c .anthropic msg.content := by
    rw [List.flatMap_map]
    congr 1
    funext msg
    exact blockSent_outgoing msg.content
  rw [map_sendCall_canonicalCalls, ← hmessages]
  exact (systemSent_buildSystem req.system).append (List.Sublist.refl _)

end Anthropic

section Gemini

open GeminiEncode

theorem partSent_blockToPart (names : List (String × String)) (bs : List ContentBlock) :
    (bs.filterMap (blockToPart c names)).filterMap partSent? = blockCalls c .gemini bs := by
  rw [List.filterMap_filterMap, blockCalls, List.map_filterMap]
  apply List.filterMap_congr
  intro b _
  have hbinary (source : BinarySource) : partSent? (binaryToPart c source) = none := by
    cases source <;> rfl
  cases b with
  | image b => exact hbinary b.source
  | audio b => exact hbinary b.source
  | file b => exact hbinary b.source
  | _ => rfl

theorem gemini_sent (target : BackendTarget) (req : CanonicalRequest) :
    (sentCalls c .gemini target req).Sublist
      ((canonicalCalls req).map (sendCall c .gemini)) := by
  show ((req.messages.filterMap (contentOf? c (collectToolCallNames req.messages))).flatMap
    fun content => content.parts.filterMap partSent?).Sublist _
  rw [List.filterMap_eq_flatMap_toList, List.flatMap_assoc, map_sendCall_canonicalCalls]
  refine (List.Sublist.flatMap_right _ fun msg _ => ?_).trans (List.sublist_append_right _ _)
  unfold contentOf?
  split
  · exact List.nil_sublist _
  · dsimp only
    split
    · exact List.nil_sublist _
    · rw [Option.toList_some, List.flatMap_singleton, partSent_blockToPart]

end Gemini

/-- The calls of a body are those of the request, as its encoder sends them. -/
theorem calls_sent (enc : Encoder) (target : BackendTarget) (req : CanonicalRequest) :
    (sentCalls c enc target req).Sublist ((canonicalCalls req).map (sendCall c enc)) := by
  cases enc with
  | chat acceptsXhigh => exact chat_sent acceptsXhigh target req
  | responses => exact responses_sent target req
  | anthropic => exact anthropic_sent target req
  | gemini => exact gemini_sent target req

/-! ## What is sent -/

/-- A value goes out as text or as itself. -/
theorem send_complete (enc : Encoder) (v : Json) :
    enc.send c (.complete v) = if enc.takesText then .text (c.renderJson v) else .value v := by
  cases enc <;> rfl

theorem read_of_value {args : ClientArguments} {v : Json} (h : args.value? c = some v) :
    args.read c = .complete v := by
  cases args with
  | text s =>
    have hparse : c.parseJson s = some v := h
    rw [ClientArguments.read, hparse, Option.getD_some]
  | value w =>
    cases h
    rfl

/-- One call is sent as the client's arguments ask iff they are JSON. -/
theorem faithful_iff
    (hstr : ∀ s, c.parseJson (c.renderJson (.str s)) = some (.str s)) (enc : Encoder)
    (args : ClientArguments) :
    Faithful c enc args (enc.send c (args.read c)) ↔ ArgumentsAreJson c enc args := by
  constructor
  · intro h
    cases hvalue : args.value? c with
    | some v =>
      refine ⟨v, hvalue, fun htext => ?_⟩
      have hdenotes := h.parsed v hvalue
      rw [read_of_value hvalue, send_complete, if_pos htext] at hdenotes
      exact hdenotes
    | none =>
      -- the text was taken for the value of the arguments
      cases args with
      | value v => cases hvalue
      | text s =>
        have hparse : c.parseJson s = none := hvalue
        have hsent := h.unparsed s rfl hparse
        rw [ClientArguments.read, hparse, Option.getD_none, send_complete] at hsent
        cases htext : enc.takesText with
        | true =>
          -- its print would be the text itself, which then were JSON
          simp only [htext, if_true, SentArguments.text.injEq] at hsent
          have hquoted := hstr s
          rw [hsent, hparse] at hquoted
          cases hquoted
        | false =>
          simp only [htext, Bool.false_eq_true, if_false] at hsent
          obtain ⟨members, hmembers⟩ := hsent
          cases hmembers
  · rintro ⟨v, hvalue, hprinted⟩
    rw [read_of_value hvalue, send_complete]
    refine ⟨fun w hw => ?_, fun s hs hparse => ?_⟩
    · obtain rfl := Option.some.inj (hvalue.symm.trans hw)
      split
      · exact hprinted ‹_›
      · exact rfl
    · subst hs
      rw [ClientArguments.value?, hparse] at hvalue
      cases hvalue

/-- Every call of the body is one of the client's, and what is sent for each of these is
what its arguments ask for iff they are JSON. -/
theorem argumentFidelity_iff
    (hstr : ∀ s, c.parseJson (c.renderJson (.str s)) = some (.str s)) {id : String}
    {request : ClientRequest} {canonical : CanonicalRequest}
    (h : request.decode c id = .ok canonical) (enc : Encoder) (target : BackendTarget) :
    (sentCalls c enc target canonical).Sublist (request.calls.map (sentCall c enc)) ∧
      ((∀ call ∈ request.calls, Faithful c enc call.arguments (sentCall c enc call).arguments) ↔
        ∀ call ∈ request.calls, ArgumentsAreJson c enc call.arguments) := by
  constructor
  · have hdecoded := (calls_decoded h).map (sendCall c enc)
    rw [List.map_map] at hdecoded
    exact (calls_sent enc target canonical).trans hdecoded
  · exact forall₂_congr fun call _ => faithful_iff hstr enc call.arguments

/-! ## Two requests -/

open Gateway (quotingCodec)

/-- A call whose arguments are an empty object. -/
def zoomCall : ClientRequest :=
  .chat
    { model := "gpt-4o"
      messages :=
        [{ role := "assistant"
           toolCalls := [{ id := "call_1", name := "zoom", arguments := "{}" }] }] }

theorem zoomCall_faithful :
    ∃ canonical, zoomCall.decode quotingCodec "req_1" = .ok canonical ∧
      (sentCalls quotingCodec (.chat false) Gateway.gpt4o canonical).Sublist
        (zoomCall.calls.map (sentCall quotingCodec (.chat false))) ∧
      ∀ call ∈ zoomCall.calls, Faithful quotingCodec (.chat false) call.arguments
        (sentCall quotingCodec (.chat false) call).arguments := by
  have hjson : ∀ call ∈ zoomCall.calls,
      ArgumentsAreJson quotingCodec (.chat false) call.arguments :=
    List.forall_mem_singleton.mpr ⟨.obj [], rfl, fun _ => rfl⟩
  have hspec := argumentFidelity_iff Gateway.quotingCodec_str
    (rfl : zoomCall.decode quotingCodec "req_1" = .ok _) (.chat false) Gateway.gpt4o
  exact ⟨_, rfl, hspec.1, hspec.2.mpr hjson⟩

/-- The same call, whose arguments were never written. -/
def emptyArguments : ClientRequest :=
  .chat
    { model := "gpt-4o"
      messages :=
        [{ role := "assistant"
           toolCalls := [{ id := "call_1", name := "now", arguments := "" }] }] }

/-- Two quotes where the empty text is due, a string where an object is. -/
theorem emptyArguments_quoted :
    ∃ canonical, emptyArguments.decode quotingCodec "req_1" = .ok canonical ∧
      sentCalls quotingCodec (.chat false) Gateway.gpt4o canonical =
        [{ name := "now", arguments := .text "\"\"" }] ∧
      sentCalls quotingCodec .responses Gateway.gpt4o canonical =
        [{ name := "now", arguments := .text "\"\"" }] ∧
      sentCalls quotingCodec .anthropic Gateway.gpt4o canonical =
        [{ name := "now", arguments := .value (.str "") }] ∧
      sentCalls quotingCodec .gemini Gateway.gpt4o canonical =
        [{ name := "now", arguments := .value (.str "") }] ∧
      ∀ call ∈ emptyArguments.calls, ∀ enc,
        ¬ Faithful quotingCodec enc call.arguments (sentCall quotingCodec enc call).arguments := by
  refine ⟨_, rfl, rfl, rfl, rfl, rfl, List.forall_mem_singleton.mpr fun enc h => ?_⟩
  have hsent := h.unparsed "" rfl rfl
  have hread : (sentCall quotingCodec enc ⟨"now", .text ""⟩).arguments =
      if enc.takesText then .text "\"\"" else .value (.str "") :=
    send_complete enc (.str "")
  rw [hread] at hsent
  cases htext : enc.takesText with
  | true => simp [htext] at hsent
  | false => simp [htext] at hsent

end AgentShim.ToolArguments
