import AgentShim.Frontends.AnthropicDecode
import AgentShim.Gateway.ChatRelay
import AgentShim.Providers.AnthropicEncode

/-
  An Anthropic request on its way to an Anthropic upstream

  A request is decoded by the frontend and built again by the provider. Every
  block goes out as it came in but for an image: its source is read into a
  `BinarySource` and written from it, and where it is not read, or is a file of the
  provider, the block is left out. So a request comes back whole iff the images
  after the leading run of system messages have one of two shapes.

  What is proved:
    1. `sameBlock_iff` — a block comes back iff it is restorable.
    2. `roundTrips_iff` — a request comes back iff its messages' blocks are.
    3. `fileImage_dropped` — an image of a source that is not read is left out, and
       its message goes out empty.

  `decode.rs` keeps such an image "so the request still reaches the upstream
  untouched"; the encoder skips every block of that kind.
-/

namespace AgentShim.AnthropicRelay

open AnthropicMessages AnthropicEncode

/-! ## What it is to be the same -/

/-- The same JSON, or objects with the same members. -/
def SameValue (a b : Json) : Prop :=
  a = b ∨ ∃ as bs, a = .obj as ∧ b = .obj bs ∧ ∀ key, as.lookup key = bs.lookup key

inductive SameContent : Option ToolResultContent → Option OutgoingToolResultContent → Prop
  | absent : SameContent none none
  | text (t : String) : SameContent (some (.text t)) (some (.text t))
  | blocks (b : List Json) : SameContent (some (.blocks b)) (some (.blocks b))

/-- One block, before and after; an error flag that is absent is false. -/
inductive SameBlock : InboundContentBlock → OutgoingContentBlock → Prop
  | text (text : String) (cacheControl : Option Json) :
    SameBlock (.text text cacheControl) (.text text cacheControl)
  | image {source source' : Json} (h : SameValue source source') (cacheControl : Option Json) :
    SameBlock (.image source cacheControl) (.image source' cacheControl)
  | toolUse (id name : String) (input : Json) (cacheControl : Option Json) :
    SameBlock (.toolUse id name input cacheControl) (.toolUse id name input cacheControl)
  | toolResult (toolUseId : String) {isError isError' : Option Bool}
    (herror : isError'.getD false = isError.getD false) {content : Option ToolResultContent}
    {content' : Option OutgoingToolResultContent} (hcontent : SameContent content content')
    (cacheControl : Option Json) :
    SameBlock (.toolResult toolUseId isError content cacheControl)
      (.toolResult toolUseId isError' content' cacheControl)
  | thinking (thinking signature : String) :
    SameBlock (.thinking thinking signature) (.thinking thinking (some signature))
  | redactedThinking (data : String) : SameBlock (.redactedThinking data) (.redactedThinking data)

/-- A string content is one text block. -/
structure SameMessage (m : InboundMessage) (out : OutgoingMessage) : Prop where
  role : out.role = m.role
  content : List.Forall₂ SameBlock m.content.toBlocks out.content

structure SameTool (t : InboundTool) (out : OutgoingTool) : Prop where
  name : out.name = t.name
  description : out.description = t.description
  inputSchema : out.inputSchema = t.inputSchema
  cacheControl : out.cacheControl = t.cacheControl

inductive SameChoice : InboundToolChoice → OutgoingToolChoice → Prop
  | auto : SameChoice .auto .auto
  | any : SameChoice .any .any
  | tool (name : String) : SameChoice (.tool name) (.tool name)
  | none : SameChoice .none .none

/-- The messages after the leading run of system messages, the tools and the tool
choice; the members that are absent stand for their defaults. -/
structure RoundTrips (req : MessagesRequest) (out : OutgoingRequest) : Prop where
  messages :
    List.Forall₂ SameMessage (req.messages.dropWhile InboundMessage.isSystem) out.messages
  tools : List.Forall₂ SameTool (req.tools.getD []) (out.tools.getD [])
  toolChoice : SameChoice (req.toolChoice.getD .auto) (out.toolChoice.getD .auto)

/-! ## What comes back -/

variable (c : Codec)

/-- The sources that come back: an object that says where the image is, or one that
holds it, and nothing else. -/
inductive RestorableSource : Json → Prop
  | url {source : Json} {link : String} (h : SameValue source (urlSource link)) :
    RestorableSource source
  | base64 {source : Json} {mediaType payload : String}
    (h : SameValue source (base64Source mediaType payload))
    (hpayload : (c.decodeBase64 payload).isSome) : RestorableSource source

def RestorableBlock : InboundContentBlock → Prop
  | .image source _ => RestorableSource c source
  | _ => True

def Restorable (req : MessagesRequest) : Prop :=
  ∀ m ∈ req.messages.dropWhile InboundMessage.isSystem, ∀ b ∈ m.content.toBlocks,
    RestorableBlock c b

variable {c}

/-! ## Extensions -/

theorem get?_extensionOf (key : String) (v : Option Json) : (extensionOf key v).get? key = v := by
  cases v with
  | none => rfl
  | some v => simp [extensionOf, OrdMap.get?, OrdMap.insert, OrdMap.empty]

theorem get?_extensionOf_ne {key key' : String} (h : key' ≠ key) (v : Option Json) :
    (extensionOf key v).get? key' = none := by
  cases v with
  | none => rfl
  | some v => simp [extensionOf, OrdMap.get?, OrdMap.insert, OrdMap.empty, h]

/-- What the frontend put under a bare key is found there. -/
theorem fromExt_extensionOf (key : String) (v : Option Json) :
    fromExt key (extensionOf key v) = v := by
  have hne : "anthropic." ++ key ≠ key := by
    intro heq
    have hlength := congrArg String.length heq
    rw [String.length_append] at hlength
    have hpositive : 0 < String.length "anthropic." := by decide
    omega
  rw [fromExt, get?_extensionOf_ne hne, get?_extensionOf, Option.none_or]

theorem cacheControlFromExt_extensionOf (v : Option Json) :
    cacheControlFromExt (extensionOf "cache_control" v) = v :=
  fromExt_extensionOf _ v

theorem signatureFromExt_extensionOf (signature : String) :
    signatureFromExt (extensionOf "signature" (some (.str signature))) = some signature := by
  rw [signatureFromExt, fromExt_extensionOf]
  rfl

/-! ## Images -/

theorem members_of_sameValue {a : Json} {bs : List (String × Json)} (h : SameValue a (.obj bs)) :
    ∃ as, a = .obj as ∧ ∀ key, as.lookup key = bs.lookup key := by
  rcases h with rfl | ⟨as, bs', rfl, heq, hlookup⟩
  · exact ⟨bs, rfl, fun _ => rfl⟩
  · cases heq
    exact ⟨as, rfl, hlookup⟩

theorem binarySourceOfValue_url {source : Json} {link : String}
    (h : SameValue source (urlSource link)) :
    binarySourceOfValue c source = some (.url link) := by
  obtain ⟨members, rfl, hlookup⟩ := members_of_sameValue h
  have htype : members.lookup "type" = some (.str "url") := hlookup "type"
  have hurl : members.lookup "url" = some (.str link) := hlookup "url"
  simp [binarySourceOfValue, htype, fieldNames, hurl, variantOf]

theorem binarySourceOfValue_base64 {source : Json} {mediaType payload : String}
    (h : SameValue source (base64Source mediaType payload)) :
    binarySourceOfValue c source = (c.decodeBase64 payload).map (.base64 mediaType) := by
  obtain ⟨members, rfl, hlookup⟩ := members_of_sameValue h
  have htype : members.lookup "type" = some (.str "base64") := hlookup "type"
  have hmedia : members.lookup "media_type" = some (.str mediaType) := hlookup "media_type"
  have hdata : members.lookup "data" = some (.str payload) := hlookup "data"
  simp [binarySourceOfValue, htype, fieldNames, hmedia, hdata, variantOf]

/-- What is read is a variant with its fields. -/
theorem variantOf_of_binarySourceOfValue {source : Json} {bin : BinarySource}
    (h : binarySourceOfValue c source = some bin) :
    ∃ type fields, variantOf c type fields = some bin := by
  unfold binarySourceOfValue at h
  split at h
  · split at h
    · obtain ⟨fields, -, hfields⟩ := Option.bind_eq_some_iff.mp h
      exact ⟨_, fields, hfields⟩
    · cases h
  · exact ⟨_, _, h⟩
  · cases h

/-- Inline data that is read was a payload. -/
theorem payload_of_variantOf {type : String} {fields : List Json} {bin : BinarySource}
    (h : variantOf c type fields = some bin) :
    match bin with
    | .base64 _ data => ∃ payload, c.decodeBase64 payload = some data
    | .bytes _ _ => False
    | _ => True := by
  unfold variantOf at h
  split at h
  · cases h
    trivial
  · obtain ⟨data, hdata, rfl⟩ := Option.map_eq_some_iff.mp h
    exact ⟨_, hdata⟩
  · cases h
    trivial
  · cases h

/-- A source comes back iff it has one of the two shapes. -/
theorem source_comes_back_iff
    (hbase64 : ∀ payload data, c.decodeBase64 payload = some data → c.encodeBase64 data = payload)
    (source : Json) :
    (∃ bin out, binarySourceOfValue c source = some bin ∧ outgoingSource c bin = some out ∧
      SameValue source out) ↔ RestorableSource c source := by
  constructor
  · rintro ⟨bin, out, hbin, hout, hsame⟩
    obtain ⟨type, fields, hvariant⟩ := variantOf_of_binarySourceOfValue hbin
    have hpayload := payload_of_variantOf hvariant
    cases bin with
    | url link =>
      cases hout
      exact .url hsame
    | base64 mediaType data =>
      -- what goes out is the payload that was read
      cases hout
      obtain ⟨payload, hdata⟩ := hpayload
      refine .base64 hsame ?_
      rw [hbase64 payload data hdata, hdata]
      rfl
    | bytes mediaType data => exact hpayload.elim
    | providerFileId fileId => cases hout
  · intro h
    cases h with
    | url h => exact ⟨_, _, binarySourceOfValue_url h, rfl, h⟩
    | @base64 mediaType payload h hpayload =>
      obtain ⟨data, hdata⟩ := Option.isSome_iff_exists.mp hpayload
      refine ⟨.base64 mediaType data, _, ?_, rfl, ?_⟩
      · rw [binarySourceOfValue_base64 h, hdata]
        rfl
      · rw [hbase64 payload data hdata]
        exact h

/-! ## Blocks -/

theorem sameContent_resultValue (content : Option ToolResultContent) :
    SameContent content (toolResultContent c (resultValue content)) := by
  cases content with
  | none => exact .absent
  | some content =>
    cases content with
    | text t => exact .text t
    | blocks b => exact .blocks b

/-- A block comes back iff it is restorable. -/
theorem sameBlock_iff
    (hbase64 : ∀ payload data, c.decodeBase64 payload = some data → c.encodeBase64 data = payload)
    (b : InboundContentBlock) :
    (∃ out, contentBlockToOutgoing c (inboundBlockToCanonical c b) = some out ∧ SameBlock b out) ↔
      RestorableBlock c b := by
  cases b with
  | text text cacheControl =>
    refine iff_of_true ⟨_, rfl, ?_⟩ trivial
    rw [cacheControlFromExt_extensionOf]
    exact .text text cacheControl
  | image source cacheControl =>
    rw [RestorableBlock, ← source_comes_back_iff hbase64]
    constructor
    · rintro ⟨out, hout, hsame⟩
      rw [inboundBlockToCanonical] at hout
      split at hout
      · -- a source that is read: the block goes out with what is written for it
        rename_i bin hbin
        obtain ⟨source', hsource', rfl⟩ := Option.map_eq_some_iff.mp hout
        dsimp only at hsame
        rw [cacheControlFromExt_extensionOf] at hsame
        cases hsame with
        | image h => exact ⟨bin, source', hbin, hsource', h⟩
      · cases hout
    · rintro ⟨bin, source', hbin, hsource', hsame⟩
      refine ⟨.image source' cacheControl, ?_, .image hsame cacheControl⟩
      rw [inboundBlockToCanonical, hbin]
      show (outgoingSource c bin).map _ = _
      rw [hsource', cacheControlFromExt_extensionOf]
      rfl
  | toolUse id name input cacheControl =>
    refine iff_of_true ⟨_, rfl, ?_⟩ trivial
    rw [cacheControlFromExt_extensionOf]
    exact .toolUse id name input cacheControl
  | toolResult toolUseId isError content cacheControl =>
    refine iff_of_true ⟨_, rfl, ?_⟩ trivial
    rw [cacheControlFromExt_extensionOf]
    refine .toolResult toolUseId ?_ (sameContent_resultValue content) cacheControl
    cases hflag : isError.getD false <;> rfl
  | thinking thinking signature =>
    refine iff_of_true ⟨_, rfl, ?_⟩ trivial
    rw [signatureFromExt_extensionOf]
    exact .thinking thinking signature
  | redactedThinking data => exact iff_of_true ⟨_, rfl, .redactedThinking data⟩ trivial

/-! ## Requests -/

/-- The role a message was decoded to goes out as it came in. -/
theorem roleToAnthropic_of_decoded {role : MessageRole} {name : String}
    (h : roleFromAnthropic name = some role) : roleToAnthropic role = name := by
  unfold roleFromAnthropic at h
  split at h <;> cases h <;> rfl

theorem sameMessage_iff
    (hbase64 : ∀ payload data, c.decodeBase64 payload = some data → c.encodeBase64 data = payload)
    {m : InboundMessage} {msg : Message} (h : DecodesTo c m msg) :
    SameMessage m (messageToOutgoing c msg) ↔ ∀ b ∈ m.content.toBlocks, RestorableBlock c b := by
  have hblocks : List.Forall₂ SameBlock m.content.toBlocks (messageToOutgoing c msg).content ↔
      ∀ b ∈ m.content.toBlocks, RestorableBlock c b := by
    rw [messageToOutgoing, h.content, messageContent, List.filterMap_map,
      Lists.forall₂_filterMap_iff]
    exact forall₂_congr fun b _ => sameBlock_iff hbase64 b
  rw [← hblocks]
  exact ⟨SameMessage.content, fun hcontent => ⟨roleToAnthropic_of_decoded h.role, hcontent⟩⟩

theorem sameTools (tools : List InboundTool) :
    List.Forall₂ SameTool tools ((buildTools (tools.map toolDefinition)).getD []) := by
  have hsame : List.Forall₂ SameTool tools ((tools.map toolDefinition).map outgoingTool) := by
    rw [List.map_map, List.forall₂_map_right_iff, List.forall₂_same]
    exact fun t _ => ⟨rfl, rfl, rfl, cacheControlFromExt_extensionOf t.cacheControl⟩
  cases tools with
  | nil => exact .nil
  | cons t tools => exact hsame

theorem sameChoice (choice : Option InboundToolChoice) :
    SameChoice (choice.getD .auto) ((buildToolChoice (decodeToolChoice choice)).getD .auto) := by
  cases choice with
  | none => exact .auto
  | some choice =>
    cases choice with
    | auto => exact .auto
    | any => exact .any
    | tool name => exact .tool name
    | none => exact .none

/-- A request comes back as it came in iff every block after the leading run is
restorable. -/
theorem roundTrips_iff
    (hbase64 : ∀ payload data, c.decodeBase64 payload = some data → c.encodeBase64 data = payload)
    {id : String} {req : MessagesRequest} {canonical : CanonicalRequest}
    (h : decode c id req = .ok canonical) (target : BackendTarget) :
    RoundTrips req (build c canonical target) ↔ Restorable c req := by
  have hdecoded := decode_spec h
  have hiff : List.Forall₂ SameMessage (req.messages.dropWhile InboundMessage.isSystem)
      (build c canonical target).messages ↔ Restorable c req := by
    have hflat : (build c canonical target).messages =
        canonical.messages.flatMap fun msg => [messageToOutgoing c msg] :=
      (List.flatMap_pure_eq_map _ _).symm
    rw [hflat]
    exact (Lists.forall₂_flatMap_iff (R := SameMessage)
      (fun m msg hm => ⟨_, rfl, sameMessage_iff hbase64 hm⟩) hdecoded.messages).2
  rw [← hiff]
  refine ⟨RoundTrips.messages, fun hsame => ⟨hsame, ?_, ?_⟩⟩
  · show List.Forall₂ SameTool _ ((buildTools canonical.tools).getD [])
    rw [hdecoded.tools]
    exact sameTools (req.tools.getD [])
  · show SameChoice _ ((buildToolChoice canonical.toolChoice).getD .auto)
    rw [hdecoded.toolChoice]
    exact sameChoice req.toolChoice

/-! ## Two requests -/

def sonnet : BackendTarget where
  provider := "anthropic"
  model := "claude-sonnet-4"
  policy := { defaultReasoningEffort := none, defaultAnthropicBeta := none, reasoningMapping := [] }

/-- A picture, the call it led to, and its result. -/
def pictureTurn : MessagesRequest where
  model := "claude-sonnet-4"
  maxTokens := 1024
  messages :=
    [{ role := "system", content := .text "be brief" },
      { role := "user"
        content := .blocks [.text "what is this?" (some (.obj [("type", .str "ephemeral")])),
          .image (base64Source "image/png" "AA==") none] },
      { role := "assistant"
        content := .blocks [.thinking "a dot, maybe" "sig_1",
          .toolUse "toolu_1" "zoom" (.obj []) none] },
      { role := "user"
        content := .blocks [.toolResult "toolu_1" (some false) (some (.text "a dot")) none] }]
  toolChoice := some .any

theorem pictureTurn_restorable : Restorable Gateway.quotingCodec pictureTurn := by
  have hlater : pictureTurn.messages.dropWhile InboundMessage.isSystem =
      pictureTurn.messages.tail := rfl
  rw [Restorable, hlater]
  refine List.forall_mem_cons.mpr ⟨?_, List.forall_mem_cons.mpr ⟨?_, ?_⟩⟩
  · exact List.forall_mem_cons.mpr ⟨trivial,
      List.forall_mem_singleton.mpr (.base64 (Or.inl rfl) rfl)⟩
  · exact List.forall_mem_cons.mpr ⟨trivial, List.forall_mem_singleton.mpr trivial⟩
  · exact List.forall_mem_singleton.mpr (List.forall_mem_singleton.mpr trivial)

theorem pictureTurn_roundTrips :
    ∃ canonical, decode Gateway.quotingCodec "req_1" pictureTurn = .ok canonical ∧
      RoundTrips pictureTurn (build Gateway.quotingCodec canonical sonnet) :=
  ⟨_, rfl, (roundTrips_iff Gateway.quotingCodec_base64 rfl sonnet).mpr pictureTurn_restorable⟩

/-- An image the vendor already has, by its id. -/
def fileImage : MessagesRequest where
  model := "claude-sonnet-4"
  maxTokens := 1024
  messages :=
    [{ role := "user"
       content := .blocks [.image
        (.obj [("type", .str "file"), ("file_id", .str "file_1")]) none] }]

/-- Its source is kept whole by the frontend, and its block is left out. -/
theorem fileImage_dropped :
    ∃ canonical, decode objectCodec "req_1" fileImage = .ok canonical ∧
      (build objectCodec canonical sonnet).messages.map OutgoingMessage.content = [[]] ∧
      ¬ RoundTrips fileImage (build objectCodec canonical sonnet) := by
  refine ⟨_, rfl, rfl, fun hsame => ?_⟩
  obtain ⟨hmessage, -⟩ := List.forall₂_cons.mp hsame.messages
  cases hmessage.content

end AgentShim.AnthropicRelay
