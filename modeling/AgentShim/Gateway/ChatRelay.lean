import AgentShim.Frontends.ChatDecode
import AgentShim.Lib.Lists
import AgentShim.Providers.ChatEncode

/-
  A Chat request sent on to a Chat upstream

  A Chat Completions request is decoded by the frontend and built again for an
  upstream that speaks the same protocol. Its messages come out one for one, under
  their roles; what they hold comes through only as far as both sides carry it.

  What is proved:
    1. `sameMessage_leading_iff` — a leading system message comes through iff it is
       text alone, without a name.
    2. `sameMessage_tool_iff` — a tool message iff the first text is all it holds.
    3. `sameMessage_plain_iff`, `sameMessage_calls_iff` — any other message iff its
       images are accepted; beside tool calls iff it has no image.
    4. `relay_faithful_iff` — exactly which requests come through unchanged.
-/

namespace AgentShim.Gateway

open OpenAiChat ChatEncode

variable (c : Codec)

/-! ## What comes through unchanged -/

/-- A part as the upstream reads it. -/
def readPart (v : Json) : Option InboundContentPart :=
  match v.getStr "type" with
  | some "text" => (v.getStr "text").map .text
  | some "image_url" => ((v.get "image_url").bind fun image => image.getStr "url").map .imageUrl
  | _ => none

/-- A content as the upstream reads it. -/
def readContent : Option Json → Option (List InboundContentPart)
  | none => some []
  | some (.str s) => some [.text s]
  | some (.arr parts) => parts.mapM readPart
  | some _ => none

/-- Texts and nothing else. -/
def AreTexts (parts : List InboundContentPart) (texts : List String) : Prop :=
  parts = texts.map .text

/-- The same parts, or several texts joined into one. -/
def SameParts (parts outs : List InboundContentPart) : Prop :=
  outs = parts ∨ ∃ (texts : List String) (sep : String), 2 ≤ texts.length ∧
    AreTexts parts texts ∧ outs = [.text (sep.intercalate texts)]

/-- The text of all parts, and there is nothing but text. -/
def SameText (parts outs : List InboundContentPart) : Prop :=
  ∃ (texts : List String) (sep : String), AreTexts parts texts ∧
    outs = [.text (sep.intercalate texts)]

/-- The same text, or two texts of one JSON value. -/
def SameArguments (a b : String) : Prop :=
  b = a ∨ ∃ v, c.parseJson a = some v ∧ c.parseJson b = some v

structure SameCall (tc : InboundToolCall) (out : ToolCallOut) : Prop where
  id : out.id = tc.id
  name : out.function.name = tc.name
  arguments : SameArguments c tc.arguments out.function.arguments

/-- A message comes out as it came in. -/
structure SameMessage (m : InboundMessage) (out : MsgOut) : Prop where
  role : out.role = m.role
  name : out.name = m.name
  content : ∃ outs, readContent out.content = some outs ∧
    if m.role = "tool" then SameText m.parts outs else SameParts m.parts outs
  toolCalls : List.Forall₂ (SameCall c) m.toolCalls (out.toolCalls.getD [])
  toolCallId : m.role = "tool" → out.toolCallId = m.toolCallId

/-! ## What is kept -/

/-- A text, or an image whose URL the code takes. -/
def accepted : InboundContentPart → Bool
  | .text _ => true
  | .imageUrl url => (imageUrlToBinarySource c url).isSome

/-- Arguments that are JSON, of a value that is printed as it is read. -/
def ArgumentsKept (arguments : String) : Prop :=
  ∃ v, c.parseJson arguments = some v ∧ c.parseJson (c.renderJson v) = some v

/-- A leading system message: some text and nothing else, and no name. -/
structure LeadingKept (m : InboundMessage) : Prop where
  name : m.name = none
  text : ∃ texts, texts ≠ [] ∧ AreTexts m.parts texts
  toolCalls : m.toolCalls = []

/-- A tool message: the first text is all it has. -/
structure ToolKept (m : InboundMessage) : Prop where
  text : ∃ texts, AreTexts m.parts texts ∧ ∀ t ∈ texts.tail, t = ""
  toolCalls : m.toolCalls = []

/-- A message without tool calls: its images are accepted. -/
structure PlainKept (m : InboundMessage) : Prop where
  parts : ∀ part ∈ m.parts, accepted c part = true
  toolCalls : m.toolCalls = []

/-- A message with tool calls: no image, no single empty text, and arguments in JSON. -/
structure CallsKept (m : InboundMessage) : Prop where
  text : ∃ texts, texts ≠ [""] ∧ AreTexts m.parts texts
  toolCalls : m.toolCalls ≠ []
  arguments : ∀ tc ∈ m.toolCalls, ArgumentsKept c tc.arguments

/-- A message after the leading run. -/
def LaterKept (m : InboundMessage) : Prop :=
  if m.role = "tool" then ToolKept m
  else PlainKept c m ∨ (m.isSystem = false ∧ CallsKept c m)

/-- Every message is kept. -/
structure RequestKept (msgs : List InboundMessage) : Prop where
  leading : ∀ m ∈ msgs.takeWhile InboundMessage.isSystem, LeadingKept m
  later : ∀ m ∈ msgs.dropWhile InboundMessage.isSystem, LaterKept c m

/-! ## Joined texts -/

/-- What is joined to a text without changing it is empty. -/
theorem eq_empty_of_intercalate {sep a : String} {rest : List String}
    (h : sep.intercalate (a :: rest) = a) : ∀ t ∈ rest, t = "" := by
  induction rest generalizing a with
  | nil => exact nofun
  | cons b rest ih =>
    rw [String.intercalate_cons_cons] at h
    have hlength := congrArg String.length h
    simp only [String.length_append] at hlength
    have hb : sep.intercalate (b :: rest) = "" := by
      rw [← String.length_eq_zero_iff]
      omega
    have hempty : b = "" := by
      cases rest with
      | nil => simpa using hb
      | cons d rest =>
        rw [String.intercalate_cons_cons] at hb
        have hlength := congrArg String.length hb
        simp only [String.length_append, String.length_empty] at hlength
        rw [← String.length_eq_zero_iff]
        omega
    exact List.forall_mem_cons.mpr ⟨hempty, ih (a := b) (by rw [hb, hempty])⟩

theorem intercalate_of_empty {a : String} {rest : List String} (h : ∀ t ∈ rest, t = "") :
    "".intercalate (a :: rest) = a := by
  induction rest generalizing a with
  | nil => simp
  | cons b rest ih =>
    obtain ⟨hb, hrest⟩ := List.forall_mem_cons.mp h
    rw [String.intercalate_cons_cons, ih hrest, hb, String.append_empty, String.append_empty]

theorem areTexts_inj {parts : List InboundContentPart} {texts texts' : List String}
    (h : AreTexts parts texts) (h' : AreTexts parts texts') : texts = texts' :=
  List.map_injective_iff.mpr (fun _ _ heq => InboundContentPart.text.inj heq) (h.symm.trans h')

def partText : InboundContentPart → Option String
  | .text text => some text
  | .imageUrl _ => none

theorem filterMap_partText {parts : List InboundContentPart} {texts : List String}
    (h : AreTexts parts texts) : parts.filterMap partText = texts := by
  have hsome : partText ∘ InboundContentPart.text = some := rfl
  rw [h, List.filterMap_map, hsome, List.filterMap_some]

/-! ## Contents -/

section Contents

variable {c} {m : InboundMessage}

theorem joinText_textContent (m : InboundMessage) :
    joinText (textContent c m) = "\n".intercalate (m.parts.filterMap partText) := by
  have htext : ∀ part, ContentBlock.text? (decodePart c part) = partText part := by
    intro part
    cases part with
    | text text => rfl
    | imageUrl url =>
      rw [decodePart]
      cases imageUrlToBinarySource c url <;> rfl
  rw [joinText, textContent, List.filterMap_map]
  exact congrArg _ (List.filterMap_congr fun part _ => htext part)

/-- A part that is accepted is read as it was written, any other is dropped. -/
theorem contentPart_decodePart
    (hbase64 : ∀ payload data, c.decodeBase64 payload = some data → c.encodeBase64 data = payload)
    (part : InboundContentPart) :
    (contentPart? c (decodePart c part)).bind readPart =
        (if accepted c part = true then some part else none) ∧
      ((contentPart? c (decodePart c part)).isSome = accepted c part) := by
  cases part with
  | text text => exact ⟨rfl, rfl⟩
  | imageUrl url =>
    rw [decodePart, accepted]
    cases hsource : imageUrlToBinarySource c url with
    | none => exact ⟨rfl, rfl⟩
    | some source =>
      have hurl := imageUrl_imageUrlToBinarySource hbase64 hsource
      simp only [contentPart?, hurl]
      exact ⟨rfl, rfl⟩

theorem mapM_readPart
    (hbase64 : ∀ payload data, c.decodeBase64 payload = some data → c.encodeBase64 data = payload)
    (parts : List InboundContentPart) :
    ((parts.map (decodePart c)).filterMap (contentPart? c)).mapM readPart =
      some (parts.filter (accepted c)) := by
  induction parts with
  | nil => rfl
  | cons part parts ih =>
    obtain ⟨hread, hsome⟩ := contentPart_decodePart hbase64 part
    rw [List.map_cons]
    cases hpart : contentPart? c (decodePart c part) with
    | none =>
      rw [hpart] at hsome
      rw [List.filterMap_cons_none hpart, ih, List.filter_cons_of_neg (by rw [← hsome]; nofun)]
    | some v =>
      rw [hpart] at hread hsome
      have haccepted : accepted c part = true := hsome.symm
      rw [if_pos haccepted] at hread
      rw [List.filterMap_cons_some hpart, List.mapM_cons, ih, List.filter_cons_of_pos haccepted]
      have hv : readPart v = some part := hread
      rw [hv]
      rfl

/-- The accepted parts of a content are read as they were written. -/
theorem readContent_buildContentValue
    (hbase64 : ∀ payload data, c.decodeBase64 payload = some data → c.encodeBase64 data = payload)
    (m : InboundMessage) :
    readContent (buildContentValue c (textContent c m)) = some (m.parts.filter (accepted c)) := by
  have hparts := mapM_readPart hbase64 m.parts
  rw [← textContent] at hparts
  unfold buildContentValue
  split
  case h_1 b hblocks =>
    obtain ⟨part, hpart, hdecode⟩ := List.map_eq_singleton_iff.mp hblocks
    rw [hpart]
    cases part with
    | text text =>
      cases hdecode
      rfl
    | imageUrl url =>
      rw [decodePart] at hdecode
      cases hsource : imageUrlToBinarySource c url <;> rw [hsource] at hdecode <;> cases hdecode
  case h_2 =>
    cases hjson : (textContent c m).filterMap (contentPart? c) with
    | nil =>
      rw [hjson, List.mapM_nil] at hparts
      exact hparts
    | cons v vs =>
      rw [hjson] at hparts
      exact hparts

/-- Where parts may be dropped, they are the same iff none is. -/
theorem sameParts_filter_iff (parts : List InboundContentPart) :
    SameParts parts (parts.filter (accepted c)) ↔ ∀ part ∈ parts, accepted c part = true := by
  constructor
  · rintro (hsame | ⟨texts, sep, -, htexts, -⟩)
    · exact List.filter_eq_self.mp hsame
    · intro part hpart
      rw [htexts] at hpart
      obtain ⟨text, -, rfl⟩ := List.mem_map.mp hpart
      rfl
  · intro h
    exact Or.inl (List.filter_eq_self.mpr h)

/-- One text stands for the parts iff they are texts, and it is theirs joined. -/
theorem sameParts_joined_iff (m : InboundMessage) :
    SameParts m.parts [.text (joinText (textContent c m))] ↔
      ∃ texts, texts ≠ [] ∧ AreTexts m.parts texts := by
  rw [joinText_textContent]
  constructor
  · rintro (hsame | ⟨texts, sep, hlength, htexts, -⟩)
    · exact ⟨[_], List.cons_ne_nil _ _, hsame.symm⟩
    · refine ⟨texts, ?_, htexts⟩
      rintro rfl
      exact absurd hlength (by decide)
  · rintro ⟨texts, hne, htexts⟩
    rw [filterMap_partText htexts]
    match texts, hne with
    | [text], _ =>
      rw [String.intercalate_singleton]
      exact Or.inl htexts.symm
    | first :: second :: rest, _ =>
      exact Or.inr ⟨_, _, by simp, htexts, rfl⟩

/-- The text beside tool calls stands for the parts iff they are texts, and not a
single empty one. -/
theorem sameParts_beside_calls_iff (m : InboundMessage) {content : List ContentBlock}
    (hjoin : joinText content = joinText (textContent c m)) :
    (∃ outs, readContent (buildTextContentValue content) = some outs ∧
        SameParts m.parts outs) ↔
      ∃ texts, texts ≠ [""] ∧ AreTexts m.parts texts := by
  have hempty : joinText (textContent c m) = "" ↔
      m.parts.filterMap partText = [] ∨ m.parts.filterMap partText = [""] := by
    rw [joinText_textContent, intercalate_eq_empty_iff]
  unfold buildTextContentValue
  rw [hjoin]
  by_cases hjoined : joinText (textContent c m) = ""
  · have hread : readContent (if Text.isEmpty (joinText (textContent c m)) = true then none
        else some (.str (joinText (textContent c m)))) = some [] := by
      rw [hjoined]
      rfl
    constructor
    · rintro ⟨outs, houts, hsame⟩
      obtain rfl := Option.some.inj (hread.symm.trans houts)
      rcases hsame with hsame | ⟨texts, sep, -, -, hout⟩
      · exact ⟨[], (List.cons_ne_nil _ _).symm, hsame.symm⟩
      · cases hout
    · rintro ⟨texts, hne, htexts⟩
      rw [filterMap_partText htexts] at hempty
      rcases hempty.mp hjoined with rfl | rfl
      · exact ⟨[], hread, Or.inl htexts.symm⟩
      · exact absurd rfl hne
  · have hread : readContent (if Text.isEmpty (joinText (textContent c m)) = true then none
        else some (.str (joinText (textContent c m)))) =
          some [.text (joinText (textContent c m))] := by
      rw [if_neg]
      · rfl
      · simpa [Text.isEmpty] using hjoined
    constructor
    · rintro ⟨outs, houts, hsame⟩
      obtain rfl := Option.some.inj (hread.symm.trans houts)
      obtain ⟨texts, -, htexts⟩ := (sameParts_joined_iff m).mp hsame
      refine ⟨texts, ?_, htexts⟩
      rintro rfl
      rw [filterMap_partText htexts] at hempty
      exact hjoined (hempty.mpr (Or.inr rfl))
    · rintro ⟨texts, hne, htexts⟩
      refine ⟨_, hread, (sameParts_joined_iff m).mpr ⟨texts, ?_, htexts⟩⟩
      rintro rfl
      rw [filterMap_partText htexts] at hempty
      exact hjoined (hempty.mpr (Or.inl rfl))

/-- The content of a result stands for the parts iff they are texts, and the first is
all there is. -/
theorem sameText_toolContent_iff (m : InboundMessage) :
    SameText m.parts [.text (toolResultText c (toolContent c (textContent c m)))] ↔
      ∃ texts, AreTexts m.parts texts ∧ ∀ t ∈ texts.tail, t = "" := by
  constructor
  · rintro ⟨texts, sep, htexts, hout⟩
    refine ⟨texts, htexts, ?_⟩
    cases texts with
    | nil => exact nofun
    | cons first rest =>
      have hcontent : textContent c m = .ofText first :: rest.map .ofText := by
        rw [textContent, htexts, List.map_map]
        rfl
      rw [hcontent] at hout
      obtain hjoined := InboundContentPart.text.inj (List.cons.inj hout).1
      exact eq_empty_of_intercalate hjoined.symm
  · rintro ⟨texts, htexts, hrest⟩
    refine ⟨texts, "", htexts, ?_⟩
    cases texts with
    | nil =>
      have hcontent : textContent c m = [] := by
        rw [textContent, htexts]
        rfl
      rw [hcontent, String.intercalate_nil]
      rfl
    | cons first rest =>
      have hcontent : textContent c m = .ofText first :: rest.map .ofText := by
        rw [textContent, htexts, List.map_map]
        rfl
      have hempty : ∀ t ∈ rest, t = "" := hrest
      rw [hcontent, intercalate_of_empty hempty]
      rfl

end Contents

/-! ## Messages -/

section Messages

variable {c} {m : InboundMessage} {msg : Message}

theorem systemRole_eq {source : SystemSource} (h : roleToCanonical m.role = some (.system source)) :
    systemRole (some source) = m.role ∧ m.role ≠ "tool" ∧ m.isSystem = true := by
  have hsystem : m.isSystem = true := by rw [InboundMessage.isSystem, h]
  unfold roleToCanonical at h
  split at h <;> cases h
  case h_4 hrole => exact ⟨hrole.symm, by rw [hrole]; decide, hsystem⟩
  case h_5 hrole => exact ⟨hrole.symm, by rw [hrole]; decide, hsystem⟩

theorem roleOut_eq {role : MessageRole} (h : roleToCanonical m.role = some (.message role))
    (hmsg : msg.role = role) (hturn : role = .user ∨ role = .assistant) :
    roleOut msg = m.role ∧ m.role ≠ "tool" ∧ m.isSystem = false := by
  have hsystem : m.isSystem = false := by rw [InboundMessage.isSystem, h]
  unfold roleToCanonical at h
  split at h <;> cases h
  case h_1 hrole =>
    exact ⟨by rw [roleOut, hmsg, hrole], by rw [hrole]; decide, hsystem⟩
  case h_2 hrole =>
    exact ⟨by rw [roleOut, hmsg, hrole], by rw [hrole]; decide, hsystem⟩
  case h_3 => rcases hturn with hturn | hturn <;> cases hturn

theorem role_eq_tool (h : roleToCanonical m.role = some (.message .tool)) : m.role = "tool" := by
  unfold roleToCanonical at h
  split at h <;> cases h
  assumption

theorem sameCalls_nil_iff : List.Forall₂ (SameCall c) m.toolCalls [] ↔ m.toolCalls = [] :=
  List.forall₂_nil_right_iff

/-- The arguments come through iff they are JSON of a value that is printed as read. -/
theorem sameArguments_iff
    (hstr : ∀ s, c.parseJson (c.renderJson (.str s)) = some (.str s)) (arguments : String) :
    SameArguments c arguments
        (c.renderJson ((c.parseJson arguments).getD (.str arguments))) ↔
      ArgumentsKept c arguments := by
  cases hparse : c.parseJson arguments with
  | none =>
    rw [Option.getD_none]
    refine iff_of_false ?_ ?_
    · rintro (hsame | ⟨v, hv, -⟩)
      · -- a JSON string is no text that fails to parse
        have hquoted := hstr arguments
        rw [hsame, hparse] at hquoted
        cases hquoted
      · rw [hparse] at hv
        cases hv
    · rintro ⟨v, hv, -⟩
      rw [hparse] at hv
      cases hv
  | some v =>
    rw [Option.getD_some]
    constructor
    · rintro (hsame | ⟨w, hw, hprinted⟩)
      · exact ⟨v, hparse, by rw [hsame, hparse]⟩
      · rw [hparse] at hw
        cases hw
        exact ⟨v, hparse, hprinted⟩
    · rintro ⟨w, hw, hprinted⟩
      rw [hparse] at hw
      cases hw
      exact Or.inr ⟨v, hparse, hprinted⟩

theorem sameCalls_iff
    (hstr : ∀ s, c.parseJson (c.renderJson (.str s)) = some (.str s))
    (tcs : List InboundToolCall) :
    List.Forall₂ (SameCall c) tcs ((tcs.map (decodeToolCall c)).map (toolCallOut c)) ↔
      ∀ tc ∈ tcs, ArgumentsKept c tc.arguments := by
  induction tcs with
  | nil => exact iff_of_true .nil nofun
  | cons tc tcs ih =>
    rw [List.map_cons, List.map_cons, List.forall₂_cons, ih, List.forall_mem_cons]
    refine and_congr_left fun _ => ?_
    rw [← sameArguments_iff hstr]
    exact ⟨fun hsame => hsame.arguments, fun harguments => ⟨rfl, rfl, harguments⟩⟩

theorem sameMessage_leading_iff {sys : SystemInstruction} (h : DecodesLeading c m sys) :
    SameMessage c m (systemOut sys) ↔ LeadingKept m := by
  obtain ⟨source, hrole, rfl⟩ := h
  obtain ⟨hout, hnot, -⟩ := systemRole_eq hrole
  constructor
  · intro hsame
    obtain ⟨outs, hread, hparts⟩ := hsame.content
    rw [if_neg hnot] at hparts
    cases hread
    exact ⟨hsame.name.symm, (sameParts_joined_iff m).mp hparts,
      sameCalls_nil_iff.mp hsame.toolCalls⟩
  · intro hkept
    refine ⟨hout, hkept.name.symm, ⟨_, rfl, ?_⟩, sameCalls_nil_iff.mpr hkept.toolCalls,
      fun htool => absurd htool hnot⟩
    rw [if_neg hnot]
    exact (sameParts_joined_iff m).mpr hkept.text

theorem sameMessage_tool_iff {toolCallId : String}
    (hrole : roleToCanonical m.role = some (.message .tool))
    (hid : m.toolCallId = some toolCallId) {tr : ToolResultBlock}
    (htr : (toolMessage c toolCallId m).content = [.toolResult tr]) :
    SameMessage c m (toolOut c (toolMessage c toolCallId m) tr) ↔ ToolKept m := by
  cases htr
  have htool := role_eq_tool hrole
  constructor
  · intro hsame
    obtain ⟨outs, hread, htext⟩ := hsame.content
    rw [if_pos htool] at htext
    cases hread
    exact ⟨(sameText_toolContent_iff m).mp htext, sameCalls_nil_iff.mp hsame.toolCalls⟩
  · intro hkept
    refine ⟨htool.symm, rfl, ⟨_, rfl, ?_⟩, sameCalls_nil_iff.mpr hkept.toolCalls, fun _ => hid.symm⟩
    rw [if_pos htool]
    exact (sameText_toolContent_iff m).mpr hkept.text

/-- A message without tool calls. -/
theorem sameMessage_plain_iff
    (hbase64 : ∀ payload data, c.decodeBase64 payload = some data → c.encodeBase64 data = payload)
    (hrole : roleOut msg = m.role) (hnot : m.role ≠ "tool") (hname : msg.name = m.name)
    (hcontent : msg.content = textContent c m) :
    SameMessage c m (plainOut c msg) ↔ PlainKept c m := by
  have hread : readContent (plainOut c msg).content = some (m.parts.filter (accepted c)) := by
    rw [plainOut, hcontent]
    exact readContent_buildContentValue hbase64 m
  constructor
  · intro hsame
    obtain ⟨outs, houts, hparts⟩ := hsame.content
    rw [if_neg hnot] at hparts
    obtain rfl := Option.some.inj (hread.symm.trans houts)
    exact ⟨(sameParts_filter_iff m.parts).mp hparts, sameCalls_nil_iff.mp hsame.toolCalls⟩
  · intro hkept
    refine ⟨hrole, hname, ⟨_, hread, ?_⟩, sameCalls_nil_iff.mpr hkept.toolCalls,
      fun htool => absurd htool hnot⟩
    rw [if_neg hnot]
    exact (sameParts_filter_iff m.parts).mpr hkept.parts

/-- No part decodes to a call or a result. -/
theorem filterMap_textContent {β : Type} {g : ContentBlock → Option β}
    (htext : ∀ text, g (.ofText text) = none) (himage : ∀ b, g (.image b) = none)
    (hunsupported : ∀ b, g (.unsupported b) = none) (m : InboundMessage) :
    (textContent c m).filterMap g = [] := by
  refine List.filterMap_eq_nil_iff.mpr fun b hb => ?_
  obtain ⟨part, -, rfl⟩ := List.mem_map.mp hb
  cases part with
  | text text => exact htext text
  | imageUrl url =>
    rw [decodePart]
    cases imageUrlToBinarySource c url with
    | none => exact hunsupported _
    | some source => exact himage _

theorem toolCalls_turnMessage (role : MessageRole) (m : InboundMessage) :
    (turnMessage c role m).toolCalls = m.toolCalls.map (decodeToolCall c) := by
  rw [Message.toolCalls, turnMessage, List.filterMap_append,
    filterMap_textContent (fun _ => rfl) (fun _ => rfl) (fun _ => rfl), List.nil_append,
    List.filterMap_map, ← List.filterMap_eq_map]
  rfl

theorem toolResults_turnMessage (role : MessageRole) (m : InboundMessage) :
    (turnMessage c role m).toolResults = [] := by
  rw [Message.toolResults, turnMessage, List.filterMap_append,
    filterMap_textContent (fun _ => rfl) (fun _ => rfl) (fun _ => rfl), List.nil_append,
    List.filterMap_eq_nil_iff]
  intro b hb
  obtain ⟨tc, -, rfl⟩ := List.mem_map.mp hb
  rfl

theorem joinText_turnMessage (role : MessageRole) (m : InboundMessage) :
    joinText (turnMessage c role m).content = joinText (textContent c m) := by
  have hcalls : (m.toolCalls.map fun tc => ContentBlock.toolCall (decodeToolCall c tc)).filterMap
      ContentBlock.text? = [] := by
    rw [List.filterMap_eq_nil_iff]
    intro b hb
    obtain ⟨tc, -, rfl⟩ := List.mem_map.mp hb
    rfl
  rw [joinText, turnMessage, List.filterMap_append, hcalls, List.append_nil, joinText]

/-- A message with tool calls. -/
theorem sameMessage_calls_iff
    (hstr : ∀ s, c.parseJson (c.renderJson (.str s)) = some (.str s)) {role : MessageRole}
    (hrole : roleOut (turnMessage c role m) = m.role) (hnot : m.role ≠ "tool")
    (hcalls : m.toolCalls ≠ []) :
    SameMessage c m (callsOut c (turnMessage c role m)) ↔ CallsKept c m := by
  have htext := sameParts_beside_calls_iff (c := c) m (joinText_turnMessage role m)
  have hout : (callsOut c (turnMessage c role m)).toolCalls.getD [] =
      (m.toolCalls.map (decodeToolCall c)).map (toolCallOut c) := by
    rw [callsOut, toolCalls_turnMessage]
    rfl
  constructor
  · intro hsame
    obtain ⟨outs, hread, hparts⟩ := hsame.content
    rw [if_neg hnot] at hparts
    refine ⟨htext.mp ⟨outs, hread, hparts⟩, hcalls, ?_⟩
    rw [← sameCalls_iff hstr, ← hout]
    exact hsame.toolCalls
  · intro hkept
    obtain ⟨outs, hread, hparts⟩ := htext.mpr hkept.text
    refine ⟨hrole, rfl, ⟨outs, hread, ?_⟩, ?_, fun htool => absurd htool hnot⟩
    · rw [if_neg hnot]
      exact hparts
    · rw [hout, sameCalls_iff hstr]
      exact hkept.arguments

/-- A message after the leading run becomes one message, which is the same iff it is
kept. -/
theorem messageOuts_later
    (hstr : ∀ s, c.parseJson (c.renderJson (.str s)) = some (.str s))
    (hbase64 : ∀ payload data, c.decodeBase64 payload = some data → c.encodeBase64 data = payload)
    (h : DecodesLater c m msg) :
    ∃ out, messageOuts c msg = [out] ∧ (SameMessage c m out ↔ LaterKept c m) := by
  rw [LaterKept]
  cases h with
  | @system source hrole =>
    obtain ⟨hout, hnot, hsystem⟩ := systemRole_eq hrole
    have hcalls : (systemMessage c source m).toolCalls = [] :=
      filterMap_textContent (fun _ => rfl) (fun _ => rfl) (fun _ => rfl) m
    have hresults : (systemMessage c source m).toolResults = [] :=
      filterMap_textContent (fun _ => rfl) (fun _ => rfl) (fun _ => rfl) m
    refine ⟨_, messageOuts_plain hresults hcalls, ?_⟩
    have hrole : roleOut (systemMessage c source m) = m.role := hout
    rw [sameMessage_plain_iff hbase64 hrole hnot rfl rfl, if_neg hnot, hsystem]
    simp
  | tool hrole hid =>
    refine ⟨_, messageOuts_of_results (List.cons_ne_nil _ _), ?_⟩
    rw [sameMessage_tool_iff hrole hid rfl, if_pos (role_eq_tool hrole)]
  | @turn role hrole hturn =>
    have hturnRole : (turnMessage c role m).role = role := rfl
    obtain ⟨hout, hnot, hsystem⟩ := roleOut_eq hrole hturnRole hturn
    rw [if_neg hnot, hsystem]
    by_cases hcalls : m.toolCalls = []
    · have hnone : (turnMessage c role m).toolCalls = [] := by
        rw [toolCalls_turnMessage, hcalls, List.map_nil]
      have hcontent : (turnMessage c role m).content = textContent c m := by
        rw [turnMessage, hcalls]
        exact List.append_nil _
      refine ⟨_, messageOuts_plain (toolResults_turnMessage role m) hnone, ?_⟩
      rw [sameMessage_plain_iff hbase64 hout hnot rfl hcontent]
      exact ⟨Or.inl, fun hkept => hkept.resolve_right fun hkept => hkept.2.toolCalls hcalls⟩
    · have hsome : (turnMessage c role m).toolCalls ≠ [] := by
        rw [toolCalls_turnMessage]
        exact fun hnil => hcalls (List.map_eq_nil_iff.mp hnil)
      refine ⟨_, messageOuts_of_calls (toolResults_turnMessage role m) hsome, ?_⟩
      rw [sameMessage_calls_iff hstr hout hnot hcalls]
      exact ⟨fun hkept => Or.inr ⟨rfl, hkept⟩,
        fun hkept => (hkept.resolve_left fun hkept => hcalls hkept.toolCalls).2⟩

end Messages

/-! ## Requests -/

section Requests

variable {c}

/-- A request comes out of the encoder as it came in iff every message is one that is
kept. -/
theorem relay_faithful_iff
    (hstr : ∀ s, c.parseJson (c.renderJson (.str s)) = some (.str s))
    (hbase64 : ∀ payload data, c.decodeBase64 payload = some data → c.encodeBase64 data = payload)
    {id : String} {req : ChatCompletionsRequest} {canonical : CanonicalRequest}
    (h : decode c id req = .ok canonical) (target : BackendTarget) (acceptsXhigh : Bool) :
    List.Forall₂ (SameMessage c) req.messages (build c canonical target acceptsXhigh).messages ↔
      RequestKept c req.messages := by
  obtain ⟨s, hs, rfl⟩ := Checks.map_eq_ok.mp h
  obtain ⟨hleading, hlater⟩ := decodeMessages_spec hs
  have hsystem : s.system.map systemOut = s.system.flatMap fun sys => [systemOut sys] :=
    (List.flatMap_pure_eq_map systemOut s.system).symm
  obtain ⟨hlength, hleadingIff⟩ := Lists.forall₂_flatMap_iff (R := SameMessage c)
    (fun m sys hm => ⟨systemOut sys, rfl, sameMessage_leading_iff hm⟩) hleading
  obtain ⟨-, hlaterIff⟩ := Lists.forall₂_flatMap_iff (R := SameMessage c)
    (fun m msg hm => messageOuts_later hstr hbase64 hm) hlater
  have hsplit := List.takeWhile_append_dropWhile (p := InboundMessage.isSystem) (l := req.messages)
  show List.Forall₂ (SameMessage c) req.messages
    (s.system.map systemOut ++ s.out.flatMap (messageOuts c)) ↔ _
  rw [← hsplit, hsystem, Lists.forall₂_append_iff hlength, hleadingIff, hlaterIff, hsplit]
  exact ⟨fun hkept => ⟨hkept.1, hkept.2⟩, fun hkept => ⟨hkept.leading, hkept.later⟩⟩

end Requests

/-! ## A codec of strings and empty objects -/

def unquote : List Char → Option (List Char)
  | '"' :: rest => if rest.getLast? = some '"' then some rest.dropLast else none
  | _ => none

theorem unquote_quoted (cs : List Char) : unquote ('"' :: (cs ++ ['"'])) = some cs := by
  rw [unquote, if_pos List.getLast?_concat, List.dropLast_concat]

def quotingCodec : Codec where
  parseJson := fun s =>
    if s = "{}" then some (.obj [])
    else (unquote s.toList).map fun cs => .str (String.ofList cs)
  renderJson := fun
    | .str s => "\"" ++ s ++ "\""
    | _ => "{}"
  decodeBase64 := fun payload => if payload = "AA==" then some [0] else none
  encodeBase64 := fun data => if data = [0] then "AA==" else ""

theorem quotingCodec_str (s : String) :
    quotingCodec.parseJson (quotingCodec.renderJson (.str s)) = some (.str s) := by
  have hquoted : ("\"" ++ s ++ "\"").toList = '"' :: (s.toList ++ ['"']) := by
    simp only [String.toList_append]
    rfl
  have hobject : "\"" ++ s ++ "\"" ≠ "{}" := by
    intro heq
    have hchars := congrArg String.toList heq
    rw [hquoted] at hchars
    exact absurd (List.cons.inj hchars).1 (by decide)
  show (if "\"" ++ s ++ "\"" = "{}" then some (Json.obj [])
    else (unquote ("\"" ++ s ++ "\"").toList).map fun cs => .str (String.ofList cs)) = _
  rw [if_neg hobject, hquoted, unquote_quoted, Option.map_some, String.ofList_toList]

theorem quotingCodec_base64 (payload : String) (data : List UInt8)
    (h : quotingCodec.decodeBase64 payload = some data) :
    quotingCodec.encodeBase64 data = payload := by
  simp only [quotingCodec] at h ⊢
  split at h
  case isTrue hpayload =>
    cases h
    rw [if_pos rfl, hpayload]
  case isFalse => cases h

/-! ## Two requests -/

def gpt4o : BackendTarget where
  provider := "openai"
  model := "gpt-4o"
  policy := { defaultReasoningEffort := none, defaultAnthropicBeta := none, reasoningMapping := [] }

/-- A question about a picture, answered with a call and its result. -/
def aboutPicture : ChatCompletionsRequest where
  model := "gpt-4o"
  messages :=
    [{ role := "developer", content := some (.text "be brief") },
      { role := "user", name := some "ada",
        content := some (.parts [.text "what is this?", .imageUrl "data:image/png;base64,AA=="]) },
      { role := "assistant", content := some (.text "let me look"),
        toolCalls := [{ id := "call_1", name := "zoom", arguments := "{}" }] },
      { role := "tool", content := some (.text "a dot"), toolCallId := some "call_1" }]

theorem aboutPicture_kept : RequestKept quotingCodec aboutPicture.messages := by
  constructor
  · have hleading : aboutPicture.messages.takeWhile InboundMessage.isSystem =
        [{ role := "developer", content := some (.text "be brief") }] := by decide
    rw [hleading]
    exact List.forall_mem_singleton.mpr ⟨rfl, ⟨["be brief"], List.cons_ne_nil _ _, rfl⟩, rfl⟩
  · have hlater : aboutPicture.messages.dropWhile InboundMessage.isSystem =
        aboutPicture.messages.tail := by decide
    rw [hlater]
    refine List.forall_mem_cons.mpr ⟨?_, List.forall_mem_cons.mpr ⟨?_, ?_⟩⟩
    · rw [LaterKept, if_neg (by decide)]
      exact Or.inl ⟨by decide, rfl⟩
    · rw [LaterKept, if_neg (by decide)]
      exact Or.inr ⟨rfl, ⟨["let me look"], by decide, rfl⟩, List.cons_ne_nil _ _,
        List.forall_mem_singleton.mpr ⟨.obj [], rfl, rfl⟩⟩
    · refine List.forall_mem_singleton.mpr ?_
      rw [LaterKept, if_pos (by decide)]
      exact ⟨⟨["a dot"], rfl, nofun⟩, rfl⟩

theorem aboutPicture_same :
    ∃ canonical, decode quotingCodec "req_1" aboutPicture = .ok canonical ∧
      List.Forall₂ (SameMessage quotingCodec) aboutPicture.messages
        (build quotingCodec canonical gpt4o false).messages :=
  ⟨_, rfl, (relay_faithful_iff quotingCodec_str quotingCodec_base64 rfl gpt4o false).mpr
    aboutPicture_kept⟩

/-- The result of a tool, in two parts. -/
def resultInParts : ChatCompletionsRequest where
  model := "gpt-4o"
  messages :=
    [{ role := "tool", content := some (.parts [.text "12", .text "34"]),
       toolCallId := some "call_1" }]

/-- The first part goes out alone. -/
theorem resultInParts_cut :
    ∃ canonical, decode quotingCodec "req_1" resultInParts = .ok canonical ∧
      (build quotingCodec canonical gpt4o false).messages.map MsgOut.content = [some (.str "12")] ∧
      ¬ List.Forall₂ (SameMessage quotingCodec) resultInParts.messages
        (build quotingCodec canonical gpt4o false).messages := by
  refine ⟨_, rfl, rfl, fun hsame => ?_⟩
  have hmessage := (List.forall₂_cons.mp hsame).1
  obtain ⟨outs, hread, htext⟩ := hmessage.content
  have houts : outs = [.text "12"] := Option.some.inj (hread.symm.trans rfl)
  rw [if_pos (by decide), houts] at htext
  obtain ⟨texts, sep, htexts, hout⟩ := htext
  have htwo : texts = ["12", "34"] := areTexts_inj htexts rfl
  rw [htwo, String.intercalate_cons_cons] at hout
  have hlength := congrArg String.length (InboundContentPart.text.inj (List.cons.inj hout).1)
  simp only [String.length_append, String.intercalate_singleton] at hlength
  have htwelve : String.length "12" = 2 := by decide
  have hthirtyFour : String.length "34" = 2 := by decide
  omega

end AgentShim.Gateway
