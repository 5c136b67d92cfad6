import AgentShim.Frontends.AnthropicDecode
import AgentShim.Frontends.ChatDecode
import AgentShim.Frontends.ResponsesRequest

/-
  The prelude of the three frontends

  Every frontend folds the system messages a conversation starts with into the
  session's instructions and leaves the later ones at their place. The four loops
  that do so, over Anthropic, Chat and Responses messages and over Responses
  items, follow one law: the instructions are the top-level ones and then those
  of the longest leading run of system entries, and the messages are what the
  rest adds, entry by entry.

  Most entries add one message. A reasoning item of a Responses request joins an
  assistant message before it, and an item of an unknown type adds none; both end
  the prelude.

  What is proved:
    1. `Follows.decodes` — a loop whose steps follow the law follows it as a whole.
    2. `decodeItems_agree` — on messages alone the two Responses loops accept the
       same lists, with the same result, and name the same role where they refuse.
    3. `prelude_folds` — the law, for the three decoders.
-/

namespace AgentShim

open OpenAiResponses (FrontendError Decoding)

/-! ## The law -/

/-- A system or developer entry of an inbound list. -/
structure SystemEntry where
  source : SystemSource
  content : List ContentBlock
  name : Option String := none

namespace SystemEntry

/-- What it is in the prelude. -/
def instruction (x : SystemEntry) : SystemInstruction where
  source := x.source
  content := x.content

/-- What it is at its place. -/
def message (x : SystemEntry) : Message where
  role := .system
  content := x.content
  name := x.name
  source := some x.source

end SystemEntry

section Law
variable {ι : Type} (system? : ι → Option SystemEntry)
  (Adds : List Message → ι → List Message → Prop)

/-- The longest leading run of system entries. -/
def leadingRun (entries : List ι) : List ι := entries.takeWhile fun e => (system? e).isSome

def afterRun (entries : List ι) : List ι := entries.dropWhile fun e => (system? e).isSome

/-- What a list of entries adds to the messages before it. -/
inductive AddsAll : List Message → List ι → List Message → Prop
  | nil {out : List Message} : AddsAll out [] out
  | system {out out' : List Message} {e : ι} {rest : List ι} {x : SystemEntry}
    (hsystem : system? e = some x) (hrest : AddsAll (out ++ [x.message]) rest out') :
    AddsAll out (e :: rest) out'
  | other {out mid out' : List Message} {e : ι} {rest : List ι}
    (hother : system? e = none) (hadds : Adds out e mid) (hrest : AddsAll mid rest out') :
    AddsAll out (e :: rest) out'

/-- The instructions and messages that a list of entries decodes to. -/
structure PreludeFolded (top : List SystemInstruction) (entries : List ι)
    (system : List SystemInstruction) (messages : List Message) : Prop where
  system : system =
    top ++ ((leadingRun system? entries).filterMap system?).map SystemEntry.instruction
  messages : AddsAll system? Adds [] (afterRun system? entries) messages

/-- What one step of a loop does with an entry. -/
structure Follows (step : Decoding → ι → Except FrontendError Decoding) : Prop where
  leading : ∀ {s s' : Decoding} {e : ι} {x : SystemEntry}, system? e = some x →
    s.preludePhase = true → step s e = .ok s' →
      s' = { s with system := s.system ++ [x.instruction] }
  later : ∀ {s s' : Decoding} {e : ι} {x : SystemEntry}, system? e = some x →
    s.preludePhase = false → step s e = .ok s' → s' = { s with out := s.out ++ [x.message] }
  other : ∀ {s s' : Decoding} {e : ι}, system? e = none → step s e = .ok s' →
    s'.system = s.system ∧ Adds s.out e s'.out ∧ s'.preludePhase = false

variable {system? Adds} {step : Decoding → ι → Except FrontendError Decoding}

/-- After the prelude the instructions stay. -/
theorem Follows.after (hstep : Follows system? Adds step) {entries : List ι} {s s' : Decoding}
    (hphase : s.preludePhase = false) (h : entries.foldlM step s = .ok s') :
    s'.system = s.system ∧ AddsAll system? Adds s.out entries s'.out := by
  induction entries generalizing s with
  | nil =>
    cases h
    exact ⟨rfl, .nil⟩
  | cons e rest ih =>
    rw [List.foldlM_cons] at h
    obtain ⟨mid, hmid, hrest⟩ := Checks.do_eq_ok.mp h
    cases hsystem : system? e with
    | some x =>
      have hmid' := hstep.later hsystem hphase hmid
      subst hmid'
      obtain ⟨hsys, hadds⟩ := ih (s := { s with out := s.out ++ [x.message] }) hphase hrest
      exact ⟨hsys, .system hsystem hadds⟩
    | none =>
      obtain ⟨hsys, hadds, hphase'⟩ := hstep.other hsystem hmid
      obtain ⟨hsys', hrest'⟩ := ih hphase' hrest
      exact ⟨hsys'.trans hsys, .other hsystem hadds hrest'⟩

/-- From the start of a list, or within its leading run. -/
theorem Follows.folds (hstep : Follows system? Adds step) {entries : List ι} {s s' : Decoding}
    (hphase : s.preludePhase = true) (h : entries.foldlM step s = .ok s') :
    s'.system = s.system ++
        ((leadingRun system? entries).filterMap system?).map SystemEntry.instruction ∧
      AddsAll system? Adds s.out (afterRun system? entries) s'.out := by
  induction entries generalizing s with
  | nil =>
    cases h
    exact ⟨(List.append_nil _).symm, .nil⟩
  | cons e rest ih =>
    cases hsystem : system? e with
    | some x =>
      rw [List.foldlM_cons] at h
      obtain ⟨mid, hmid, hrest⟩ := Checks.do_eq_ok.mp h
      have hmid' := hstep.leading hsystem hphase hmid
      subst hmid'
      obtain ⟨hsys, hadds⟩ := ih (s := { s with system := s.system ++ [x.instruction] })
        hphase hrest
      have hrun : leadingRun system? (e :: rest) = e :: leadingRun system? rest :=
        List.takeWhile_cons_of_pos (by rw [hsystem]; rfl)
      have hafter : afterRun system? (e :: rest) = afterRun system? rest :=
        List.dropWhile_cons_of_pos (by rw [hsystem]; rfl)
      rw [hrun, hafter, List.filterMap_cons_some hsystem, List.map_cons, List.append_cons]
      exact ⟨hsys, hadds⟩
    | none =>
      have hrun : leadingRun system? (e :: rest) = [] :=
        List.takeWhile_cons_of_neg (by rw [hsystem]; exact Bool.false_ne_true)
      have hafter : afterRun system? (e :: rest) = e :: rest :=
        List.dropWhile_cons_of_neg (by rw [hsystem]; exact Bool.false_ne_true)
      rw [List.foldlM_cons] at h
      obtain ⟨mid, hmid, hrest⟩ := Checks.do_eq_ok.mp h
      -- the first entry that is none ends the prelude
      obtain ⟨hsys, hadds, hphase'⟩ := hstep.other hsystem hmid
      obtain ⟨hsys', hrest'⟩ := hstep.after hphase' hrest
      rw [hrun, hafter, List.filterMap_nil, List.map_nil, List.append_nil]
      exact ⟨hsys'.trans hsys, .other hsystem hadds hrest'⟩

theorem Follows.decodes (hstep : Follows system? Adds step) {entries : List ι} {s s' : Decoding}
    (hphase : s.preludePhase = true) (hout : s.out = []) (h : entries.foldlM step s = .ok s') :
    PreludeFolded system? Adds s.system entries s'.system s'.out := by
  obtain ⟨hsystem, hmessages⟩ := hstep.folds hphase h
  rw [hout] at hmessages
  exact ⟨hsystem, hmessages⟩

end Law

/-! ## Anthropic messages -/

namespace AnthropicMessages

variable (c : Codec)

def systemEntryOf (m : InboundMessage) : Option SystemEntry :=
  if m.role = "system" then some { source := .anthropicSystem, content := messageContent c m }
  else none

/-- A user or assistant message is one message. -/
inductive AddsMessage (out : List Message) (m : InboundMessage) : List Message → Prop
  | user (hrole : m.role = "user") : AddsMessage out m (out ++ [.user (messageContent c m)])
  | assistant (hrole : m.role = "assistant") :
    AddsMessage out m (out ++ [.assistant (messageContent c m)])

theorem follows : Follows (systemEntryOf c) (AddsMessage c) (decodeMessage c) where
  leading := by
    intro s s' m x hsystem hphase h
    unfold systemEntryOf at hsystem
    split at hsystem
    case isFalse => cases hsystem
    case isTrue hrole =>
      cases hsystem
      simp only [decodeMessage, hrole, roleFromAnthropic, hphase, if_true] at h
      cases h
      rw [hphase]
      rfl
  later := by
    intro s s' m x hsystem hphase h
    unfold systemEntryOf at hsystem
    split at hsystem
    case isFalse => cases hsystem
    case isTrue hrole =>
      cases hsystem
      simp only [decodeMessage, hrole, roleFromAnthropic, hphase, Bool.false_eq_true,
        if_false] at h
      cases h
      rw [hphase]
      rfl
  other := by
    intro s s' m hsystem h
    have hnot : m.role ≠ "system" := by
      intro hrole
      rw [systemEntryOf, if_pos hrole] at hsystem
      cases hsystem
    unfold decodeMessage roleFromAnthropic at h
    split at h
    case h_1 => cases h
    case h_2 hrole =>
      split at hrole <;> simp_all
    case h_3 role hne hrole =>
      split at hrole
      case h_1 huser =>
        cases hrole
        cases h
        exact ⟨rfl, .user huser, rfl⟩
      case h_2 hassistant =>
        cases hrole
        cases h
        exact ⟨rfl, .assistant hassistant, rfl⟩
      case h_3 => exact absurd (Option.some.inj hrole).symm hne
      case h_4 => cases hrole

end AnthropicMessages

/-! ## Chat messages -/

namespace OpenAiChat

variable (c : Codec)

def systemEntryOf (m : InboundMessage) : Option SystemEntry :=
  match roleToCanonical m.role with
  | some (.system source) => some { source := source, content := textContent c m, name := m.name }
  | _ => none

/-- A user, assistant or tool message is one message. -/
inductive AddsMessage (out : List Message) (m : InboundMessage) : List Message → Prop
  | turn {role : MessageRole} (hrole : roleToCanonical m.role = some (.message role))
    (hturn : role = .user ∨ role = .assistant) :
    AddsMessage out m (out ++ [turnMessage c role m])
  | tool {toolCallId : String} (hrole : roleToCanonical m.role = some (.message .tool))
    (hid : m.toolCallId = some toolCallId) : AddsMessage out m (out ++ [toolMessage c toolCallId m])

variable {c}

theorem systemEntryOf_eq_some {m : InboundMessage} {x : SystemEntry} :
    systemEntryOf c m = some x ↔ ∃ source, roleToCanonical m.role = some (.system source) ∧
      x = { source := source, content := textContent c m, name := m.name } := by
  unfold systemEntryOf
  constructor
  · intro h
    split at h
    · rename_i source hrole
      cases h
      exact ⟨source, hrole, rfl⟩
    · cases h
  · rintro ⟨source, hrole, rfl⟩
    rw [hrole]

theorem follows : Follows (systemEntryOf c) (AddsMessage c) (decodeMessage c) where
  leading := by
    intro s s' m x hsystem hphase h
    obtain ⟨source, hrole, rfl⟩ := systemEntryOf_eq_some.mp hsystem
    simp only [decodeMessage, hrole, hphase, if_true] at h
    cases h
    rw [hphase]
    rfl
  later := by
    intro s s' m x hsystem hphase h
    obtain ⟨source, hrole, rfl⟩ := systemEntryOf_eq_some.mp hsystem
    simp only [decodeMessage, hrole, hphase, Bool.false_eq_true, if_false] at h
    cases h
    rw [hphase]
    rfl
  other := by
    intro s s' m hsystem h
    have hnot : m.isSystem = false := by
      unfold InboundMessage.isSystem
      cases hrole : roleToCanonical m.role with
      | none => rfl
      | some role =>
        cases role with
        | message role => rfl
        | system source =>
          have hsome : systemEntryOf c m = some _ :=
            systemEntryOf_eq_some.mpr ⟨source, hrole, rfl⟩
          cases hsystem.symm.trans hsome
    obtain ⟨msg, hmsg, hsys, hout, hphase⟩ :=
      decodeMessage_later h fun hyes => absurd (hnot.symm.trans hyes) Bool.false_ne_true
    refine ⟨hsys, ?_, hphase⟩
    rw [hout]
    cases hmsg with
    | system hrole => simp [systemEntryOf, hrole] at hsystem
    | tool hrole hid => exact .tool hrole hid
    | turn hrole hturn => exact .turn hrole hturn

end OpenAiChat

/-! ## Responses messages and items -/

namespace OpenAiResponses

variable (c : Codec)

def systemRole? (role : String) (content : Option InputMessageContent) : Option SystemEntry :=
  match role with
  | "system" => some { source := .openAiSystem, content := decodeMessageContent c content }
  | "developer" => some { source := .openAiDeveloper, content := decodeMessageContent c content }
  | _ => none

def systemMessage? (m : InputMessage) : Option SystemEntry := systemRole? c m.role m.content

def systemItem? : InputItem → Option SystemEntry
  | .message role content => systemRole? c role content
  | _ => none

/-- A user or assistant message is one message. -/
inductive AddsTurn (out : List Message) (role : String) (content : Option InputMessageContent) :
    List Message → Prop
  | user (hrole : role = "user") :
    AddsTurn out role content (out ++ [.user (decodeMessageContent c content)])
  | assistant (hrole : role = "assistant") :
    AddsTurn out role content (out ++ [.assistant (decodeMessageContent c content)])

def AddsMessage (out : List Message) (m : InputMessage) (out' : List Message) : Prop :=
  AddsTurn c out m.role m.content out'

/-- The reasoning block of an item. -/
def reasoningOf (summary content : Option (List ReasoningPart)) : ContentBlock :=
  .reasoning { text := extractReasoningText content summary }

/-- A message, a call and an output are one message each; a reasoning item joins the
assistant message before it, if there is one; an unknown item adds nothing. -/
inductive AddsItem (out : List Message) : InputItem → List Message → Prop
  | message {role : String} {content : Option InputMessageContent} {out' : List Message}
    (h : AddsTurn c out role content out') : AddsItem out (.message role content) out'
  | functionCall {id : Option String} {callId name : String} {arguments : Json} :
    AddsItem out (.functionCall id callId name arguments)
      (out ++ [.assistant [.toolCall (decodeCall c id callId name arguments)]])
  | functionCallOutput {callId : String} {output : Json} :
    AddsItem out (.functionCallOutput callId output)
      (out ++ [{ role := .tool, content := [.toolResult (decodeOutput callId output)] }])
  | reasoningJoins {before : List Message} {msg : Message}
    {summary content : Option (List ReasoningPart)}
    (hout : out = before ++ [msg]) (hrole : msg.role = .assistant) :
    AddsItem out (.reasoning summary content)
      (before ++ [{ msg with content := msg.content ++ [reasoningOf summary content] }])
  | reasoningAlone {summary content : Option (List ReasoningPart)}
    (hout : ∀ msg ∈ out.getLast?, msg.role ≠ .assistant) :
    AddsItem out (.reasoning summary content)
      (out ++ [.assistant [reasoningOf summary content]])
  | other : AddsItem out .other out

variable {c}

theorem systemRole?_cases {what role : String} {s s' : Decoding}
    {content : Option InputMessageContent} (h : decodeMessage c what s role content = .ok s') :
    (∃ x, systemRole? c role content = some x ∧ s' = s.pushSystem x.source x.content ∧
        x.name = none) ∨
      (systemRole? c role content = none ∧
        ∃ msg, s' = s.push msg ∧ AddsTurn c s.out role content (s.out ++ [msg])) := by
  unfold decodeMessage at h
  split at h
  · cases h
    exact Or.inl ⟨_, rfl, rfl, rfl⟩
  · cases h
    exact Or.inl ⟨_, rfl, rfl, rfl⟩
  · cases h
    exact Or.inr ⟨rfl, _, rfl, .user rfl⟩
  · cases h
    exact Or.inr ⟨rfl, _, rfl, .assistant rfl⟩
  · cases h

/-- One message of either list, under the law. -/
theorem follows_decodeMessage (what : String) :
    Follows (fun m : InputMessage => systemRole? c m.role m.content) (AddsMessage c)
      (fun s m => decodeMessage c what s m.role m.content) where
  leading := by
    intro s s' m x hsystem hphase h
    rcases systemRole?_cases h with ⟨y, hy, rfl, -⟩ | ⟨hnone, -⟩
    · obtain rfl : y = x := Option.some.inj (hy.symm.trans hsystem)
      rw [Decoding.pushSystem, if_pos hphase]
      rfl
    · rw [hsystem] at hnone
      cases hnone
  later := by
    intro s s' m x hsystem hphase h
    rcases systemRole?_cases h with ⟨y, hy, rfl, hname⟩ | ⟨hnone, -⟩
    · obtain rfl : y = x := Option.some.inj (hy.symm.trans hsystem)
      rw [Decoding.pushSystem, hphase, if_neg Bool.false_ne_true, SystemEntry.message, hname]
      rfl
    · rw [hsystem] at hnone
      cases hnone
  other := by
    intro s s' m hsystem h
    rcases systemRole?_cases h with ⟨y, hy, -, -⟩ | ⟨-, msg, rfl, hadds⟩
    · rw [hsystem] at hy
      cases hy
    · exact ⟨rfl, hadds, rfl⟩

theorem adds_pushReasoning (s : Decoding) (summary content : Option (List ReasoningPart)) :
    AddsItem c s.out (.reasoning summary content)
        (s.pushReasoning (reasoningOf summary content)).out ∧
      (s.pushReasoning (reasoningOf summary content)).system = s.system ∧
      (s.pushReasoning (reasoningOf summary content)).preludePhase = false := by
  unfold Decoding.pushReasoning
  split
  · rename_i msg hlast
    obtain ⟨before, hout⟩ := List.getLast?_eq_some_iff.mp hlast
    split
    · rename_i hrole
      refine ⟨?_, rfl, rfl⟩
      rw [hout, List.dropLast_concat]
      exact .reasoningJoins rfl hrole
    · rename_i hrole
      refine ⟨.reasoningAlone ?_, rfl, rfl⟩
      intro m hm
      rw [hlast, Option.mem_some] at hm
      rwa [← hm]
  · rename_i hnone
    refine ⟨.reasoningAlone ?_, rfl, rfl⟩
    intro m hm
    rw [hnone] at hm
    cases hm

theorem follows_decodeItem : Follows (systemItem? c) (AddsItem c) (decodeItem c) where
  leading := by
    intro s s' item x hsystem hphase h
    cases item with
    | message role content =>
      exact (follows_decodeMessage "input item").leading
        (e := { role := role, content := content }) hsystem hphase h
    | _ => cases hsystem
  later := by
    intro s s' item x hsystem hphase h
    cases item with
    | message role content =>
      exact (follows_decodeMessage "input item").later
        (e := { role := role, content := content }) hsystem hphase h
    | _ => cases hsystem
  other := by
    intro s s' item hsystem h
    cases item with
    | message role content =>
      obtain ⟨hsys, hadds, hphase⟩ := (follows_decodeMessage "input item").other
        (e := { role := role, content := content }) hsystem h
      exact ⟨hsys, .message hadds, hphase⟩
    | functionCall id callId name arguments =>
      cases h
      exact ⟨rfl, .functionCall, rfl⟩
    | functionCallOutput callId output =>
      cases h
      exact ⟨rfl, .functionCallOutput, rfl⟩
    | reasoning summary content =>
      cases h
      obtain ⟨hadds, hsys, hphase⟩ := adds_pushReasoning s summary content
      exact ⟨hsys, hadds, hphase⟩
    | other =>
      cases h
      exact ⟨rfl, .other, rfl⟩

/-! ## The two loops of the Responses frontend -/

/-- A message as an item of its own. -/
def InputMessage.toItem (m : InputMessage) : InputItem := .message m.role m.content

/-- Both loops accept a message with the same result, or refuse its role. -/
theorem decodeMessage_agree (s : Decoding) (m : InputMessage) :
    (∃ s', decodeMessage c "input message" s m.role m.content = .ok s' ∧
        decodeItem c s m.toItem = .ok s') ∨
      (decodeMessage c "input message" s m.role m.content =
          .error (.invalidBody s!"unknown role in input message: {m.role}") ∧
        decodeItem c s m.toItem =
          .error (.invalidBody s!"unknown role in input item: {m.role}")) := by
  simp only [InputMessage.toItem, decodeItem]
  unfold decodeMessage
  split
  · exact Or.inl ⟨_, rfl, rfl⟩
  · exact Or.inl ⟨_, rfl, rfl⟩
  · exact Or.inl ⟨_, rfl, rfl⟩
  · exact Or.inl ⟨_, rfl, rfl⟩
  · exact Or.inr ⟨rfl, rfl⟩

theorem foldlM_agree (msgs : List InputMessage) (s : Decoding) :
    (∃ s', msgs.foldlM (fun s m => decodeMessage c "input message" s m.role m.content) s = .ok s' ∧
        (msgs.map InputMessage.toItem).foldlM (decodeItem c) s = .ok s') ∨
      (∃ m ∈ msgs,
        msgs.foldlM (fun s m => decodeMessage c "input message" s m.role m.content) s =
            .error (.invalidBody s!"unknown role in input message: {m.role}") ∧
          (msgs.map InputMessage.toItem).foldlM (decodeItem c) s =
            .error (.invalidBody s!"unknown role in input item: {m.role}")) := by
  induction msgs generalizing s with
  | nil => exact Or.inl ⟨s, rfl, rfl⟩
  | cons m rest ih =>
    rw [List.map_cons, List.foldlM_cons, List.foldlM_cons]
    rcases decodeMessage_agree (c := c) s m with ⟨s', hmsg, hitem⟩ | ⟨hmsg, hitem⟩
    · rw [hmsg, hitem]
      rcases ih s' with ⟨s'', hmsgs, hitems⟩ | ⟨m', hm', hmsgs, hitems⟩
      · exact Or.inl ⟨s'', hmsgs, hitems⟩
      · exact Or.inr ⟨m', List.mem_cons_of_mem _ hm', hmsgs, hitems⟩
    · rw [hmsg, hitem]
      exact Or.inr ⟨m, List.mem_cons_self, rfl, rfl⟩

/-- The two loops give one result on messages alone, or refuse one role. -/
theorem decodeItems_agree (msgs : List InputMessage) :
    (∃ result, decodeMessages c msgs = .ok result ∧
        decodeItems c (msgs.map InputMessage.toItem) = .ok result) ∨
      (∃ m ∈ msgs,
        decodeMessages c msgs =
            .error (.invalidBody s!"unknown role in input message: {m.role}") ∧
          decodeItems c (msgs.map InputMessage.toItem) =
            .error (.invalidBody s!"unknown role in input item: {m.role}")) := by
  unfold decodeMessages decodeItems
  rcases foldlM_agree (c := c) msgs .start with ⟨s, hmsgs, hitems⟩ | ⟨m, hm, hmsgs, hitems⟩
  · rw [hmsgs, hitems]
    exact Or.inl ⟨_, rfl, rfl⟩
  · rw [hmsgs, hitems]
    exact Or.inr ⟨m, hm, rfl, rfl⟩

/-- A reasoning item after an assistant message, and an unknown item. -/
def resumedTurn : List InputItem :=
  [.message "developer" (some (.text "Be brief.")),
    .message "assistant" (some (.text "Hello.")),
    .reasoning (some [.text "The user greets."]) none,
    .other,
    .message "system" (some (.text "Use metric units."))]

/-- Four entries follow the prelude, and two messages are decoded: the reasoning
item has joined the assistant message, the unknown item is gone. -/
theorem resumedTurn_not_entrywise :
    ∃ system messages, decodeItems objectCodec resumedTurn = .ok (system, messages) ∧
      (afterRun (systemItem? objectCodec) resumedTurn).length = 4 ∧ messages.length = 2 ∧
      messages.map (·.content.length) = [2, 1] :=
  ⟨_, _, rfl, rfl, rfl, rfl⟩

end OpenAiResponses

/-! ## The three decoders -/

/-- What a request of the Responses frontend decodes to. -/
def OpenAiResponses.InputFolded (c : Codec) (req : OpenAiResponses.ResponsesRequest)
    (canonical : CanonicalRequest) : Prop :=
  let top : List SystemInstruction := req.instructions.toList.map fun text =>
    { source := .openAiSystem, content := [.ofText text] }
  match req.input with
  | .text t => canonical.system = top ∧ canonical.messages = [.user [.ofText t]]
  | .messages msgs =>
    PreludeFolded (systemMessage? c) (AddsMessage c) top msgs canonical.system canonical.messages
  | .items items =>
    PreludeFolded (systemItem? c) (AddsItem c) top items canonical.system canonical.messages

theorem OpenAiResponses.inputFolded {c : Codec} {id : String}
    {req : OpenAiResponses.ResponsesRequest} {canonical : CanonicalRequest}
    (h : OpenAiResponses.decode c id req = .ok canonical) : InputFolded c req canonical := by
  obtain ⟨system, hinput, hsystem⟩ := decode_input h
  unfold InputFolded
  unfold decodeInput at hinput
  revert hinput
  cases req.input with
  | text t =>
    intro hinput
    obtain ⟨rfl, hmessages⟩ := Prod.mk.inj (Except.ok.inj hinput)
    exact ⟨hsystem.trans (List.append_nil _), hmessages.symm⟩
  | messages msgs =>
    intro hinput
    obtain ⟨s, hs, hout⟩ := Checks.map_eq_ok.mp hinput
    obtain ⟨rfl, hmessages⟩ := Prod.mk.inj hout
    obtain ⟨hfolded, hadds⟩ := (follows_decodeMessage "input message").decodes rfl rfl hs
    rw [← hmessages]
    refine ⟨?_, hadds⟩
    rw [hsystem, hfolded]
    rfl
  | items items =>
    intro hinput
    obtain ⟨s, hs, hout⟩ := Checks.map_eq_ok.mp hinput
    obtain ⟨rfl, hmessages⟩ := Prod.mk.inj hout
    obtain ⟨hfolded, hadds⟩ := follows_decodeItem.decodes rfl rfl hs
    rw [← hmessages]
    refine ⟨?_, hadds⟩
    rw [hsystem, hfolded]
    rfl

theorem AnthropicMessages.folded {c : Codec} {id : String}
    {req : AnthropicMessages.MessagesRequest} {canonical : CanonicalRequest}
    (h : AnthropicMessages.decode c id req = .ok canonical) :
    PreludeFolded (systemEntryOf c) (AddsMessage c) (decodeSystem c req.system) req.messages
      canonical.system canonical.messages := by
  obtain ⟨s, hs, rfl⟩ := Checks.map_eq_ok.mp h
  exact (follows c).decodes rfl rfl hs

theorem OpenAiChat.folded {c : Codec} {id : String} {req : OpenAiChat.ChatCompletionsRequest}
    {canonical : CanonicalRequest} (h : OpenAiChat.decode c id req = .ok canonical) :
    PreludeFolded (systemEntryOf c) (AddsMessage c) [] req.messages canonical.system
      canonical.messages := by
  obtain ⟨s, hs, rfl⟩ := Checks.map_eq_ok.mp h
  exact follows.decodes rfl rfl hs

/-- The law holds of every request the three frontends accept, and the two loops of
the Responses frontend agree on messages. -/
theorem prelude_folds (c : Codec) :
    (∀ id req canonical, AnthropicMessages.decode c id req = .ok canonical →
      PreludeFolded (AnthropicMessages.systemEntryOf c) (AnthropicMessages.AddsMessage c)
        (AnthropicMessages.decodeSystem c req.system) req.messages canonical.system
        canonical.messages) ∧
    (∀ id req canonical, OpenAiChat.decode c id req = .ok canonical →
      PreludeFolded (OpenAiChat.systemEntryOf c) (OpenAiChat.AddsMessage c) [] req.messages
        canonical.system canonical.messages) ∧
    (∀ id req canonical, OpenAiResponses.decode c id req = .ok canonical →
      OpenAiResponses.InputFolded c req canonical) ∧
    (∀ msgs : List OpenAiResponses.InputMessage,
      (∃ result, OpenAiResponses.decodeMessages c msgs = .ok result ∧
          OpenAiResponses.decodeItems c (msgs.map OpenAiResponses.InputMessage.toItem) =
            .ok result) ∨
        ∃ m ∈ msgs,
          OpenAiResponses.decodeMessages c msgs =
              .error (.invalidBody s!"unknown role in input message: {m.role}") ∧
            OpenAiResponses.decodeItems c (msgs.map OpenAiResponses.InputMessage.toItem) =
              .error (.invalidBody s!"unknown role in input item: {m.role}")) :=
  ⟨fun _ _ _ h => AnthropicMessages.folded h, fun _ _ _ h => OpenAiChat.folded h,
    fun _ _ _ h => OpenAiResponses.inputFolded h, OpenAiResponses.decodeItems_agree⟩

/-- A Chat request of a system message, a question and a developer message. -/
theorem prelude_folds_chat :
    let req : OpenAiChat.ChatCompletionsRequest :=
      { model := "m"
        messages :=
          [{ role := "system", content := some (.text "Be brief.") },
            { role := "user", content := some (.text "Hello?") },
            { role := "developer", content := some (.text "Use metric units.") }] }
    ∃ canonical, OpenAiChat.decode objectCodec "req_1" req = .ok canonical ∧
      PreludeFolded (OpenAiChat.systemEntryOf objectCodec) (OpenAiChat.AddsMessage objectCodec) []
        req.messages canonical.system canonical.messages ∧
      canonical.system.map (·.source) = [.openAiSystem] ∧
      canonical.messages.map (·.source) = [none, some .openAiDeveloper] := by
  intro req
  exact ⟨_, rfl, (prelude_folds objectCodec).2.1 "req_1" req _ rfl, rfl, rfl⟩

end AgentShim
