import AgentShim.Core.Request
import AgentShim.Lib.Checks
import AgentShim.Lib.Cursor
import AgentShim.Lib.Saturating
import AgentShim.Lib.Tiling
import AgentShim.Plugins.Registry

/-
  The prompt compressor

  Shortens the conversation of a decoded request. The messages are split into
  groups, each led by a user message; a strategy drops groups from the front, down
  to a number of groups or to a number of tokens, or has an upstream summarize
  them.

  What is proved:
    1. `groupBoundaries_tiles`, `mem_turnStarts_iff` — the groups tile the messages,
       and every group but the first starts at a user message, one for each.
    2. `countMessagesTokens_eq` — the count is the sum over the text and reasoning
       blocks, stopped at `u32::MAX`.
    3. `keepLastN_pos` — a strategy that compiles keeps at least one group.

  A strategy's result is nothing where the code panics, or never returns. The
  upstream that summarizes is a parameter: when its call returns, and what the
  stream gives at which time.

  Correspondence (Rust ↔ Lean):
    `Range<usize>`, `&messages[r]`    ↔ `Tiling.Range`, `Range.slice`
    `groups::{group_boundaries,       ↔ `groupBoundaries`, its loop `groupLoop`;
      count_messages_tokens}`           `countMessagesTokens`
    `CompressionResult`, its `action` ↔ `CompressionResult`, `Action.label`
    `drop_old_turns::apply`           ↔ `dropOldTurns`
    `truncate::apply`, its `while`    ↔ `truncateToTokens`, `dropLoop`
    `BackendProvider::complete`,      ↔ `Completion`, `SummaryStream`, `withTimeout`
      `tokio::time::timeout`
    `summarize::{apply, build_summary_request, drain_text_from_stream,
      serialize_groups_to_text}`      ↔ `summarizeOldTurns` and the same names
    `CompiledStrategy`, `compile_strategy` ↔ the same names
    `on_decoded_request`              ↔ `onDecodedRequest`
  Logs and metrics are left out.
-/

namespace AgentShim.PromptCompressor

open Tiling Cursor Plugins

/-- `u32::MAX`. -/
abbrev maxU32 : Nat := 4294967295

/-! ## Groups -/

/-- The rounds of the loop from message `i` on, the open group started at `start`. -/
def groupLoop : List Message → Nat → Nat → List Range
  | [], i, start => [⟨start, i⟩]
  | msg :: rest, i, start =>
    if msg.role = .user then ⟨start, i⟩ :: groupLoop rest (i + 1) i
    else groupLoop rest (i + 1) start

def groupBoundaries : List Message → List Range
  | [] => []
  | _ :: rest => groupLoop rest 1 0

/-- The tokens of one text; the length of the encoding is cast to a `u32`. -/
def countText (encodedLen : String → Nat) (text : String) : Nat := Wire.asU32 (encodedLen text)

def addBlockTokens (encodedLen : String → Nat) (total : Nat) : ContentBlock → Nat
  | .text t => Saturating.add maxU32 total (countText encodedLen t.text)
  | .reasoning r => Saturating.add maxU32 total (countText encodedLen r.text)
  | _ => total

def countMessagesTokens (encodedLen : String → Nat) (messages : List Message) : Nat :=
  messages.foldl (fun total msg => msg.content.foldl (addBlockTokens encodedLen) total) 0

theorem groupLoop_head (rest : List Message) (i start : Nat) :
    ∃ stop tail, groupLoop rest i start = ⟨start, stop⟩ :: tail := by
  induction rest generalizing i with
  | nil => exact ⟨i, [], rfl⟩
  | cons msg rest ih =>
    unfold groupLoop
    split
    · exact ⟨i, _, rfl⟩
    · exact ih (i + 1)

theorem groupLoop_tiles {messages rest : List Message} {i start : Nat} (hat : At messages i rest)
    (hlt : start < i) : Tiles messages.length start (groupLoop rest i start) := by
  induction rest generalizing i start with
  | nil =>
    have hle := List.drop_eq_nil_iff.mp hat.drop
    exact ⟨rfl, hlt, Nat.le_antisymm hat.le hle⟩
  | cons msg rest ih =>
    unfold groupLoop
    split
    · exact ⟨rfl, hlt, ih hat.step (Nat.lt_succ_self i)⟩
    · exact ih hat.step (Nat.lt_succ_of_lt hlt)

/-- The groups are the messages, cut up. -/
theorem groupBoundaries_tiles (messages : List Message) :
    Tiles messages.length 0 (groupBoundaries messages) := by
  cases messages with
  | nil => rfl
  | cons msg rest => exact groupLoop_tiles (At.start (msg :: rest)).step Nat.one_pos

/-- A user message. -/
def LeadsGroup (messages : List Message) (i : Nat) : Prop :=
  ∃ msg, messages[i]? = some msg ∧ msg.role = .user

theorem mem_groupLoop_iff {messages rest : List Message} {i : Nat} (hat : At messages i rest)
    (start j : Nat) :
    j ∈ (groupLoop rest i start).tail.map Range.start ↔ i ≤ j ∧ LeadsGroup messages j := by
  induction rest generalizing i start with
  | nil =>
    have hle := List.drop_eq_nil_iff.mp hat.drop
    simp only [groupLoop, List.tail_cons, List.map_nil, List.not_mem_nil, false_iff]
    rintro ⟨hij, msg, hget, -⟩
    have hlt := (List.getElem?_eq_some_iff.mp hget).1
    omega
  | cons msg rest ih =>
    unfold groupLoop
    split
    · rename_i huser
      obtain ⟨stop, tail, hloop⟩ := groupLoop_head rest (i + 1) i
      have hrest := ih hat.step i
      rw [hloop, List.tail_cons] at hrest
      rw [hloop, List.tail_cons, List.map_cons, List.mem_cons, hrest]
      constructor
      · rintro (rfl | ⟨hij, hlead⟩)
        · exact ⟨Nat.le_refl _, msg, hat.get, huser⟩
        · exact ⟨by omega, hlead⟩
      · rintro ⟨hij, hlead⟩
        rcases Nat.eq_or_lt_of_le hij with rfl | hlt
        · exact Or.inl rfl
        · exact Or.inr ⟨hlt, hlead⟩
    · rename_i huser
      rw [ih hat.step start]
      constructor
      · rintro ⟨hij, hlead⟩
        exact ⟨by omega, hlead⟩
      · rintro ⟨hij, hlead⟩
        rcases Nat.eq_or_lt_of_le hij with rfl | hlt
        · -- the message at the cursor does not lead a group
          obtain ⟨msg', hget, hrole⟩ := hlead
          cases hat.get.symm.trans hget
          exact absurd hrole huser
        · exact ⟨hlt, hlead⟩

/-- The groups after the first start at the user messages after the first message. -/
theorem mem_turnStarts_iff (messages : List Message) (j : Nat) :
    j ∈ (groupBoundaries messages).tail.map Range.start ↔ 1 ≤ j ∧ LeadsGroup messages j := by
  cases messages with
  | nil => simp [groupBoundaries, LeadsGroup]
  | cons msg rest => exact mem_groupLoop_iff (At.start (msg :: rest)).step 0 j

/-- What one block counts. -/
def blockTokens (encodedLen : String → Nat) : ContentBlock → Nat
  | .text t => countText encodedLen t.text
  | .reasoning r => countText encodedLen r.text
  | _ => 0

/-- The tokens of the text and reasoning blocks of some messages. -/
def textTokens (encodedLen : String → Nat) (messages : List Message) : Nat :=
  ((messages.flatMap Message.content).map (blockTokens encodedLen)).sum

theorem textTokens_append (encodedLen : String → Nat) (a b : List Message) :
    textTokens encodedLen (a ++ b) = textTokens encodedLen a + textTokens encodedLen b := by
  simp [textTokens]

theorem addBlockTokens_eq (encodedLen : String → Nat) {total : Nat} (h : total ≤ maxU32)
    (block : ContentBlock) :
    addBlockTokens encodedLen total block =
      Saturating.add maxU32 total (blockTokens encodedLen block) := by
  cases block with
  | text | reasoning => rfl
  | _ => exact (Nat.min_eq_left h).symm

theorem foldl_addBlockTokens (encodedLen : String → Nat) (blocks : List ContentBlock)
    {total : Nat} (h : total ≤ maxU32) :
    blocks.foldl (addBlockTokens encodedLen) total =
      (blocks.map (blockTokens encodedLen)).foldl (Saturating.add maxU32) total := by
  induction blocks generalizing total with
  | nil => rfl
  | cons block blocks ih =>
    rw [List.foldl_cons, List.map_cons, List.foldl_cons, addBlockTokens_eq encodedLen h]
    exact ih (Saturating.add_le _ _ _)

theorem countMessagesTokens_eq (encodedLen : String → Nat) (messages : List Message) :
    countMessagesTokens encodedLen messages = min (textTokens encodedLen messages) maxU32 := by
  calc countMessagesTokens encodedLen messages
      = (messages.flatMap Message.content).foldl (addBlockTokens encodedLen) 0 :=
        List.foldl_flatMap.symm
    _ = ((messages.flatMap Message.content).map (blockTokens encodedLen)).foldl
          (Saturating.add maxU32) 0 := foldl_addBlockTokens encodedLen _ (Nat.zero_le _)
    _ = Saturating.add maxU32 0 (textTokens encodedLen messages) :=
        Saturating.foldl_add _ (Nat.zero_le _)
    _ = min (textTokens encodedLen messages) maxU32 := by
        rw [Saturating.add, Nat.zero_add]

/-! ## Dropping groups -/

/-- What a strategy did. -/
inductive Action
  | skipped
  | compressed
  | compressedButOverBudget
  | summaryFallback
  deriving DecidableEq, Repr

/-- The label of the metric. -/
def Action.label : Action → String
  | .skipped => "skipped"
  | .compressed => "compressed"
  | .compressedButOverBudget => "compressed_but_over_budget"
  | .summaryFallback => "summary_fallback"

structure CompressionResult where
  newMessages : List Message
  dropped : Nat
  action : Action

/-- The messages as they came. -/
def skip (messages : List Message) : CompressionResult where
  newMessages := messages
  dropped := 0
  action := .skipped

/-- The messages from an index on. -/
def cutAt (messages : List Message) (cutIdx : Nat) (action : Action) : CompressionResult where
  newMessages := messages.drop cutIdx
  dropped := cutIdx
  action := action

def dropOldTurns (messages : List Message) (keepLastN : Nat) : Option CompressionResult :=
  let groups := groupBoundaries messages
  if groups.length ≤ keepLastN then some (skip messages)
  else
    groups[groups.length - keepLastN]?.map fun group => cutAt messages group.start .compressed

/-- The loop over the token counts of the groups: the tokens left and the groups
dropped. It stops before it runs out of groups. -/
def dropLoop (targetTokens maxDrop : Nat) : List Nat → Nat → Nat → Nat × Nat
  | [], total, dropIdx => (total, dropIdx)
  | tokens :: rest, total, dropIdx =>
    if targetTokens < total ∧ dropIdx < maxDrop then
      dropLoop targetTokens maxDrop rest (total - tokens) (dropIdx + 1)
    else (total, dropIdx)

/-- The token counts of the groups. -/
def groupTokens (encodedLen : String → Nat) (messages : List Message) : List Nat :=
  (groupBoundaries messages).map fun group => countMessagesTokens encodedLen (group.slice messages)

def truncateToTokens (encodedLen : String → Nat) (messages : List Message)
    (targetTokens keepLastN : Nat) : Option CompressionResult :=
  let groups := groupBoundaries messages
  if groups.length ≤ keepLastN then some (skip messages)
  else
    let tokens := groupTokens encodedLen messages
    -- `sum` on `u32`s wraps in a release build
    let total := tokens.foldl Wire.addU32 0
    if total ≤ targetTokens then some (skip messages)
    else
      let maxDrop := groups.length - keepLastN
      let (left, dropIdx) := dropLoop targetTokens maxDrop tokens total 0
      let action := if targetTokens < left then .compressedButOverBudget else .compressed
      groups[dropIdx]?.map fun group => cutAt messages group.start action

/-! ## Summaries -/

/-- What the stream of a summarizer gives, each item with the time, in
milliseconds from the call on, at which it does. -/
inductive SummaryStream
  | ends (items : List (Nat × Except StreamError StreamEvent))
  | runsOn (items : Nat → Option (Except StreamError StreamEvent))

/-- When a call returns, in milliseconds, and what with. -/
inductive Completion
  | returns (atMs : Nat) (result : Except ProviderError SummaryStream)
  | never

/-- `tokio::time::timeout`; nothing once the time is over. -/
def withTimeout (timeoutMs : Nat) : Completion → Option (Except ProviderError SummaryStream)
  | .returns atMs result => if atMs ≤ timeoutMs then some result else none
  | .never => none

def pushDelta (acc : String) : Except StreamError StreamEvent → String
  | .ok (.textDelta _ text) => acc ++ text
  | _ => acc

/-- The texts of a stream, once it has ended. -/
def drainTextFromStream : SummaryStream → Option String
  | .ends items => some (items.foldl (fun acc item => pushDelta acc item.2) "")
  | .runsOn _ => none

def summaryPromptPrefix (maxTokens : Nat) : String :=
  "Summarize the prior conversation between user and assistant in <= " ++ toString maxTokens ++
    " tokens.\nPreserve key facts, decisions, and unresolved questions.\n" ++
    "Output plain text only, no greetings."

def summaryInjectionPrefix : String := "[Prior conversation summary]: "

def roleLabel : MessageRole → String
  | .user => "User"
  | .assistant => "Assistant"
  | .tool => "Tool"
  | .system => "System"

/-- The texts of a message, and a line for every other block. -/
structure Stanza where
  textParts : List String := []
  otherLines : List String := []

def Stanza.push (c : Codec) (s : Stanza) : ContentBlock → Stanza
  | .text t => { s with textParts := s.textParts ++ [t.text] }
  | .reasoning r => { s with textParts := s.textParts ++ [r.text] }
  | .toolCall call =>
    { s with otherLines := s.otherLines ++
        [s!"[tool_call: {call.name}({call.arguments.toText c})]"] }
  | .toolResult r =>
    let body := match r.content with
      | .str text => text
      | value => c.renderJson value
    { s with otherLines := s.otherLines ++ [s!"[tool_result: {body}]"] }
  | .image _ => { s with otherLines := s.otherLines ++ ["[image omitted]"] }
  | .audio _ => { s with otherLines := s.otherLines ++ ["[audio omitted]"] }
  | .file _ => { s with otherLines := s.otherLines ++ ["[file omitted]"] }
  | .redactedReasoning _ =>
    { s with otherLines := s.otherLines ++ ["[redacted_reasoning omitted]"] }
  | .unsupported _ => { s with otherLines := s.otherLines ++ ["[unsupported omitted]"] }

def serializeMessage (c : Codec) (msg : Message) : String :=
  let stanza := msg.content.foldl (Stanza.push c) {}
  roleLabel msg.role ++ ": " ++ "\n".intercalate stanza.textParts ++ "\n" ++
    String.join (stanza.otherLines.map fun line => line ++ "\n") ++ "\n"

def serializeGroupsToText (c : Codec) (messages : List Message) : String :=
  messages.foldl (fun out msg => out ++ serializeMessage c msg) ""

def buildSummaryRequest (requestId : String) (target : BackendTarget) (serialized : String)
    (maxTokens : Nat) : CanonicalRequest where
  id := requestId
  frontend := { kind := .anthropicMessages, requestedModel := target.model }
  model := target.model
  messages :=
    [.user [.ofText (summaryPromptPrefix maxTokens ++ "\n\nConversation:\n" ++ serialized)]]
  generation := { maxTokens := some maxTokens }

/-- Where a summary is asked for, and with what limits. -/
structure Summarizer where
  complete : CanonicalRequest → BackendTarget → Completion
  target : BackendTarget
  maxSummaryTokens : Nat
  timeoutMs : Nat
  /-- The fresh id of the request. -/
  requestId : String
  codec : Codec

namespace Summarizer

/-- The answer to the request for a summary of some messages. -/
def ask (s : Summarizer) (old : List Message) : Completion :=
  s.complete (buildSummaryRequest s.requestId s.target (serializeGroupsToText s.codec old)
    s.maxSummaryTokens) s.target

end Summarizer

/-- The summary in place of what it is of. -/
def summaryMessage (text : String) : Message := .user [.ofText (summaryInjectionPrefix ++ text)]

def summarizeOldTurns (messages : List Message) (keepLastN : Nat) (s : Summarizer) :
    Option CompressionResult :=
  let groups := groupBoundaries messages
  if groups.length ≤ Wire.addUsize keepLastN 1 then some (skip messages)
  else if groups.length < keepLastN then
    -- only where the addition has wrapped: the index below is then out of range
    none
  else do
    let kept ← groups[groups.length - keepLastN]?
    let fallback := cutAt messages kept.start .summaryFallback
    match withTimeout s.timeoutMs (s.ask (messages.take kept.start)) with
    | some (.ok stream) =>
      let summaryText ← drainTextFromStream stream
      if summaryText = "" then some fallback
      else
        some { newMessages := summaryMessage summaryText :: messages.drop kept.start
               dropped := kept.start
               action := .compressed }
    | _ => some fallback

/-! ## Strategies -/

/-- The strategies of the configuration. -/
inductive Strategy
  | dropOldTurns (keepLastN : Nat)
  | truncateToTokens (targetTokens keepLastN : Nat)
  | summarizeOldTurns (keepLastN : Nat) (upstream model : String)
      (maxSummaryTokens timeoutMs : Nat)

inductive CompiledStrategy
  | dropOldTurns (keepLastN : Nat)
  | truncateToTokens (targetTokens keepLastN : Nat)
  | summarizeOldTurns (keepLastN : Nat) (summarizer : Summarizer)

def CompiledStrategy.keepLastN : CompiledStrategy → Nat
  | .dropOldTurns n => n
  | .truncateToTokens _ n => n
  | .summarizeOldTurns n _ => n

/-- The live providers, and what a summary request needs besides. -/
structure Dependencies where
  providers : OrdMap (CanonicalRequest → BackendTarget → Completion)
  requestId : String
  codec : Codec

def checkKeepLastN (pluginName : String) (keepLastN : Nat) : Except PluginConfigError Unit :=
  if keepLastN = 0 then
    .error (.invalidValue pluginName "keep_last_n" "must be greater than 0")
  else .ok ()

theorem checkKeepLastN_eq_ok {pluginName : String} {keepLastN : Nat} {u : Unit} :
    checkKeepLastN pluginName keepLastN = .ok u ↔ 1 ≤ keepLastN := by
  unfold checkKeepLastN
  split
  · simp_all
  · simp
    omega

def compileStrategy (deps : Dependencies) (pluginName : String) :
    Strategy → Except PluginConfigError CompiledStrategy
  | .dropOldTurns keepLastN => do
    checkKeepLastN pluginName keepLastN
    return .dropOldTurns keepLastN
  | .truncateToTokens targetTokens keepLastN => do
    checkKeepLastN pluginName keepLastN
    return .truncateToTokens targetTokens keepLastN
  | .summarizeOldTurns keepLastN upstream model maxSummaryTokens timeoutMs => do
    checkKeepLastN pluginName keepLastN
    match deps.providers.get? upstream with
    | none =>
      .error (.invalidValue pluginName "summarizer.upstream" s!"unknown upstream: {upstream}")
    | some complete =>
      let policy := { defaultReasoningEffort := none, defaultAnthropicBeta := none
                      reasoningMapping := [] }
      return .summarizeOldTurns keepLastN
        { complete := complete
          target := { provider := upstream, model := model, policy := policy }
          maxSummaryTokens := maxSummaryTokens
          timeoutMs := timeoutMs
          requestId := deps.requestId
          codec := deps.codec }

/-- Every strategy that compiles keeps a group. -/
theorem keepLastN_pos {deps : Dependencies} {pluginName : String} {strategy : Strategy}
    {compiled : CompiledStrategy} (h : compileStrategy deps pluginName strategy = .ok compiled) :
    1 ≤ compiled.keepLastN := by
  cases strategy with
  | dropOldTurns n | truncateToTokens _ n =>
    obtain ⟨u, hcheck, hok⟩ := Checks.do_eq_ok.mp h
    cases hok
    exact checkKeepLastN_eq_ok.mp hcheck
  | summarizeOldTurns n upstream model maxSummaryTokens timeoutMs =>
    obtain ⟨u, hcheck, hok⟩ := Checks.do_eq_ok.mp h
    split at hok
    · cases hok
    · cases hok
      exact checkKeepLastN_eq_ok.mp hcheck

def CompiledStrategy.apply (encodedLen : String → Nat) (messages : List Message) :
    CompiledStrategy → Option CompressionResult
  | .dropOldTurns keepLastN => PromptCompressor.dropOldTurns messages keepLastN
  | .truncateToTokens targetTokens keepLastN =>
    PromptCompressor.truncateToTokens encodedLen messages targetTokens keepLastN
  | .summarizeOldTurns keepLastN summarizer =>
    PromptCompressor.summarizeOldTurns messages keepLastN summarizer

def onDecodedRequest (encodedLen : String → Nat) (strategy : CompiledStrategy)
    (req : CanonicalRequest) : Option CanonicalRequest :=
  (strategy.apply encodedLen req.messages).map fun result =>
    if result.action = .skipped then req else { req with messages := result.newMessages }

end AgentShim.PromptCompressor
