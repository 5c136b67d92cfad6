import AgentShim.Frontends.ResponsesDecode
import AgentShim.Providers.ChatEncode
import Mathlib.Data.List.Chain
import Mathlib.Data.List.Perm.Basic

/-
  Replies next to their calls

  A Chat upstream wants every assistant message with tool calls directly
  followed by one tool message per call. This is what the encoder makes of a
  conversation in which every turn's calls are answered right after the turn.

  A turn may be several assistant messages: the Responses decoder makes one of
  each call, the other two decoders one of all calls. Its answers may be tool
  messages or user messages with text beside the results.

  What is proved:
    1. `replies_answers_iff` — the replies sent after a turn are all its answers
       iff only the last answering message sends more than results.
    2. `replies_adjacent_iff` — every message with calls is followed by its
       replies iff a turn's calls are all in its last message, and only the last
       message that answers it sends more than its results.
    3. `parallel_calls_not_adjacent` — two parallel calls of a Responses client.
-/

namespace AgentShim.ChatEncode

open AgentShim.OpenAiResponses

/-! ## What the upstream wants -/

/-- The replies at the head of a list of messages. -/
def replies (outs : List MsgOut) : List (Option String) :=
  (outs.takeWhile fun out => out.role == "tool").map (·.toolCallId)

/-- The calls of an assistant message are the replies after it. -/
def Answered (out : MsgOut) (after : List MsgOut) : Prop :=
  out.role = "assistant" → ∀ calls, out.toolCalls = some calls →
    (replies after).Perm (calls.map fun call => some call.id)

/-- Every assistant message with calls is followed by one reply per call, and
then by none. -/
def RepliesAdjacent (outs : List MsgOut) : Prop :=
  ∀ before out after, outs = before ++ out :: after → Answered out after

theorem repliesAdjacent_nil : RepliesAdjacent [] := by
  intro before out after h
  simp at h

theorem repliesAdjacent_cons {out : MsgOut} {outs : List MsgOut} :
    RepliesAdjacent (out :: outs) ↔ Answered out outs ∧ RepliesAdjacent outs := by
  constructor
  · intro h
    refine ⟨h [] out outs rfl, fun before out' after heq => ?_⟩
    exact h (out :: before) out' after (by rw [heq]; rfl)
  · rintro ⟨hout, h⟩ before out' after heq
    cases before with
    | nil =>
      obtain ⟨rfl, rfl⟩ := List.cons.inj heq
      exact hout
    | cons first before =>
      exact h before out' after (List.cons.inj heq).2

/-- Messages without calls in front change nothing. -/
theorem repliesAdjacent_append {outs outs' : List MsgOut} (h : ∀ out ∈ outs, out.toolCalls = none) :
    RepliesAdjacent (outs ++ outs') ↔ RepliesAdjacent outs' := by
  induction outs with
  | nil => rfl
  | cons out outs ih =>
    rw [List.cons_append, repliesAdjacent_cons, ih fun o ho => h o (List.mem_cons_of_mem _ ho)]
    refine and_iff_right fun _ calls hcalls => ?_
    rw [h out List.mem_cons_self] at hcalls
    cases hcalls

/-! ## Conversations -/

def callIds (messages : List Message) : List String :=
  messages.flatMap fun msg => msg.toolCalls.map (·.id)

def resultIds (messages : List Message) : List String :=
  messages.flatMap fun msg => msg.toolResults.map (·.toolCallId)

/-- A conversation whose turns are answered: a turn is a run of assistant
messages, and the messages after a turn with calls hold one result per call. -/
inductive Conversation : List Message → Prop
  | nil : Conversation []
  | plain {msg : Message} {rest : List Message} (role : msg.role ≠ .tool)
      (results : msg.toolResults = []) (calls : msg.toolCalls = []) (tail : Conversation rest) :
      Conversation (msg :: rest)
  | turn {run answers rest : List Message}
      (assistant : ∀ msg ∈ run, msg.role = .assistant ∧ msg.toolResults = [])
      (calls : callIds run ≠ [])
      (results : ∀ msg ∈ answers, msg.toolCalls = [] ∧ msg.toolResults ≠ [])
      (answered : (resultIds answers).Perm (callIds run)) (tail : Conversation rest) :
      Conversation (run ++ (answers ++ rest))

/-- The next message after one with calls answers it, and the next after one
with results has none or finds nothing else sent between. -/
structure Follows (c : Codec) (msg next : Message) : Prop where
  calls : msg.toolCalls ≠ [] → next.toolResults ≠ []
  results : msg.toolResults ≠ [] → next.toolResults ≠ [] → siblingOuts c msg = []

/-- A list that does not start with a reply. -/
def NoReplyFirst (messages : List Message) : Prop :=
  ∀ msg ∈ messages.head?, msg.role ≠ .tool ∧ msg.toolResults = []

theorem callIds_cons (msg : Message) (rest : List Message) :
    callIds (msg :: rest) = msg.toolCalls.map (·.id) ++ callIds rest :=
  List.flatMap_cons

theorem resultIds_cons (msg : Message) (rest : List Message) :
    resultIds (msg :: rest) = msg.toolResults.map (·.toolCallId) ++ resultIds rest :=
  List.flatMap_cons

theorem Conversation.noReplyFirst {messages : List Message} (h : Conversation messages) :
    NoReplyFirst messages := by
  cases h with
  | nil =>
    intro msg hmsg
    cases hmsg
  | plain role results calls tail =>
    intro msg hmsg
    cases hmsg
    exact ⟨role, results⟩
  | @turn run answers rest assistant calls results answered tail =>
    intro msg hmsg
    cases run with
    | nil => exact absurd rfl calls
    | cons first run =>
      cases hmsg
      obtain ⟨hrole, hresults⟩ := assistant msg List.mem_cons_self
      exact ⟨by rw [hrole]; decide, hresults⟩

/-! ## What is sent of one -/

variable (c : Codec)

/-- The outbound messages of a conversation. -/
def outs (messages : List Message) : List MsgOut := messages.flatMap (messageOuts c)

theorem outs_cons (msg : Message) (rest : List Message) :
    outs c (msg :: rest) = messageOuts c msg ++ outs c rest :=
  List.flatMap_cons

theorem outs_append (a b : List Message) : outs c (a ++ b) = outs c a ++ outs c b :=
  List.flatMap_append

variable {c}

/-- A message that is not a reply ends the replies. -/
theorem replies_cons_of_ne {out : MsgOut} {rest : List MsgOut} (h : out.role ≠ "tool") :
    replies (out :: rest) = [] := by
  rw [replies, List.takeWhile_cons_of_neg (by simpa using h), List.map_nil]

theorem replies_outs {messages : List Message} (h : NoReplyFirst messages) :
    replies (outs c messages) = [] := by
  cases messages with
  | nil => rfl
  | cons msg rest =>
    obtain ⟨hrole, hresults⟩ := h msg rfl
    rw [outs_cons]
    by_cases hcalls : msg.toolCalls = []
    · rw [messageOuts_plain hresults hcalls]
      exact replies_cons_of_ne (roleOut_ne_tool hrole)
    · rw [messageOuts_of_calls hresults hcalls]
      exact replies_cons_of_ne (roleOut_ne_tool hrole)

/-- The replies of a message with results go on into the next message unless
something stands beside the results. -/
theorem replies_outs_results {msg : Message} {rest : List Message} (h : msg.toolResults ≠ []) :
    replies (outs c (msg :: rest)) = msg.toolResults.map (fun tr => some tr.toolCallId) ++
      if siblingOuts c msg = [] then replies (outs c rest) else [] := by
  have htools : ∀ out ∈ msg.toolResults.map (toolOut c msg), (out.role == "tool") = true := by
    intro out hout
    obtain ⟨tr, -, rfl⟩ := List.mem_map.mp hout
    rfl
  rw [outs_cons, messageOuts_of_results h, List.append_assoc, replies,
    List.takeWhile_append_of_pos htools, List.map_append, List.map_map]
  congr 1
  cases hsiblings : siblingOuts c msg with
  | nil => rw [if_pos rfl, List.nil_append, replies]
  | cons out more =>
    have hout := (siblingOuts_spec (hsiblings ▸ List.mem_cons_self)).1
    rw [if_neg (List.cons_ne_nil _ _)]
    exact replies_cons_of_ne hout

/-- The messages that answer a turn send no calls. -/
theorem toolCalls_outs {answers : List Message} (h : ∀ msg ∈ answers, msg.toolResults ≠ []) :
    ∀ out ∈ outs c answers, out.toolCalls = none := by
  intro out hout
  obtain ⟨msg, hmsg, hout⟩ := List.mem_flatMap.mp hout
  rw [messageOuts_of_results (h msg hmsg)] at hout
  rcases List.mem_append.mp hout with hout | hout
  · obtain ⟨tr, -, rfl⟩ := List.mem_map.mp hout
    rfl
  · exact (siblingOuts_spec hout).2

/-- The replies sent first are all the answers iff only the last answering
message sends more than results. -/
theorem replies_answers_iff {answers rest : List Message}
    (h : ∀ msg ∈ answers, msg.toolCalls = [] ∧ msg.toolResults ≠ []) (hrest : NoReplyFirst rest) :
    (replies (outs c (answers ++ rest))).Perm ((resultIds answers).map some) ↔
      answers.IsChain (Follows c) := by
  induction answers with
  | nil =>
    rw [List.nil_append, replies_outs hrest]
    simp [resultIds]
  | cons msg answers ih =>
    obtain ⟨hcalls, hresults⟩ := h msg List.mem_cons_self
    have hlater := fun m hm => h m (List.mem_cons_of_mem _ hm)
    rw [List.cons_append, replies_outs_results hresults, resultIds_cons, List.map_append,
      List.map_map, List.isChain_cons]
    refine (List.perm_append_left_iff _).trans ?_
    by_cases hsiblings : siblingOuts c msg = []
    · rw [if_pos hsiblings, ih hlater]
      refine (and_iff_right fun next _ => ?_).symm
      exact ⟨fun hne => absurd hcalls hne, fun _ _ => hsiblings⟩
    · rw [if_neg hsiblings, List.nil_perm, List.map_eq_nil_iff]
      cases answers with
      | nil => simp [resultIds]
      | cons next answers =>
        -- the next message has results, which do not follow
        have hnext := (hlater next List.mem_cons_self).2
        refine iff_of_false ?_ fun hchain => hsiblings ((hchain.1 next rfl).results hresults hnext)
        rw [resultIds_cons]
        exact List.append_ne_nil_of_left_ne_nil (by simpa using hnext) _

theorem chain_answers_iff {answers rest : List Message}
    (h : ∀ msg ∈ answers, msg.toolCalls = [] ∧ msg.toolResults ≠ []) (hrest : NoReplyFirst rest) :
    (answers ++ rest).IsChain (Follows c) ↔
      answers.IsChain (Follows c) ∧ rest.IsChain (Follows c) := by
  rw [List.isChain_append]
  refine ⟨fun hchain => ⟨hchain.1, hchain.2.1⟩, fun hchain => ⟨hchain.1, hchain.2, ?_⟩⟩
  intro msg hmsg next hnext
  have hcalls := (h msg (List.mem_of_getLast? hmsg)).1
  have hnone := (hrest next hnext).2
  exact ⟨fun hne => absurd hcalls hne, fun _ hne => absurd hnone hne⟩

theorem answered_callsOut_iff {msg : Message} (hrole : msg.role = .assistant)
    (after : List MsgOut) : Answered (callsOut c msg) after ↔
      (replies after).Perm ((msg.toolCalls.map (·.id)).map some) := by
  have hout : roleOut msg = "assistant" := by rw [roleOut, hrole]
  constructor
  · intro h
    simpa [toolCallOut, Function.comp_def] using h hout _ rfl
  · intro h _ callList hlist
    cases hlist
    simpa [toolCallOut, Function.comp_def] using h

/-- The last message of a turn: all calls are in it. -/
theorem turn_last_iff {msg : Message} {answers rest : List Message}
    (hrole : msg.role = .assistant) (hresults : msg.toolResults = []) (hcalls : msg.toolCalls ≠ [])
    (results : ∀ msg ∈ answers, msg.toolCalls = [] ∧ msg.toolResults ≠ [])
    (answered : (resultIds answers).Perm (msg.toolCalls.map (·.id))) (hrest : NoReplyFirst rest)
    (ih : RepliesAdjacent (outs c rest) ↔ rest.IsChain (Follows c)) :
    RepliesAdjacent (callsOut c msg :: outs c (answers ++ rest)) ↔
      (msg :: (answers ++ rest)).IsChain (Follows c) := by
  have hreplies : Answered (callsOut c msg) (outs c (answers ++ rest)) ↔
      answers.IsChain (Follows c) := by
    rw [answered_callsOut_iff hrole, ← replies_answers_iff results hrest]
    have hperm := answered.map some
    exact ⟨fun h => h.trans hperm.symm, fun h => h.trans hperm⟩
  rw [repliesAdjacent_cons, hreplies, outs_append, List.isChain_cons,
    repliesAdjacent_append (toolCalls_outs fun m hm => (results m hm).2), ih,
    chain_answers_iff results hrest]
  refine (and_iff_right fun next hnext => ?_).symm
  refine ⟨fun _ => ?_, fun hne => absurd hresults hne⟩
  cases answers with
  | nil =>
    rw [resultIds, List.flatMap_nil, List.nil_perm, List.map_eq_nil_iff] at answered
    exact absurd answered hcalls
  | cons first answers =>
    cases hnext
    exact (results next List.mem_cons_self).2

/-- One turn with its answers, the run taken message by message: a message
without calls changes nothing, one with calls must be the last. -/
theorem turn_iff {run answers rest : List Message}
    (assistant : ∀ msg ∈ run, msg.role = .assistant ∧ msg.toolResults = [])
    (calls : callIds run ≠ [])
    (results : ∀ msg ∈ answers, msg.toolCalls = [] ∧ msg.toolResults ≠ [])
    (answered : (resultIds answers).Perm (callIds run)) (hrest : NoReplyFirst rest)
    (ih : RepliesAdjacent (outs c rest) ↔ rest.IsChain (Follows c)) :
    RepliesAdjacent (outs c (run ++ (answers ++ rest))) ↔
      (run ++ (answers ++ rest)).IsChain (Follows c) := by
  induction run with
  | nil => exact absurd rfl calls
  | cons msg run ihrun =>
    obtain ⟨hrole, hresults⟩ := assistant msg List.mem_cons_self
    have hlater := fun m hm => assistant m (List.mem_cons_of_mem _ hm)
    rw [List.cons_append, outs_cons]
    by_cases hcalls : msg.toolCalls = []
    · -- a message without calls
      rw [callIds_cons, hcalls, List.map_nil, List.nil_append] at calls answered
      rw [messageOuts_plain hresults hcalls, repliesAdjacent_append (by simp [plainOut]),
        ihrun hlater calls answered, List.isChain_cons]
      refine (and_iff_right fun next _ => ?_).symm
      exact ⟨fun hne => absurd hcalls hne, fun hne => absurd hresults hne⟩
    · rw [messageOuts_of_calls hresults hcalls, List.singleton_append]
      cases run with
      | nil =>
        rw [callIds_cons, callIds, List.flatMap_nil, List.append_nil] at answered
        rw [List.nil_append]
        exact turn_last_iff hrole hresults hcalls results answered hrest ih
      | cons next run =>
        -- calls before the end of the turn: the turn goes on where replies were due
        obtain ⟨hnextRole, hnextResults⟩ := hlater next List.mem_cons_self
        have hnone : NoReplyFirst (next :: run ++ (answers ++ rest)) := by
          intro m hm
          cases hm
          exact ⟨by rw [hnextRole]; decide, hnextResults⟩
        rw [repliesAdjacent_cons, answered_callsOut_iff hrole, replies_outs hnone,
          List.isChain_cons]
        refine iff_of_false (fun h => ?_) fun h => (h.1 next rfl).calls hcalls hnextResults
        have hperm := h.1
        rw [List.nil_perm, List.map_eq_nil_iff, List.map_eq_nil_iff] at hperm
        exact hcalls hperm

theorem outs_adjacent_iff {messages : List Message} (h : Conversation messages) :
    RepliesAdjacent (outs c messages) ↔ messages.IsChain (Follows c) := by
  induction h with
  | nil => exact iff_of_true repliesAdjacent_nil List.isChain_nil
  | @plain msg rest role results calls tail ih =>
    rw [outs_cons, messageOuts_plain results calls, repliesAdjacent_append (by simp [plainOut]), ih,
      List.isChain_cons]
    refine (and_iff_right fun next _ => ?_).symm
    exact ⟨fun hne => absurd calls hne, fun hne => absurd results hne⟩
  | @turn run answers rest assistant calls results answered tail ih =>
    exact turn_iff assistant calls results answered tail.noReplyFirst ih

/-- Of a conversation whose turns are answered, every message with calls is sent
next to its replies iff each message follows the one before it. -/
theorem replies_adjacent_iff {req : CanonicalRequest} (h : Conversation req.messages)
    (target : BackendTarget) (acceptsXhigh : Bool) :
    RepliesAdjacent (build c req target acceptsXhigh).messages ↔
      req.messages.IsChain (Follows c) := by
  have hsystem : ∀ out ∈ req.system.map systemOut, out.toolCalls = none := by
    intro out hout
    obtain ⟨sys, -, rfl⟩ := List.mem_map.mp hout
    rfl
  rw [← outs_adjacent_iff h]
  exact repliesAdjacent_append hsystem

/-! ## Parallel calls -/

def lookupCall (id : String) : ContentBlock :=
  .toolCall { id := id, name := "search", arguments := .complete (.obj []) }

def lookupResult (id : String) : ContentBlock :=
  .toolResult { toolCallId := id, content := .str "sunny" }

def conversation (messages : List Message) : CanonicalRequest where
  id := "req_1"
  frontend := { kind := .openAiResponses, requestedModel := "gpt-4o" }
  model := "gpt-4o"
  messages := messages

def gpt4o : BackendTarget where
  provider := "openai"
  model := "gpt-4o"
  policy := { defaultReasoningEffort := none, defaultAnthropicBeta := none, reasoningMapping := [] }

def callsMessage (ids : List String) : Message := .assistant (ids.map lookupCall)

def resultMessage (id : String) : Message := { role := .tool, content := [lookupResult id] }

/-- Two calls in one message, as the Anthropic decoder makes them. -/
def oneMessage : List Message :=
  [callsMessage ["call_1", "call_2"]] ++
    ([.user [lookupResult "call_1", lookupResult "call_2", .ofText "go on"]] ++ [])

/-- The same calls one by one, as the Responses decoder makes them. -/
def oneByOne : List Message :=
  [callsMessage ["call_1"], callsMessage ["call_2"]] ++
    ([resultMessage "call_1", resultMessage "call_2"] ++ [])

/-- A Responses client's two parallel calls and their outputs. -/
def parallelCalls : List InputItem :=
  [.functionCall none "call_1" "search" (.str "{}"),
    .functionCall none "call_2" "search" (.str "{}"),
    .functionCallOutput "call_1" (.str "sunny"), .functionCallOutput "call_2" (.str "sunny")]

theorem oneMessage_conversation : Conversation oneMessage := by
  refine .turn ?_ ?_ ?_ (List.Perm.refl _) .nil
  · simp [callsMessage, Message.assistant, Message.toolResults, lookupCall,
      ContentBlock.toolResult?]
  · simp [callIds, callsMessage, Message.assistant, Message.toolCalls, lookupCall,
      ContentBlock.toolCall?]
  · simp [Message.user, Message.toolCalls, Message.toolResults, lookupResult,
      ContentBlock.ofText, ContentBlock.toolCall?, ContentBlock.toolResult?]

theorem oneByOne_conversation : Conversation oneByOne := by
  refine .turn ?_ ?_ ?_ (List.Perm.refl _) .nil
  · simp [callsMessage, Message.assistant, Message.toolResults, lookupCall,
      ContentBlock.toolResult?]
  · simp [callIds, callsMessage, Message.assistant, Message.toolCalls, lookupCall,
      ContentBlock.toolCall?]
  · simp [resultMessage, Message.toolCalls, Message.toolResults, lookupResult,
      ContentBlock.toolCall?, ContentBlock.toolResult?]

theorem oneMessage_adjacent :
    RepliesAdjacent (build objectCodec (conversation oneMessage) gpt4o false).messages := by
  refine (replies_adjacent_iff oneMessage_conversation gpt4o false).mpr ?_
  refine List.isChain_pair.mpr ⟨fun _ => ?_, fun h => absurd rfl h⟩
  simp [Message.user, Message.toolResults, lookupResult, ContentBlock.ofText,
    ContentBlock.toolResult?]

/-- The first of two calls of a Responses client is followed by the second, not
by its reply. -/
theorem parallel_calls_not_adjacent :
    decodeItems objectCodec parallelCalls = .ok ([], oneByOne) ∧ Conversation oneByOne ∧
      ¬ RepliesAdjacent (build objectCodec (conversation oneByOne) gpt4o false).messages := by
  refine ⟨rfl, oneByOne_conversation, fun h => ?_⟩
  have hfirst := h [] _ _ rfl rfl _ rfl
  have hlength := hfirst.length_eq
  exact absurd hlength (by decide)

end AgentShim.ChatEncode
