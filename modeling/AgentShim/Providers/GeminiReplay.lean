import AgentShim.Core.Content
import AgentShim.Providers.GeminiUnary
import AgentShim.Stream.Serial

/-
  A Gemini response replayed as a stream

  The unary path of the Gemini provider makes a canonical response of the body and puts
  out the events it would have been streamed as. A block that no event stands for is
  left out and keeps its place, so the indices of the others may have gaps.

  Correspondence (Rust ↔ Lean):
    `unary_bytes_to_canonical_stream`  ↔ `unaryStream`; `decoded` is what serde reads of
                                         the body
    `canonical_response_to_events`     ↔ `canonicalResponseToEvents`, `replayBlock`; the
                                         fresh `ResponseId` and `now_unix` are parameters

  What is proved:
    1. `canonicalResponseToEvents_eq` — the events are those of a whole response.
    2. `replay_lifecycle_iff` — they keep the contract iff the blocks that are put out
       are at places that a word tells apart.
-/

namespace AgentShim

namespace Gemini

open SerialResponse (blockEvents)

variable (c : Codec) (host : Host)

def replayBlock (index : Nat) : ContentBlock → List StreamEvent
  | .text b =>
    [.contentBlockStart index .text] ++ (if b.text = "" then [] else [.textDelta index b.text]) ++
      [.contentBlockStop index]
  | .reasoning b =>
    [.contentBlockStart index .reasoning] ++
      (if b.text = "" then [] else [.reasoningDelta index b.text]) ++ [.contentBlockStop index]
  | .toolCall b =>
    [.contentBlockStart index .toolCall, .toolCallStart index b.id b.name,
      .toolCallArgumentsDelta index (b.arguments.toText c), .toolCallStop index,
      .contentBlockStop index]
  | .image _ | .audio _ | .file _ | .toolResult _ | .redactedReasoning _ | .unsupported _ => []

def canonicalResponseToEvents (freshId : String) (resp : CanonicalResponse) : List StreamEvent :=
  [.responseStart freshId resp.model host.nowUnix, .messageStart .assistant] ++
    (resp.content.zipIdx.flatMap fun b => replayBlock c (Wire.asU32 b.2) b.1) ++
    [.messageStop resp.stopReason resp.stopSequence, .responseStop resp.usage]

/-- The items of the unary path, or what is wrong with the body. -/
def unaryStream (freshId model : String) (metadata : CandidateMetadata)
    (decoded : Except String GenerateContentResponse) : List (Except StreamError StreamEvent) :=
  match decoded with
  | .ok resp =>
    (canonicalResponseToEvents c host freshId (parseUnary c host model metadata resp)).map .ok
  | .error e => [.error (.decode ("failed to decode Gemini unary response: " ++ e))]

/-! ## The whole response -/

def replayed : ContentBlock → Option SerialBlock
  | .text b => some (.text (SerialBlock.inOnePiece b.text))
  | .reasoning b => some (.reasoning (SerialBlock.inOnePiece b.text))
  | .toolCall b => some (.toolCall b.id b.name [b.arguments.toText c])
  | .image _ | .audio _ | .file _ | .toolResult _ | .redactedReasoning _ | .unsupported _ => none

/-- The blocks that are put out, with the places of their content. -/
def replayedFrom (start : Nat) (content : List ContentBlock) : List (Nat × SerialBlock) :=
  (content.zipIdx start).filterMap fun b => (replayed c b.1).map fun w => (b.2, w)

/-- The places counted in `u32`. -/
def wrapped (blocks : List (Nat × SerialBlock)) : List (Nat × SerialBlock) :=
  blocks.map fun b => (Wire.asU32 b.1, b.2)

def wholeReplay (freshId : String) (resp : CanonicalResponse) : SerialResponse where
  id := freshId
  model := resp.model
  created := host.nowUnix
  blocks := wrapped (replayedFrom c 0 resp.content)
  stopReason := resp.stopReason
  stopSequence := resp.stopSequence
  usage := resp.usage

variable {c host}

theorem replayBlock_eq (index : Nat) (b : ContentBlock) :
    replayBlock c index b = blockEvents ((replayed c b).map fun w => (index, w)).toList := by
  cases b with
  | text b => by_cases h : b.text = "" <;> simp [replayBlock, replayed, blockEvents,
      SerialBlock.events, SerialBlock.inside, SerialBlock.kind, SerialBlock.inOnePiece, h]
  | reasoning b => by_cases h : b.text = "" <;> simp [replayBlock, replayed, blockEvents,
      SerialBlock.events, SerialBlock.inside, SerialBlock.kind, SerialBlock.inOnePiece, h]
  | toolCall b => rfl
  | _ => rfl

theorem replayedFrom_cons (start : Nat) (b : ContentBlock) (content : List ContentBlock) :
    replayedFrom c start (b :: content) =
      ((replayed c b).map fun w => (start, w)).toList ++ replayedFrom c (start + 1) content := by
  rw [replayedFrom, List.zipIdx_cons]
  cases hb : replayed c b <;> simp [hb, replayedFrom]

theorem replayBlocks_eq (start : Nat) (content : List ContentBlock) :
    ((content.zipIdx start).flatMap fun b => replayBlock c (Wire.asU32 b.2) b.1) =
      blockEvents (wrapped (replayedFrom c start content)) := by
  induction content generalizing start with
  | nil => rfl
  | cons b content ih =>
    have hfirst : blockEvents ((replayed c b).map fun w => (Wire.asU32 start, w)).toList =
        blockEvents (wrapped ((replayed c b).map fun w => (start, w)).toList) := by
      cases replayed c b <;> rfl
    rw [List.zipIdx_cons, List.flatMap_cons, ih (start + 1), replayBlock_eq, hfirst,
      ← SerialResponse.blockEvents_append, replayedFrom_cons]
    simp only [wrapped, List.map_append]

theorem canonicalResponseToEvents_eq (freshId : String) (resp : CanonicalResponse) :
    canonicalResponseToEvents c host freshId resp = (wholeReplay c host freshId resp).events := by
  rw [canonicalResponseToEvents, replayBlocks_eq]
  rfl

theorem mem_replayedFrom {start : Nat} {content : List ContentBlock} {b : Nat × SerialBlock}
    (h : b ∈ replayedFrom c start content) : start ≤ b.1 ∧ b.1 < start + content.length := by
  obtain ⟨x, hx, hb⟩ := List.mem_filterMap.mp h
  obtain ⟨w, hw, he⟩ := Option.map_eq_some_iff.mp hb
  have hle := List.le_snd_of_mem_zipIdx hx
  have hlt := List.snd_lt_add_of_mem_zipIdx hx
  rw [← he]
  omega

theorem nodup_replayedFrom (start : Nat) (content : List ContentBlock) :
    ((replayedFrom c start content).map Prod.fst).Nodup := by
  induction content generalizing start with
  | nil => exact List.nodup_nil
  | cons b content ih =>
    rw [replayedFrom_cons]
    cases replayed c b with
    | none => exact ih (start + 1)
    | some w =>
      apply List.nodup_cons.mpr
      refine ⟨?_, ih (start + 1)⟩
      intro hmem
      obtain ⟨x, hx, he⟩ := List.mem_map.mp hmem
      have hplace : start + 1 ≤ x.1 := (mem_replayedFrom hx).1
      have hsame : x.1 = start := he
      omega

/-- The replay of a response keeps the contract, with the tool events of each block in
order, iff no two of the blocks it puts out are at places that agree in 32 bits; so it
does for every content that fits a word. -/
theorem replay_lifecycle_iff (c : Codec) (host : Host) (freshId model : String)
    (metadata : CandidateMetadata) (resp : GenerateContentResponse) :
    let canonical := parseUnary c host model metadata resp
    let events := canonicalResponseToEvents c host freshId canonical
    (LifecycleValid events ∧ ToolsNested events ↔
      ∀ a ∈ replayedFrom c 0 canonical.content, ∀ b ∈ replayedFrom c 0 canonical.content,
        Wire.asU32 a.1 = Wire.asU32 b.1 → a.1 = b.1) ∧
    (canonical.content.length ≤ 4294967296 → LifecycleValid events ∧ ToolsNested events) := by
  intro canonical events
  have hnodup := nodup_replayedFrom (c := c) 0 canonical.content
  have hiff : LifecycleValid events ∧ ToolsNested events ↔
      ∀ a ∈ replayedFrom c 0 canonical.content, ∀ b ∈ replayedFrom c 0 canonical.content,
        Wire.asU32 a.1 = Wire.asU32 b.1 → a.1 = b.1 := by
    have hplaces : (wholeReplay c host freshId canonical).blocks.map Prod.fst =
        ((replayedFrom c 0 canonical.content).map Prod.fst).map Wire.asU32 := by
      simp only [wholeReplay, wrapped, List.map_map]
      rfl
    show LifecycleValid (canonicalResponseToEvents c host freshId canonical) ∧
      ToolsNested (canonicalResponseToEvents c host freshId canonical) ↔ _
    rw [canonicalResponseToEvents_eq, SerialResponse.lifecycle_iff, hplaces,
      List.nodup_map_iff_inj_on hnodup]
    simp only [List.forall_mem_map]
  refine ⟨hiff, fun hlength => hiff.mpr fun a ha b hb he => ?_⟩
  have hplace := mem_replayedFrom ha
  have hplace' := mem_replayedFrom hb
  simp only [Wire.asU32] at he
  omega

end Gemini

end AgentShim
