import AgentShim.Providers.GeminiStream
import AgentShim.Providers.TextRuns

/-
  The Gemini unary parser

  A whole Gemini response becomes a whole canonical response. Text and thought
  parts are collected in runs, a function call ends a run and is content of its
  own, and what the wire says of the candidate besides goes to the extensions of
  the first block.

  Correspondence (Rust ↔ Lean):
    `candidate_to_blocks`, its locals         ↔ `candidateToBlocks`, `Collected`
    its loop body, `flush_{text,reasoning}`   ↔ `collectPart`, `flushText`,
                                                `flushReasoning`
    `attach_extensions`, `write_extension`    ↔ `attachExtensions`, `writeExtension`; the
                                                JSON of the ratings and the citations
                                                are a `CandidateMetadata`
    `parse_unary`                             ↔ `parseUnary`; the fresh `ResponseId` and
                                                the ids of calls are the host's
    `base64::STANDARD.decode`                 ↔ `Codec.decodeBase64`

  What is proved:
    1. `reading_candidateToBlocks` — the content reads as the draft of the parts.
    2. `reading_attachExtensions` — the extensions change nothing of it.
-/

namespace AgentShim

namespace Gemini

/-- What only the unary parser reads of a candidate: its safety ratings as JSON,
and its citations. -/
structure CandidateMetadata where
  safetyRatings : Json := .arr []
  citationMetadata : Option Json := none

/-- The locals of the loop. -/
structure Collected where
  blocks : List ContentBlock := []
  hasToolCall : Bool := false
  accText : Option String := none
  accReasoning : Option String := none
  minted : Nat := 0

variable (c : Codec) (host : Host)

def flushText (s : Collected) : Collected :=
  match s.accText with
  | some text => { s with blocks := s.blocks ++ [.text { text := text }], accText := none }
  | none => s

def flushReasoning (s : Collected) : Collected :=
  match s.accReasoning with
  | some text =>
    { s with blocks := s.blocks ++ [.reasoning { text := text }], accReasoning := none }
  | none => s

def flushRuns (s : Collected) : Collected := flushReasoning (flushText s)

/-- The id of a call, drawn from the id source where the wire has none. -/
def Collected.callId (s : Collected) (fc : FunctionCall) : String × Collected :=
  match fc.id with
  | some id => (id, s)
  | none => (host.toolCallId s.minted, { s with minted := s.minted + 1 })

def collectCall (s : Collected) (fc : FunctionCall) : Collected :=
  let s := { flushRuns s with hasToolCall := true }
  let (id, s) := s.callId host fc
  { s with
    blocks := s.blocks ++ [.toolCall { id := id, name := fc.name,
                                       arguments := .complete (fc.args.getD (.obj [])) }] }

/-- Text ends a run of thoughts, and a thought a run of text. -/
def collectText (s : Collected) (thought : Bool) (text : String) : Collected :=
  if thought then
    let s := flushText s
    { s with accReasoning := some (s.accReasoning.getD "" ++ text) }
  else
    let s := flushReasoning s
    { s with accText := some (s.accText.getD "" ++ text) }

/-- Inline bytes that are no base64 are dropped. -/
def collectInline (s : Collected) (inlined : InlineData) : Collected :=
  let s := flushRuns s
  match c.decodeBase64 inlined.data with
  | some data =>
    { s with blocks := s.blocks ++ [.image { source := .base64 inlined.mimeType data }] }
  | none => s

def collectFile (s : Collected) (file : FileData) : Collected :=
  let s := flushRuns s
  { s with blocks := s.blocks ++ [.image { source := .url file.fileUri }] }

def collectPart (s : Collected) (part : Part) : Collected :=
  match part.functionCall with
  | some fc => collectCall host s fc
  | none =>
    match part.text with
    | some text => collectText s (part.thought == some true) text
    | none =>
      match part.inlineData with
      | some inlined => collectInline c s inlined
      | none =>
        match part.fileData with
        | some file => collectFile s file
        | none => s

/-- The blocks of the parts, and whether one is a call. -/
def candidateToBlocks (parts : List Part) : List ContentBlock × Bool :=
  let s := flushRuns (parts.foldl (collectPart c host) {})
  (s.blocks, s.hasToolCall)

def writeExtension (block : ContentBlock) (key : String) (value : Json) : ContentBlock :=
  match block with
  | .text b => .text { b with extensions := b.extensions.insert key value }
  | .image b => .image { b with extensions := b.extensions.insert key value }
  | .audio b => .audio { b with extensions := b.extensions.insert key value }
  | .file b => .file { b with extensions := b.extensions.insert key value }
  | .toolCall b => .toolCall { b with extensions := b.extensions.insert key value }
  | .toolResult b => .toolResult { b with extensions := b.extensions.insert key value }
  | .reasoning b => .reasoning { b with extensions := b.extensions.insert key value }
  | .redactedReasoning b =>
    .redactedReasoning { b with extensions := b.extensions.insert key value }
  | .unsupported b => .unsupported b

/-- The metadata goes to the first block. -/
def attachExtensions (blocks : List ContentBlock) (ratings : List WireSafetyRating)
    (metadata : CandidateMetadata) : List ContentBlock :=
  match blocks with
  | [] => []
  | first :: rest =>
    let first := if ratings = [] then first
      else writeExtension first "gemini.safety_ratings" metadata.safetyRatings
    let first := match metadata.citationMetadata with
      | some citations => writeExtension first "gemini.citation_metadata" citations
      | none => first
    first :: rest

/-- The usage, with the ratings; ratings without usage make one. -/
def unaryUsage (usage : Option UsageMetadata) (ratings : List WireSafetyRating) : Option Usage :=
  let canonical := wireToCanonicalSafetyRatings ratings
  match usage.map usageMetadataToUsage with
  | some u => some (if canonical = [] then u else { u with safetyRatings := some canonical })
  | none => if canonical = [] then none else some { safetyRatings := some canonical }

def parseUnary (model : String) (metadata : CandidateMetadata) (resp : GenerateContentResponse) :
    CanonicalResponse :=
  let (blocks, hasToolCall, finishReason, ratings) := match resp.candidates.head? with
    | some candidate =>
      let (blocks, hasToolCall) := candidateToBlocks c host candidate.parts
      (blocks, hasToolCall, candidate.finishReason, candidate.safetyRatings)
    | none => ([], false, none, [])
  { id := host.responseId
    model := model
    content := attachExtensions blocks ratings metadata
    stopReason := mapFinishReason finishReason hasToolCall
    stopSequence := none
    usage := unaryUsage resp.usageMetadata ratings }

/-! ## The draft of a list of parts -/

/-- The draft of a list of parts, whether one was a call, and how many ids were drawn
for calls. -/
structure PartsDraft extends Draft where
  called : Bool := false
  minted : Nat := 0
  deriving DecidableEq, Repr

namespace PartsDraft

def endRun (d : PartsDraft) : PartsDraft := { d with toDraft := d.toDraft.endRun }

def say (d : PartsDraft) (kind : DeltaKind) (text : String) : PartsDraft :=
  { d with toDraft := d.toDraft.say kind text }

def call (d : PartsDraft) (fc : FunctionCall) : PartsDraft where
  toDraft := d.tell
    (.call (fc.id.getD (host.toolCallId d.minted)) fc.name (callArguments host fc))
  called := true
  minted := if fc.id.isSome then d.minted else d.minted + 1

def after (d : PartsDraft) (part : Part) : PartsDraft :=
  match part.functionCall, part.text with
  | some fc, _ => d.call host fc
  | none, some text => d.say part.kind text
  | none, none => d

/-- The text of the run, if it is of the kind. -/
def runOf (d : PartsDraft) (kind : DeltaKind) : Option String :=
  d.run.bind fun run => if run.1 = kind then some run.2 else none

end PartsDraft

def draft (parts : List Part) : PartsDraft := parts.foldl (PartsDraft.after host) {}

/-! ## The unary parser follows the draft -/

variable {c host} {d : PartsDraft} {s : Collected}

structure Drafts (host : Host) (d : PartsDraft) (s : Collected) : Prop where
  blocks : s.blocks.map (ContentBlock.reading host.render) = d.ended.map some
  text : s.accText = d.runOf .text
  reasoning : s.accReasoning = d.runOf .reasoning
  called : s.hasToolCall = d.called
  minted : s.minted = d.minted

theorem drafts_init (host : Host) : Drafts host {} {} := ⟨rfl, rfl, rfl, rfl, rfl⟩

theorem flushRuns_eq (s : Collected) :
    flushRuns s =
      { s with
        blocks := s.blocks ++ (s.accText.map fun text => .text { text := text }).toList ++
          (s.accReasoning.map fun text => .reasoning { text := text }).toList
        accText := none
        accReasoning := none } := by
  obtain ⟨blocks, hasToolCall, accText, accReasoning, minted⟩ := s
  cases accText <;> cases accReasoning <;> simp [flushRuns, flushText, flushReasoning]

/-- Flushing ends the run. -/
theorem Drafts.flush (h : Drafts host d s) : Drafts host d.endRun (flushRuns s) := by
  rw [flushRuns_eq, h.text, h.reasoning]
  refine ⟨?_, rfl, rfl, h.called, h.minted⟩
  have hended : d.endRun.ended = d.ended ++ d.run.toList.map runReading := rfl
  rw [hended, List.map_append, List.map_append, List.map_append, h.blocks, List.append_assoc]
  refine congrArg (d.ended.map some ++ ·) ?_
  unfold PartsDraft.runOf
  cases d.run with
  | none => rfl
  | some run =>
    obtain ⟨kind, text⟩ := run
    cases kind <;> rfl

/-- A whole value of arguments reads as its text. -/
theorem render_args (hrender : host.render (.obj []) = "\x7b\x7d") (fc : FunctionCall) :
    host.render (fc.args.getD (.obj [])) = callArguments host fc := by
  rw [callArguments]
  cases fc.args with
  | none => exact hrender
  | some value => rfl

theorem Drafts.call (hrender : host.render (.obj []) = "\x7b\x7d") (h : Drafts host d s)
    (fc : FunctionCall) : Drafts host (d.call host fc) (collectCall host s fc) := by
  have hflush := h.flush
  have hblocks : (flushRuns s).blocks.map (ContentBlock.reading host.render) =
      d.readings.map some := hflush.blocks
  have hminted : (flushRuns s).minted = d.minted := hflush.minted
  have htext : (flushRuns s).accText = none := hflush.text
  have hreasoning : (flushRuns s).accReasoning = none := hflush.reasoning
  cases hid : fc.id with
  | none =>
    refine ⟨?_, ?_, ?_, ?_, ?_⟩ <;>
      simp [collectCall, Collected.callId, PartsDraft.call, Draft.tell, PartsDraft.runOf, hid,
        hblocks, hminted, htext, hreasoning, ContentBlock.reading, render_args hrender]
  | some id =>
    refine ⟨?_, ?_, ?_, ?_, ?_⟩ <;>
      simp [collectCall, Collected.callId, PartsDraft.call, Draft.tell, PartsDraft.runOf, hid,
        hblocks, hminted, htext, hreasoning, ContentBlock.reading, render_args hrender]

theorem kind_eq (part : Part) :
    part.kind = if part.thought == some true then .reasoning else .text := by
  rw [Part.kind]
  by_cases h : part.thought = some true <;> simp [h]

/-- A text of the kind of the run joins it; any other ends it and starts one. -/
theorem Drafts.say (h : Drafts host d s) (thought : Bool) (text : String) :
    Drafts host (d.say (if thought then .reasoning else .text) text)
      (collectText s thought text) := by
  have htext := h.text
  have hreasoning := h.reasoning
  cases hrun : d.run with
  | none =>
    have hsay : ∀ kind, d.toDraft.say kind text =
        { ended := d.ended, run := some (kind, text) } := by
      intro kind
      rw [Draft.say_of_ne (by rw [hrun]; nofun), Draft.readings, hrun]
      simp
    simp only [PartsDraft.runOf, hrun, Option.bind_none] at htext hreasoning
    cases thought <;> refine ⟨?_, ?_, ?_, ?_, ?_⟩ <;>
      simp [collectText, flushText, flushReasoning, htext, hreasoning, PartsDraft.say, hsay,
        PartsDraft.runOf, h.blocks, h.called, h.minted]
  | some run =>
    obtain ⟨kind, before⟩ := run
    have hsame := Draft.say_of_eq hrun text
    have hother : ∀ k, k ≠ kind → d.toDraft.say k text =
        { ended := d.readings, run := some (k, text) } := by
      intro k hk
      refine Draft.say_of_ne (fun before' hrun' => hk ?_) text
      rw [hrun] at hrun'
      cases hrun'
      rfl
    -- the run goes on, or is ended by a run of the other kind
    cases thought <;> cases kind <;> simp [PartsDraft.runOf, hrun] at htext hreasoning <;>
      refine ⟨?_, ?_, ?_, ?_, ?_⟩ <;>
      simp [collectText, flushText, flushReasoning, htext, hreasoning, PartsDraft.say, hsame,
        hother, Draft.readings, hrun, PartsDraft.runOf, runReading, h.blocks, h.called, h.minted,
        ContentBlock.reading]

/-- Neither inline bytes nor a file. -/
def Part.IsPlain (part : Part) : Prop := part.inlineData = none ∧ part.fileData = none

theorem Drafts.after (hrender : host.render (.obj []) = "\x7b\x7d") (h : Drafts host d s)
    {part : Part} (hplain : part.IsPlain) :
    Drafts host (d.after host part) (collectPart c host s part) := by
  unfold PartsDraft.after collectPart
  cases part.functionCall with
  | some fc => exact h.call hrender fc
  | none =>
    cases part.text with
    | some text =>
      show Drafts host (d.say part.kind text) _
      rw [kind_eq]
      exact h.say _ text
    | none =>
      rw [hplain.1, hplain.2]
      exact h

theorem drafts_foldl (hrender : host.render (.obj []) = "\x7b\x7d") {parts : List Part}
    (hplain : ∀ part ∈ parts, part.IsPlain) (h : Drafts host d s) :
    Drafts host (parts.foldl (PartsDraft.after host) d) (parts.foldl (collectPart c host) s) := by
  induction parts generalizing d s with
  | nil => exact h
  | cons part parts ih =>
    obtain ⟨hpart, hparts⟩ := List.forall_mem_cons.mp hplain
    exact ih hparts (h.after hrender hpart)

/-- The content of a candidate reads as the draft of its parts. -/
theorem reading_candidateToBlocks (hrender : host.render (.obj []) = "\x7b\x7d")
    {parts : List Part} (hplain : ∀ part ∈ parts, part.IsPlain) :
    (candidateToBlocks c host parts).1.map (ContentBlock.reading host.render) =
        (draft host parts).readings.map some ∧
      (candidateToBlocks c host parts).2 = (draft host parts).called := by
  have h := (drafts_foldl (c := c) hrender hplain (drafts_init host)).flush
  exact ⟨h.blocks, h.called⟩

theorem reading_writeExtension (render : Json → String) (block : ContentBlock) (key : String)
    (value : Json) : (writeExtension block key value).reading render = block.reading render := by
  cases block <;> rfl

/-- The extensions change nothing of what is read. -/
theorem reading_attachExtensions (render : Json → String) (blocks : List ContentBlock)
    (ratings : List WireSafetyRating) (metadata : CandidateMetadata) :
    (attachExtensions blocks ratings metadata).map (ContentBlock.reading render) =
      blocks.map (ContentBlock.reading render) := by
  cases blocks with
  | nil => rfl
  | cons first rest =>
    rw [attachExtensions, List.map_cons, List.map_cons]
    cases metadata.citationMetadata <;> by_cases h : ratings = [] <;>
      simp [h, reading_writeExtension]

end Gemini

end AgentShim
