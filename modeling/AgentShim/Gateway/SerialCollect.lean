import AgentShim.Gateway.Collect
import AgentShim.Stream.Serial

/-
  What is collected of a stream whose blocks come one after the other

  Behind each block of such a stream the tables of the collector are empty again, so
  that every block is read alone, wherever the parser placed it: two blocks at one index
  do not disturb each other. A text without a piece, a thought and a redacted thought
  leave nothing behind.

  What is proved:
    1. `collect_block` — what one block adds to the content.
    2. `collect_serial` — the response that the client is answered with.
-/

namespace AgentShim.Gateway

open Buffers

variable (c : Codec)

/-- The content that comes of a block. -/
def collectedBlock : SerialBlock → Option ContentBlock
  | .text pieces => if pieces = [] then none else some (.ofText (String.join pieces))
  | .toolCall id name pieces => some (toolBlock c (id, name) (String.join pieces))
  | .reasoning _ | .redactedReasoning => none

theorem collected_textInOne (text : String) :
    collectedBlock c (.text (SerialBlock.inOnePiece text)) =
      if text = "" then none else some (.ofText text) := by
  by_cases hempty : text = "" <;> simp [collectedBlock, SerialBlock.inOnePiece, hempty]

theorem collected_callInOne (id name arguments : String) :
    collectedBlock c (.toolCall id name [arguments]) =
      some (toolBlock c (id, name) arguments) := by
  simp [collectedBlock]

/-- The usage of the end counts, else that of the beginning. -/
def collectedSerial (R : SerialResponse) : CanonicalResponse where
  id := R.id
  model := R.model
  content := R.blocks.filterMap fun b => collectedBlock c b.2
  stopReason := R.stopReason
  stopSequence := R.stopSequence
  usage := R.usage.or R.opening

variable {c} {s : Collector}

/-- The collector keeps nothing of a block. -/
def Collector.Idle (s : Collector) : Prop :=
  s.textBuf = ∅ ∧ s.toolNames = ∅ ∧ s.toolArgs = ∅

def Collector.push (s : Collector) (b : Option ContentBlock) : Collector :=
  { s with content := s.content ++ b.toList }

theorem push_none (s : Collector) : s.push none = s := by
  simp [Collector.push]

theorem erase_insert_empty {β : Nat → Type} (i : Nat) (x : β i) :
    ((∅ : AList β).insert i x).erase i = ∅ := by
  apply AList.ext
  show ((∅ : AList β).insert i x).entries.kerase i = []
  rw [AList.entries_insert]
  exact List.kerase_cons_eq rfl

theorem stopText_empty (s : Collector) (h : s.textBuf = ∅) (i : Nat) : s.stopText i = s := by
  rw [Collector.stopText, h]
  rfl

theorem stopCall_empty (h : s.toolNames = ∅) (i : Nat) : s.stopCall c i = s := by
  rw [Collector.stopCall, h]
  rfl

/-- What is kept of the pieces of a block. -/
def keptPieces (i : Nat) (pieces : List String) : Buffer :=
  if pieces = [] then ∅ else (∅ : Buffer).insert i (String.join pieces)

theorem pushText_kept (i : Nat) (pieces : List String) (more : String) :
    pushText (keptPieces i pieces) i more = keptPieces i (pieces ++ [more]) := by
  by_cases hnil : pieces = []
  · simp [keptPieces, hnil, pushText]
  · have hmore : pieces ++ [more] ≠ [] := by simp
    have hjoin : String.join (pieces ++ [more]) = String.join pieces ++ more := by
      simp [String.join_append]
    rw [keptPieces, if_neg hnil, keptPieces, if_neg hmore, hjoin, pushText, AList.lookup_insert,
      Option.getD_some, AList.insert_insert]

/-- Texts that come piece by piece. -/
theorem foldlM_pieces (event : String → StreamEvent) (put : Buffer → Collector) {i : Nat}
    (hevent : ∀ buf text, collectEvent c (put buf) (event text) = .ok (put (pushText buf i text)))
    (pieces : List String) :
    ((pieces.map event).map Except.ok).foldlM (collectItem c) (put ∅) =
      .ok (put (keptPieces i pieces)) := by
  have hrun : ∀ before, ((pieces.map event).map Except.ok).foldlM (collectItem c)
      (put (keptPieces i before)) = .ok (put (keptPieces i (before ++ pieces))) := by
    induction pieces with
    | nil => exact fun before => by rw [List.append_nil]; rfl
    | cons text pieces ih =>
      intro before
      rw [List.map_cons, List.map_cons, List.foldlM_cons]
      calc (collectEvent c (put (keptPieces i before)) (event text) >>= fun s =>
            ((pieces.map event).map Except.ok).foldlM (collectItem c) s)
          = ((pieces.map event).map Except.ok).foldlM (collectItem c)
              (put (keptPieces i (before ++ [text]))) := by
            rw [hevent, pushText_kept]
            rfl
        _ = .ok (put (keptPieces i (before ++ text :: pieces))) := by
            rw [ih, List.append_assoc]
            rfl
  exact hrun []

theorem stopText_kept (h : s.textBuf = ∅) (i : Nat) (pieces : List String) :
    Collector.stopText { s with textBuf := keptPieces i pieces } i =
      { s with content := s.content ++ (collectedBlock c (.text pieces)).toList } := by
  by_cases hnil : pieces = []
  · simp only [keptPieces, collectedBlock, if_pos hnil, ← h, Option.toList_none, List.append_nil]
    exact stopText_empty s h i
  · simp only [keptPieces, collectedBlock, if_neg hnil, Collector.stopText, AList.lookup_insert,
      erase_insert_empty, h, Option.toList_some]

theorem stopCall_kept (hnames : s.toolNames = ∅) (hargs : s.toolArgs = ∅) (i : Nat)
    (call : String × String) (pieces : List String) :
    Collector.stopCall c { s with toolNames := s.toolNames.insert i call
                                  toolArgs := keptPieces i pieces } i =
      { s with content := s.content ++ [toolBlock c call (String.join pieces)] } := by
  by_cases hnil : pieces = []
  · simp only [hnil, keptPieces, Collector.stopCall, hnames, AList.lookup_insert,
      erase_insert_empty, hargs]
    rfl
  · simp only [keptPieces, if_neg hnil, Collector.stopCall, hnames, hargs, AList.lookup_insert,
      erase_insert_empty, Option.getD_some]

/-- Behind a block the collector is idle again, and the content of the block is kept. -/
theorem collect_block (hidle : s.Idle) (i : Nat) (b : SerialBlock) :
    ((b.events i).map Except.ok).foldlM (collectItem c) s = .ok (s.push (collectedBlock c b)) := by
  have htext : s.textBuf = ∅ := hidle.1
  have hnames : s.toolNames = ∅ := hidle.2.1
  have hargs : s.toolArgs = ∅ := hidle.2.2
  -- a block that leaves nothing in the tables
  have hquiet : (.ok ((s.stopText i).stopCall c i) : Except HandlerError Collector) =
      .ok (s.push none) := by
    rw [stopText_empty s htext, stopCall_empty hnames, push_none]
  cases b with
  | redactedReasoning => exact hquiet
  | text pieces =>
    have hpieces := foldlM_pieces (c := c) (i := i) (.textDelta i)
      (fun buf => { s with textBuf := buf }) (fun _ _ => rfl) pieces
    have hstopped : Collector.stopCall c (Collector.stopText
        { s with textBuf := keptPieces i pieces } i) i =
        s.push (collectedBlock c (.text pieces)) := by
      rw [stopText_kept (c := c) htext]
      exact stopCall_empty (s := s.push _) hnames i
    rw [← htext] at hpieces
    rw [SerialBlock.events, List.map_cons, List.foldlM_cons]
    show (((SerialBlock.text pieces).inside i ++ [StreamEvent.contentBlockStop i]).map
      Except.ok).foldlM (collectItem c) s = _
    rw [List.map_append, List.foldlM_append, SerialBlock.inside, hpieces]
    exact congrArg Except.ok hstopped
  | reasoning pieces =>
    have hpieces : ∀ pieces : List String, ((pieces.map (StreamEvent.reasoningDelta i)).map
        Except.ok).foldlM (collectItem c) s = .ok s := by
      intro pieces
      induction pieces with
      | nil => rfl
      | cons text pieces ih =>
        rw [List.map_cons, List.map_cons, List.foldlM_cons]
        exact ih
    rw [SerialBlock.events, List.map_cons, List.foldlM_cons]
    show (((SerialBlock.reasoning pieces).inside i ++ [StreamEvent.contentBlockStop i]).map
      Except.ok).foldlM (collectItem c) s = _
    rw [List.map_append, List.foldlM_append, SerialBlock.inside, hpieces]
    exact hquiet
  | toolCall id name pieces =>
    have hpieces := foldlM_pieces (c := c) (i := i) (.toolCallArgumentsDelta i)
      (fun buf => { s with toolNames := s.toolNames.insert i (id, name), toolArgs := buf })
      (fun _ _ => rfl) pieces
    have hstopped : Collector.stopCall c (Collector.stopText
        { s with toolNames := s.toolNames.insert i (id, name), toolArgs := keptPieces i pieces }
        i) i = s.push (collectedBlock c (.toolCall id name pieces)) := by
      rw [stopText_empty]
      · exact stopCall_kept hnames hargs i (id, name) pieces
      · exact htext
    rw [SerialBlock.events, List.map_cons, List.foldlM_cons]
    show (((SerialBlock.toolCall id name pieces).inside i ++ [StreamEvent.contentBlockStop i]).map
      Except.ok).foldlM (collectItem c) s = _
    rw [SerialBlock.inside, List.cons_append, List.map_cons, List.foldlM_cons]
    show (((pieces.map (StreamEvent.toolCallArgumentsDelta i) ++ [StreamEvent.toolCallStop i] ++
      [StreamEvent.contentBlockStop i]).map Except.ok).foldlM (collectItem c)
        { s with toolNames := s.toolNames.insert i (id, name), toolArgs := s.toolArgs }) = _
    rw [hargs, List.append_assoc, List.map_append, List.foldlM_append, hpieces]
    exact congrArg Except.ok hstopped

theorem Collector.Idle.push (hidle : s.Idle) (b : Option ContentBlock) : (s.push b).Idle := hidle

theorem collect_blocks (hidle : s.Idle) (blocks : List (Nat × SerialBlock)) :
    ((SerialResponse.blockEvents blocks).map Except.ok).foldlM (collectItem c) s =
      .ok { s with content := s.content ++ blocks.filterMap fun b => collectedBlock c b.2 } := by
  induction blocks generalizing s with
  | nil =>
    rw [List.filterMap_nil, List.append_nil]
    rfl
  | cons b blocks ih =>
    have hcontent : (s.push (collectedBlock c b.2)).content ++
        blocks.filterMap (fun b => collectedBlock c b.2) =
        s.content ++ (b :: blocks).filterMap fun b => collectedBlock c b.2 := by
      cases hb : collectedBlock c b.2 <;> simp [Collector.push, hb]
    rw [SerialResponse.blockEvents_cons, List.map_append, List.foldlM_append,
      collect_block hidle b.1 b.2]
    calc _ = ((SerialResponse.blockEvents blocks).map Except.ok).foldlM (collectItem c)
          (s.push (collectedBlock c b.2)) := rfl
      _ = _ := by rw [ih (hidle.push _), hcontent]; rfl

/-- The response that comes of a response put out at once. -/
theorem collect_serial (c : Codec) (freshId : String) (R : SerialResponse) :
    collectStream c freshId (R.events.map .ok) = .ok (collectedSerial c R) := by
  have hidle : Collector.Idle { id := R.id, model := R.model, usage := R.opening } :=
    ⟨rfl, rfl, rfl⟩
  have hopening : (([StreamEvent.responseStart R.id R.model R.created, .messageStart .assistant] ++
      (R.opening.map StreamEvent.usageDelta).toList).map Except.ok).foldlM (collectItem c)
      { id := freshId } = .ok { id := R.id, model := R.model, usage := R.opening } := by
    cases R.opening <;> rfl
  rw [collectStream, SerialResponse.events, List.map_append, List.map_append, List.foldlM_append,
    List.foldlM_append, hopening]
  calc Except.map Collector.response
        ((((SerialResponse.blockEvents R.blocks).map Except.ok).foldlM (collectItem c)
            { id := R.id, model := R.model, usage := R.opening }) >>= fun s =>
          ([StreamEvent.messageStop R.stopReason R.stopSequence, .responseStop R.usage].map
            Except.ok).foldlM (collectItem c) s)
      = .ok (collectedSerial c R) := by
        rw [collect_blocks hidle]
        cases husage : R.usage <;> simp [collectedSerial, husage] <;> rfl

end AgentShim.Gateway
