import AgentShim.Core.Json
import AgentShim.Stream.Envelope

/-
  The fragments of Chat Completions chunks

  The stream parsers of the Chat Completions dialects walk a chunk the same way:
  its header, then for each choice the role, the content, the tool calls and the
  finish reason, then the usage. What they act on is read off as a list of
  fragments, over the kinds of content a dialect distinguishes. They poll their
  source the same way too: each item is handled, and the drain comes last.

  What is proved:
    1. `shape_chunks` — every fragment but an error comes after the header of a
       chunk, and a tool call inside its list.
    2. `any_isChunk_iff` — a header is read iff some chunk is not an error.
    3. `forEach_fragments` — a parser walks a chunk as it walks the fragments.
    4. `okEvents_poll` — on chunks and `[DONE]` a parser that handles a chunk as
       its fragments yields the events of the fragments, then the drain.
    5. `exec_poll_iff` — which runs the envelope takes, from what one fragment
       and the end of the stream do.
-/

namespace AgentShim

namespace ChatWire

open Transducer

abbrev NonEmptyString := { s : String // s ≠ "" }

/-- What a parser acts on in a chunk; `κ` are the kinds of content. -/
inductive Fragment (κ : Type)
  | chunk (id model : String) (created : Nat)
  | role
  | content (kind : κ) (text : NonEmptyString)
  | toolCalls
  | toolCall (index : Nat) (call : Option (String × String)) (arguments : String)
  | finish (reason : String)
  | usage (usage : Usage)
  | error (message : String)
  deriving Repr

/-- What the dialects read differently: the content of a delta, the index of a
tool call, and the usage of a chunk without and with choices. -/
structure Dialect (κ : Type) where
  content : Json → List (κ × NonEmptyString)
  toolIndex : Json → Nat
  usageAlone : Json → Option Usage
  usageAfter : Json → Option Usage

def chunkId (v : Json) : String := (v.getStr "id").getD "unknown"

def chunkModel (v : Json) : String := (v.getStr "model").getD "unknown"

def chunkCreated (v : Json) : Nat := (v.getU64 "created").getD 0

def errorMessage (err : Json) : String := (err.getStr "message").getD "upstream error"

def toolName (tc : Json) : String :=
  (((tc.get "function").bind fun f => f.get "name").bind Json.asStr).getD ""

def toolArguments (tc : Json) : String :=
  (((tc.get "function").bind fun f => f.get "arguments").bind Json.asStr).getD ""

/-- A non-empty string member. -/
def nonEmpty (v : Json) (key : String) : Option NonEmptyString :=
  (v.getStr key).bind fun s => if h : s ≠ "" then some ⟨s, h⟩ else none

/-- Puts out the arguments a fragment of a tool call carries, if any. -/
def emitArguments {σ : Type} (index : Nat) (arguments : String) : Emitter σ StreamEvent :=
  if arguments = "" then skip else emit (.toolCallArgumentsDelta index arguments)

def emitUsage {σ : Type} (usage : Option Usage) : Emitter σ StreamEvent :=
  ifSome usage fun usage => emit (.usageDelta usage)

variable {κ : Type} (D : Dialect κ)

def toolCallFragment (tc : Json) : Fragment κ :=
  .toolCall (D.toolIndex tc) ((tc.getStr "id").map fun id => (id, toolName tc)) (toolArguments tc)

def roleFragments (delta : Json) : List (Fragment κ) :=
  (delta.getStr "role").toList.map fun _ => .role

def contentFragments (delta : Json) : List (Fragment κ) :=
  (D.content delta).map fun c => .content c.1 c.2

def toolCallFragments (delta : Json) : List (Fragment κ) :=
  match delta.getArray "tool_calls" with
  | some toolCalls => .toolCalls :: toolCalls.map (toolCallFragment D)
  | none => []

def deltaFragments (delta : Json) : List (Fragment κ) :=
  roleFragments delta ++ (contentFragments D delta ++ toolCallFragments D delta)

def finishFragments (choice : Json) : List (Fragment κ) :=
  (nonEmpty choice "finish_reason").toList.map fun reason => .finish reason.val

def choiceFragments (choice : Json) : List (Fragment κ) :=
  ((choice.get "delta").toList.flatMap (deltaFragments D)) ++ finishFragments choice

def usageFragments (usage : Option Usage) : List (Fragment κ) := usage.toList.map .usage

def fragments (v : Json) : List (Fragment κ) :=
  match v.get "error" with
  | some err => [.error (errorMessage err)]
  | none =>
    .chunk (chunkId v) (chunkModel v) (chunkCreated v) ::
      match v.getArray "choices" with
      | none => usageFragments (D.usageAlone v)
      | some choices => choices.flatMap (choiceFragments D) ++ usageFragments (D.usageAfter v)

namespace Fragment

def isChunk : Fragment κ → Bool
  | .chunk .. => true
  | _ => false

def isToolCalls : Fragment κ → Bool
  | .toolCalls => true
  | _ => false

def isToolCall : Fragment κ → Bool
  | .toolCall .. => true
  | _ => false

def isContent : Fragment κ → Bool
  | .content _ _ => true
  | _ => false

def isFinish : Fragment κ → Bool
  | .finish _ => true
  | _ => false

/-- Opens the message. -/
def opens : Fragment κ → Bool
  | .role | .content _ _ | .toolCalls => true
  | _ => false

end Fragment

/-- The start of a list of tool calls, with only calls of it since. -/
def InCalls (past : List (Fragment κ)) : Prop :=
  ∃ before calls, past = before ++ .toolCalls :: calls ∧ ∀ f ∈ calls, f.isToolCall = true

theorem InCalls.mono {past : List (Fragment κ)} (before : List (Fragment κ))
    (h : InCalls past) : InCalls (before ++ past) := by
  obtain ⟨front, calls, rfl, hcalls⟩ := h
  exact ⟨before ++ front, calls, by rw [List.append_assoc], hcalls⟩

theorem InCalls.mem {past : List (Fragment κ)} (h : InCalls past) : .toolCalls ∈ past := by
  obtain ⟨front, calls, rfl, -⟩ := h
  exact List.mem_append_right front List.mem_cons_self

/-- Every fragment but an error comes after the header of a chunk, and a tool
call inside its list. -/
def Shape (past : List (Fragment κ)) : Fragment κ → Prop
  | .chunk _ _ _ | .error _ => True
  | .toolCall _ _ _ => InCalls past
  | _ => past.any Fragment.isChunk = true

theorem Shape.mono {past : List (Fragment κ)} {f : Fragment κ} (before : List (Fragment κ))
    (h : Shape past f) : Shape (before ++ past) f := by
  cases f with
  | chunk id model created => trivial
  | error message => trivial
  | toolCall index call arguments => exact InCalls.mono before h
  | _ =>
    have hchunk : past.any Fragment.isChunk = true := h
    show (before ++ past).any Fragment.isChunk = true
    rw [List.any_append, hchunk, Bool.or_true]

/-- A tool call comes inside its list. -/
def CallListed (past : List (Fragment κ)) (f : Fragment κ) : Prop :=
  f.isToolCall = true → InCalls past

theorem CallListed.mono {past : List (Fragment κ)} {f : Fragment κ}
    (before : List (Fragment κ)) (h : CallListed past f) : CallListed (before ++ past) f :=
  fun hf => (h hf).mono before

theorem callListed_append {fs gs : List (Fragment κ)} (hf : Throughout CallListed fs)
    (hg : Throughout CallListed gs) : Throughout CallListed (fs ++ gs) :=
  throughout_append.mpr ⟨hf, fun past f rest hsplit => (hg past f rest hsplit).mono fs⟩

/-- A list without tool calls. -/
theorem callListed_map {α : Type} {g : α → Fragment κ} (xs : List α)
    (h : ∀ x, (g x).isToolCall = false) : Throughout CallListed (xs.map g) := by
  refine throughout_of_forall fun past f hf hcall => ?_
  obtain ⟨x, -, rfl⟩ := List.mem_map.mp hf
  rw [h x] at hcall
  cases hcall

theorem callListed_toolCalls (delta : Json) :
    Throughout CallListed (toolCallFragments D delta) := by
  unfold toolCallFragments
  cases delta.getArray "tool_calls" with
  | none => exact throughout_nil
  | some tcs =>
    intro past f rest hsplit hf
    cases past with
    | nil =>
      obtain ⟨rfl, -⟩ := List.cons.inj hsplit
      cases hf
    | cons g past =>
      obtain ⟨rfl, htail⟩ := List.cons.inj hsplit
      refine ⟨[], past, rfl, fun f hf => ?_⟩
      have hmem : f ∈ tcs.map (toolCallFragment D) := htail ▸ List.mem_append_left _ hf
      obtain ⟨tc, -, rfl⟩ := List.mem_map.mp hmem
      rfl

theorem callListed_delta (delta : Json) : Throughout CallListed (deltaFragments D delta) :=
  callListed_append (callListed_map _ fun _ => rfl)
    (callListed_append (callListed_map _ fun _ => rfl) (callListed_toolCalls D delta))

theorem callListed_choice (choice : Json) : Throughout CallListed (choiceFragments D choice) :=
  callListed_append
    (throughout_flatMap (fun before _ _ h => h.mono before) (callListed_delta D) _)
    (callListed_map _ fun _ => rfl)

theorem shape_of_listed {id model : String} {created : Nat} {fs : List (Fragment κ)}
    (h : Throughout CallListed fs) : Throughout Shape (.chunk id model created :: fs) := by
  intro past f rest hsplit
  cases past with
  | nil =>
    obtain ⟨rfl, -⟩ := List.cons.inj hsplit
    trivial
  | cons g past =>
    obtain ⟨rfl, hfs⟩ := List.cons.inj hsplit
    cases f with
    | chunk id model created => trivial
    | error message => trivial
    | toolCall index call arguments =>
      exact (h past _ rest hfs rfl).mono [_]
    | _ => rfl

theorem shape_fragments (v : Json) : Throughout Shape (fragments D v) := by
  unfold fragments
  cases v.get "error" with
  | some err =>
    refine throughout_of_forall fun past f hf => ?_
    obtain rfl := List.mem_singleton.mp hf
    trivial
  | none =>
    refine shape_of_listed ?_
    cases v.getArray "choices" with
    | none => exact callListed_map _ fun _ => rfl
    | some choices =>
      exact callListed_append
        (throughout_flatMap (fun before _ _ h => h.mono before) (callListed_choice D) choices)
        (callListed_map _ fun _ => rfl)

theorem shape_chunks (chunks : List Json) : Throughout Shape (chunks.flatMap (fragments D)) :=
  throughout_flatMap (fun before _ _ h => h.mono before) (shape_fragments D) chunks

theorem any_isChunk_iff (chunks : List Json) :
    (chunks.flatMap (fragments D)).any Fragment.isChunk = true ↔
      ∃ v ∈ chunks, v.get "error" = none := by
  have hone : ∀ v : Json, (fragments D v).any Fragment.isChunk = true ↔ v.get "error" = none := by
    intro v
    unfold fragments
    cases v.get "error" <;> simp [Fragment.isChunk]
  rw [List.any_flatMap, List.any_eq_true]
  simp only [hone]

/-! ## The walk over a chunk

What a parser does along a chunk is what it does along the fragments, if it does
so for each part.
-/

section Walk

variable {κ σ : Type} {D : Dialect κ} {apply : Fragment κ → Emitter σ StreamEvent}

theorem forEach_toolCallFragments {parseToolCall : Json → Emitter σ StreamEvent}
    (hcall : ∀ tc, parseToolCall tc = apply (toolCallFragment D tc)) (delta : Json) :
    forEach apply (toolCallFragments D delta) =
      ifSome (delta.getArray "tool_calls") fun toolCalls =>
        andThen (apply .toolCalls) (forEach parseToolCall toolCalls) := by
  unfold toolCallFragments
  cases delta.getArray "tool_calls" with
  | none => rfl
  | some tcs =>
    have hcalls : (fun tc => apply (toolCallFragment D tc)) = parseToolCall :=
      funext fun tc => (hcall tc).symm
    rw [forEach_cons, forEach_map, hcalls, ifSome_some]

theorem forEach_choiceFragments {parseDelta : Json → Emitter σ StreamEvent}
    (hdelta : ∀ delta, parseDelta delta = forEach apply (deltaFragments D delta))
    (choice : Json) :
    forEach apply (choiceFragments D choice) =
      andThen (ifSome (choice.get "delta") parseDelta)
        (ifSome (nonEmpty choice "finish_reason") fun reason => apply (.finish reason.val)) := by
  rw [choiceFragments, forEach_append, ← forEach_flatMap hdelta, ifSome_eq, ifSome_eq,
    finishFragments, forEach_map]

/-- A chunk that is not an error: its header, its choices and its usage. -/
theorem forEach_fragments {parseChoice : Json → Emitter σ StreamEvent}
    (hchoice : ∀ choice, parseChoice choice = forEach apply (choiceFragments D choice))
    (husage : ∀ usage, apply (.usage usage) = emit (.usageDelta usage)) {v : Json}
    (herror : v.get "error" = none) :
    forEach apply (fragments D v) =
      andThen (apply (.chunk (chunkId v) (chunkModel v) (chunkCreated v)))
        (match v.getArray "choices" with
        | none => emitUsage (D.usageAlone v)
        | some choices => andThen (forEach parseChoice choices) (emitUsage (D.usageAfter v))) := by
  have hemit : ∀ usage, forEach apply (usageFragments usage) = emitUsage usage := by
    intro usage
    have hstep : (fun usage => apply (.usage usage)) = fun usage => emit (.usageDelta usage) :=
      funext husage
    rw [usageFragments, forEach_map, hstep, emitUsage, ifSome_eq]
  simp only [fragments, herror, forEach_cons]
  cases v.getArray "choices" with
  | none => rw [hemit]
  | some choices =>
    simp only [forEach_append]
    rw [← forEach_flatMap hchoice, hemit]

end Walk

/-! ## The stream of items -/

/-- What the event source yields: `[DONE]`, the JSON of a data line or why it did
not parse, or a transport error. -/
inductive SseItem
  | done
  | data (v : Except String Json)
  | transportError (message : String)

abbrev Item := Except StreamError StreamEvent

/-- What a parser does with each kind of item, and at the end of the source. -/
structure Handlers (σ : Type) where
  done : Emitter σ StreamEvent
  chunk : Json → Emitter σ StreamEvent
  transportError : String → Emitter σ Item
  finalize : Emitter σ StreamEvent

variable {σ : Type}

def okItems (f : Emitter σ StreamEvent) : Emitter σ Item := fun s =>
  ((f s).1, (f s).2.map .ok)

def Handlers.handle (h : Handlers σ) : SseItem → Emitter σ Item
  | .done => okItems h.done
  | .data (.ok v) => okItems (h.chunk v)
  | .data (.error e) => emit (.error (.decode e))
  | .transportError message => h.transportError message

/-- Everything the parser yields before its end: the items of the source, then
the drain. -/
def Handlers.poll (h : Handlers σ) (s : σ) (items : List SseItem) : List Item :=
  (andThen (forEach h.handle items) (okItems h.finalize) s).2

def okEvents (items : List Item) : List StreamEvent := items.filterMap Except.toOption

/-- Chunks, then perhaps `[DONE]`. -/
def source (chunks : List Json) (done : Bool) : List SseItem :=
  chunks.map (fun v => .data (.ok v)) ++ if done then [.done] else []

theorem forEach_okItems {ι : Type} (step : ι → Emitter σ StreamEvent) (is : List ι) :
    forEach (fun i => okItems (step i)) is = okItems (forEach step is) := by
  induction is with
  | nil => rfl
  | cons i is ih =>
    rw [forEach_cons, ih]
    funext s
    simp [andThen, okItems, forEach_cons]

theorem okEvents_map_ok (es : List StreamEvent) : okEvents (es.map .ok) = es := by
  induction es with
  | nil => rfl
  | cons e es ih =>
    rw [List.map_cons, okEvents, List.filterMap_cons]
    exact congrArg (e :: ·) ih

/-- The events of a stream of chunks that may end in `[DONE]`, when each chunk is
handled as its fragments. -/
theorem okEvents_poll {ι : Type} {h : Handlers σ} {apply : ι → Emitter σ StreamEvent}
    {view : Json → List ι} (hview : ∀ v, h.chunk v = forEach apply (view v)) (s : σ)
    (chunks : List Json) (done : Bool) :
    okEvents (h.poll s (source chunks done)) =
      (andThen (forEach apply (chunks.flatMap view))
        (andThen (if done then h.done else skip) h.finalize) s).2 := by
  have hchunks : forEach h.handle (chunks.map fun v => .data (.ok v)) =
      okItems (forEach apply (chunks.flatMap view)) := by
    rw [forEach_map, ← forEach_flatMap hview]
    exact forEach_okItems _ _
  have hdone : forEach h.handle (if done then [.done] else []) =
      okItems (if done then h.done else skip) := by
    cases done
    · rfl
    · exact forEach_singleton _ _
  rw [Handlers.poll, source, forEach_append, hchunks, hdone]
  simp only [andThen, okItems, ← List.map_append, okEvents_map_ok, List.append_assoc]

/-! ## Which runs the envelope takes -/

section Judged

variable {ι : Type} {nested : Bool} {h : Handlers σ} {apply : ι → Emitter σ StreamEvent}
  {view : Json → List ι} {R : List ι → σ → Envelope → Prop} {Shape Ok : List ι → ι → Prop}
  {Doomed : σ → Envelope → Prop} {B : List ι → Prop} [DecidablePred B]

/-- The envelope takes a whole run and ends closed iff every fragment is
admissible and, where no `[DONE]` came, something was read (`B`). -/
theorem exec_poll_iff (hview : ∀ v, h.chunk v = forEach apply (view v))
    (good : ∀ past f, Shape past f → Ok past f →
      Accepts (Envelope.step nested) (R past) (apply f) (R (past ++ [f])))
    (bad : ∀ past f, Shape past f → ¬ Ok past f →
      Within (Envelope.step nested) (R past) (apply f) Doomed)
    (doomed : ∀ f, Within (Envelope.step nested) Doomed (apply f) Doomed)
    (done : ∀ past, Accepts (Envelope.step nested) (R past) (andThen h.done h.finalize)
      fun _ m => m.Closed)
    (eof : ∀ past, B past →
      Accepts (Envelope.step nested) (R past) h.finalize fun _ m => m.Closed)
    (eofEmpty : ∀ past, ¬ B past →
      Within (Envelope.step nested) (R past) h.finalize fun _ m => ¬ m.Closed)
    (doneDoomed : Within (Envelope.step nested) Doomed (andThen h.done h.finalize)
      fun _ _ => False)
    (eofDoomed : Within (Envelope.step nested) Doomed h.finalize fun _ _ => False)
    {s : σ} (hinit : R [] s {}) {chunks : List Json}
    (hshape : Throughout Shape (chunks.flatMap view)) (ended : Bool) :
    (∃ m, Runs.exec (Envelope.step nested) {} (okEvents (h.poll s (source chunks ended))) =
        some m ∧ m.Closed) ↔
      (ended = true ∨ B (chunks.flatMap view)) ∧ Throughout Ok (chunks.flatMap view) := by
  rw [okEvents_poll hview]
  cases ended with
  | true =>
    refine (exec_andThen_iff (B := fun _ => True) good bad doomed (fun past _ => done past)
      (fun _ h => absurd trivial h) (doneDoomed.mono (fun _ _ h => h) fun _ _ h => h.elim)
      hshape hinit).trans ?_
    simp only [true_or, true_and]
  | false =>
    refine (exec_andThen_iff good bad doomed eof eofEmpty
      (eofDoomed.mono (fun _ _ h => h) fun _ _ h => h.elim) hshape hinit).trans ?_
    simp only [Bool.false_eq_true, false_or]

end Judged

end ChatWire

end AgentShim
