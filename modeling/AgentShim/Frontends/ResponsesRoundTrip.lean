import AgentShim.Frontends.ResponsesStream
import AgentShim.Providers.ResponsesLifecycle
import AgentShim.Stream.Calls

/-
  The Responses stream, written and read back

  The encoder gives every text and tool block an output item under the next index,
  where the item is added; the parser makes a block of each item under the item's
  index. What is read back has the blocks of the stream in the order in which they
  are announced, numbered in that order.

  What is proved:
    1. `exec_watch`, `parts_events` — what is read is what the signals of the chunks say.
    2. `accepts_encodeEvent`, `accepts_front` — an event is written so that the parser
       admits it, its parts under the index of the item of its block.
    3. `responses_round_trip` — the round trip of a stream.
    4. `calledLate_reordered` — a tool block that is called late comes back late.
-/

namespace AgentShim

namespace OpenAiResponses

open Buffers Transducer ResponsesSse
open Json (number asU64_number)

/-- The events the encoder writes, those of its chunks that are not errors. -/
def wire (clockOverride : Option Nat) (es : List StreamEvent) : List (String × Json) :=
  (encode clockOverride (es.map .ok)).filterMap Except.toOption

/-- The canonical stream that is read back. -/
def readBack (clockOverride : Option Nat) (es : List StreamEvent) : List StreamEvent :=
  events (wire clockOverride es)

/-! ## What the parser reads off a chunk -/

theorem outputIndex_eq {data : Json} {n : Nat} (h : n < 4294967296)
    (hdata : data.get "output_index" = some (number n)) : outputIndex data = n := by
  rw [outputIndex, Json.getU64, hdata, Option.bind_some, asU64_number h, Option.getD_some]
  exact Nat.mod_eq_of_lt h

/-- What an item is added as. -/
def OutputItem.added : OutputItem → Option AddedItem
  | message _ _ _ => some .message
  | functionCall _ callId name _ _ => some (.functionCall callId name)
  | reasoning _ _ _ => none

def OutputItem.kind : OutputItem → Option ItemKind
  | message _ _ _ => some .message
  | functionCall _ _ _ _ _ => some .functionCall
  | reasoning _ _ _ => none

/-- The signal of a chunk; an error has none. -/
def chunkSignal : Chunk → Option Signal
  | .ok (eventType, data) => signal eventType data
  | .error _ => none

theorem addedItem_toJson {data : Json} {item : OutputItem}
    (h : data.get "item" = some item.toJson) : addedItem data = item.added := by
  have hitem : ResponsesSse.item data = item.toJson := by rw [ResponsesSse.item, h]; rfl
  simp only [addedItem, itemType, hitem]
  cases item <;> rfl

theorem finishedKind_toJson {data : Json} {item : OutputItem}
    (h : data.get "item" = some item.toJson) : finishedKind data = item.kind := by
  have hitem : ResponsesSse.item data = item.toJson := by rw [ResponsesSse.item, h]; rfl
  simp only [finishedKind, itemType, hitem]
  cases item <;> rfl

theorem signal_itemAdded {n : Nat} (h : n < 4294967296) (item : OutputItem) :
    chunkSignal (itemAdded n item) = some (.added n item.added) := by
  have hitem : ∀ i : Json, (Json.obj [("output_index", number n), ("item", i)]).get "item" =
      some i := fun _ => rfl
  show some (Signal.added _ _) = _
  rw [outputIndex_eq h rfl, addedItem_toJson (hitem item.toJson)]

theorem signal_itemDone {n : Nat} (h : n < 4294967296) (item : OutputItem) :
    chunkSignal (itemDone n item) = item.kind.map (.done n) := by
  have hitem : ∀ i : Json, (Json.obj [("output_index", number n), ("item", i)]).get "item" =
      some i := fun _ => rfl
  show (finishedKind _).map (Signal.done _) = _
  rw [outputIndex_eq h rfl, finishedKind_toJson (hitem item.toJson)]

/-- A text, if it is not empty. -/
def nonEmptyText (text : String) : Option ChatWire.NonEmptyString :=
  if h : text ≠ "" then some ⟨text, h⟩ else none

theorem signal_textDelta {n : Nat} (h : n < 4294967296) (itemId text : String) :
    chunkSignal (textDelta itemId n text) = (nonEmptyText text).map (.text n) := by
  show (ChatWire.nonEmpty _ "delta").map (Signal.text _) = _
  rw [outputIndex_eq h rfl]
  rfl

theorem signal_argumentsDelta {n : Nat} (h : n < 4294967296) (itemId fragment : String) :
    chunkSignal (functionCallArgsDelta itemId n fragment) =
      (nonEmptyText fragment).map (.arguments n) := by
  show (ChatWire.nonEmpty _ "delta").map (Signal.arguments _) = _
  rw [outputIndex_eq h rfl]
  rfl

/-! ## The signals of a run -/

/-- What a signal adds to the blocks of the stream that is read back. -/
def signalParts : Signal → List Part
  | .added n (some .message) => [(n, .start .text)]
  | .added n (some (.functionCall callId name)) => [(n, .start .toolCall), (n, .call callId name)]
  | .text n text => [(n, .text text.val)]
  | .arguments n fragment => [(n, .arguments fragment.val)]
  | _ => []

/-- The signals of the chunks so far, and the parts they add. -/
structure Read where
  seen : Seen
  parts : List Part

/-- One chunk: it is no error, and the parser admits what it says. -/
def watch (r : Read) (chunk : Chunk) : Option Read :=
  match chunk with
  | .error _ => none
  | .ok _ =>
    match chunkSignal chunk with
    | none => some r
    | some f =>
      if r.seen.Admits f then
        some { seen := r.seen.add f, parts := r.parts ++ signalParts f }
      else none

theorem watch_silent {r : Read} {chunk : Chunk} (hok : ∃ e, chunk = .ok e)
    (h : chunkSignal chunk = none) : watch r chunk = some r := by
  obtain ⟨e, rfl⟩ := hok
  simp only [watch, h]

theorem watch_admitted {r : Read} {chunk : Chunk} {f : Signal} (h : chunkSignal chunk = some f)
    (hadmits : r.seen.Admits f) :
    watch r chunk = some { seen := r.seen.add f, parts := r.parts ++ signalParts f } := by
  cases chunk with
  | error message => cases h
  | ok e => simp only [watch, h, if_pos hadmits]

theorem watch_eq_some {r r' : Read} {chunk : Chunk} (h : watch r chunk = some r') :
    ∃ e, chunk = .ok e ∧ r'.parts = r.parts ++ (signal e.1 e.2).toList.flatMap signalParts ∧
      ∀ past, r.seen = seen past → Throughout (fun past f => (seen past).Admits f) past →
        r'.seen = seen (past ++ (signal e.1 e.2).toList) ∧
          Throughout (fun past f => (seen past).Admits f)
            (past ++ (signal e.1 e.2).toList) := by
  cases chunk with
  | error message => cases h
  | ok e =>
    refine ⟨e, rfl, ?_⟩
    have hsignal : chunkSignal (.ok e) = signal e.1 e.2 := rfl
    cases hf : signal e.1 e.2 with
    | none =>
      rw [watch_silent ⟨e, rfl⟩ (hsignal.trans hf)] at h
      cases h
      refine ⟨by simp, fun past hseen hall => ?_⟩
      rw [Option.toList_none, List.append_nil]
      exact ⟨hseen, hall⟩
    | some f =>
      by_cases hadmits : r.seen.Admits f
      · rw [watch_admitted (hsignal.trans hf) hadmits] at h
        cases h
        refine ⟨by simp, fun past hseen hall => ?_⟩
        rw [hseen] at hadmits ⊢
        exact ⟨(seen_concat past f).symm, throughout_append_singleton.mpr ⟨hall, hadmits⟩⟩
      · simp only [watch, hsignal.trans hf, if_neg hadmits] at h
        cases h

/-- A run that is watched to its end has no errors, and every signal of it is admitted
after the ones before it. -/
theorem exec_watch {r : Read} {chunks : List Chunk}
    (h : Runs.exec watch { seen := seen [], parts := [] } chunks = some r) :
    ∃ es : List (String × Json), chunks = es.map .ok ∧ WellOrdered es ∧
      r.seen = seen (signals es) ∧ r.parts = (signals es).flatMap signalParts := by
  refine Runs.exec_history (I := fun chunks r => ∃ es : List (String × Json),
    chunks = es.map .ok ∧ WellOrdered es ∧ r.seen = seen (signals es) ∧
      r.parts = (signals es).flatMap signalParts) ?_ (fun pre chunk r r' hpre hstep => ?_) h
  · exact ⟨[], rfl, throughout_nil, rfl, rfl⟩
  · obtain ⟨es, rfl, hordered, hseen, hparts⟩ := hpre
    obtain ⟨e, rfl, hnext, hfits⟩ := watch_eq_some hstep
    obtain ⟨hseen', hordered'⟩ := hfits (signals es) hseen hordered
    have hsignals : signals (es ++ [e]) = signals es ++ (signal e.1 e.2).toList := by
      rw [signals, List.flatMap_append, List.flatMap_singleton, signals]
    refine ⟨es ++ [e], ?_, ?_, ?_, ?_⟩
    · rw [List.map_append, List.map_singleton]
    · rwa [WellOrdered, hsignals]
    · rw [hsignals, hseen']
    · rw [hnext, hparts, hsignals, List.flatMap_append]

theorem parts_apply (f : Signal) (s : ParserState) : parts (apply f s).2 = signalParts f := by
  have hstart : ∀ s : ParserState, parts (ensureMessageStart s).2 = [] := by
    intro s
    unfold ensureMessageStart
    split <;> rfl
  cases f with
  | created id model createdAt =>
    simp only [apply, ResponsesSse.startResponse]
    split <;> rfl
  | added n item =>
    cases item with
    | none => exact hstart s
    | some item =>
      cases item <;> simp only [apply, andThen_apply, parts, List.filterMap_append] <;>
        rw [← parts, hstart] <;> rfl
  | done n kind => cases kind <;> rfl
  | failed ended message => cases ended <;> rfl
  | _ => rfl

/-- The drain adds nothing to the blocks. -/
theorem parts_finalize (s : ParserState) : parts (finalize s).2 = [] := by
  unfold finalize
  split
  · rfl
  · split
    · have hstart : parts (ensureMessageStart s).2 = [] := by
        unfold ensureMessageStart
        split <;> rfl
      have hstop : ∀ t : ParserState, parts (ensureMessageStop t).2 = [] := by
        intro t
        unfold ensureMessageStop
        split <;> rfl
      simp only [inOrder_cons, inOrder_nil, andThen_skip, andThen_apply, closeOrphaned,
        stopResponse]
      simp only [parts, List.filterMap_append] at hstart hstop ⊢
      rw [hstart, hstop, ← parts, parts_closeBlocks]
      rfl
    · rfl

theorem parts_events (es : List (String × Json)) :
    parts (events es) = (signals es).flatMap signalParts := by
  have hread : ∀ f ∈ signals es, ∀ s, (apply f s).2.flatMap (fun e => e.part.toList) =
      signalParts f := by
    intro f _ s
    rw [← parts_apply f s]
    exact (List.filterMap_eq_flatMap_toList _ _).symm
  have hfinal := parts_finalize (forEach apply (signals es) {}).1
  rw [events_eq, andThen_apply, parts, List.filterMap_append, ← parts, ← parts, hfinal,
    List.append_nil, parts, List.filterMap_eq_flatMap_toList, flatMap_forEach hread]

/-! ## The items of the encoder -/

/-- The kind of the item of a block. -/
def itemKind : ContentBlockKind → ItemKind
  | .toolCall => .functionCall
  | _ => .message

/-- The item of a block while it is not done. -/
def live : BlockPhase → Option ItemKind
  | .opened .text => some .message
  | .called => some .functionCall
  | _ => none

variable (f : Nat → Nat)

/-- Every announced block has its item under the index `f` gives it: what the encoder
keeps of it, and what the parser has seen of it. -/
structure Items (A : List (Nat × ContentBlockKind)) (block : Nat → BlockPhase)
    (s : EncoderState) (S : Seen) : Prop where
  added : S.added = A.map fun b => (f b.1, itemKind b.2)
  finished : ∀ n ∈ S.finished, ∃ b ∈ A, n = f b.1
  openAs : ∀ b ∈ A, S.openAs (f b.1) = live (block b.1)
  mapped : ∀ b ∈ A, (block b.1).isOpen = true →
    s.canonicalToOutput.lookup b.1 = some (f b.1)
  texts : ∀ n, (s.textBuf.lookup n).isSome = true ↔
    ∃ b ∈ A, n = f b.1 ∧ b.2 = .text ∧ (block b.1).isOpen = true
  reasonings : ∀ n, s.reasoningBuf.lookup n = none

variable {f} {A : List (Nat × ContentBlockKind)} {block block' : Nat → BlockPhase}
  {s s' : EncoderState} {S S' : Seen}

theorem lookup_map_eq_none {n : Nat} (h : ∀ b ∈ A, f b.1 ≠ n) :
    (A.map fun b => (f b.1, itemKind b.2)).lookup n = none := by
  rw [List.lookup_eq_none_iff]
  intro p hp
  obtain ⟨b, hb, rfl⟩ := List.mem_map.mp hp
  exact bne_iff_ne.mpr (Ne.symm (h b hb))

/-- A block is announced: its item is added under the next index. -/
theorem Items.add (h : Items f A block s S) {i : Nat} {kind : ContentBlockKind}
    {item : AddedItem} (hitem : item.kind = itemKind kind) (happart : ∀ b ∈ A, f b.1 ≠ f i)
    (hblock : ∀ b ∈ A, block' b.1 = block b.1) (hlive : live (block' i) = some item.kind)
    (hopen : (block' i).isOpen = true)
    (hmapped : s'.canonicalToOutput = s.canonicalToOutput.insert i (f i))
    (htexts : ∀ n, (s'.textBuf.lookup n).isSome = true ↔
      n = f i ∧ kind = .text ∨ (s.textBuf.lookup n).isSome = true)
    (hreasonings : s'.reasoningBuf = s.reasoningBuf) :
    Items f (A ++ [(i, kind)]) block' s' (S.add (.added (f i) (some item))) := by
  have hnew : S.added.lookup (f i) = none := by
    rw [h.added]
    exact lookup_map_eq_none happart
  have hfresh : f i ∉ S.finished := by
    intro hmem
    obtain ⟨b, hb, he⟩ := h.finished _ hmem
    exact happart b hb he.symm
  refine ⟨?_, ?_, ?_, ?_, ?_, fun n => by rw [hreasonings]; exact h.reasonings n⟩
  · show S.added ++ [(f i, item.kind)] = _
    rw [h.added, List.map_append, hitem]
    rfl
  · intro n hn
    obtain ⟨b, hb, he⟩ := h.finished n hn
    exact ⟨b, List.mem_append_left _ hb, he⟩
  · intro b hb
    rw [Seen.openAs_add (f i) item hnew hfresh]
    rcases List.mem_append.mp hb with hb | hb
    · rw [if_neg (happart b hb), hblock b hb, h.openAs b hb]
    · obtain rfl := List.mem_singleton.mp hb
      rw [if_pos rfl, hlive]
  · intro b hb hbopen
    rw [hmapped]
    rcases List.mem_append.mp hb with hb | hb
    · have hne : b.1 ≠ i := fun he => happart b hb (by rw [he])
      rw [AList.lookup_insert_ne hne]
      exact h.mapped b hb (by rwa [← hblock b hb])
    · obtain rfl := List.mem_singleton.mp hb
      exact AList.lookup_insert _
  · intro n
    rw [htexts, h.texts]
    constructor
    · rintro (⟨rfl, rfl⟩ | ⟨b, hb, hn, htext, hbopen⟩)
      · exact ⟨(i, .text), List.mem_append_right _ List.mem_cons_self, rfl, rfl, hopen⟩
      · exact ⟨b, List.mem_append_left _ hb, hn, htext, by rwa [hblock b hb]⟩
    · rintro ⟨b, hb, hn, htext, hbopen⟩
      rcases List.mem_append.mp hb with hb | hb
      · exact Or.inr ⟨b, hb, hn, htext, by rwa [← hblock b hb]⟩
      · obtain rfl := List.mem_singleton.mp hb
        exact Or.inl ⟨hn, htext⟩

/-- Nothing of the announced blocks changes. -/
theorem Items.congr (h : Items f A block s S) (hblock : ∀ b ∈ A, block' b.1 = block b.1)
    (hadded : S'.added = S.added) (hfinished : S'.finished = S.finished)
    (hmapped : s'.canonicalToOutput = s.canonicalToOutput)
    (htexts : ∀ n, (s'.textBuf.lookup n).isSome = true ↔ (s.textBuf.lookup n).isSome = true)
    (hreasonings : s'.reasoningBuf = s.reasoningBuf) : Items f A block' s' S' := by
  refine ⟨hadded.trans h.added, fun n hn => h.finished n (hfinished ▸ hn), ?_, ?_, ?_,
    fun n => by rw [hreasonings]; exact h.reasonings n⟩
  · intro b hb
    rw [hblock b hb, ← h.openAs b hb, Seen.openAs, Seen.openAs, hadded, hfinished]
  · intro b hb hopen
    rw [hmapped]
    exact h.mapped b hb (by rwa [← hblock b hb])
  · intro n
    rw [htexts, h.texts]
    refine exists_congr fun b => and_congr_right fun hb => ?_
    rw [hblock b hb]

/-- An announced block goes on: its item may be done, and is let go of when the block
is closed. -/
theorem Items.update (h : Items f A block s S) {i : Nat} {kind : ContentBlockKind}
    (hi : (i, kind) ∈ A) (hinj : ∀ b ∈ A, ∀ c ∈ A, f b.1 = f c.1 → b = c)
    (hblock : ∀ j, j ≠ i → block' j = block j) (hadded : S'.added = S.added)
    (hfinished : ∀ n ∈ S'.finished, n ∈ S.finished ∨ n = f i)
    (hopenAs : ∀ n, S'.openAs n = if n = f i then live (block' i) else S.openAs n)
    (hmapped : ∀ j, (block' j).isOpen = true →
      s'.canonicalToOutput.lookup j = s.canonicalToOutput.lookup j)
    (hopen : (block' i).isOpen = true → (block i).isOpen = true)
    (htexts : ∀ n, (s'.textBuf.lookup n).isSome = true ↔
      (s.textBuf.lookup n).isSome = true ∧ (n = f i → (block' i).isOpen = true))
    (hreasonings : s'.reasoningBuf = s.reasoningBuf) : Items f A block' s' S' := by
  have hother : ∀ b ∈ A, b.1 ≠ i → f b.1 ≠ f i := fun b hb hne he =>
    hne (congrArg Prod.fst (hinj b hb (i, kind) hi he))
  refine ⟨hadded.trans h.added, ?_, ?_, ?_, ?_, fun n => by rw [hreasonings]; exact h.reasonings n⟩
  · intro n hn
    rcases hfinished n hn with hn | rfl
    · exact h.finished n hn
    · exact ⟨(i, kind), hi, rfl⟩
  · intro b hb
    rw [hopenAs]
    by_cases hbi : b.1 = i
    · rw [if_pos (congrArg f hbi), hbi]
    · rw [if_neg (hother b hb hbi), h.openAs b hb, hblock _ hbi]
  · intro b hb hbopen
    rw [hmapped _ hbopen]
    by_cases hbi : b.1 = i
    · rw [hbi] at hbopen
      exact h.mapped b hb (by rw [hbi]; exact hopen hbopen)
    · exact h.mapped b hb (by rwa [← hblock _ hbi])
  · intro n
    rw [htexts, h.texts]
    constructor
    · rintro ⟨⟨b, hb, hn, htext, hbopen⟩, hstill⟩
      refine ⟨b, hb, hn, htext, ?_⟩
      by_cases hbi : b.1 = i
      · rw [hbi]
        exact hstill (by rw [hn, hbi])
      · rwa [hblock _ hbi]
    · rintro ⟨b, hb, hn, htext, hbopen⟩
      by_cases hbi : b.1 = i
      · rw [hbi] at hbopen
        exact ⟨⟨b, hb, hn, htext, by rw [hbi]; exact hopen hbopen⟩, fun _ => hbopen⟩
      · rw [hblock _ hbi] at hbopen
        exact ⟨⟨b, hb, hn, htext, hbopen⟩, fun he => absurd (hn.symm.trans he) (hother b hb hbi)⟩

/-! ## The encoder along the stream -/

variable (f) in
/-- The parts that are sent, under the indices of the items. -/
def sentParts (ps : List Part) : List Part :=
  (ps.filter fun p => !p.2.isEmpty).map fun p => (f p.1, p.2)

theorem sentParts_append (ps qs : List Part) :
    sentParts f (ps ++ qs) = sentParts f ps ++ sentParts f qs := by
  rw [sentParts, List.filter_append, List.map_append]
  rfl

variable (f) in
/-- The blocks have the first indices of `u32`, in order. -/
def Placed (A : List (Nat × ContentBlockKind)) : Prop :=
  ∀ n b, A[n]? = some b → f b.1 = n ∧ n < 4294967296

theorem Placed.of_append {B : List (Nat × ContentBlockKind)} (h : Placed f (A ++ B)) :
    Placed f A := by
  intro n b hb
  refine h n b ?_
  rw [List.getElem?_append_left (List.getElem?_eq_some_iff.mp hb).1, hb]

theorem Placed.inj (h : Placed f A) : ∀ b ∈ A, ∀ c ∈ A, f b.1 = f c.1 → b = c := by
  intro b hb c hc he
  obtain ⟨n, hn⟩ := List.mem_iff_getElem?.mp hb
  obtain ⟨k, hk⟩ := List.mem_iff_getElem?.mp hc
  obtain ⟨rfl, -⟩ := h n b hn
  obtain ⟨rfl, -⟩ := h k c hk
  rw [← he, hn] at hk
  exact Option.some.inj hk

theorem Placed.lt (h : Placed f A) {b : Nat × ContentBlockKind} (hb : b ∈ A) :
    f b.1 < 4294967296 := by
  obtain ⟨n, hn⟩ := List.mem_iff_getElem?.mp hb
  obtain ⟨hfn, hlt⟩ := h n b hn
  rwa [hfn]

/-- The next block has the next index. -/
theorem Placed.last {b : Nat × ContentBlockKind} (h : Placed f (A ++ [b])) :
    f b.1 = A.length ∧ A.length < 4294967296 ∧ ∀ c ∈ A, f c.1 ≠ f b.1 := by
  obtain ⟨hlast, hlt⟩ := h A.length b List.getElem?_concat_length
  refine ⟨hlast, hlt, fun c hc he => ?_⟩
  obtain ⟨n, hn⟩ := List.mem_iff_getElem?.mp hc
  have hlength := (List.getElem?_eq_some_iff.mp hn).1
  obtain ⟨hfn, -⟩ := h.of_append n c hn
  omega

variable (f) in
/-- The encoder, and what is read of it, after the events `past`, which leave the
envelope at `m` before the end of the response. -/
structure Serves (past : List StreamEvent) (m : Envelope) (s : EncoderState) (r : Read) :
    Prop where
  begun : r.seen.begun = m.started
  running : r.seen.completed = false
  next : s.outputIndex = (starts (announcedParts past)).length % 4294967296
  items : Items f (starts (announcedParts past)) m.block s r.seen
  parts : r.parts = sentParts f (announcedParts past)

variable {past : List StreamEvent} {m : Envelope} {e : StreamEvent} {r : Read}
  {clock : Option Nat}

theorem starts_announced_concat (past : List StreamEvent) (e : StreamEvent) :
    starts (announcedParts (past ++ [e])) =
      starts (announcedParts past) ++ starts e.announced := by
  rw [announcedParts_concat, starts_append]

/-- An event that announces no block. -/
theorem Serves.proceed (h : Serves f past m s r) {r' : Read} (hstarts : starts e.announced = [])
    (hbegun : r'.seen.begun = (m.after e).started)
    (hrunning : r'.seen.completed = r.seen.completed)
    (hparts : r'.parts = r.parts ++ sentParts f e.announced)
    (hnext : s'.outputIndex = s.outputIndex)
    (hitems : Items f (starts (announcedParts past)) (m.after e).block s' r'.seen) :
    Serves f (past ++ [e]) (m.after e) s' r' := by
  have hsame : starts (announcedParts (past ++ [e])) = starts (announcedParts past) := by
    rw [starts_announced_concat, hstarts, List.append_nil]
  refine ⟨hbegun, hrunning.trans h.running, ?_, by rwa [hsame], ?_⟩
  · rw [hsame, hnext, h.next]
  · rw [announcedParts_concat, sentParts_append, hparts, h.parts]

/-- An item is added for the next announced block. -/
theorem Serves.add (h : Serves f past m s r) {i : Nat} {kind : ContentBlockKind}
    {item : AddedItem} (hannounced : starts e.announced = [(i, kind)])
    (hitem : item.kind = itemKind kind)
    (hplaced : Placed f (starts (announcedParts (past ++ [e]))))
    (hstarted : (m.after e).started = m.started)
    (hblock : ∀ b ∈ starts (announcedParts past), (m.after e).block b.1 = m.block b.1)
    (hlive : live ((m.after e).block i) = some item.kind)
    (hopen : ((m.after e).block i).isOpen = true)
    (hparts : signalParts (.added (f i) (some item)) = sentParts f e.announced)
    (hnext : s'.outputIndex = Wire.addU32 s.outputIndex 1)
    (hmapped : s'.canonicalToOutput = s.canonicalToOutput.insert i (f i))
    (htexts : ∀ n, (s'.textBuf.lookup n).isSome = true ↔
      n = f i ∧ kind = .text ∨ (s.textBuf.lookup n).isSome = true)
    (hreasonings : s'.reasoningBuf = s.reasoningBuf) :
    Serves f (past ++ [e]) (m.after e) s'
      { seen := r.seen.add (.added (f i) (some item))
        parts := r.parts ++ signalParts (.added (f i) (some item)) } := by
  rw [starts_announced_concat, hannounced] at hplaced
  obtain ⟨-, hlt, happart⟩ := hplaced.last
  refine ⟨h.begun.trans hstarted.symm, h.running, ?_, ?_, ?_⟩
  · rw [starts_announced_concat, hannounced, List.length_append, hnext, h.next, Wire.addU32]
    simp
  · rw [starts_announced_concat, hannounced]
    exact h.items.add hitem happart hblock hlive hopen hmapped htexts hreasonings
  · rw [announcedParts_concat, sentParts_append, h.parts, hparts]

/-- The index of the next item is new to the parser. -/
theorem Serves.admits (h : Serves f past m s r) {i : Nat} {kind : ContentBlockKind}
    (hannounced : starts e.announced = [(i, kind)]) (hbegun : m.started = true)
    (hplaced : Placed f (starts (announcedParts (past ++ [e])))) (item : AddedItem) :
    f i = s.outputIndex ∧ f i < 4294967296 ∧ r.seen.Admits (.added (f i) (some item)) := by
  rw [starts_announced_concat, hannounced] at hplaced
  obtain ⟨hlast, hlt, happart⟩ := hplaced.last
  have hfi : f i = (starts (announcedParts past)).length := hlast
  refine ⟨?_, hfi ▸ hlt, h.begun.trans hbegun, h.running, ?_⟩
  · rw [h.next, Nat.mod_eq_of_lt hlt, hfi]
  · rw [h.items.added]
    exact lookup_map_eq_none happart

theorem ne_of_placed {i : Nat} {kind : ContentBlockKind}
    (hannounced : starts e.announced = [(i, kind)])
    (hplaced : Placed f (starts (announcedParts (past ++ [e])))) :
    ∀ b ∈ starts (announcedParts past), b.1 ≠ i := by
  rw [starts_announced_concat, hannounced] at hplaced
  intro b hb he
  exact hplaced.last.2.2 b hb (congrArg f he)

theorem accepts_startText {i : Nat} (hbegun : m.started = true)
    (hplaced : Placed f (starts (announcedParts (past ++ [.contentBlockStart i .text])))) :
    Accepts watch (Serves f past m) (startText i)
      (Serves f (past ++ [.contentBlockStart i .text]) (m.after (.contentBlockStart i .text))) := by
  intro s r h
  obtain ⟨hfi, hlt, hadmits⟩ := h.admits rfl hbegun hplaced .message
  have hadded : chunkSignal (itemAdded s.outputIndex
      (.message ("msg_" ++ toString s.outputIndex) "in_progress" [])) =
      some (.added (f i) (some .message)) := by
    rw [← hfi]
    exact signal_itemAdded hlt _
  refine ⟨_, Runs.exec_cons_eq_some.mpr ⟨_, watch_admitted hadded hadmits,
    Runs.exec_cons_eq_some.mpr ⟨_, watch_silent ⟨_, rfl⟩ rfl, rfl⟩⟩, ?_⟩
  refine h.add rfl rfl hplaced rfl ?_ ?_ ?_ rfl rfl ?_ ?_ rfl
  · intro b hb
    exact Envelope.setBlock_block_of_ne m _ (ne_of_placed rfl hplaced b hb)
  · exact congrArg live (Envelope.setBlock_block_self m i _)
  · exact congrArg BlockPhase.isOpen (Envelope.setBlock_block_self m i _)
  · show s.canonicalToOutput.insert i s.outputIndex = _
    rw [hfi]
  · intro n
    show ((s.textBuf.insert s.outputIndex "").lookup n).isSome = true ↔ _
    rw [← hfi]
    by_cases hn : n = f i
    · subst hn
      simp
    · simp [AList.lookup_insert_ne hn, hn]

theorem accepts_startCall {i : Nat} {id name : String}
    (hallow : m.Allows true (.toolCallStart i id name)) (hbegun : m.started = true)
    (hplaced : Placed f (starts (announcedParts (past ++ [.toolCallStart i id name])))) :
    Accepts watch (Serves f past m) (startCall i id name)
      (Serves f (past ++ [.toolCallStart i id name]) (m.after (.toolCallStart i id name))) := by
  intro s r h
  have hphase : m.block i = .opened .toolCall := by
    simpa [BlockPhase.takesStart] using hallow.2
  have hcalled : (m.after (.toolCallStart i id name)).block i = .called := by
    rw [Envelope.after, Envelope.setBlock_block_self, hphase]
    rfl
  obtain ⟨hfi, hlt, hadmits⟩ := h.admits rfl hbegun hplaced (.functionCall id name)
  have hadded : chunkSignal (itemAdded s.outputIndex
      (.functionCall ("fc_" ++ toString s.outputIndex) id name "" "in_progress")) =
      some (.added (f i) (some (.functionCall id name))) := by
    rw [← hfi]
    exact signal_itemAdded hlt _
  refine ⟨_, Runs.exec_cons_eq_some.mpr ⟨_, watch_admitted hadded hadmits, rfl⟩, ?_⟩
  refine h.add rfl rfl hplaced rfl ?_ (congrArg live hcalled) (congrArg BlockPhase.isOpen hcalled)
    rfl rfl ?_ ?_ rfl
  · intro b hb
    exact Envelope.setBlock_block_of_ne m _ (ne_of_placed rfl hplaced b hb)
  · show s.canonicalToOutput.insert i s.outputIndex = _
    rw [hfi]
  · intro n
    exact (or_iff_right fun hn => absurd hn.2 (by decide)).symm

/-- A piece of a block is sent under the index of its item; an empty one is not read. -/
theorem Serves.piece (h : Serves f past m s r) {i : Nat} {p : BlockPart} {chunk : Chunk}
    (hne : ∀ kind, p ≠ .start kind) (hannounced : e.announced = [(i, p)])
    (hafter : m.after e = m)
    (hread : p.isEmpty = true ∧ (∃ e, chunk = .ok e) ∧ chunkSignal chunk = none ∨
      p.isEmpty = false ∧ ∃ sg, chunkSignal chunk = some sg ∧ r.seen.Admits sg ∧
        r.seen.add sg = r.seen ∧ signalParts sg = [(f i, p)])
    (hnext : s'.outputIndex = s.outputIndex)
    (hmapped : s'.canonicalToOutput = s.canonicalToOutput)
    (htexts : ∀ n, (s'.textBuf.lookup n).isSome = true ↔ (s.textBuf.lookup n).isSome = true)
    (hreasonings : s'.reasoningBuf = s.reasoningBuf) :
    ∃ r', Runs.exec watch r [chunk] = some r' ∧ Serves f (past ++ [e]) (m.after e) s' r' := by
  have hstarts : starts e.announced = [] := by
    rw [hannounced, starts, List.filterMap_cons_none (startOf_of_ne hne)]
    rfl
  have hitems : Items f (starts (announcedParts past)) (m.after e).block s' r.seen :=
    h.items.congr (fun b _ => by rw [hafter]) rfl rfl hmapped htexts hreasonings
  have hbegun : r.seen.begun = (m.after e).started := by rw [hafter, h.begun]
  rcases hread with ⟨hempty, hok, hsignal⟩ | ⟨hfull, sg, hsignal, hadmits, hadd, hparts⟩
  · refine ⟨r, Runs.exec_cons_eq_some.mpr ⟨r, watch_silent hok hsignal, rfl⟩, ?_⟩
    refine h.proceed hstarts hbegun rfl ?_ hnext hitems
    simp [hannounced, sentParts, hempty]
  · refine ⟨_, Runs.exec_cons_eq_some.mpr ⟨_, watch_admitted hsignal hadmits, rfl⟩, ?_⟩
    rw [hadd]
    refine h.proceed hstarts hbegun rfl ?_ hnext hitems
    simp [hannounced, sentParts, hfull, hparts]

theorem withOutput_of_lookup {what : String} {i n : Nat} {g : Nat → Encode}
    (h : s.canonicalToOutput.lookup i = some n) : withOutput what i g s = g n s := by
  simp only [withOutput, h]

theorem nonEmptyText_cases (text : String) :
    (text == "") = true ∧ nonEmptyText text = none ∨
      (text == "") = false ∧ ∃ t, nonEmptyText text = some t ∧ t.val = text := by
  by_cases h : text = ""
  · exact Or.inl ⟨by simp [h], by simp [nonEmptyText, h]⟩
  · exact Or.inr ⟨by simp [h], ⟨text, h⟩, by simp [nonEmptyText, h], rfl⟩

theorem accepts_text {i : Nat} {text : String} (hallow : m.Allows true (.textDelta i text))
    (hmem : (i, .text) ∈ starts (announcedParts past))
    (hplaced : Placed f (starts (announcedParts past))) :
    Accepts watch (Serves f past m) (encodeText i text)
      (Serves f (past ++ [.textDelta i text]) (m.after (.textDelta i text))) := by
  intro s r h
  have hphase := hallow.2
  have hopen : (m.block i).isOpen = true := by rw [hphase]; rfl
  have hlookup := h.items.mapped _ hmem hopen
  have hbuf : (s.textBuf.lookup (f i)).isSome = true :=
    (h.items.texts (f i)).mpr ⟨_, hmem, rfl, rfl, hopen⟩
  have hadmits : ∀ t, r.seen.Admits (.text (f i) t) := fun t =>
    ⟨h.running, by rw [h.items.openAs _ hmem, hphase]; rfl⟩
  rw [encodeText, withOutput_of_lookup hlookup]
  refine h.piece (p := .text text) (by simp) rfl rfl ?_ rfl rfl (isSome_pushText hbuf) rfl
  rw [signal_textDelta (hplaced.lt hmem)]
  rcases nonEmptyText_cases text with ⟨hempty, hnone⟩ | ⟨hfull, t, hsome, ht⟩
  · exact Or.inl ⟨hempty, ⟨_, rfl⟩, by rw [hnone]; rfl⟩
  · refine Or.inr ⟨hfull, .text (f i) t, by rw [hsome]; rfl, hadmits t, rfl, ?_⟩
    rw [signalParts, ht]

theorem accepts_arguments {i : Nat} {fragment : String}
    (hallow : m.Allows true (.toolCallArgumentsDelta i fragment))
    (hmem : (i, .toolCall) ∈ starts (announcedParts past))
    (hplaced : Placed f (starts (announcedParts past))) :
    Accepts watch (Serves f past m) (encodeArguments i fragment)
      (Serves f (past ++ [.toolCallArgumentsDelta i fragment])
        (m.after (.toolCallArgumentsDelta i fragment))) := by
  intro s r h
  have hphase : m.block i = .called := by simpa [BlockPhase.takesArguments] using hallow.2
  have hopen : (m.block i).isOpen = true := by rw [hphase]; rfl
  have hlookup := h.items.mapped _ hmem hopen
  have hadmits : ∀ t, r.seen.Admits (.arguments (f i) t) := fun t =>
    ⟨h.running, by rw [h.items.openAs _ hmem, hphase]; rfl⟩
  rw [encodeArguments, withOutput_of_lookup hlookup]
  refine h.piece (p := .arguments fragment) (by simp) rfl rfl ?_ rfl rfl (fun _ => Iff.rfl) rfl
  rw [signal_argumentsDelta (hplaced.lt hmem)]
  rcases nonEmptyText_cases fragment with ⟨hempty, hnone⟩ | ⟨hfull, t, hsome, ht⟩
  · exact Or.inl ⟨hempty, ⟨_, rfl⟩, by rw [hnone]; rfl⟩
  · refine Or.inr ⟨hfull, .arguments (f i) t, by rw [hsome]; rfl, hadmits t, rfl, ?_⟩
    rw [signalParts, ht]

theorem accepts_stopCall {i : Nat} (hallow : m.Allows true (.toolCallStop i))
    (hmem : (i, .toolCall) ∈ starts (announcedParts past))
    (hplaced : Placed f (starts (announcedParts past))) :
    Accepts watch (Serves f past m) (stopCall i)
      (Serves f (past ++ [.toolCallStop i]) (m.after (.toolCallStop i))) := by
  intro s r h
  have hphase : m.block i = .called := by simpa [BlockPhase.takesStop] using hallow.2
  have hopen : (m.block i).isOpen = true := by rw [hphase]; rfl
  have hended : (m.after (.toolCallStop i)).block i = .ended := Envelope.setBlock_block_self m i _
  have hlookup := h.items.mapped _ hmem hopen
  have hadmits : r.seen.Admits (.done (f i) .functionCall) :=
    ⟨h.running, by rw [h.items.openAs _ hmem, hphase]; rfl⟩
  rw [stopCall, withOutput_of_lookup hlookup]
  refine ⟨_, Runs.exec_cons_eq_some.mpr ⟨_, watch_silent ⟨_, rfl⟩ rfl,
    Runs.exec_cons_eq_some.mpr ⟨_, watch_admitted (signal_itemDone (hplaced.lt hmem) _) hadmits,
      rfl⟩⟩, ?_⟩
  refine h.proceed rfl h.begun rfl (by simp [signalParts, sentParts, StreamEvent.announced,
    StreamEvent.part]) rfl ?_
  refine h.items.update hmem hplaced.inj (fun j hj => Envelope.setBlock_block_of_ne m _ hj) rfl
    (fun n hn => ?_) (fun n => ?_) (fun _ _ => rfl) (fun _ => hopen) (fun n => ?_) rfl
  · exact (List.mem_append.mp hn).imp_right List.mem_singleton.mp
  · rw [Seen.openAs_done, hended]
    rfl
  · rw [hended]
    exact (and_iff_left fun _ => rfl).symm

/-- The item of a text is done when its block closes. -/
theorem accepts_stopText {i : Nat} (hphase : m.block i = .opened .text)
    (hmem : (i, .text) ∈ starts (announcedParts past))
    (hplaced : Placed f (starts (announcedParts past))) :
    Accepts watch (Serves f past m) (stopBlock i)
      (Serves f (past ++ [.contentBlockStop i]) (m.after (.contentBlockStop i))) := by
  intro s r h
  have hopen : (m.block i).isOpen = true := by rw [hphase]; rfl
  have hclosed : (m.after (.contentBlockStop i)).block i = .closed :=
    Envelope.setBlock_block_self m i _
  have hlookup := h.items.mapped _ hmem hopen
  obtain ⟨text, htext⟩ := Option.isSome_iff_exists.mp
    ((h.items.texts (f i)).mpr ⟨_, hmem, rfl, rfl, hopen⟩)
  have hadmits : r.seen.Admits (.done (f i) .message) :=
    ⟨h.running, by rw [h.items.openAs _ hmem, hphase]; rfl⟩
  simp only [stopBlock, hlookup, htext]
  refine ⟨_, Runs.exec_cons_eq_some.mpr ⟨_, watch_silent ⟨_, rfl⟩ rfl,
    Runs.exec_cons_eq_some.mpr ⟨_, watch_silent ⟨_, rfl⟩ rfl,
      Runs.exec_cons_eq_some.mpr
        ⟨_, watch_admitted (signal_itemDone (hplaced.lt hmem) _) hadmits, rfl⟩⟩⟩, ?_⟩
  refine h.proceed rfl h.begun rfl (by simp [signalParts, sentParts, StreamEvent.announced,
    StreamEvent.part]) rfl ?_
  refine h.items.update hmem hplaced.inj (fun j hj => Envelope.setBlock_block_of_ne m _ hj) rfl
    (fun n hn => ?_) (fun n => ?_) (fun j hj => ?_) (fun _ => hopen) (fun n => ?_) rfl
  · exact (List.mem_append.mp hn).imp_right List.mem_singleton.mp
  · rw [Seen.openAs_done, hclosed]
    rfl
  · have hne : j ≠ i := by
      rintro rfl
      rw [hclosed] at hj
      cases hj
    exact AList.lookup_erase_ne hne
  · rw [hclosed]
    by_cases hn : n = f i
    · subst hn
      simp [BlockPhase.isOpen]
    · simp [hn]

/-- The block of a call closes after its item was done. -/
theorem accepts_stopTool {i : Nat} (hphase : m.block i = .ended)
    (hmem : (i, .toolCall) ∈ starts (announcedParts past))
    (hplaced : Placed f (starts (announcedParts past))) :
    Accepts watch (Serves f past m) (stopBlock i)
      (Serves f (past ++ [.contentBlockStop i]) (m.after (.contentBlockStop i))) := by
  intro s r h
  have hopen : (m.block i).isOpen = true := by rw [hphase]; rfl
  have hclosed : (m.after (.contentBlockStop i)).block i = .closed :=
    Envelope.setBlock_block_self m i _
  have hlookup := h.items.mapped _ hmem hopen
  have hbuf : s.textBuf.lookup (f i) = none := by
    refine Option.not_isSome_iff_eq_none.mp fun hsome => ?_
    obtain ⟨b, hb, hfb, htext, -⟩ := (h.items.texts (f i)).mp hsome
    rw [← hplaced.inj _ hmem b hb hfb] at htext
    cases htext
  simp only [stopBlock, hlookup, hbuf, h.items.reasonings]
  refine ⟨r, rfl, h.proceed rfl h.begun rfl (by simp [sentParts, StreamEvent.announced,
    StreamEvent.part]) rfl ?_⟩
  refine h.items.update hmem hplaced.inj (fun j hj => Envelope.setBlock_block_of_ne m _ hj) rfl
    (fun n hn => Or.inl hn) (fun n => ?_) (fun j hj => ?_) (fun _ => hopen) (fun n => ?_) rfl
  · by_cases hn : n = f i
    · rw [if_pos hn, hn, h.items.openAs _ hmem, hphase, hclosed]
      rfl
    · rw [if_neg hn]
  · have hne : j ≠ i := by
      rintro rfl
      rw [hclosed] at hj
      cases hj
    exact AList.lookup_erase_ne hne
  · rw [hclosed]
    refine (and_iff_left_of_imp fun hsome hn => ?_).symm
    rw [hn, hbuf] at hsome
    cases hsome

/-- The kinds of blocks that are compared: the wire has others, but the parser reads no
other. -/
def HasItemKind : StreamEvent → Prop
  | .contentBlockStart _ kind => kind = .text ∨ kind = .toolCall
  | _ => True

instance : (e : StreamEvent) → Decidable (HasItemKind e)
  | .contentBlockStart _ _ => inferInstanceAs (Decidable (_ ∨ _))
  | .responseStart _ _ _ | .messageStart _ | .textDelta _ _ | .reasoningDelta _ _
  | .toolCallStart _ _ _ | .toolCallArgumentsDelta _ _ | .toolCallStop _ | .contentBlockStop _
  | .usageDelta _ | .messageStop _ _ | .responseStop _ | .error _ | .rawProviderEvent _ _ _ =>
    isTrue trivial

/-- A block of a stream with only these kinds has one of them. -/
theorem kind_of_started (hkinds : ∀ e ∈ past, HasItemKind e) {i : Nat} {kind : ContentBlockKind}
    (h : (i, kind) ∈ started past) : kind = .text ∨ kind = .toolCall := by
  obtain ⟨p, hp, hstart⟩ := List.mem_filterMap.mp h
  obtain ⟨e, he, hpart⟩ := List.mem_filterMap.mp hp
  have hkind := hkinds e he
  cases e <;> cases hpart <;> cases hstart
  exact hkind

/-- What is called is announced. -/
theorem announced_of_called (hexec : Runs.exec (Envelope.step true) {} past = some m) {i : Nat}
    (hphase : m.block i = .called ∨ m.block i = .ended) :
    (i, .toolCall) ∈ starts (announcedParts past) := by
  refine mem_starts_announced.mpr (Or.inr ⟨rfl, mem_calledIndices.mpr ?_⟩)
  have hspells := spells_of_exec hexec i
  rcases hphase with hphase | hphase
  · rw [hphase] at hspells
    obtain ⟨n, hn⟩ := hspells
    rw [hn]
    exact List.mem_cons_self
  · rw [hphase] at hspells
    obtain ⟨n, hn⟩ := hspells
    rw [hn]
    exact List.mem_cons_self

theorem announced_of_text (hexec : Runs.exec (Envelope.step true) {} past = some m) {i : Nat}
    (hphase : m.block i = .opened .text) : (i, .text) ∈ starts (announcedParts past) :=
  mem_starts_announced.mpr (Or.inl ⟨by decide,
    (recalls_of_exec hexec).kind i .text (by rw [hphase]; rfl)⟩)

/-- An event that is not written, and changes no announced block. -/
theorem accepts_silent {g : Encode} (hquiet : ∀ s, (g s).2 = [])
    (hkeeps : ∀ s, (g s).1.outputIndex = s.outputIndex ∧
      (g s).1.canonicalToOutput = s.canonicalToOutput ∧ (g s).1.textBuf = s.textBuf ∧
      (g s).1.reasoningBuf = s.reasoningBuf)
    (hannounced : e.announced = []) (hstarted : (m.after e).started = m.started)
    (hblock : ∀ b ∈ starts (announcedParts past), (m.after e).block b.1 = m.block b.1) :
    Accepts watch (Serves f past m) g (Serves f (past ++ [e]) (m.after e)) := by
  intro s r h
  obtain ⟨hnext, hmapped, htexts, hreasonings⟩ := hkeeps s
  rw [hquiet]
  refine ⟨r, rfl, h.proceed (by rw [hannounced]; rfl) (h.begun.trans hstarted.symm) rfl ?_ hnext ?_⟩
  · rw [hannounced]
    exact (List.append_nil _).symm
  · exact h.items.congr hblock rfl rfl hmapped (fun n => by rw [htexts]) hreasonings

theorem accepts_startResponse (id model : String) (created : Nat) :
    Accepts watch (Serves f past m) (startResponse clock id model created)
      (Serves f (past ++ [.responseStart id model created])
        (m.after (.responseStart id model created))) := by
  intro s r h
  refine ⟨_, Runs.exec_cons_eq_some.mpr ⟨_, watch_admitted rfl trivial, rfl⟩, ?_⟩
  refine h.proceed rfl rfl rfl (by simp [signalParts, sentParts, StreamEvent.announced,
    StreamEvent.part]) rfl ?_
  exact h.items.congr (fun _ _ => rfl) rfl rfl rfl (fun _ => Iff.rfl) rfl

theorem accepts_error (message : String) :
    Accepts watch (Serves f past m) (emit (errorChunk message))
      (Serves f (past ++ [.error message]) (m.after (.error message))) := by
  intro s r h
  refine ⟨_, Runs.exec_cons_eq_some.mpr ⟨_, watch_admitted (f := .failed false message) rfl
    trivial, rfl⟩, ?_⟩
  refine h.proceed rfl h.begun rfl (by simp [signalParts, sentParts, StreamEvent.announced,
    StreamEvent.part]) rfl ?_
  exact h.items.congr (fun _ _ => rfl) rfl rfl rfl (fun _ => Iff.rfl) rfl

/-- A block that starts has no item yet. -/
theorem ne_of_fresh (hexec : Runs.exec (Envelope.step true) {} past = some m) {i : Nat}
    (hfresh : m.block i = .fresh) : ∀ b ∈ starts (announcedParts past), b.1 ≠ i := by
  rintro ⟨j, kind⟩ hb rfl
  refine ((recalls_of_exec hexec).fresh j).mp hfresh ?_
  exact List.mem_map_of_mem (started_of_announced hexec hb)

/-- An event of a stream is written so that the parser admits it. -/
theorem accepts_encodeEvent (hexec : Runs.exec (Envelope.step true) {} past = some m)
    (hallow : m.Allows true e) (hkinds : ∀ e' ∈ past ++ [e], HasItemKind e')
    (hstop : e.isResponseStop = false)
    (hplaced : Placed f (starts (announcedParts (past ++ [e])))) :
    Accepts watch (Serves f past m) (encodeEvent clock e)
      (Serves f (past ++ [e]) (m.after e)) := by
  have hpast : ∀ e' ∈ past, HasItemKind e' := fun e' he => hkinds e' (List.mem_append_left _ he)
  have hold : Placed f (starts (announcedParts past)) := by
    rw [starts_announced_concat] at hplaced
    exact hplaced.of_append
  cases e with
  | responseStop usage => cases hstop
  | responseStart id model created => exact accepts_startResponse id model created
  | messageStart role =>
    exact accepts_silent (fun _ => rfl) (fun _ => ⟨rfl, rfl, rfl, rfl⟩) rfl rfl fun _ _ => rfl
  | contentBlockStart i kind =>
    have hbegun : m.started = true := started_of_allows hexec hallow rfl rfl
    rcases hkinds _ (List.mem_append_right _ List.mem_cons_self) with rfl | rfl
    · exact accepts_startText hbegun hplaced
    · refine accepts_silent (g := encodeEvent clock (.contentBlockStart i .toolCall))
        (fun _ => rfl) (fun _ => ⟨rfl, rfl, rfl, rfl⟩) rfl rfl fun b hb => ?_
      exact Envelope.setBlock_block_of_ne m _ (ne_of_fresh hexec hallow.2.2 b hb)
  | textDelta i text => exact accepts_text hallow (announced_of_text hexec hallow.2) hold
  | reasoningDelta i text =>
    have hstart : (i, .reasoning) ∈ started past :=
      (recalls_of_exec hexec).kind i .reasoning (by rw [hallow.2]; rfl)
    rcases kind_of_started hpast hstart with hkind | hkind <;> cases hkind
  | toolCallStart i id name =>
    exact accepts_startCall hallow (started_of_allows hexec hallow rfl rfl) hplaced
  | toolCallArgumentsDelta i fragment =>
    have hphase : m.block i = .called := by simpa [BlockPhase.takesArguments] using hallow.2
    exact accepts_arguments hallow (announced_of_called hexec (Or.inl hphase)) hold
  | toolCallStop i =>
    have hphase : m.block i = .called := by simpa [BlockPhase.takesStop] using hallow.2
    exact accepts_stopCall hallow (announced_of_called hexec (Or.inl hphase)) hold
  | contentBlockStop i =>
    have hclose := hallow.2
    cases hphase : m.block i with
    | opened kind =>
      have hstart : (i, kind) ∈ started past :=
        (recalls_of_exec hexec).kind i kind (by rw [hphase]; rfl)
      rcases kind_of_started hpast hstart with rfl | rfl
      · exact accepts_stopText hphase (announced_of_text hexec hphase) hold
      · rw [hphase] at hclose
        cases hclose
    | ended =>
      exact accepts_stopTool hphase (announced_of_called hexec (Or.inr hphase)) hold
    | fresh | called | closed =>
      rw [hphase] at hclose
      cases hclose
  | usageDelta usage =>
    exact accepts_silent (fun _ => rfl) (fun _ => ⟨rfl, rfl, rfl, rfl⟩) rfl rfl fun _ _ => rfl
  | messageStop reason sequence =>
    exact accepts_silent (fun _ => rfl) (fun _ => ⟨rfl, rfl, rfl, rfl⟩) rfl rfl fun _ _ => rfl
  | error message => exact accepts_error message
  | rawProviderEvent provider eventName data =>
    exact accepts_silent (fun _ => rfl) (fun _ => ⟨rfl, rfl, rfl, rfl⟩) rfl rfl fun _ _ => rfl

/-- The response completes once every item is done. -/
theorem accepts_responseStop (usage : Option Usage) (hbegun : m.started = true)
    (hclosed : ∀ i, (m.block i).isOpen = false) :
    Accepts watch (Serves f past m) (encodeEvent clock (.responseStop usage)) fun _ r =>
      r.seen.begun = true ∧ r.parts = sentParts f (announcedParts past) := by
  intro s r h
  have hsettled : ∀ b ∈ r.seen.added, r.seen.openAs b.1 = none := by
    intro b hb
    rw [h.items.added] at hb
    obtain ⟨c, hc, rfl⟩ := List.mem_map.mp hb
    have hopen := hclosed c.1
    rw [h.items.openAs c hc]
    cases hphase : m.block c.1 with
    | fresh => rfl
    | closed => rfl
    | opened kind =>
      rw [hphase] at hopen
      cases hopen
    | called =>
      rw [hphase] at hopen
      cases hopen
    | ended =>
      rw [hphase] at hopen
      cases hopen
  refine ⟨_, Runs.exec_cons_eq_some.mpr ⟨_, watch_admitted rfl
    ⟨h.begun.trans hbegun, h.running, hsettled⟩, rfl⟩, h.begun.trans hbegun, ?_⟩
  rw [h.parts]
  exact List.append_nil _

theorem serves_init :
    Serves f [] {} { createdAt := clock.getD 0 } { seen := seen [], parts := [] } :=
  { begun := rfl
    running := rfl
    next := rfl
    items := { added := rfl, finished := nofun, openAs := nofun, mapped := nofun,
               texts := fun n => by simp [announcedParts, starts]
               reasonings := fun _ => rfl }
    parts := rfl }

/-- A stream is written so that the parser admits it, up to the end of the response. -/
theorem accepts_front {front : List StreamEvent}
    (hexec : Runs.exec (Envelope.step true) {} front = some m)
    (hkinds : ∀ e ∈ front, HasItemKind e) (hstop : ∀ e ∈ front, e.isResponseStop = false)
    (hplaced : Placed f (starts (announcedParts front))) :
    Accepts watch (Serves f [] {}) (forEach (encodeEvent clock) front) (Serves f front m) := by
  induction front using List.reverseRecOn generalizing m with
  | nil =>
    cases hexec
    exact accepts_skip
  | append_singleton front e ih =>
    obtain ⟨m₁, hpast, hnext⟩ := Runs.exec_append_eq_some.mp hexec
    obtain ⟨hallow, rfl⟩ := Envelope.exec_singleton_iff.mp hnext
    have hold : Placed f (starts (announcedParts front)) := by
      rw [starts_announced_concat] at hplaced
      exact hplaced.of_append
    have hlast : e ∈ front ++ [e] := List.mem_append_right _ List.mem_cons_self
    rw [forEach_append, forEach_singleton]
    exact (ih hpast (fun e' he => hkinds e' (List.mem_append_left _ he))
      (fun e' he => hstop e' (List.mem_append_left _ he)) hold).andThen
        (accepts_encodeEvent hpast hallow hkinds (hstop e hlast) hplaced)

/-! ## The round trip -/

/-- A part of the state that the output of a block does not change. -/
theorem field_withOutput {α : Type} {f : EncoderState → α} {what : String} {i : Nat}
    {g : Nat → Encode} (h : ∀ n s, f (g n s).1 = f s) (s : EncoderState) :
    f (withOutput what i g s).1 = f s := by
  unfold withOutput
  split
  · exact h _ s
  · rfl

theorem done_encodeEvent {e : StreamEvent} (h : e.isResponseStop = false) (s : EncoderState) :
    (encodeEvent clock e s).1.done = s.done := by
  cases e with
  | responseStop usage => cases h
  | contentBlockStart i kind =>
    rw [encodeEvent]
    split
    · rfl
    · split <;> rfl
  | contentBlockStop i =>
    simp only [encodeEvent, stopBlock]
    split
    · rfl
    · split
      · rfl
      · split <;> rfl
  | textDelta i text => exact field_withOutput (fun _ _ => rfl) s
  | reasoningDelta i text => exact field_withOutput (fun _ _ => rfl) s
  | toolCallArgumentsDelta i fragment => exact field_withOutput (fun _ _ => rfl) s
  | toolCallStop i => exact field_withOutput (fun _ _ => rfl) s
  | _ => rfl

/-- The whole stream is written, and its last event ends it. -/
theorem encode_eq {front : List StreamEvent} (last : StreamEvent)
    (h : ∀ e ∈ front, e.isResponseStop = false) :
    encode clock ((front ++ [last]).map .ok) =
      (forEach (encodeEvent clock) (front ++ [last]) { createdAt := clock.getD 0 }).2 := by
  rw [encode, untilDone_map_concat Except.ok last
    (fun e he s hs => (done_encodeEvent (h e he) s).trans hs) rfl]
  rfl

/-- The indices of the blocks in the order in which they are announced. -/
def order (es : List StreamEvent) : List Nat := startedIndices (announcedParts es)

/-- Blocks with different indices of `u32` are numbered by their order. -/
theorem placed_order {A : List (Nat × ContentBlockKind)} (hnodup : (A.map Prod.fst).Nodup)
    (hlt : ∀ b ∈ A, b.1 < 4294967296) : Placed (A.map Prod.fst).idxOf A := by
  have hlength : A.length ≤ 4294967296 := by
    have hsub : A.map Prod.fst ⊆ List.range 4294967296 := by
      intro i hi
      obtain ⟨b, hb, rfl⟩ := List.mem_map.mp hi
      exact List.mem_range.mpr (hlt b hb)
    have hle := (List.subperm_of_subset hnodup hsub).length_le
    rwa [List.length_map, List.length_range] at hle
  intro n b hb
  obtain ⟨hn, rfl⟩ := List.getElem?_eq_some_iff.mp hb
  refine ⟨?_, by omega⟩
  have hfst : n < (A.map Prod.fst).length := by rwa [List.length_map]
  rw [← List.getElem_map Prod.fst (h := hfst)]
  exact hnodup.idxOf_getElem n hfst

/-- A well-ordered response that was created is read as a lifecycle-valid stream. -/
theorem lifecycleValid_of_wellOrdered {es : List (String × Json)} (h : WellOrdered es)
    (hbegun : (seen (signals es)).begun = true) : LifecycleValid (events es) := by
  rw [lifecycleValid_iff, events_eq]
  have hrun := accepts_of_throughout (R := fun past => Agrees (seen past))
    (fun _ _ _ hok => accepts_apply hok) (throughout_of_forall fun _ _ _ => trivial) h
  obtain ⟨m, hm, hclosed⟩ := hrun.andThen (accepts_finalize hbegun) {} {} agrees_init
  exact ⟨m, hm, hclosed⟩

theorem wire_of_ok {es : List StreamEvent} {written : List (String × Json)}
    (h : encode clock (es.map .ok) = written.map .ok) : wire clock es = written := by
  rw [wire, h, List.filterMap_map]
  exact List.filterMap_some

/-- The blocks that are assembled of the parts that were sent. -/
theorem assemble_sentParts {ps : List Part}
    (h : ∀ p ∈ ps, ∀ q ∈ ps, f p.1 = f q.1 → p.1 = q.1) :
    assemble (sentParts f ps) = (assemble ps).map (Block.rename f) := by
  have hfull : ∀ p ∈ ps.filter fun p => !p.2.isEmpty, p ∈ ps := fun p hp =>
    List.mem_of_mem_filter hp
  rw [sentParts, assemble_rename fun p hp q hq => h p (hfull p hp) q (hfull q hq),
    assemble_nonEmpty]

/-- A lifecycle-valid stream of text and tool blocks, each tool block with one call around
its arguments, is written without an error and read back with its blocks, in the order in
which they are announced and numbered in that order, none left open. -/
theorem responses_round_trip {es : List StreamEvent} (hvalid : LifecycleValid es)
    (hlast : es.getLast?.any StreamEvent.isResponseStop = true)
    (hkinds : ∀ e ∈ es, HasItemKind e) (hcalls : CallsComplete es)
    (hindices : ∀ b ∈ started es, b.1 < 4294967296) (clockOverride : Option Nat) :
    (∀ chunk ∈ encode clockOverride (es.map .ok), ∃ e, chunk = .ok e) ∧
      LifecycleValid (readBack clockOverride es) ∧
      blocks (readBack clockOverride es) =
        (announcedBlocks es).map (Block.rename (order es).idxOf) ∧
      (announcedBlocks es).Perm (blocks es) := by
  obtain ⟨front, usage, m, rfl, -, -, -, hnoEnd⟩ := hvalid.split hlast
  obtain ⟨m₀, hlenient, -⟩ := lifecycleValid_iff.mp hvalid
  obtain ⟨m', hexec, hclosed⟩ :=
    lifecycleValid_toolsNested_iff.mp ⟨hvalid, hcalls.toolsNested hlenient⟩
  have hrooted := rooted_announced hexec (callFits_of_calledOnce hexec hcalls.calledOnce)
  have hperm := announcedBlocks_perm hexec hcalls.calledOnce
  obtain ⟨m₁, hfront, hend⟩ := Runs.exec_append_eq_some.mp hexec
  obtain ⟨hallow, rfl⟩ := Envelope.exec_singleton_iff.mp hend
  have hbegun : m₁.started = true := (Envelope.ordered_init.exec hfront).2 hallow.1
  have hsame : announcedParts (front ++ [.responseStop usage]) = announcedParts front := by
    rw [announcedParts_concat]
    exact List.append_nil _
  rw [hsame] at hrooted
  have hplaced : Placed (order (front ++ [.responseStop usage])).idxOf
      (starts (announcedParts front)) := by
    rw [order, hsame]
    refine placed_order hrooted.nodup fun b hb => hindices b ?_
    rw [started_append]
    exact List.mem_append_left _ (started_of_announced hfront hb)
  have hrun : Accepts watch (Serves (order (front ++ [.responseStop usage])).idxOf [] {})
      (andThen (forEach (encodeEvent clockOverride) front)
        (encodeEvent clockOverride (.responseStop usage))) fun _ r =>
      r.seen.begun = true ∧
        r.parts = sentParts (order (front ++ [.responseStop usage])).idxOf
          (announcedParts front) :=
    (accepts_front hfront (fun e he => hkinds e (List.mem_append_left _ he)) hnoEnd hplaced).andThen
      (accepts_responseStop usage hbegun hclosed.2)
  obtain ⟨r, hr, hseen, hparts⟩ := hrun _ _ serves_init
  obtain ⟨written, hok, hordered, hread, hsent⟩ := exec_watch hr
  rw [← forEach_singleton (encodeEvent clockOverride), ← forEach_append,
    ← encode_eq (.responseStop usage) hnoEnd] at hok
  have hwire := wire_of_ok hok
  refine ⟨?_, ?_, ?_, hperm⟩
  · rw [hok]
    intro chunk hmem
    obtain ⟨e, -, rfl⟩ := List.mem_map.mp hmem
    exact ⟨e, rfl⟩
  · rw [readBack, hwire]
    exact lifecycleValid_of_wellOrdered hordered (hread ▸ hseen)
  · have hinj : ∀ p ∈ announcedParts front, ∀ q ∈ announcedParts front,
        (order (front ++ [.responseStop usage])).idxOf p.1 =
          (order (front ++ [.responseStop usage])).idxOf q.1 → p.1 = q.1 := by
      intro p hp q _ he
      have hmem := hrooted.mem_startedIndices hp
      rw [order, hsame] at he
      exact (List.idxOf_inj hmem).mp he
    rw [readBack, hwire, blocks, parts_events, ← hsent, hparts, assemble_sentParts hinj,
      announcedBlocks, hsame]

/-- A call that is open while a text comes. -/
def interleaved : List StreamEvent :=
  [.responseStart "1" "gpt" 0, .messageStart .assistant, .contentBlockStart 3 .toolCall,
    .toolCallStart 3 "call_1" "search", .toolCallArgumentsDelta 3 "{}", .contentBlockStart 0 .text,
    .textDelta 0 "Let me look.", .toolCallStop 3, .contentBlockStop 3, .contentBlockStop 0,
    .messageStop .toolUse none, .responseStop (some { inputTokens := some 3 })]

theorem interleaved_round_trip :
    (∀ chunk ∈ encode none (interleaved.map .ok), ∃ e, chunk = .ok e) ∧
      LifecycleValid (readBack none interleaved) ∧
      blocks (readBack none interleaved) =
        (announcedBlocks interleaved).map (Block.rename (order interleaved).idxOf) ∧
      (announcedBlocks interleaved).Perm (blocks interleaved) :=
  responses_round_trip (by decide) (by decide) (by decide) (by decide) (by decide) none

/-- A tool block that is called while the text after it is open. -/
def calledLate : List StreamEvent :=
  [.responseStart "1" "gpt" 0, .messageStart .assistant, .contentBlockStart 0 .toolCall,
    .contentBlockStart 1 .text, .textDelta 1 "Let me look.", .toolCallStart 0 "call_1" "search",
    .toolCallStop 0, .contentBlockStop 0, .contentBlockStop 1, .messageStop .toolUse none,
    .responseStop none]

/-- It is read back with the text first. -/
theorem calledLate_reordered :
    LifecycleValid calledLate ∧ calledLate.getLast?.any StreamEvent.isResponseStop = true ∧
      (∀ e ∈ calledLate, HasItemKind e) ∧ CallsComplete calledLate ∧
      (∀ b ∈ started calledLate, b.1 < 4294967296) ∧
      (blocks (readBack none calledLate)).map Block.kind ≠ (blocks calledLate).map Block.kind := by
  refine ⟨by decide, by decide, by decide, by decide, by decide, ?_⟩
  decide

end OpenAiResponses

end AgentShim
