import AgentShim.Providers.DeepSeekReadings
import AgentShim.Providers.DeepSeekUnary

/-
  DeepSeek replies, whole and in chunks

  A completion with one choice may come as one body or as chunks: its reasoning, then
  its content, then its tool calls, then its finish reason and its usage. The parts of
  a call come in any number of fragments, and the fragments of several calls may take
  turns. The unary parser and the stream parser agree on a completion only as far as
  both read it.

  What is proved:
    1. `fragments_pieces` — what a chunk carries, by the fragments of the parser.
    2. `cutReading_eq_iff` — when a call reads in both ways the same.
    3. `unary_streaming_agree_iff` — exactly when both ways agree.
-/

namespace AgentShim

namespace DeepSeekSse

open Transducer ChatWire

/-! ## What chunks carry -/

/-- What a chunk carries besides its header and the role. -/
inductive Piece
  | said (kind : DeltaKind) (text : NonEmptyString)
  | calls (deltas : List Json)
  | finish (reason : NonEmptyString)
  | usage (raw : Json)

def deltaPieces (delta : Json) : List Piece :=
  (nonEmpty delta "reasoning_content").toList.map (.said .reasoning) ++
    ((nonEmpty delta "content").toList.map (.said .text) ++
      (delta.getArray "tool_calls").toList.map .calls)

def choicePieces (choice : Json) : List Piece :=
  (choice.get "delta").toList.flatMap deltaPieces ++
    (nonEmpty choice "finish_reason").toList.map .finish

def pieces (v : Json) : List Piece :=
  ((v.getArray "choices").getD []).flatMap choicePieces ++
    ((v.get "usage").filter fun u => !u.isNull).toList.map .usage

/-- A reply cut into pieces, in the order in which they are sent. -/
structure Reply where
  thoughts : List NonEmptyString := []
  texts : List NonEmptyString := []
  deltas : List (List Json) := []
  reason : Option NonEmptyString := none
  usage : Option Json := none

def Reply.pieces (r : Reply) : List Piece :=
  r.thoughts.map (.said .reasoning) ++ (r.texts.map (.said .text) ++ (r.deltas.map .calls ++
    (r.reason.toList.map .finish ++ r.usage.toList.map .usage)))

/-- The text of a list of pieces. -/
def textOf (texts : List NonEmptyString) : String := String.join (texts.map Subtype.val)

/-- The fragments of a call: one has its id, one its name, and its arguments are cut
anywhere. -/
structure CutCall (call : WireCall) (deltas : List Json) : Prop where
  id : deltas.filterMap (fun tc => tc.getStr "id") = call.id.toList
  name : deltas.filterMap (fun tc => functionStr tc "name") = call.name.toList
  arguments : String.join (deltas.map toolArguments) = call.arguments.getD ""

/-- The fragments with an index. -/
def deltasAt (deltas : List Json) (j : Nat) : List Json :=
  deltas.filter fun tc => tc.getU64 "index" = some j

/-- The fragments of a list of calls, under the indices of the calls, which begin in
the order of the list. -/
structure CutCalls (calls : List WireCall) (deltas : List Json) : Prop where
  indexed : ∀ tc ∈ deltas, ∃ j < calls.length, tc.getU64 "index" = some j
  present : ∀ j < calls.length, ∃ tc ∈ deltas, tc.getU64 "index" = some j
  ordered : Throughout (fun past tc => ∀ j, tc.getU64 "index" = some j →
    ∀ i < j, ∃ before ∈ past, before.getU64 "index" = some i) deltas
  cut : ∀ j call, calls[j]? = some call → CutCall call (deltasAt deltas j)

/-- The chunks carry a completion, cut as a reply. An empty finish reason and a null
usage are not carried. -/
structure Carries (M : Completion) (chunks : List Json) (r : Reply) : Prop where
  sent : chunks ≠ []
  sound : ∀ v ∈ chunks, v.get "error" = none
  pieces : chunks.flatMap pieces = r.pieces
  reasoning : textOf r.thoughts = M.reasoningContent.getD ""
  content : textOf r.texts = M.content.getD ""
  calls : CutCalls M.toolCalls r.deltas.flatten
  reason : r.reason.map Subtype.val = M.finishReason.filter (· ≠ "")
  usage : r.usage = M.usage.filter fun u => !u.isNull

/-! ## The fragments of the pieces -/

def Piece.fragments : Piece → List (Fragment DeltaKind)
  | .said kind text => [.content kind text]
  | .calls deltas => .toolCalls :: deltas.map (toolCallFragment dialect)
  | .finish reason => [.finish reason.val]
  | .usage raw => [.usage (mapUsage raw)]

/-- The header of a chunk and the role. -/
def isAside : Fragment DeltaKind → Bool
  | .chunk _ _ _ | .role => true
  | _ => false

def heeded (fs : List (Fragment DeltaKind)) : List (Fragment DeltaKind) :=
  fs.filter fun f => !isAside f

theorem heeded_append (fs gs : List (Fragment DeltaKind)) :
    heeded (fs ++ gs) = heeded fs ++ heeded gs :=
  List.filter_append ..

theorem heeded_of_forall {fs : List (Fragment DeltaKind)} (h : ∀ f ∈ fs, isAside f = false) :
    heeded fs = fs := by
  refine List.filter_eq_self.mpr fun f hf => ?_
  rw [h f hf]
  rfl

theorem heeded_flatMap {α : Type} {view : α → List (Fragment DeltaKind)}
    {pieces : α → List Piece} {xs : List α}
    (h : ∀ x ∈ xs, heeded (view x) = (pieces x).flatMap Piece.fragments) :
    heeded (xs.flatMap view) = (xs.flatMap pieces).flatMap Piece.fragments := by
  induction xs with
  | nil => rfl
  | cons x xs ih =>
    obtain ⟨hx, hxs⟩ := List.forall_mem_cons.mp h
    rw [List.flatMap_cons, List.flatMap_cons, heeded_append, List.flatMap_append, hx, ih hxs]

theorem heeded_delta (delta : Json) :
    heeded (deltaFragments dialect delta) = (deltaPieces delta).flatMap Piece.fragments := by
  have hrole : heeded (roleFragments delta) = [] := by
    unfold roleFragments
    cases delta.getStr "role" <;> rfl
  have hcontent : heeded (contentFragments dialect delta) =
      ((nonEmpty delta "reasoning_content").toList.map (Piece.said .reasoning) ++
        (nonEmpty delta "content").toList.map (Piece.said .text)).flatMap Piece.fragments := by
    simp only [contentFragments, dialect]
    cases nonEmpty delta "reasoning_content" <;> cases nonEmpty delta "content" <;> rfl
  have hcalls : heeded (toolCallFragments dialect delta) =
      ((delta.getArray "tool_calls").toList.map Piece.calls).flatMap Piece.fragments := by
    unfold toolCallFragments
    cases delta.getArray "tool_calls" with
    | none => rfl
    | some tcs =>
      rw [Option.toList_some, List.map_singleton, List.flatMap_singleton]
      refine heeded_of_forall fun f hf => ?_
      rcases List.mem_cons.mp hf with rfl | hf
      · rfl
      · obtain ⟨tc, -, rfl⟩ := List.mem_map.mp hf
        rfl
  rw [deltaFragments, heeded_append, heeded_append, hrole, hcontent, hcalls, deltaPieces,
    List.nil_append, ← List.flatMap_append, List.append_assoc]

theorem heeded_choice (choice : Json) :
    heeded (choiceFragments dialect choice) = (choicePieces choice).flatMap Piece.fragments := by
  have hdelta : heeded ((choice.get "delta").toList.flatMap (deltaFragments dialect)) =
      ((choice.get "delta").toList.flatMap deltaPieces).flatMap Piece.fragments :=
    heeded_flatMap fun delta _ => heeded_delta delta
  have hfinish : heeded (finishFragments choice) =
      ((nonEmpty choice "finish_reason").toList.map Piece.finish).flatMap Piece.fragments := by
    unfold finishFragments
    cases nonEmpty choice "finish_reason" <;> rfl
  rw [choiceFragments, heeded_append, hdelta, hfinish, choicePieces, List.flatMap_append]

/-- What a chunk carries, as the parser reads it. -/
theorem fragments_pieces {v : Json} (herror : v.get "error" = none) :
    heeded (fragments dialect v) = (pieces v).flatMap Piece.fragments := by
  have husage : heeded (usageFragments (usageOf v)) =
      (((v.get "usage").filter fun u => !u.isNull).toList.map Piece.usage).flatMap
        Piece.fragments := by
    unfold usageFragments usageOf
    cases (v.get "usage").filter fun u => !u.isNull <;> rfl
  have hchoices : ∀ choices : List Json, heeded (choices.flatMap (choiceFragments dialect)) =
      (choices.flatMap choicePieces).flatMap Piece.fragments :=
    fun choices => heeded_flatMap fun choice _ => heeded_choice choice
  rw [fragments, herror, pieces, List.flatMap_append]
  cases v.getArray "choices" with
  | none => exact husage
  | some choices =>
    show heeded (choices.flatMap (choiceFragments dialect) ++ usageFragments (usageOf v)) = _
    rw [heeded_append, hchoices, husage]
    rfl

/-- Nothing but what is heeded counts. -/
theorem filterMap_heeded {β : Type} {g : Fragment DeltaKind → Option β}
    (hchunk : ∀ id model created, g (.chunk id model created) = none) (hrole : g .role = none)
    (fs : List (Fragment DeltaKind)) : (heeded fs).filterMap g = fs.filterMap g := by
  have haside : ∀ f, isAside f = true → g f = none := by
    intro f hf
    cases f with
    | chunk id model created => exact hchunk id model created
    | role => exact hrole
    | _ => cases hf
  rw [heeded, List.filterMap_filter]
  refine List.filterMap_congr fun f _ => ?_
  cases hf : isAside f with
  | true => rw [haside f hf]; rfl
  | false => rfl

theorem draft_heeded (fs : List (Fragment DeltaKind)) : draft (heeded fs) = draft fs := by
  have haside : ∀ d f, isAside f = true → draftAfter d f = d := by
    intro d f hf
    cases f with
    | chunk id model created => rfl
    | role => rfl
    | _ => cases hf
  rw [draft, heeded, List.foldl_filter, draft]
  congr 1
  funext d f
  cases hf : isAside f with
  | true => rw [haside d f hf]; rfl
  | false => rfl

theorem pairwise_heeded {fs : List (Fragment DeltaKind)} (h : (heeded fs).Pairwise Follows) :
    fs.Pairwise Follows := by
  refine (List.pairwise_filter.mp h).imp fun {g f} hkept => ?_
  cases hg : isAside g with
  | true =>
    cases g with
    | chunk id model created => exact ⟨fun _ => rfl, fun _ => rfl⟩
    | role => exact ⟨fun _ => rfl, fun _ => rfl⟩
    | _ => cases hg
  | false =>
    cases hf : isAside f with
    | true =>
      cases f with
      | chunk id model created => exact ⟨nofun, nofun⟩
      | role => exact ⟨nofun, nofun⟩
      | _ => cases hf
    | false => exact hkept (by rw [hg]; rfl) (by rw [hf]; rfl)

theorem throughout_continues {fs : List (Fragment DeltaKind)} (h : fs.Pairwise Follows)
    (hfits : ∀ c ∈ calls fs, c.1 < 4294967296) : Throughout Continues fs := by
  rintro past f rest rfl
  refine ⟨fun g hg => ?_, fun c hc => hfits c ?_⟩
  · exact (List.pairwise_append.mp h).2.2 g hg f List.mem_cons_self
  · rw [calls, List.filterMap_append]
    exact List.mem_append_left _ hc

/-! ## The fragments of a reply -/

def callsFragments (deltas : List Json) : List (Fragment DeltaKind) :=
  (Piece.calls deltas).fragments

/-- The end of a reply: its calls, its finish reason and its usage. -/
def Reply.ending (r : Reply) : List (Fragment DeltaKind) :=
  r.deltas.flatMap callsFragments ++
    (r.reason.toList.map (fun reason => .finish reason.val) ++
      r.usage.toList.map fun raw => .usage (mapUsage raw))

theorem fragments_reply (r : Reply) :
    r.pieces.flatMap Piece.fragments =
      r.thoughts.map (.content .reasoning) ++ (r.texts.map (.content .text) ++ r.ending) := by
  have hsaid : ∀ (kind : DeltaKind) (texts : List NonEmptyString),
      (texts.map (Piece.said kind)).flatMap Piece.fragments = texts.map (.content kind) := by
    intro kind texts
    rw [List.flatMap_map]
    exact List.flatMap_pure_eq_map _ texts
  rw [Reply.pieces, List.flatMap_append, List.flatMap_append, List.flatMap_append,
    List.flatMap_append, hsaid, hsaid, List.flatMap_map, Reply.ending]
  cases r.reason <;> cases r.usage <;> rfl

theorem isOfCalls_of_mem {deltas : List (List Json)} {f : Fragment DeltaKind}
    (hf : f ∈ deltas.flatMap callsFragments) : isOfCalls f = true := by
  obtain ⟨tcs, -, hf⟩ := List.mem_flatMap.mp hf
  rcases List.mem_cons.mp hf with rfl | hf
  · rfl
  · obtain ⟨tc, -, rfl⟩ := List.mem_map.mp hf
    rfl

/-- What is selected off a reply, besides its texts. -/
theorem filterMap_reply {β : Type} {g : Fragment DeltaKind → Option β}
    (h : ∀ kind text, g (.content kind text) = none) (r : Reply) :
    (r.pieces.flatMap Piece.fragments).filterMap g = r.ending.filterMap g := by
  have htexts : ∀ (kind : DeltaKind) (texts : List NonEmptyString),
      (texts.map (Fragment.content kind)).filterMap g = [] := by
    intro kind texts
    refine List.filterMap_eq_nil_iff.mpr fun f hf => ?_
    obtain ⟨text, -, rfl⟩ := List.mem_map.mp hf
    exact h kind text
  rw [fragments_reply, List.filterMap_append, List.filterMap_append, htexts, htexts,
    List.nil_append, List.nil_append]

theorem calls_callsFragments (deltas : List (List Json)) :
    calls (deltas.flatMap callsFragments) = deltas.flatten.map callFragment := by
  induction deltas with
  | nil => rfl
  | cons tcs deltas ih =>
    have htcs : calls (callsFragments tcs) = tcs.map callFragment := by
      show (tcs.map (toolCallFragment dialect)).filterMap callOf = _
      rw [List.filterMap_map, ← List.filterMap_eq_map]
      rfl
    rw [List.flatMap_cons, calls, List.filterMap_append, List.flatten_cons, List.map_append, ← ih,
      ← htcs]
    rfl

theorem filterMap_callsFragments {β : Type} {g : Fragment DeltaKind → Option β}
    (hlist : g .toolCalls = none)
    (hcall : ∀ index call arguments, g (.toolCall index call arguments) = none)
    (deltas : List (List Json)) : (deltas.flatMap callsFragments).filterMap g = [] := by
  refine List.filterMap_eq_nil_iff.mpr fun f hf => ?_
  have hf := isOfCalls_of_mem hf
  cases f with
  | toolCalls => exact hlist
  | toolCall index call arguments => exact hcall index call arguments
  | _ => cases hf

theorem calls_reply (r : Reply) :
    calls (r.pieces.flatMap Piece.fragments) = r.deltas.flatten.map callFragment := by
  rw [calls, filterMap_reply fun _ _ => rfl, Reply.ending, List.filterMap_append,
    ← calls_callsFragments, calls]
  cases r.reason <;> cases r.usage <;> simp [callOf]

theorem reasons_reply (r : Reply) :
    (r.pieces.flatMap Piece.fragments).filterMap reasonOf =
      (r.reason.map Subtype.val).toList := by
  rw [filterMap_reply fun _ _ => rfl, Reply.ending, List.filterMap_append,
    filterMap_callsFragments rfl fun _ _ _ => rfl]
  cases r.reason <;> cases r.usage <;> rfl

theorem usages_reply (r : Reply) :
    (r.pieces.flatMap Piece.fragments).filterMap usageIn = (r.usage.map mapUsage).toList := by
  rw [filterMap_reply fun _ _ => rfl, Reply.ending, List.filterMap_append,
    filterMap_callsFragments rfl fun _ _ _ => rfl]
  cases r.reason <;> cases r.usage <;> rfl

/-- The stages of a reply: text, calls, the finish reason, the usage. -/
def stage : Fragment DeltaKind → Nat
  | .content _ _ => 0
  | .toolCalls | .toolCall _ _ _ => 1
  | .finish _ => 2
  | .usage _ | .chunk _ _ _ | .role | .error _ => 3

/-- A fragment of an earlier stage, or of the same but for the finish reason. -/
theorem follows_of_stage {g f : Fragment DeltaKind} (hle : stage g ≤ stage f)
    (honce : f.isFinish = true → g.isFinish = false) : Follows g f := by
  cases g <;> cases f <;> simp_all [Follows, stage, isOfCalls, Fragment.isContent,
    Fragment.isToolCalls, Fragment.isToolCall, Fragment.isFinish]

theorem pairwise_stage {fs gs : List (Fragment DeltaKind)} {n : Nat}
    (hfs : ∀ f ∈ fs, stage f = n ∧ f.isFinish = false) (hgs : gs.Pairwise Follows)
    (hlater : ∀ g ∈ gs, n ≤ stage g) : (fs ++ gs).Pairwise Follows := by
  refine List.pairwise_append.mpr ⟨?_, hgs, fun f hf g hg => ?_⟩
  · refine List.pairwise_of_forall_mem_list fun f hf g hg => ?_
    exact follows_of_stage (by rw [(hfs f hf).1, (hfs g hg).1]) fun _ => (hfs f hf).2
  · exact follows_of_stage (by rw [(hfs f hf).1]; exact hlater g hg) fun _ => (hfs f hf).2

/-- A reply is sent in order. -/
theorem pairwise_reply (r : Reply) : (r.pieces.flatMap Piece.fragments).Pairwise Follows := by
  have hcontent : ∀ (kind : DeltaKind) (texts : List NonEmptyString),
      ∀ f ∈ texts.map (Fragment.content kind), stage f = 0 ∧ f.isFinish = false := by
    intro kind texts f hf
    obtain ⟨text, -, rfl⟩ := List.mem_map.mp hf
    exact ⟨rfl, rfl⟩
  have hcalls : ∀ f ∈ r.deltas.flatMap callsFragments, stage f = 1 ∧ f.isFinish = false := by
    intro f hf
    have hf := isOfCalls_of_mem hf
    cases f with
    | toolCalls => exact ⟨rfl, rfl⟩
    | toolCall index call arguments => exact ⟨rfl, rfl⟩
    | _ => cases hf
  rw [fragments_reply, Reply.ending]
  refine pairwise_stage (hcontent _ _) (pairwise_stage (hcontent _ _) (pairwise_stage hcalls ?_ ?_)
    fun _ _ => Nat.zero_le _) fun _ _ => Nat.zero_le _
  · cases r.reason <;> cases r.usage <;> simp [Follows, isOfCalls, Fragment.isContent,
      Fragment.isToolCalls, Fragment.isToolCall, Fragment.isFinish]
  · cases r.reason <;> cases r.usage <;> simp [stage]

/-- What a run of text reads. -/
def runReadings (kind : DeltaKind) (text : String) : List Spoken :=
  if text = "" then [] else [runReading (kind, text)]

theorem textOf_eq_empty_iff {texts : List NonEmptyString} : textOf texts = "" ↔ texts = [] := by
  cases texts with
  | nil => simp [textOf]
  | cons text texts => simp [textOf, text.property]

/-- Texts of one kind come to one text. -/
theorem foldl_content (kind : DeltaKind) (texts : List NonEmptyString) (d : Draft) (s : String) :
    (texts.map (Fragment.content kind)).foldl draftAfter (d.say kind s) =
      d.say kind (s ++ textOf texts) := by
  induction texts generalizing s with
  | nil => simp [textOf]
  | cons text texts ih =>
    rw [List.map_cons, List.foldl_cons]
    show (texts.map (Fragment.content kind)).foldl draftAfter ((d.say kind s).say kind text.val) = _
    rw [Draft.say_say, ih, textOf, textOf, List.map_cons, String.join_cons, String.append_assoc]

theorem foldl_content_of_ne {texts : List NonEmptyString} (kind : DeltaKind) (d : Draft)
    (h : texts ≠ []) :
    (texts.map (Fragment.content kind)).foldl draftAfter d = d.say kind (textOf texts) := by
  cases texts with
  | nil => exact absurd rfl h
  | cons text texts =>
    rw [List.map_cons, List.foldl_cons]
    show (texts.map (Fragment.content kind)).foldl draftAfter (d.say kind text.val) = _
    rw [foldl_content, textOf, textOf, List.map_cons, String.join_cons]

/-- Text of a kind that no run of the draft has. -/
theorem readings_say {d : Draft} {kind : DeltaKind} (h : ∀ before, d.run ≠ some (kind, before))
    (text : String) : (d.say kind text).readings = d.readings ++ [runReading (kind, text)] := by
  rw [Draft.say, Draft.ensure_of_ne h]
  simp [Draft.endRun, Draft.start, Draft.more, Draft.readings]

theorem readings_foldl_of_no_content {fs : List (Fragment DeltaKind)}
    (h : ∀ f ∈ fs, f.isContent = false) (d : Draft) :
    (fs.foldl draftAfter d).readings = d.readings := by
  induction fs generalizing d with
  | nil => rfl
  | cons f fs ih =>
    obtain ⟨hf, hfs⟩ := List.forall_mem_cons.mp h
    have hafter : (draftAfter d f).readings = d.readings := by
      cases f with
      | content kind text => cases hf
      | toolCalls => exact d.readings_endRun
      | finish reason => exact d.readings_endRun
      | _ => rfl
    rw [List.foldl_cons, ih hfs, hafter]

theorem no_content_ending (r : Reply) : ∀ f ∈ r.ending, f.isContent = false := by
  intro f hf
  rw [Reply.ending, List.mem_append, List.mem_append] at hf
  rcases hf with hf | hf | hf
  · have hf := isOfCalls_of_mem hf
    cases f <;> first | rfl | cases hf
  · obtain ⟨reason, -, rfl⟩ := List.mem_map.mp hf
    rfl
  · obtain ⟨raw, -, rfl⟩ := List.mem_map.mp hf
    rfl

/-- A reply reads as its reasoning, then its content. -/
theorem readings_draft_reply (r : Reply) :
    (draft (r.pieces.flatMap Piece.fragments)).readings =
      runReadings .reasoning (textOf r.thoughts) ++ runReadings .text (textOf r.texts) := by
  rw [fragments_reply, draft, List.foldl_append, List.foldl_append,
    readings_foldl_of_no_content (no_content_ending r), runReadings, runReadings]
  by_cases hthoughts : r.thoughts = []
  · by_cases htexts : r.texts = []
    · rw [hthoughts, htexts]
      rfl
    · rw [hthoughts, if_pos (textOf_eq_empty_iff.mpr rfl),
        if_neg fun h => htexts (textOf_eq_empty_iff.mp h), foldl_content_of_ne _ _ htexts,
        List.map_nil, List.foldl_nil, readings_say fun _ => (Option.some_ne_none _).symm]
      rfl
  · have hsaid : ((Draft.say {} .reasoning (textOf r.thoughts)).readings) =
        [runReading (.reasoning, textOf r.thoughts)] :=
      readings_say (fun _ => (Option.some_ne_none _).symm) _
    rw [if_neg fun h => hthoughts (textOf_eq_empty_iff.mp h), foldl_content_of_ne _ _ hthoughts]
    by_cases htexts : r.texts = []
    · rw [htexts, if_pos (textOf_eq_empty_iff.mpr rfl), List.map_nil, List.foldl_nil, hsaid,
        List.append_nil]
    · rw [if_neg fun h => htexts (textOf_eq_empty_iff.mp h), foldl_content_of_ne _ _ htexts,
        readings_say, hsaid]
      intro before hrun
      simp [Draft.say, Draft.ensure, Draft.start, Draft.more] at hrun

/-! ## The calls of a reply -/

/-- The id and the name a fragment gives to its call. -/
def namedCall (tc : Json) : Option (String × String) :=
  (tc.getStr "id").map fun id => (id, toolName tc)

theorem filterMap_namedCall_of_none {deltas : List Json}
    (h : ∀ tc ∈ deltas, tc.getStr "id" = none) : deltas.filterMap namedCall = [] := by
  refine List.filterMap_eq_nil_iff.mpr fun tc htc => ?_
  rw [namedCall, h tc htc, Option.map_none]

/-- How a call reads from its fragments. -/
def cutReading (deltas : List Json) : Option Spoken :=
  Block.reading { index := 0, kind := .toolCall, calls := deltas.filterMap namedCall,
                  arguments := String.join (deltas.map toolArguments) }

/-- Both parsers read the call: it has an id, given with its name, and arguments. -/
structure Told (call : WireCall) (deltas : List Json) : Prop where
  id : call.id.isSome = true
  arguments : call.arguments.isSome = true
  named : ∀ tc ∈ deltas, (tc.getStr "id").isSome = true → toolName tc = call.name.getD ""

theorem getD_braces_iff (text : Option String) :
    text.getD "" = text.getD "{}" ↔ text.isSome = true := by
  cases text <;> simp

/-- A call reads in both ways the same iff both parsers read all of it. -/
theorem cutReading_eq_iff {call : WireCall} {deltas : List Json} (h : CutCall call deltas) :
    cutReading deltas = some call.whole ↔ Told call deltas := by
  have hid := h.id
  cases hcall : call.id with
  | none =>
    rw [hcall, Option.toList_none, List.filterMap_eq_nil_iff] at hid
    have hreading : cutReading deltas = none := by
      rw [cutReading, filterMap_namedCall_of_none hid]
      rfl
    rw [hreading]
    refine iff_of_false nofun fun htold => ?_
    have hsome := htold.id
    rw [hcall] at hsome
    cases hsome
  | some id =>
    rw [hcall, Option.toList_some] at hid
    obtain ⟨front, tc, back, rfl, hfront, htc, hback⟩ := List.filterMap_eq_cons_iff.mp hid
    rw [List.filterMap_eq_nil_iff] at hback
    have hnamed : (front ++ tc :: back).filterMap namedCall = [(id, toolName tc)] := by
      rw [List.filterMap_append, filterMap_namedCall_of_none hfront, List.nil_append,
        List.filterMap_cons_some (by rw [namedCall, htc, Option.map_some]),
        filterMap_namedCall_of_none hback]
    have hreading : cutReading (front ++ tc :: back) =
        some (.call id (toolName tc) (call.arguments.getD "")) := by
      rw [cutReading, hnamed, h.arguments]
      rfl
    rw [hreading, WireCall.whole, hcall, Option.some.injEq, Spoken.call.injEq, getD_braces_iff]
    constructor
    · rintro ⟨-, hname, harguments⟩
      refine ⟨by rw [hcall]; rfl, harguments, fun tc' htc' hsome => ?_⟩
      rcases List.mem_append.mp htc' with hmem | hmem
      · rw [hfront tc' hmem] at hsome
        cases hsome
      · rcases List.mem_cons.mp hmem with rfl | hmem
        · exact hname
        · rw [hback tc' hmem] at hsome
          cases hsome
    · intro htold
      refine ⟨rfl, htold.named tc ?_ (by rw [htc]; rfl), htold.arguments⟩
      exact List.mem_append_right _ List.mem_cons_self

theorem providerIndex_lt (tc : Json) : providerIndex tc < 4294967296 :=
  Nat.mod_lt _ (by decide)

section CutCalls

variable {cs : List WireCall} {deltas : List Json}

theorem CutCalls.providerIndex_eq (h : CutCalls cs deltas) (hfew : cs.length ≤ 4294967296)
    {tc : Json} (htc : tc ∈ deltas) : tc.getU64 "index" = some (providerIndex tc) := by
  obtain ⟨j, hj, hindex⟩ := h.indexed tc htc
  rw [providerIndex, hindex, Option.getD_some, Wire.asU32, Nat.mod_eq_of_lt (by omega)]

/-- The calls begin in the order of the list. -/
theorem CutCalls.begun_eq (h : CutCalls cs deltas) (hfew : cs.length ≤ 4294967296) :
    begun (deltas.map callFragment) = List.range cs.length := by
  have hkeys : (deltas.map callFragment).map Prod.fst = deltas.map providerIndex := by
    rw [List.map_map]
    rfl
  have hordered : ∀ past k rest, deltas.map providerIndex = past ++ k :: rest →
      ∀ i < k, i ∈ past := by
    intro past k rest hsplit i hi
    obtain ⟨front, back, rfl, rfl, hback⟩ := List.map_eq_append_iff.mp hsplit
    obtain ⟨tc, back, rfl, rfl, -⟩ := List.map_eq_cons_iff.mp hback
    have htc : tc ∈ front ++ tc :: back := List.mem_append_right _ List.mem_cons_self
    obtain ⟨before, hbefore, hindex⟩ :=
      h.ordered front tc back rfl _ (h.providerIndex_eq hfew htc) i hi
    have hmem : before ∈ front ++ tc :: back := List.mem_append_left _ hbefore
    rw [h.providerIndex_eq hfew hmem, Option.some.injEq] at hindex
    exact List.mem_map.mpr ⟨before, hbefore, hindex⟩
  obtain ⟨n, hn⟩ := Lists.firsts_eq_range hordered
  have hmem : ∀ j, j < n ↔ j < cs.length := by
    intro j
    rw [← List.mem_range, ← hn, Lists.mem_firsts, List.mem_map]
    constructor
    · rintro ⟨tc, htc, rfl⟩
      obtain ⟨j, hj, hindex⟩ := h.indexed tc htc
      rw [h.providerIndex_eq hfew htc, Option.some.injEq] at hindex
      rwa [hindex]
    · intro hj
      obtain ⟨tc, htc, hindex⟩ := h.present j hj
      rw [h.providerIndex_eq hfew htc, Option.some.injEq] at hindex
      exact ⟨tc, htc, hindex⟩
  have hlength : n = cs.length := by
    have hle := hmem n
    have hge := hmem cs.length
    omega
  rw [begun, hkeys, hn, hlength]

theorem CutCalls.callReading_eq (h : CutCalls cs deltas) (hfew : cs.length ≤ 4294967296)
    (j : Nat) : callReading (deltas.map callFragment) j = cutReading (deltasAt deltas j) := by
  have hfilter : (deltas.map callFragment).filter (fun c => c.1 = j) =
      (deltasAt deltas j).map callFragment := by
    rw [List.filter_map, deltasAt]
    refine congrArg _ (List.filter_congr fun tc htc => decide_eq_decide.mpr ?_)
    rw [h.providerIndex_eq hfew htc, Option.some.injEq]
    exact Iff.rfl
  rw [callReading, callBlockAt, hfilter, List.filterMap_map, List.map_map]
  rfl

end CutCalls

/-! ## When both ways agree -/

/-- Two streams come to the same: blocks that read the same, the same stop reason and
the same usage. -/
def Agree (es fs : List StreamEvent) : Prop :=
  (blocks es).map Block.reading = (blocks fs).map Block.reading ∧ stops es = stops fs ∧
    usages es = usages fs

/-- What both parsers read: no reasoning, a finish reason and a usage that are not
empty, and few enough calls that are told in full. -/
structure ReadByBoth (M : Completion) (deltas : List Json) : Prop where
  unthinking : M.reasoningContent.getD "" = ""
  reason : M.finishReason ≠ some ""
  usage : M.usage ≠ some .null
  few : M.toolCalls.length ≤ 4294967296
  told : ∀ j call, M.toolCalls[j]? = some call → Told call (deltasAt deltas j)

variable {M : Completion} {chunks : List Json} {r : Reply}

/-- What the events of the chunks of a completion come to. -/
theorem heard_of_carries (h : Carries M chunks r) (done : Bool) :
    (blocks (events chunks done)).map Block.reading =
        (runReadings .reasoning (M.reasoningContent.getD "") ++ textReadings M.content).map some ++
          (begun (r.deltas.flatten.map callFragment)).map
            (callReading (r.deltas.flatten.map callFragment)) ∧
      stops (events chunks done) =
        [(((M.finishReason.filter (· ≠ "")).map StopReason.fromProviderString).getD .endTurn,
          none)] ∧
      usages (events chunks done) =
        ((M.usage.filter fun u => !u.isNull).map mapUsage).toList := by
  have hheeded : heeded (chunks.flatMap (fragments dialect)) =
      r.pieces.flatMap Piece.fragments := by
    rw [← h.pieces]
    exact heeded_flatMap fun v hv => fragments_pieces (h.sound v hv)
  have hcalls : calls (chunks.flatMap (fragments dialect)) =
      r.deltas.flatten.map callFragment := by
    rw [← calls_reply, ← hheeded, calls, calls, filterMap_heeded (fun _ _ _ => rfl) rfl]
  have hreasons : (chunks.flatMap (fragments dialect)).filterMap reasonOf =
      (M.finishReason.filter (· ≠ "")).toList := by
    rw [← h.reason, ← reasons_reply, ← hheeded, filterMap_heeded (fun _ _ _ => rfl) rfl]
  have husages : (chunks.flatMap (fragments dialect)).filterMap usageIn =
      ((M.usage.filter fun u => !u.isNull).map mapUsage).toList := by
    rw [← h.usage, ← usages_reply, ← hheeded, filterMap_heeded (fun _ _ _ => rfl) rfl]
  have hreadings : (draft (chunks.flatMap (fragments dialect))).readings =
      runReadings .reasoning (M.reasoningContent.getD "") ++ textReadings M.content := by
    have htext : runReadings .text (M.content.getD "") = textReadings M.content := by
      rw [runReadings, textReadings]
      cases M.content with
      | none => rfl
      | some text => by_cases ht : text = "" <;> simp [ht, Option.filter, runReading]
    rw [← draft_heeded, hheeded, readings_draft_reply, h.reasoning, h.content, htext]
  have hstarted : (chunks.flatMap (fragments dialect)).any Fragment.isChunk = true := by
    obtain ⟨v, hv⟩ := List.exists_mem_of_ne_nil chunks h.sent
    exact (any_isChunk_iff dialect chunks).mpr ⟨v, hv, h.sound v hv⟩
  have hcontinues : Throughout Continues (chunks.flatMap (fragments dialect)) := by
    refine throughout_continues (pairwise_heeded (hheeded ▸ pairwise_reply r)) fun c hc => ?_
    rw [hcalls] at hc
    obtain ⟨tc, -, rfl⟩ := List.mem_map.mp hc
    exact providerIndex_lt tc
  obtain ⟨htold, hstops, hheard⟩ := heard_events done hstarted hcontinues
  refine ⟨?_, ?_, ?_⟩
  · rw [htold, hcalls, hreadings]
  · rw [hstops, endStops, hreasons]
    cases M.finishReason.filter (· ≠ "") <;> rfl
  · rw [hheard, husages]

theorem runReadings_eq_nil_iff (kind : DeltaKind) (text : String) :
    runReadings kind text = [] ↔ text = "" := by
  rw [runReadings]
  by_cases h : text = "" <;> simp [h]

/-- No reasoning is among the text and the calls of a whole completion. -/
theorem reasoning_not_mem_whole (M : Completion) (text : String) :
    .reasoning text ∉ textReadings M.content ++ M.toolCalls.map WireCall.whole := by
  intro hmem
  rcases List.mem_append.mp hmem with hmem | hmem
  · obtain ⟨t, -, ht⟩ := List.mem_map.mp hmem
    cases ht
  · obtain ⟨call, -, hcall⟩ := List.mem_map.mp hmem
    cases hcall

theorem map_eq_map_range_iff {α β : Type} (xs : List α) (g : α → β) (f : Nat → β) :
    xs.map g = (List.range xs.length).map f ↔ ∀ j x, xs[j]? = some x → g x = f j := by
  constructor
  · intro h j x hx
    have hj := congrArg (fun l => l[j]?) h
    obtain ⟨hlt, -⟩ := List.getElem?_eq_some_iff.mp hx
    simpa [hx, List.getElem?_range hlt] using hj
  · intro h
    refine List.ext_getElem (by simp) fun j hj hj' => ?_
    rw [List.getElem_map, List.getElem_map, List.getElem_range]
    exact h j _ (List.getElem?_eq_getElem (by simpa using hj))

/-- The blocks agree iff there is no reasoning and both parsers read every call. -/
theorem blocks_agree_iff {deltas : List Json} (h : CutCalls M.toolCalls deltas) :
    (textReadings M.content ++ M.toolCalls.map WireCall.whole).map some =
        (runReadings .reasoning (M.reasoningContent.getD "") ++ textReadings M.content).map some ++
          (begun (deltas.map callFragment)).map (callReading (deltas.map callFragment)) ↔
      M.reasoningContent.getD "" = "" ∧ M.toolCalls.length ≤ 4294967296 ∧
        ∀ j call, M.toolCalls[j]? = some call → Told call (deltasAt deltas j) := by
  have hcalls : M.toolCalls.length ≤ 4294967296 →
      ((M.toolCalls.map WireCall.whole).map some =
          (begun (deltas.map callFragment)).map (callReading (deltas.map callFragment)) ↔
        ∀ j call, M.toolCalls[j]? = some call → Told call (deltasAt deltas j)) := by
    intro hfew
    rw [h.begun_eq hfew, List.map_map, map_eq_map_range_iff]
    refine forall_congr' fun j => forall_congr' fun call => ?_
    refine imp_congr_right fun hcall => ?_
    rw [h.callReading_eq hfew j, eq_comm]
    exact cutReading_eq_iff (h.cut j call hcall)
  constructor
  · intro heq
    have hunthinking : M.reasoningContent.getD "" = "" := by
      by_contra hne
      -- the reasoning comes first in the stream, and nowhere in the whole
      rw [runReadings, if_neg hne, List.singleton_append, List.map_cons, List.cons_append] at heq
      have hmem : some (runReading (.reasoning, M.reasoningContent.getD "")) ∈
          (textReadings M.content ++ M.toolCalls.map WireCall.whole).map some := by
        rw [heq]
        exact List.mem_cons_self
      obtain ⟨x, hx, hreasoning⟩ := List.mem_map.mp hmem
      obtain rfl := Option.some.inj hreasoning
      exact reasoning_not_mem_whole M _ hx
    rw [(runReadings_eq_nil_iff _ _).mpr hunthinking, List.nil_append, List.map_append,
      List.append_cancel_left_eq] at heq
    have hfew : M.toolCalls.length ≤ 4294967296 := by
      have hlength := congrArg List.length heq
      rw [List.length_map, List.length_map, List.length_map] at hlength
      rw [hlength]
      refine length_begun_le fun c hc => ?_
      obtain ⟨tc, -, rfl⟩ := List.mem_map.mp hc
      exact providerIndex_lt tc
    exact ⟨hunthinking, hfew, (hcalls hfew).mp heq⟩
  · rintro ⟨hunthinking, hfew, htold⟩
    rw [(runReadings_eq_nil_iff _ _).mpr hunthinking, List.nil_append, List.map_append,
      (hcalls hfew).mpr htold]

theorem stops_agree_iff (M : Completion) :
    M.stopReason =
        ((M.finishReason.filter (· ≠ "")).map StopReason.fromProviderString).getD .endTurn ↔
      M.finishReason ≠ some "" := by
  rw [Completion.stopReason]
  cases M.finishReason with
  | none => simp
  | some reason =>
    by_cases h : reason = ""
    · subst h
      decide
    · simp [h, Option.filter]

theorem usages_agree_iff (M : Completion) :
    (M.usage.map mapUsage).toList = ((M.usage.filter fun u => !u.isNull).map mapUsage).toList ↔
      M.usage ≠ some .null := by
  cases M.usage with
  | none => simp
  | some raw => cases raw <;> simp [Option.filter, Json.isNull]

/-- The unary parser and the stream parser agree on a completion iff it is one both
read: no reasoning, no empty finish reason, no null usage, and calls that are told in
full. -/
theorem unary_streaming_agree_iff {body : Json} (hbody : completion body = some M)
    (h : Carries M chunks r) (done : Bool) :
    ∃ es, parseUnaryInner (.ok body) = .ok es ∧
      (Agree es (events chunks done) ↔ ReadByBoth M r.deltas.flatten) := by
  obtain ⟨es, hes, hblocks, hstops, husages⟩ := heard_parseUnaryInner hbody
  obtain ⟨hblocks', hstops', husages'⟩ := heard_of_carries h done
  refine ⟨es, hes, ?_⟩
  rw [Agree, hblocks, hblocks', blocks_agree_iff h.calls, hstops, hstops', husages, husages',
    usages_agree_iff]
  simp only [List.cons.injEq, Prod.mk.injEq, and_true]
  rw [stops_agree_iff]
  constructor
  · rintro ⟨⟨hunthinking, hfew, htold⟩, hreason, husage⟩
    exact ⟨hunthinking, hreason, husage, hfew, htold⟩
  · intro hboth
    exact ⟨⟨hboth.unthinking, hboth.few, hboth.told⟩, hboth.reason, hboth.usage⟩

/-- A body with one choice. -/
def bodyOf (message : Json) (reason : String) (more : List (String × Json)) : Json :=
  .obj ([("id", .str "c1"), ("choices", .arr [.obj [("message", message),
    ("finish_reason", .str reason)]])] ++ more)

def chunkOf (delta : List (String × Json)) (more : List (String × Json)) : Json :=
  .obj [("id", .str "c1"), ("choices", .arr [.obj (("delta", .obj delta) :: more)])]

/-- A text and a call. -/
def searchBody : Json :=
  bodyOf (.obj [("content", .str "One moment."), ("tool_calls", .arr [.obj [("id", .str "t1"),
    ("function", .obj [("name", .str "search"), ("arguments", .str "{}")])]])]) "tool_calls" []

def searchCompletion : Completion where
  content := some "One moment."
  toolCalls := [{ id := some "t1", name := some "search", arguments := some "{}" }]
  finishReason := some "tool_calls"

def searchDelta : Json :=
  .obj [("index", .number 0), ("id", .str "t1"), ("function", .obj [("name", .str "search"),
    ("arguments", .str "\x7b")])]

def restDelta : Json :=
  .obj [("index", .number 0), ("function", .obj [("arguments", .str "\x7d")])]

/-- The same with the text and the arguments cut. -/
def searchChunks : List Json :=
  [chunkOf [("role", .str "assistant"), ("content", .str "One ")] [],
   chunkOf [("content", .str "moment."), ("tool_calls", .arr [searchDelta])] [],
   chunkOf [("tool_calls", .arr [restDelta])] [("finish_reason", .str "tool_calls")]]

def searchReply : Reply where
  texts := [⟨"One ", by decide⟩, ⟨"moment.", by decide⟩]
  deltas := [[searchDelta], [restDelta]]
  reason := some ⟨"tool_calls", by decide⟩

theorem cutCalls_search : CutCalls searchCompletion.toolCalls [searchDelta, restDelta] where
  indexed := List.forall_mem_cons.mpr ⟨⟨0, by decide, rfl⟩,
    List.forall_mem_singleton.mpr ⟨0, by decide, rfl⟩⟩
  present := by
    intro j hj
    obtain rfl := Nat.lt_one_iff.mp hj
    exact ⟨searchDelta, List.mem_cons_self, rfl⟩
  ordered := by
    refine throughout_of_forall fun past tc htc j hj i hi => ?_
    have hzero : tc.getU64 "index" = some 0 := by
      simp only [List.mem_cons, List.not_mem_nil, or_false] at htc
      rcases htc with rfl | rfl <;> rfl
    obtain rfl := Option.some.inj (hzero.symm.trans hj)
    exact absurd hi (Nat.not_lt_zero i)
  cut := by
    intro j call hcall
    obtain ⟨hj, rfl⟩ := List.getElem?_eq_some_iff.mp hcall
    obtain rfl := Nat.lt_one_iff.mp hj
    exact ⟨rfl, rfl, rfl⟩

theorem carries_search : Carries searchCompletion searchChunks searchReply where
  sent := List.cons_ne_nil _ _
  sound := by simp [searchChunks, chunkOf, Json.get]
  pieces := rfl
  reasoning := rfl
  content := rfl
  calls := cutCalls_search
  reason := rfl
  usage := rfl

theorem search_agree : ∃ es, parseUnaryInner (.ok searchBody) = .ok es ∧
    Agree es (events searchChunks true) := by
  have hbody : completion searchBody = some searchCompletion := rfl
  obtain ⟨es, hes, hagree⟩ := unary_streaming_agree_iff hbody carries_search true
  refine ⟨es, hes, hagree.mpr ⟨rfl, by decide, nofun, by decide, ?_⟩⟩
  intro j call hcall
  obtain ⟨hj, rfl⟩ := List.getElem?_eq_some_iff.mp hcall
  obtain rfl := Nat.lt_one_iff.mp hj
  refine ⟨rfl, rfl, List.forall_mem_cons.mpr ⟨fun _ => rfl, List.forall_mem_singleton.mpr ?_⟩⟩
  intro hsome
  cases hsome

/-- A thought and a text. -/
def thoughtBody : Json :=
  bodyOf (.obj [("reasoning_content", .str "Add."), ("content", .str "4")]) "stop" []

def thoughtCompletion : Completion where
  content := some "4"
  reasoningContent := some "Add."
  finishReason := some "stop"

def thoughtChunks : List Json :=
  [chunkOf [("reasoning_content", .str "Add.")] [],
   chunkOf [("content", .str "4")] [("finish_reason", .str "stop")]]

def thoughtReply : Reply where
  thoughts := [⟨"Add.", by decide⟩]
  texts := [⟨"4", by decide⟩]
  reason := some ⟨"stop", by decide⟩

/-- The unary parser leaves out the thought of a reply. -/
theorem thought_disagree :
    completion thoughtBody = some thoughtCompletion ∧
      Carries thoughtCompletion thoughtChunks thoughtReply ∧
      ∃ es, parseUnaryInner (.ok thoughtBody) = .ok es ∧
        ¬ Agree es (events thoughtChunks true) := by
  refine ⟨rfl, ⟨List.cons_ne_nil _ _, ?_, rfl, rfl, rfl, ?_, rfl, rfl⟩, ?_⟩
  · simp [thoughtChunks, chunkOf, Json.get]
  · refine ⟨?_, ?_, throughout_nil, ?_⟩
    · intro j hj
      cases hj
    · intro j hj
      cases hj
    · intro j call hcall
      cases hcall
  · refine ⟨_, rfl, fun hagree => ?_⟩
    have hblocks := hagree.1
    revert hblocks
    decide

end DeepSeekSse

end AgentShim
