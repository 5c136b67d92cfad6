import AgentShim.Gateway.Collect

/-
  What the unary path makes of a stream

  The collected response beside the stream it was collected from: whether its
  content is the blocks of the stream, and what a client is told where the stream
  failed.

  What is proved:
    1. `collect_faithful_iff` — the content is the blocks of the stream exactly if
       no error came, every block is a text with a piece or a call with arguments,
       and stopping in another order than starting makes no difference.
    2. `failure_reported_iff` — a failure is answered with a status other than 2xx
       exactly if an item of the stream failed before any error event.
-/

namespace AgentShim.Gateway

open Buffers

/-! ## Content -/

/-- The content that stands for a block; nothing for a kind without content and
for a call that was never named. No arguments are the empty object. -/
def expected (c : Codec) (b : Block) : Option ContentBlock :=
  match b.kind with
  | .text => some (.ofText b.text)
  | .reasoning => some (.reasoning { text := b.reasoning })
  | .toolCall => b.calls.getLast?.map fun call =>
    .toolCall { id := call.1, name := call.2, arguments := .complete
                  (if b.arguments = "" then .obj [] else (c.parseJson b.arguments).getD .null) }
  | .redactedReasoning | .image | .audio => none

/-- The content of the response is the blocks of the stream, in order. -/
def Faithful (c : Codec) (freshId : String) (es : List StreamEvent) : Prop :=
  ∃ r, collectStream c freshId (es.map .ok) = .ok r ∧
    r.content.map some = (blocks es).map (expected c)

/-- A text of which a piece came, or a call with arguments. -/
def Kept (es : List StreamEvent) (b : Block) : Prop :=
  match b.kind with
  | .text => ∃ text, StreamEvent.textDelta b.index text ∈ es
  | .toolCall => b.calls ≠ [] ∧ b.arguments ≠ ""
  | .reasoning | .redactedReasoning | .image | .audio => False

variable {c : Codec} {nested : Bool} {m : Envelope} {es : List StreamEvent} {i : Nat}
  {kind : ContentBlockKind}

theorem gather_text_ne_none_iff :
    gather BlockPart.text? (partsUnder i es) ≠ none ↔
      ∃ text, StreamEvent.textDelta i text ∈ es := by
  rw [ne_eq, gather_eq_none_iff, not_forall]
  constructor
  · rintro ⟨p, hp⟩
    obtain ⟨hmem, hsome⟩ := Classical.not_imp.mp hp
    cases p with
    | text text =>
      obtain ⟨e, he, hpart⟩ := mem_partsUnder.mp hmem
      cases e <;> cases hpart
      exact ⟨text, he⟩
    | _ => exact absurd rfl hsome
  · rintro ⟨text, he⟩
    exact ⟨.text text, fun hall => nomatch hall (mem_partsUnder.mpr ⟨_, he, rfl⟩)⟩

/-- A text makes content of its pieces. -/
theorem produced_text (h : Runs.exec (Envelope.step nested) {} es = some m)
    (hstart : (i, .text) ∈ started es) :
    produced c (partsUnder i es) =
      ((gather BlockPart.text? (partsUnder i es)).map ContentBlock.ofText).toList := by
  have hcalls : (partsUnder i es).filterMap BlockPart.call? = [] := by
    refine List.filterMap_eq_nil_iff.mpr fun p hp => ?_
    have hsuits := suits_of_exec h hstart hp
    cases p <;> first | rfl | cases hsuits
  rw [produced, hcalls]
  exact List.append_nil _

/-- A call makes content of its name and its arguments. -/
theorem produced_toolCall (h : Runs.exec (Envelope.step nested) {} es = some m)
    (hstart : (i, .toolCall) ∈ started es) :
    produced c (partsUnder i es) =
      ((blockAt (parts es) (i, .toolCall)).calls.getLast?.map fun call =>
        toolBlock c call (blockAt (parts es) (i, .toolCall)).arguments).toList := by
  have htext : gather BlockPart.text? (partsUnder i es) = none := by
    refine gather_eq_none_iff.mpr fun p hp => ?_
    have hsuits := suits_of_exec h hstart hp
    cases p <;> first | rfl | cases hsuits
  rw [produced, htext, calls_blockAt, arguments_blockAt]
  rfl

/-- A block of another kind makes no content. -/
theorem produced_other (h : Runs.exec (Envelope.step nested) {} es = some m)
    (hstart : (i, kind) ∈ started es) (htext : kind ≠ .text) (htool : kind ≠ .toolCall) :
    produced c (partsUnder i es) = [] := by
  have hnone : ∀ p ∈ partsUnder i es, p.text? = none ∧ p.call? = none := by
    intro p hp
    have hsuits := suits_of_exec h hstart hp
    cases p with
    | text text => exact absurd hsuits htext
    | call id name => exact absurd hsuits htool
    | _ => exact ⟨rfl, rfl⟩
  rw [produced, gather_eq_none_iff.mpr fun p hp => (hnone p hp).1,
    List.filterMap_eq_nil_iff.mpr fun p hp => (hnone p hp).2]
  rfl

theorem length_produced_le (h : Runs.exec (Envelope.step nested) {} es = some m)
    (hstart : (i, kind) ∈ started es) : (produced c (partsUnder i es)).length ≤ 1 := by
  by_cases htext : kind = .text
  · subst htext
    rw [produced_text h hstart]
    exact Option.length_toList_le
  · by_cases htool : kind = .toolCall
    · subst htool
      rw [produced_toolCall h hstart]
      exact Option.length_toList_le
    · rw [produced_other h hstart htext htool]
      exact Nat.zero_le 1

/-- What is kept of a block is what stands for it. -/
theorem produced_of_kept (h : Runs.exec (Envelope.step nested) {} es = some m)
    (hstart : (i, kind) ∈ started es) (hkept : Kept es (blockAt (parts es) (i, kind))) :
    (produced c (partsUnder i es)).map some = [expected c (blockAt (parts es) (i, kind))] := by
  unfold Kept at hkept
  unfold expected
  rw [kind_blockAt] at hkept ⊢
  cases kind with
  | text =>
    rw [blockAt_index] at hkept
    obtain ⟨text, htext⟩ := Option.ne_none_iff_exists'.mp (gather_text_ne_none_iff.mpr hkept)
    rw [produced_text h hstart, text_blockAt, htext]
    rfl
  | toolCall =>
    obtain ⟨hcalls, harguments⟩ := hkept
    obtain ⟨call, hcall⟩ := Option.ne_none_iff_exists'.mp (mt List.getLast?_eq_none_iff.mp hcalls)
    rw [produced_toolCall h hstart, hcall]
    simp [harguments, toolBlock]
  | _ => exact hkept.elim

/-- A block that makes content is kept, but for a call without arguments. -/
theorem kept_of_produced (h : Runs.exec (Envelope.step nested) {} es = some m)
    (hstart : (i, kind) ∈ started es) (hproduced : (produced c (partsUnder i es)).length = 1) :
    Kept es (blockAt (parts es) (i, kind)) ∨
      (blockAt (parts es) (i, kind)).kind = .toolCall ∧
        (blockAt (parts es) (i, kind)).arguments = "" := by
  have hkind := kind_blockAt es (i, kind)
  unfold Kept
  rw [hkind]
  by_cases htext : kind = .text
  · subst htext
    left
    refine (blockAt_index (parts es) (i, .text)) ▸ gather_text_ne_none_iff.mp fun hnone => ?_
    rw [produced_text h hstart, hnone] at hproduced
    cases hproduced
  · by_cases htool : kind = .toolCall
    · subst htool
      by_cases harguments : (blockAt (parts es) (i, .toolCall)).arguments = ""
      · exact Or.inr ⟨rfl, harguments⟩
      · refine Or.inl ⟨fun hnone => ?_, harguments⟩
        rw [produced_toolCall h hstart, hnone] at hproduced
        cases hproduced
    · rw [produced_other h hstart htext htool] at hproduced
      cases hproduced

/-- A call with null for arguments. -/
def isNullCall : Option ContentBlock → Bool
  | some (.toolCall b) =>
    match b.arguments with
    | .complete .null => true
    | _ => false
  | _ => false

/-- Without errors, and where every block is kept, the content is the blocks in the
order of their stops. -/
theorem content_of_kept (h : Runs.exec (Envelope.step nested) {} es = some m)
    (hclosed : ∀ i, (m.block i).isOpen = false) (hkept : ∀ b ∈ blocks es, Kept es b) :
    ((closedIndices es).flatMap fun i => produced c (partsUnder i es)).map some =
      (blocksByStop es).map (expected c) := by
  rw [List.map_flatMap, blocksByStop, List.map_flatMap]
  refine List.flatMap_congr fun i hi => ?_
  have hstarted := (closedIndices_perm h hclosed).mem_iff.mp hi
  obtain ⟨⟨j, kind⟩, hstart, rfl⟩ := List.mem_map.mp hstarted
  have hmem : blockAt (parts es) (j, kind) ∈ blocks es := by
    rw [blocks_eq h]
    exact List.mem_map_of_mem hstart
  rw [produced_of_kept h hstart (hkept _ hmem), filter_blocks h hstart, List.map_singleton]

/-- A call without arguments stands for the empty object, -/
theorem not_isNullCall_expected {b : Block} (htool : b.kind = .toolCall)
    (harguments : b.arguments = "") : isNullCall (expected c b) = false := by
  rw [expected, htool]
  simp only [harguments, if_true]
  cases b.calls.getLast? <;> rfl

/-- and makes a null. -/
theorem isNullCall_produced (hnull : c.parseJson "" = none)
    (h : Runs.exec (Envelope.step nested) {} es = some m) (hstart : (i, .toolCall) ∈ started es)
    (harguments : (blockAt (parts es) (i, .toolCall)).arguments = "")
    (hproduced : (produced c (partsUnder i es)).length = 1) :
    isNullCall (produced c (partsUnder i es)).head? = true := by
  rw [produced_toolCall h hstart, harguments] at hproduced ⊢
  cases hcall : (blockAt (parts es) (i, .toolCall)).calls.getLast? with
  | none =>
    rw [hcall] at hproduced
    cases hproduced
  | some call => simp [toolBlock, hnull, isNullCall]

/-- Content that is the blocks of the stream leaves none out. -/
theorem kept_of_content (hnull : c.parseJson "" = none)
    (h : Runs.exec (Envelope.step nested) {} es = some m)
    (hclosed : ∀ i, (m.block i).isOpen = false)
    (hcontent : ((closedIndices es).flatMap fun i => produced c (partsUnder i es)).map some =
      (blocks es).map (expected c)) : ∀ b ∈ blocks es, Kept es b := by
  have hperm := closedIndices_perm h hclosed
  have hstarts : startedIndices (parts es) = (started es).map Prod.fst := rfl
  -- every block makes one content, as none makes more
  have hone : ∀ start ∈ started es, (produced c (partsUnder start.1 es)).length = 1 := by
    refine Lists.length_eq_one_of_flatMap
      (fun start hstart => length_produced_le (i := start.1) h hstart) ?_
    have hlength := congrArg List.length hcontent
    have hmoved := (hperm.flatMap_right fun i => produced c (partsUnder i es)).length_eq
    rw [hstarts, List.flatMap_map] at hmoved
    rw [List.length_map, List.length_map, blocks_eq h, List.length_map, hmoved] at hlength
    exact hlength
  have hhead : ∀ start ∈ started es, (produced c (partsUnder start.1 es)).map some =
      [(produced c (partsUnder start.1 es)).head?] := by
    intro start hstart
    obtain ⟨x, hx⟩ := List.length_eq_one_iff.mp (hone start hstart)
    rw [hx]
    rfl
  have hhave := fun start hstart => kept_of_produced (c := c) h
    hstart (hone start hstart)
  -- the nulls of the content are those that stand for some block
  have hcount : (started es).countP (fun start =>
        isNullCall (expected c (blockAt (parts es) start))) =
      (started es).countP fun start =>
        isNullCall (produced c (partsUnder start.1 es)).head? := by
    have hmoved := (hperm.flatMap_right fun i => (produced c (partsUnder i es)).map some)
    rw [hstarts, List.flatMap_map, List.flatMap_congr hhead, ← List.map_eq_flatMap,
      ← List.map_flatMap, hcontent, blocks_eq h, List.map_map] at hmoved
    have hcounts := hmoved.countP_eq isNullCall
    rwa [List.countP_map, List.countP_map] at hcounts
  have himp : ∀ start ∈ started es, isNullCall (expected c (blockAt (parts es) start)) = true →
      isNullCall (produced c (partsUnder start.1 es)).head? = true := by
    intro start hstart hexpected
    rcases hhave start hstart with hkept | ⟨htool, harguments⟩
    · have hsame := hhead start hstart
      rw [produced_of_kept h hstart hkept] at hsame
      rwa [← (List.cons.inj hsame).1]
    · rw [not_isNullCall_expected htool harguments] at hexpected
      cases hexpected
  intro b hb
  rw [blocks_eq h] at hb
  obtain ⟨⟨i, kind⟩, hstart, rfl⟩ := List.mem_map.mp hb
  rcases hhave (i, kind) hstart with hkept | ⟨htool, harguments⟩
  · exact hkept
  · have hkind : kind = .toolCall := (kind_blockAt es (i, kind)).symm.trans htool
    subst hkind
    have hmade := isNullCall_produced hnull h hstart harguments (hone _ hstart)
    have hstood := Lists.imp_of_countP_eq himp hcount _ hstart hmade
    rw [not_isNullCall_expected htool harguments] at hstood
    cases hstood

/-- The collector is faithful exactly to the streams without errors whose blocks are
all kept, and spell the same in the order of their stops. -/
theorem collect_faithful_iff (c : Codec) (hnull : c.parseJson "" = none) (freshId : String)
    (h : LifecycleValid es) :
    Faithful c freshId es ↔
      (∀ e ∈ es, e.isError = false) ∧ (∀ b ∈ blocks es, Kept es b) ∧
        (blocksByStop es).map (expected c) = (blocks es).map (expected c) := by
  obtain ⟨m, hexec, hend⟩ := lifecycleValid_iff.mp h
  constructor
  · rintro ⟨r, hr, hcontent⟩
    have herrors : ∀ e ∈ es, e.isError = false := by
      intro e he
      cases e with
      | error message =>
        -- the collector fails with the first error
        obtain ⟨err, herr⟩ : ∃ err, (es.map Except.ok).findSome? failure = some err := by
          refine Option.isSome_iff_exists.mp (List.findSome?_isSome_iff.mpr ?_)
          exact ⟨_, List.mem_map_of_mem he, rfl⟩
        rw [collectStream_eq_error.mpr herr] at hr
        cases hr
      | _ => rfl
    obtain ⟨r', hr', hproduced⟩ := collected_of_exec c freshId hexec herrors
    obtain rfl := Except.ok.inj (hr.symm.trans hr')
    rw [hproduced] at hcontent
    have hkept := kept_of_content hnull hexec hend.2 hcontent
    exact ⟨herrors, hkept, (content_of_kept hexec hend.2 hkept).symm.trans hcontent⟩
  · rintro ⟨herrors, hkept, horder⟩
    obtain ⟨r, hr, hproduced⟩ := collected_of_exec c freshId hexec herrors
    refine ⟨r, hr, ?_⟩
    rw [hproduced, content_of_kept hexec hend.2 hkept, horder]

/-- A text and a call, whose pieces come in turns. -/
def textAndCall : List StreamEvent :=
  [.responseStart "resp_1" "gpt-4o" 0, .messageStart .assistant,
   .contentBlockStart 0 .text, .textDelta 0 "One ", .contentBlockStart 1 .toolCall,
   .toolCallStart 1 "call_1" "get_weather", .textDelta 0 "moment.",
   .toolCallArgumentsDelta 1 "\x7b", .contentBlockStop 0, .toolCallArgumentsDelta 1 "\x7d",
   .toolCallStop 1, .contentBlockStop 1, .messageStop .toolUse none, .responseStop none]

theorem textAndCall_kept : ∀ b ∈ blocks textAndCall, Kept textAndCall b := by
  have hblocks : blocks textAndCall =
      [{ index := 0, kind := .text, text := "One moment." },
       { index := 1, kind := .toolCall, calls := [("call_1", "get_weather")],
         arguments := "\x7b\x7d" }] := rfl
  rw [hblocks]
  refine List.forall_mem_cons.mpr ⟨⟨"One ", ?_⟩, List.forall_mem_singleton.mpr ?_⟩
  · exact List.mem_of_getElem? (i := 3) rfl
  · exact ⟨by decide, by decide⟩

theorem textAndCall_collected : Faithful objectCodec "resp_0" textAndCall :=
  (collect_faithful_iff objectCodec rfl "resp_0" (by decide)).mpr
    ⟨by decide, textAndCall_kept, rfl⟩

/-- A reasoning, and a call without arguments. -/
def thoughtThenCall : List StreamEvent :=
  [.responseStart "resp_1" "deepseek-reasoner" 0, .messageStart .assistant,
   .contentBlockStart 0 .reasoning, .reasoningDelta 0 "Look at the clock.",
   .contentBlockStop 0, .contentBlockStart 1 .toolCall, .toolCallStart 1 "call_1" "now",
   .toolCallStop 1, .contentBlockStop 1, .messageStop .toolUse none, .responseStop none]

/-- The reasoning is dropped, and the call is made with null. -/
theorem thoughtThenCall_unfaithful :
    LifecycleValid thoughtThenCall ∧
      (∃ r, collectStream objectCodec "resp_0" (thoughtThenCall.map .ok) = .ok r ∧
        r.content = [.toolCall { id := "call_1", name := "now", arguments := .complete .null }]) ∧
      ¬ Faithful objectCodec "resp_0" thoughtThenCall := by
  refine ⟨by decide, ⟨_, rfl, rfl⟩, ?_⟩
  rintro ⟨r, hr, hcontent⟩
  cases hr
  have hlength := congrArg List.length hcontent
  revert hlength
  decide

/-! ## Failures -/

/-- A failure of the stream: an error event, or an item that failed. -/
def fails : Except StreamError StreamEvent → Bool
  | .ok e => e.isError
  | .error _ => true

def isErrItem : Except StreamError StreamEvent → Bool
  | .ok _ => false
  | .error _ => true

def isSuccess (status : Nat) : Bool := 200 ≤ status && status < 300

theorem isSome_failure (item : Except StreamError StreamEvent) :
    (failure item).isSome = fails item := by
  cases item with
  | error e => rfl
  | ok e => cases e <;> rfl

/-- What fails the collector is the first failure of the stream. -/
theorem findSome?_failure (items : List (Except StreamError StreamEvent)) :
    items.findSome? failure = (items.find? fails).bind failure := by
  induction items with
  | nil => rfl
  | cons item items ih =>
    rw [List.findSome?_cons, List.find?_cons, ← isSome_failure]
    cases hfail : failure item with
    | none => exact ih
    | some err => exact hfail.symm

/-- An error event is told as a success, an item that failed is not. -/
theorem isSuccess_failure {item : Except StreamError StreamEvent} {err : HandlerError}
    (h : failure item = some err) : isSuccess err.status = !isErrItem item := by
  cases item with
  | error e =>
    cases h
    rfl
  | ok e =>
    cases e with
    | error message =>
      cases h
      rfl
    | _ => cases h

/-- A stream with a failure is answered with another status than 2xx exactly if its
first failure is an item that failed. -/
theorem failure_reported_iff {Body : Type} (c : Codec)
    (encodeUnary : CanonicalResponse → Except FrontendError Body) (freshId : String)
    {items : List (Except StreamError StreamEvent)} (h : ∃ item ∈ items, fails item = true) :
    isSuccess (unaryStatus c encodeUnary freshId items) = false ↔
      (items.find? fails).any isErrItem = true := by
  obtain ⟨first, hfirst⟩ := Option.isSome_iff_exists.mp (List.find?_isSome.mpr h)
  obtain ⟨err, herr⟩ : ∃ err, failure first = some err := by
    rw [← Option.isSome_iff_exists, isSome_failure]
    exact List.find?_some hfirst
  have hstream : collectStream c freshId items = .error err := by
    rw [collectStream_eq_error, findSome?_failure, hfirst]
    exact herr
  rw [unaryStatus, hstream, hfirst, Option.any_some]
  show isSuccess err.status = false ↔ _
  rw [isSuccess_failure herr, Bool.not_eq_false']

/-- An upstream that gives up. -/
def givenUp : List (Except StreamError StreamEvent) :=
  [.ok (.responseStart "resp_1" "gpt-4o" 0), .ok (.messageStart .assistant),
   .error (.upstream "connection reset")]

theorem givenUp_reported :
    isSuccess (unaryStatus objectCodec (fun r => .ok r) "resp_0" givenUp) = false :=
  (failure_reported_iff objectCodec _ "resp_0"
    ⟨.error (.upstream "connection reset"), List.mem_of_getElem? (i := 2) rfl, rfl⟩).mpr rfl

/-- An upstream that says so is answered with 200. -/
theorem overloaded_unreported :
    unaryStatus objectCodec (fun r => .ok r) "resp_0"
        [.ok (.responseStart "resp_1" "gpt-4o" 0), .ok (.error "overloaded")] = 200 ∧
      isSuccess 200 = true :=
  ⟨rfl, rfl⟩

end AgentShim.Gateway
