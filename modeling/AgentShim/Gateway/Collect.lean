import AgentShim.Core.Content
import AgentShim.Lib.Lists
import AgentShim.Router.StaticRoutes
import AgentShim.Stream.Closing

/-
  The collector of the unary path

  A client that does not stream is answered with one response, collected from the
  same canonical stream. Text, the name of a call and its arguments are kept under
  the index of their block until the block stops, and are then a block of the
  content. What fails becomes an error of the gateway, and that a status.

  What is proved:
    1. `collected_of_exec` — over a lifecycle-valid stream the content is what
       came under each index, in the order of the stops.
    2. `collectStream_eq_error` — the collector fails with the first failure.

  Correspondence (Rust ↔ Lean):
    `HandlerError`, `FrontendError`            ↔ the same; of a `HandlerError` what its
                                                 status depends on
    `StatusCode::from_u16`                     ↔ `statusFromU16`
    the status of `IntoResponse::into_response` ↔ `HandlerError.status`
    the locals of `collect_stream`             ↔ `Collector`; the hash maps are `AList`s
    the body of its loop                       ↔ `collectItem`, `collectEvent`
    `collect_stream`                           ↔ `collectStream`; the fresh
                                                 `ResponseId` is a parameter
    the end of `run_unary`                     ↔ `unaryStatus`
-/

namespace AgentShim.Gateway

open Buffers
open StaticRoutes (RouteError)

/-! ## Errors and their status -/

inductive FrontendError
  | invalidBody (message : String)
  | unsupported (message : String)
  | encode (message : String)
  | decode (message : String)
  deriving DecidableEq, Repr

inductive HandlerError
  | route (e : RouteError)
  | provider (e : ProviderError)
  | frontend (e : FrontendError)
  | capabilityMismatch (message : String)
  | noUpstreamSucceeded (lastError : ProviderError)
  | terminalUpstream (e : ProviderError)
  | allBreakersOpen
  | rateLimited (retryAfterSecs : Nat)
  | noEligibleUpstream
  | unauthorized
  | pluginFailed (aborted : Bool)
  deriving DecidableEq, Repr

/-- A status code has three digits. -/
def statusFromU16 (status : Nat) : Option Nat :=
  if 100 ≤ status ∧ status < 1000 then some status else none

def HandlerError.status : HandlerError → Nat
  | .capabilityMismatch _ => 400
  | .unauthorized => 401
  | .pluginFailed aborted => if aborted then 400 else 502
  | .noUpstreamSucceeded _ | .allBreakersOpen | .noEligibleUpstream => 503
  | .rateLimited _ => 429
  | .route (.noRoute _ _) => 404
  | .provider (.upstream status _) => (statusFromU16 status).getD 502
  | .provider (.unknownProvider _) => 502
  | .provider (.network _) => 502
  | .provider (.capabilityMismatch _) => 400
  | .frontend (.invalidBody _) => 400
  | .frontend (.unsupported _) => 422
  | .terminalUpstream (.upstream status _) => (statusFromU16 status).getD 502
  | .terminalUpstream _ => 502
  | .provider (.decode _) | .provider (.encode _) => 500
  | .frontend (.encode _) | .frontend (.decode _) => 500

/-! ## The collector -/

variable (c : Codec)

structure Collector where
  id : String
  model : String := ""
  content : List ContentBlock := []
  stopReason : StopReason := .endTurn
  stopSequence : Option String := none
  usage : Option Usage := none
  toolNames : AList fun _ : Nat => String × String := ∅
  toolArgs : Buffer := ∅
  textBuf : Buffer := ∅

/-- The call of a block; arguments that are no JSON are null. -/
def toolBlock (call : String × String) (argsStr : String) : ContentBlock :=
  .toolCall { id := call.1, name := call.2,
              arguments := .complete ((c.parseJson argsStr).getD .null) }

/-- What is kept of the text of a block becomes content. -/
def Collector.stopText (s : Collector) (index : Nat) : Collector :=
  match s.textBuf.lookup index with
  | some text =>
    { s with textBuf := s.textBuf.erase index, content := s.content ++ [.ofText text] }
  | none => s

/-- And what is kept of its call. -/
def Collector.stopCall (s : Collector) (index : Nat) : Collector :=
  match s.toolNames.lookup index with
  | some call =>
    { s with
      toolNames := s.toolNames.erase index
      toolArgs := s.toolArgs.erase index
      content := s.content ++ [toolBlock c call ((s.toolArgs.lookup index).getD "")] }
  | none => s

def collectEvent (s : Collector) : StreamEvent → Except HandlerError Collector
  | .responseStart id model _ => .ok { s with id := id, model := model }
  | .textDelta index text => .ok { s with textBuf := pushText s.textBuf index text }
  | .contentBlockStop index => .ok ((s.stopText index).stopCall c index)
  | .toolCallStart index id name =>
    .ok { s with toolNames := s.toolNames.insert index (id, name) }
  | .toolCallArgumentsDelta index fragment =>
    .ok { s with toolArgs := pushText s.toolArgs index fragment }
  | .messageStop reason sequence => .ok { s with stopReason := reason, stopSequence := sequence }
  | .usageDelta usage => .ok { s with usage := some usage }
  | .responseStop (some usage) => .ok { s with usage := some usage }
  | .error message => .error (.provider (.upstream 200 message))
  | .responseStop none | .messageStart _ | .contentBlockStart _ _ | .reasoningDelta _ _
  | .toolCallStop _ | .rawProviderEvent _ _ _ => .ok s

def collectItem (s : Collector) : Except StreamError StreamEvent → Except HandlerError Collector
  | .ok e => collectEvent c s e
  | .error e => .error (.provider (.decode e.display))

def Collector.response (s : Collector) : CanonicalResponse :=
  { id := s.id, model := s.model, content := s.content, stopReason := s.stopReason,
    stopSequence := s.stopSequence, usage := s.usage }

/-- The whole stream is read, past the stop of its response. -/
def collectStream (freshId : String) (items : List (Except StreamError StreamEvent)) :
    Except HandlerError CanonicalResponse :=
  (items.foldlM (collectItem c) { id := freshId }).map Collector.response

/-- The status a client of the unary path is answered with. -/
def unaryStatus {Body : Type} (encodeUnary : CanonicalResponse → Except FrontendError Body)
    (freshId : String) (items : List (Except StreamError StreamEvent)) : Nat :=
  match collectStream c freshId items with
  | .error e => e.status
  | .ok response =>
    match encodeUnary response with
    | .ok _ => 200
    | .error e => (HandlerError.frontend e).status

variable {c} {nested : Bool} {m : Envelope} {es : List StreamEvent} {e : StreamEvent}
  {s s' : Collector}

/-! ## Failures -/

/-- What an item fails the collector with. -/
def failure : Except StreamError StreamEvent → Option HandlerError
  | .ok (.error message) => some (.provider (.upstream 200 message))
  | .ok _ => none
  | .error e => some (.provider (.decode e.display))

theorem collectItem_of_failure {item : Except StreamError StreamEvent} {err : HandlerError}
    (h : failure item = some err) (s : Collector) : collectItem c s item = .error err := by
  cases item with
  | error e =>
    cases h
    rfl
  | ok e =>
    cases e with
    | error message =>
      cases h
      rfl
    | _ => cases h

theorem collectItem_of_no_failure {item : Except StreamError StreamEvent}
    (h : failure item = none) (s : Collector) : ∃ s', collectItem c s item = .ok s' := by
  cases item with
  | error e => cases h
  | ok e =>
    cases e with
    | error message => cases h
    | responseStop usage => cases usage <;> exact ⟨_, rfl⟩
    | _ => exact ⟨_, rfl⟩

/-- The collector fails with the first failure, if there is one. -/
theorem collectStream_eq_error {freshId : String} {err : HandlerError}
    {items : List (Except StreamError StreamEvent)} :
    collectStream c freshId items = .error err ↔ items.findSome? failure = some err := by
  have hrun : ∀ s : Collector, (items.foldlM (collectItem c) s).map Collector.response =
      .error err ↔ items.findSome? failure = some err := by
    induction items with
    | nil => exact fun s => iff_of_false nofun nofun
    | cons item items ih =>
      intro s
      rw [List.foldlM_cons, List.findSome?_cons]
      cases hfail : failure item with
      | some first =>
        rw [collectItem_of_failure hfail]
        show Except.error first = _ ↔ _
        simp
      | none =>
        obtain ⟨s', hs'⟩ := collectItem_of_no_failure (c := c) hfail s
        rw [hs']
        exact ih s'
  exact hrun _

/-! ## What is collected of a lifecycle-valid stream -/

/-- The content that comes of the parts of a block when it stops. -/
def produced (c : Codec) (ps : List BlockPart) : List ContentBlock :=
  ((gather BlockPart.text? ps).map ContentBlock.ofText).toList ++
    ((ps.filterMap BlockPart.call?).getLast?.map fun call =>
      toolBlock c call ((gather BlockPart.arguments? ps).getD "")).toList

/-- What the collector has of the events it read: of a block that has stopped its
content, of any other what came under its index. -/
structure Gathers (c : Codec) (es : List StreamEvent) (m : Envelope) (s : Collector) : Prop where
  content : s.content = (closedIndices es).flatMap fun i => produced c (partsUnder i es)
  text : Tracks es m s.textBuf.lookup (gather BlockPart.text?)
  call : Tracks es m s.toolNames.lookup fun ps => (ps.filterMap BlockPart.call?).getLast?
  arguments : Tracks es m s.toolArgs.lookup (gather BlockPart.arguments?)

theorem gathers_init (c : Codec) (freshId : String) : Gathers c [] {} { id := freshId } where
  content := rfl
  text _ _ := rfl
  call _ _ := rfl
  arguments _ _ := rfl

/-- A piece of text that is kept under its index. -/
theorem tracks_pushText {buf : Buffer} {read : BlockPart → Option String}
    (h : Tracks es m buf.lookup (gather read)) (hallow : m.Allows nested e) {i : Nat}
    {p : BlockPart} {text : String} (hpart : e.part = some (i, p)) (hread : read p = some text) :
    Tracks (es ++ [e]) (m.after e) (Buffers.pushText buf i text).lookup (gather read) := by
  refine h.set hallow hpart ?_ fun j hj => lookup_pushText_ne hj
  have hbuf : buf.lookup i = gather read (partsUnder i es) :=
    h i (hallow.part_not_closed hpart)
  rw [lookup_pushText_self, hbuf, gather_concat_some hread]

theorem tracks_calls_kept {names : AList fun _ : Nat => String × String}
    (h : Tracks es m names.lookup fun ps => (ps.filterMap BlockPart.call?).getLast?)
    (hallow : m.Allows nested e) (hpart : ∀ i p, e.part = some (i, p) → p.call? = none) :
    Tracks (es ++ [e]) (m.after e) names.lookup
      fun ps => (ps.filterMap BlockPart.call?).getLast? := by
  refine h.kept hallow fun i p hp ps => ?_
  rw [List.filterMap_append, List.filterMap_cons_none (hpart i p hp), List.filterMap_nil,
    List.append_nil]

/-- What an event does that stops no block. -/
theorem Gathers.proceed (h : Gathers c es m s)
    (hexec : Runs.exec (Envelope.step nested) {} es = some m) (hallow : m.Allows nested e)
    (hcloses : e.closes = none) (hcontent : s'.content = s.content)
    (htext : Tracks (es ++ [e]) (m.after e) s'.textBuf.lookup (gather BlockPart.text?))
    (hcall : Tracks (es ++ [e]) (m.after e) s'.toolNames.lookup
      fun ps => (ps.filterMap BlockPart.call?).getLast?)
    (hargs : Tracks (es ++ [e]) (m.after e) s'.toolArgs.lookup (gather BlockPart.arguments?)) :
    Gathers c (es ++ [e]) (m.after e) s' where
  content := by
    rw [flatMap_closed_concat hexec hallow, hcloses, hcontent, h.content]
    exact (List.append_nil _).symm
  text := htext
  call := hcall
  arguments := hargs

/-- An event that the tables do not show. -/
theorem Gathers.unseen (h : Gathers c es m s)
    (hexec : Runs.exec (Envelope.step nested) {} es = some m) (hallow : m.Allows nested e)
    (hcloses : e.closes = none)
    (hpart : ∀ i p, e.part = some (i, p) → p.text? = none ∧ p.call? = none ∧ p.arguments? = none)
    (hcontent : s'.content = s.content) (htext : s'.textBuf = s.textBuf)
    (hnames : s'.toolNames = s.toolNames) (hargs : s'.toolArgs = s.toolArgs) :
    Gathers c (es ++ [e]) (m.after e) s' := by
  refine h.proceed hexec hallow hcloses hcontent ?_ ?_ ?_
  · rw [htext]
    exact h.text.kept hallow fun i p hp ps => gather_concat_none (hpart i p hp).1
  · rw [hnames]
    exact tracks_calls_kept h.call hallow fun i p hp => (hpart i p hp).2.1
  · rw [hargs]
    exact h.arguments.kept hallow fun i p hp ps => gather_concat_none (hpart i p hp).2.2

theorem stopText_eq (s : Collector) (i : Nat) :
    (s.stopText i).content = s.content ++ ((s.textBuf.lookup i).map ContentBlock.ofText).toList ∧
      (∀ j, j ≠ i → (s.stopText i).textBuf.lookup j = s.textBuf.lookup j) ∧
      (s.stopText i).toolNames = s.toolNames ∧ (s.stopText i).toolArgs = s.toolArgs := by
  unfold Collector.stopText
  cases s.textBuf.lookup i with
  | none => exact ⟨(List.append_nil _).symm, fun _ _ => rfl, rfl, rfl⟩
  | some text => exact ⟨rfl, fun j hj => AList.lookup_erase_ne hj, rfl, rfl⟩

theorem stopCall_eq (s : Collector) (i : Nat) :
    (s.stopCall c i).content = s.content ++ ((s.toolNames.lookup i).map fun call =>
        toolBlock c call ((s.toolArgs.lookup i).getD "")).toList ∧
      (s.stopCall c i).textBuf = s.textBuf ∧
      (∀ j, j ≠ i → (s.stopCall c i).toolNames.lookup j = s.toolNames.lookup j) ∧
      ∀ j, j ≠ i → (s.stopCall c i).toolArgs.lookup j = s.toolArgs.lookup j := by
  unfold Collector.stopCall
  cases s.toolNames.lookup i with
  | none => exact ⟨(List.append_nil _).symm, rfl, fun _ _ => rfl, fun _ _ => rfl⟩
  | some call =>
    exact ⟨rfl, rfl, fun j hj => AList.lookup_erase_ne hj, fun j hj => AList.lookup_erase_ne hj⟩

theorem Gathers.stopBlock (h : Gathers c es m s)
    (hexec : Runs.exec (Envelope.step nested) {} es = some m) {i : Nat}
    (hallow : m.Allows nested (.contentBlockStop i)) :
    Gathers c (es ++ [.contentBlockStop i]) (m.after (.contentBlockStop i))
      ((s.stopText i).stopCall c i) := by
  have hopen : m.block i ≠ .closed := by
    intro hclosed
    have hclose := hallow.2
    rw [hclosed] at hclose
    cases hclose
  have htext : s.textBuf.lookup i = gather BlockPart.text? (partsUnder i es) := h.text i hopen
  have hcall : s.toolNames.lookup i = ((partsUnder i es).filterMap BlockPart.call?).getLast? :=
    h.call i hopen
  have hargs : s.toolArgs.lookup i = gather BlockPart.arguments? (partsUnder i es) :=
    h.arguments i hopen
  obtain ⟨hcontent, htexts, hnames, hfragments⟩ := stopText_eq s i
  obtain ⟨hcontent', htexts', hnames', hfragments'⟩ := stopCall_eq (c := c) (s.stopText i) i
  refine ⟨?_, h.text.stop fun j hj => ?_, h.call.stop fun j hj => ?_,
    h.arguments.stop fun j hj => ?_⟩
  · rw [flatMap_closed_concat hexec hallow, hcontent', hcontent, hnames, hfragments, htext, hcall,
      hargs, h.content, List.append_assoc]
    exact congrArg _ (List.append_nil _).symm
  · rw [htexts', htexts j hj]
  · rw [hnames' j hj, hnames]
  · rw [hfragments' j hj, hfragments]

/-- Every event but an error is taken, and read as it should be. -/
theorem Gathers.step (h : Gathers c es m s)
    (hexec : Runs.exec (Envelope.step nested) {} es = some m) (hallow : m.Allows nested e)
    (herror : e.isError = false) :
    ∃ s', collectEvent c s e = .ok s' ∧ Gathers c (es ++ [e]) (m.after e) s' := by
  cases e with
  | error message => cases herror
  | textDelta i text =>
    refine ⟨_, rfl, h.proceed hexec hallow rfl rfl
      (tracks_pushText h.text hallow rfl rfl) (tracks_calls_kept h.call hallow ?_)
      (h.arguments.kept hallow ?_)⟩
    · rintro j p ⟨⟩
      rfl
    · rintro j p ⟨⟩ ps
      exact gather_concat_none rfl
  | toolCallArgumentsDelta i fragment =>
    refine ⟨_, rfl, h.proceed hexec hallow rfl rfl (h.text.kept hallow ?_)
      (tracks_calls_kept h.call hallow ?_) (tracks_pushText h.arguments hallow rfl rfl)⟩
    · rintro j p ⟨⟩ ps
      exact gather_concat_none rfl
    · rintro j p ⟨⟩
      rfl
  | toolCallStart i id name =>
    refine ⟨_, rfl, h.proceed hexec hallow rfl rfl (h.text.kept hallow ?_)
      (h.call.set hallow rfl ?_ fun j hj => AList.lookup_insert_ne hj)
      (h.arguments.kept hallow ?_)⟩
    · rintro j p ⟨⟩ ps
      exact gather_concat_none rfl
    · -- the newest call of a block is the one that counts
      show (s.toolNames.insert i (id, name)).lookup i = _
      rw [AList.lookup_insert]
      simp [BlockPart.call?]
    · rintro j p ⟨⟩ ps
      exact gather_concat_none rfl
  | contentBlockStop i => exact ⟨_, rfl, h.stopBlock hexec hallow⟩
  | contentBlockStart i kind =>
    refine ⟨_, rfl, h.unseen hexec hallow rfl ?_ rfl rfl rfl rfl⟩
    rintro j p ⟨⟩
    exact ⟨rfl, rfl, rfl⟩
  | reasoningDelta i text =>
    refine ⟨_, rfl, h.unseen hexec hallow rfl ?_ rfl rfl rfl rfl⟩
    rintro j p ⟨⟩
    exact ⟨rfl, rfl, rfl⟩
  | responseStop usage =>
    cases usage <;> exact ⟨_, rfl, h.unseen hexec hallow rfl (by rintro j p ⟨⟩) rfl rfl rfl rfl⟩
  | _ => exact ⟨_, rfl, h.unseen hexec hallow rfl (by rintro j p ⟨⟩) rfl rfl rfl rfl⟩

/-- Over a stream of the envelope without errors the collector fails nowhere. -/
theorem gathers_of_exec (c : Codec) (freshId : String)
    (h : Runs.exec (Envelope.step nested) {} es = some m)
    (herrors : ∀ e ∈ es, e.isError = false) :
    ∃ s, (es.map Except.ok).foldlM (collectItem c) { id := freshId } = .ok s ∧
      Gathers c es m s := by
  induction es using List.reverseRecOn generalizing m with
  | nil =>
    cases h
    exact ⟨_, rfl, gathers_init c freshId⟩
  | append_singleton es e ih =>
    obtain ⟨m₁, hpast, hnext⟩ := Runs.exec_append_eq_some.mp h
    obtain ⟨hallow, rfl⟩ := Envelope.exec_singleton_iff.mp hnext
    obtain ⟨hes, he⟩ := List.forall_mem_append.mp herrors
    obtain ⟨s, hs, hgathers⟩ := ih hpast hes
    obtain ⟨s', hs', hgathers'⟩ := hgathers.step hpast hallow (he e List.mem_cons_self)
    refine ⟨s', ?_, hgathers'⟩
    rw [List.map_append, List.foldlM_append, hs]
    show [Except.ok e].foldlM (collectItem c) s = _
    rw [List.foldlM_cons]
    show (collectEvent c s e >>= _) = _
    rw [hs']
    rfl

/-- The content of a stream is what came under each index, in the order of the stops. -/
theorem collected_of_exec (c : Codec) (freshId : String)
    (h : Runs.exec (Envelope.step nested) {} es = some m)
    (herrors : ∀ e ∈ es, e.isError = false) :
    ∃ r, collectStream c freshId (es.map .ok) = .ok r ∧
      r.content = (closedIndices es).flatMap fun i => produced c (partsUnder i es) := by
  obtain ⟨s, hs, hgathers⟩ := gathers_of_exec c freshId h herrors
  refine ⟨s.response, ?_, hgathers.content⟩
  rw [collectStream, hs]
  rfl

end AgentShim.Gateway
