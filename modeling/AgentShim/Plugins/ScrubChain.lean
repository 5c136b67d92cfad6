import AgentShim.Plugins.ScrubPlan
import AgentShim.Plugins.StreamWrap
import AgentShim.Stream.Lifecycle

/-
  Two scrubbers on one route

  All scrubbers of a request find their buffer under one key of its scratch map,
  the name of their kind. Two of them on one route work as one after the other
  would as long as no delta makes the first flush: then it puts out its text
  only with the event that empties the buffer. A flush leaves its tail in the
  buffer, and the second scrubber appends to it.

  What is proved:
    1. `wrapStream_scrubbers` — the wrapped stream of a route with two scrubbers
       is the run of `chainStep`.
    2. `chain_of_within` — where no run of deltas brings text or reasoning over
       the threshold, the run is the second scrubber's on the first one's output.
    3. `chain_text_ne` — where one does, some rules make the text of some block
       differ.
    4. `scrubbers_compose_iff` — so the chain is the composition iff none does.
-/

namespace AgentShim.Plugins

open Transducer Utf8

/-- One event through both scrubbers, on one buffer. -/
def chainStep (first second : List CompiledRule) (e : StreamEvent) :
    Emitter PiiBuffer StreamEvent := fun buf =>
  forEach (onStreamEvent second) (onStreamEvent first e buf).2 (onStreamEvent first e buf).1

/-- The text a stream of items has for a block, of either kind. -/
def blockText (index : Nat) (es : List StreamEvent) : List Char :=
  es.flatMap fun e =>
    match deltaOf e with
    | some d => if d.index = index then d.text else []
    | none => []

/-- No run of deltas brings the text or the reasoning of a request over the
threshold; `size` is what came since the last other event. -/
def WithinThreshold : (TextKind → Nat) → List StreamEvent → Prop
  | _, [] => True
  | size, e :: es =>
    match deltaOf e with
    | some d =>
      size d.kind + byteLen d.text ≤ flushThreshold ∧
        WithinThreshold (Function.update size d.kind (size d.kind + byteLen d.text)) es
    | none => WithinThreshold (fun _ => 0) es

/-! ## The wrapped stream -/

section Wrapped

variable {ctx : PluginContext}

theorem runPlugin_scrubber (entry : PluginEntry PiiScrubber) (evs : List StreamEvent)
    (buf : PiiBuffer) :
    runPlugin scrubberMethods ctx entry evs buf =
      (.ok (forEach (onStreamEvent entry.plugin.outbound) evs buf).2,
        (forEach (onStreamEvent entry.plugin.outbound) evs buf).1) := by
  induction evs generalizing buf with
  | nil => rfl
  | cons ev evs ih =>
    rw [runPlugin]
    simp only [scrubberMethods, invoke_ok]
    rw [← scrubberMethods, ih, forEach_cons]
    rfl

theorem wrapItem_scrubbers {first second : PluginEntry PiiScrubber} (hfirst : first.enabled = true)
    (hsecond : second.enabled = true) (e : StreamEvent) (buf : PiiBuffer) :
    wrapItem scrubberMethods ctx [first, second] (.ok e) buf =
      ((chainStep first.plugin.outbound second.plugin.outbound e buf).1,
        (chainStep first.plugin.outbound second.plugin.outbound e buf).2.map .ok) := by
  have hrun : runPlugin scrubberMethods ctx first [e] buf = _ := runPlugin_scrubber first [e] buf
  rw [forEach_singleton] at hrun
  refine wrapItem_of_ok ?_
  rw [runPlugins_of_ok hfirst hrun, runPlugins_of_ok hsecond (runPlugin_scrubber second _ _)]
  rfl

/-- The stream of a route with two scrubbers, event by event on one buffer. -/
theorem wrapStream_scrubbers {registry : PluginRegistry PiiScrubber} {frontend : FrontendKind}
    {model : String} {first second : PluginEntry PiiScrubber}
    (hplugins : registry.streamPlugins frontend model = [first, second])
    (hfirst : first.enabled = true) (hsecond : second.enabled = true) (es : List StreamEvent)
    (buf : PiiBuffer) :
    (wrapStream scrubberMethods ctx registry frontend model (es.map .ok) buf).2 =
      (forEach (chainStep first.plugin.outbound second.plugin.outbound) es buf).2.map .ok := by
  rw [wrapStream_eq, hplugins, forEach_map]
  have hstep (e : StreamEvent) (b : PiiBuffer) :
      (fun e => wrapItem scrubberMethods ctx [first, second] (.ok e)) e (id b) =
        (id (chainStep first.plugin.outbound second.plugin.outbound e b).1,
          (chainStep first.plugin.outbound second.plugin.outbound e b).2.flatMap
            fun e => [(.ok e : StreamItem)]) := by
    rw [← List.map_eq_flatMap]
    exact wrapItem_scrubbers hfirst hsecond e b
  have hrender := congrArg Prod.snd (forEach_render hstep es buf)
  rwa [← List.map_eq_flatMap] at hrender

end Wrapped

/-! ## Within the threshold -/

/-- What the buffer holds of each kind, in bytes. -/
def sizes (buf : PiiBuffer) : TextKind → Nat := fun kind => byteLen (buf.get kind)

theorem sizes_set (buf : PiiBuffer) (kind : TextKind) (t : List Char) :
    sizes (buf.set kind t) = Function.update (sizes buf) kind (byteLen t) := by
  funext k
  cases kind <;> cases k <;> rfl

theorem sizes_empty : sizes {} = fun _ => 0 := by
  funext k
  cases k <;> rfl

theorem withinThreshold_of_delta {size : TextKind → Nat} {e : StreamEvent} {d : Delta}
    {es : List StreamEvent} (h : deltaOf e = some d) :
    WithinThreshold size (e :: es) ↔
      size d.kind + byteLen d.text ≤ flushThreshold ∧
        WithinThreshold (Function.update size d.kind (size d.kind + byteLen d.text)) es := by
  rw [WithinThreshold, h]

theorem withinThreshold_of_other {size : TextKind → Nat} {e : StreamEvent}
    {es : List StreamEvent} (h : deltaOf e = none) :
    WithinThreshold size (e :: es) ↔ WithinThreshold (fun _ => 0) es := by
  rw [WithinThreshold, h]

/-- An event that is no delta leaves the buffer empty. -/
theorem forEach_onStreamEvent_other (rules : List CompiledRule) (front : List StreamEvent)
    {e : StreamEvent} (h : deltaOf e = none) (buf : PiiBuffer) :
    (forEach (onStreamEvent rules) (front ++ [e]) buf).1 = {} := by
  rw [forEach_append, andThen_apply, forEach_singleton, onStreamEvent_other rules h]

theorem chainStep_other (first second : List CompiledRule) {e : StreamEvent}
    (h : deltaOf e = none) (buf : PiiBuffer) :
    chainStep first second e buf =
      ({}, (forEach (onStreamEvent second) (onStreamEvent first e buf).2 {}).2) := by
  rw [chainStep, onStreamEvent_other first h]
  exact Prod.ext (forEach_onStreamEvent_other second _ h {}) rfl

theorem chainStep_of_le (first second : List CompiledRule) {e : StreamEvent} {d : Delta}
    (hd : deltaOf e = some d) {buf : PiiBuffer}
    (h : byteLen (buf.get d.kind ++ d.text) ≤ flushThreshold) :
    chainStep first second e buf = (buf.set d.kind (buf.get d.kind ++ d.text), []) := by
  rw [chainStep, onStreamEvent_of_le first hd h]
  rfl

/-- Where the first scrubber flushes nothing at a delta, the second has read all it
has put out when the buffer is used again. -/
theorem chain_of_within (first second : List CompiledRule) {es : List StreamEvent}
    {buf : PiiBuffer} (h : WithinThreshold (sizes buf) es) :
    (forEach (chainStep first second) es buf).2 =
      (forEach (onStreamEvent second) (forEach (onStreamEvent first) es buf).2 {}).2 := by
  induction es generalizing buf with
  | nil => rfl
  | cons e es ih =>
    rw [forEach_cons, forEach_cons, andThen_apply, andThen_apply]
    cases hd : deltaOf e with
    | some d =>
      obtain ⟨hsize, hrest⟩ := (withinThreshold_of_delta hd).mp h
      have hle : byteLen (buf.get d.kind ++ d.text) ≤ flushThreshold := by
        rw [byteLen_append]
        exact hsize
      rw [chainStep_of_le first second hd hle, onStreamEvent_of_le first hd hle]
      refine ih ?_
      rw [sizes_set, byteLen_append]
      exact hrest
    | none =>
      have hrest := (withinThreshold_of_other hd).mp h
      rw [← sizes_empty] at hrest
      have hempty : (forEach (onStreamEvent second) (onStreamEvent first e buf).2 {}).1 = {} := by
        rw [onStreamEvent_other first hd]
        exact forEach_onStreamEvent_other second _ hd {}
      rw [chainStep_other first second hd, forEach_append, andThen_apply, hempty]
      rw [onStreamEvent_other first hd]
      exact congrArg (_ ++ ·) (ih hrest)

/-! ## Over the threshold -/

theorem blockText_append (index : Nat) (as bs : List StreamEvent) :
    blockText index (as ++ bs) = blockText index as ++ blockText index bs :=
  List.flatMap_append

theorem blockText_event (kind : TextKind) (index : Nat) (t : List Char) (es : List StreamEvent) :
    blockText index (kind.event index t :: es) = t ++ blockText index es := by
  rw [blockText, List.flatMap_cons, deltaOf_event]
  dsimp only
  rw [if_pos rfl]
  rfl

/-- A character that is not the given one. -/
def another (c : Char) : Char := if c = 'x' then 'y' else 'x'

theorem another_ne (c : Char) : another c ≠ c := by
  unfold another
  split
  · rename_i h
    rw [h]
    decide
  · rename_i h
    exact fun heq => h heq.symm

/-- A text over the threshold that begins with a given character. -/
def longText (c : Char) : List Char := c :: List.replicate flushThreshold 'x'

theorem lt_byteLen_longText (c : Char) (front back : List Char) :
    flushThreshold < byteLen (front ++ (longText c ++ back)) := by
  have hlength (n : Nat) : byteLen (List.replicate n 'x') = n := by
    induction n with
    | zero => rfl
    | succ n ih =>
      rw [List.replicate_succ, byteLen_cons, ih, Nat.add_comm]
      rfl
  rw [byteLen_append, byteLen_append, longText, byteLen_cons, hlength]
  have := c.utf8Size_pos
  omega

/-- A flush by a rule that never fires. -/
theorem never_of_lt {e : StreamEvent} {d : Delta} (hd : deltaOf e = some d) {buf : PiiBuffer}
    {pushed : List Char} (hpushed : buf.get d.kind ++ d.text = pushed)
    (h : flushThreshold < byteLen pushed) :
    onStreamEvent [neverRule] e buf =
      (buf.set d.kind (pushed.drop (safeLength pushed)),
        [d.kind.event d.index (pushed.take (safeLength pushed))]) := by
  have hflush : flushSafePrefix [neverRule] pushed =
      (pushed.take (safeLength pushed), pushed.drop (safeLength pushed)) := by
    rw [flushSafePrefix_eq, applyRules_never, take_safeLength, drop_safeLength]
  rw [onStreamEvent_of_lt _ hd (by rwa [hpushed]), hpushed, hflush]
  dsimp only
  rw [List.isEmpty_eq_false_iff.mpr (take_safeLength_ne_nil h)]
  rfl

/-- The second scrubber puts out at once what comes to it over the threshold. -/
theorem never_event (index : Nat) {buf : PiiBuffer} {kind : TextKind} {c : Char}
    {t rest : List Char} (hbuf : buf.get kind ++ t = c :: rest)
    (h : flushThreshold < byteLen (buf.get kind ++ t)) :
    ∃ out, (onStreamEvent [neverRule] (kind.event index t) buf).2 =
      [kind.event index (c :: out)] := by
  rw [hbuf] at h
  have hrun := never_of_lt (deltaOf_event kind index t) hbuf h
  have hne := take_safeLength_ne_nil h
  cases hlength : safeLength (c :: rest) with
  | zero =>
    rw [hlength] at hne
    exact absurd rfl hne
  | succ n =>
    rw [hlength] at hrun
    exact ⟨rest.take n, congrArg Prod.snd hrun⟩

/-- Where a delta makes the first scrubber flush, two scrubbers can be told from one
after the other by the text of its block. -/
theorem flushing_text_ne {e : StreamEvent} {d : Delta} {buf : PiiBuffer} (hd : deltaOf e = some d)
    (hlong : flushThreshold < byteLen (buf.get d.kind ++ d.text)) (es : List StreamEvent) :
    ∃ first second index,
      blockText index (forEach (chainStep first second) (e :: es) buf).2 ≠
        blockText index
          (forEach (onStreamEvent second)
            (forEach (onStreamEvent first) (e :: es) buf).2 {}).2 := by
  -- the tail of the first stays in front of what the second appends
  obtain ⟨c, tail, htail⟩ := List.exists_cons_of_ne_nil (drop_safeLength_ne_nil hlong)
  rw [drop_safeLength] at htail
  let front := takeBytes (buf.get d.kind ++ d.text)
    (byteLen (buf.get d.kind ++ d.text) - maxPatternTail)
  have hflush : flushSafePrefix [startRule (longText (another c))]
      (buf.get d.kind ++ d.text) = (longText (another c) ++ front, c :: tail) := by
    rw [flushSafePrefix_eq, applyRules_start, htail]
  have hfirst : onStreamEvent [startRule (longText (another c))] e buf =
      (buf.set d.kind (c :: tail),
        [d.kind.event d.index (longText (another c) ++ front)]) := by
    rw [onStreamEvent_of_lt _ hd hlong, hflush]
    rfl
  -- on one buffer the second begins with the tail, on its own with the front
  have htailFirst : (buf.set d.kind (c :: tail)).get d.kind ++
      (longText (another c) ++ front) = c :: (tail ++ (longText (another c) ++ front)) := by
    rw [PiiBuffer.get_set, List.cons_append]
  have hfrontFirst : ({} : PiiBuffer).get d.kind ++ (longText (another c) ++ front) =
      another c :: (List.replicate flushThreshold 'x' ++ front) := by
    rw [PiiBuffer.get_empty, List.nil_append, longText, List.cons_append]
  obtain ⟨shared, hshared⟩ := never_event d.index htailFirst (lt_byteLen_longText ..)
  obtain ⟨apart, hapart⟩ := never_event d.index hfrontFirst (lt_byteLen_longText ..)
  refine ⟨[startRule (longText (another c))], [neverRule], d.index, fun heq => ?_⟩
  rw [forEach_cons, forEach_cons, andThen_apply, andThen_apply, chainStep, hfirst,
    forEach_singleton, forEach_append, andThen_apply, forEach_singleton, hshared, hapart,
    List.singleton_append, List.singleton_append, blockText_event, blockText_event] at heq
  exact another_ne c (List.head_eq_of_cons_eq heq).symm

/-- Where a run of deltas brings a buffer over the threshold, two scrubbers can be
told from one after the other by the text of a block. -/
theorem chain_text_ne {es : List StreamEvent} {buf : PiiBuffer}
    (h : ¬ WithinThreshold (sizes buf) es) :
    ∃ first second index,
      blockText index (forEach (chainStep first second) es buf).2 ≠
        blockText index
          (forEach (onStreamEvent second) (forEach (onStreamEvent first) es buf).2 {}).2 := by
  induction es generalizing buf with
  | nil => exact absurd trivial h
  | cons e es ih =>
    cases hd : deltaOf e with
    | none =>
      rw [withinThreshold_of_other hd, ← sizes_empty] at h
      obtain ⟨first, second, index, hne⟩ := ih h
      refine ⟨first, second, index, fun heq => hne ?_⟩
      have hempty : (forEach (onStreamEvent second) (onStreamEvent first e buf).2 {}).1 = {} := by
        rw [onStreamEvent_other first hd]
        exact forEach_onStreamEvent_other second _ hd {}
      rw [forEach_cons, forEach_cons, andThen_apply, andThen_apply, chainStep_other first second hd,
        forEach_append, andThen_apply, hempty, onStreamEvent_other first hd] at heq
      rw [blockText_append, blockText_append] at heq
      exact List.append_cancel_left heq
    | some d =>
      by_cases hle : byteLen (buf.get d.kind ++ d.text) ≤ flushThreshold
      · rw [withinThreshold_of_delta hd, not_and] at h
        have hrest : ¬ WithinThreshold (sizes (buf.set d.kind (buf.get d.kind ++ d.text))) es := by
          rw [sizes_set, byteLen_append]
          exact h (by rwa [byteLen_append] at hle)
        obtain ⟨first, second, index, hne⟩ := ih hrest
        refine ⟨first, second, index, fun heq => hne ?_⟩
        rw [forEach_cons, forEach_cons, andThen_apply, andThen_apply,
          chainStep_of_le first second hd hle, onStreamEvent_of_le first hd hle] at heq
        exact heq
      · exact flushing_text_ne hd (Nat.not_le.mp hle) es

/-! ## The chain and the composition -/

/-- The text a stream of items has for a block. -/
def itemText (index : Nat) (items : List StreamItem) : List Char :=
  blockText index (items.filterMap Except.toOption)

theorem itemText_map_ok (index : Nat) (es : List StreamEvent) :
    itemText index (es.map .ok) = blockText index es := by
  rw [itemText, List.filterMap_map]
  change blockText index (List.filterMap some es) = _
  rw [List.filterMap_some]

/-- On every route that names two scrubbers the wrapped stream is, up to `Same`, the
second one's output on the first one's. -/
def Composes (Same : List StreamItem → List StreamItem → Prop) (es : List StreamEvent) : Prop :=
  ∀ (registry : PluginRegistry PiiScrubber) (frontend : FrontendKind) (model : String)
    (ctx : PluginContext) (first second : PluginEntry PiiScrubber),
    registry.streamPlugins frontend model = [first, second] → first.enabled = true →
    second.enabled = true →
    Same (wrapStream scrubberMethods ctx registry frontend model (es.map .ok) {}).2
      ((scrub second.plugin.outbound (scrub first.plugin.outbound es)).map .ok)

theorem composes_of_within {es : List StreamEvent} (h : WithinThreshold (fun _ => 0) es) :
    Composes (· = ·) es := by
  intro registry frontend model ctx first second hplugins hfirst hsecond
  rw [wrapStream_scrubbers hplugins hfirst hsecond, chain_of_within _ _ (by rwa [sizes_empty])]
  rfl

/-- Where the first scrubber flushes at a delta, the text of some block tells the chain
from the composition, under some rules. -/
theorem not_composes_of_over {es : List StreamEvent} (h : ¬ WithinThreshold (fun _ => 0) es) :
    ¬ Composes (fun a b => ∀ index, itemText index a = itemText index b) es := by
  intro hcomposes
  rw [← sizes_empty] at h
  obtain ⟨first, second, index, hne⟩ := chain_text_ne h
  let entry (outbound : List CompiledRule) : PluginEntry PiiScrubber :=
    { name := "pii"
      kind := "pii_scrubber"
      plugin := { inbound := [], outbound := outbound }
      onError := .fail
      timeouts := HookTimeouts.default
      enabled := true }
  have hsame := hcomposes (wildcardRegistry [entry first, entry second]) .openAiChat "m"
    ⟨"r", .openAiChat, "openai_chat/m"⟩ (entry first) (entry second)
    (streamPlugins_wildcard _ _ _) rfl rfl index
  rw [wrapStream_scrubbers (streamPlugins_wildcard _ _ _) rfl rfl, itemText_map_ok,
    itemText_map_ok] at hsame
  exact hne hsame

theorem Composes.text {es : List StreamEvent} (h : Composes (· = ·) es) :
    Composes (fun a b => ∀ index, itemText index a = itemText index b) es := by
  intro registry frontend model ctx first second hplugins hfirst hsecond index
  rw [h registry frontend model ctx first second hplugins hfirst hsecond]

/-- Two scrubbers on a route are the composition of both, event by event and already
in the text of each block, iff no run of deltas makes the first one flush. -/
theorem scrubbers_compose_iff (es : List StreamEvent) :
    (Composes (· = ·) es ↔ WithinThreshold (fun _ => 0) es) ∧
      (Composes (fun a b => ∀ index, itemText index a = itemText index b) es ↔
        WithinThreshold (fun _ => 0) es) := by
  have hwithin (h : Composes (fun a b => ∀ index, itemText index a = itemText index b) es) :
      WithinThreshold (fun _ => 0) es := by
    by_contra hover
    exact not_composes_of_over hover h
  exact ⟨⟨fun h => hwithin h.text, composes_of_within⟩,
    ⟨hwithin, fun h => (composes_of_within h).text⟩⟩

/-- A text of 259 bytes with a word at its end. -/
def wordLast : List Char := List.replicate 64 '😀' ++ ['e', 'n', 'd']

/-- A response of one text block with one delta. -/
def oneText (t : List Char) : List StreamEvent :=
  [.responseStart "r" "m" 0, .messageStart .assistant, .contentBlockStart 0 .text,
    TextKind.text.event 0 t, .contentBlockStop 0, .messageStop .endTurn none, .responseStop none]

/-- Two scrubbers with nothing to scrub send the last 67 bytes, the word among them,
before the first ones. -/
theorem wordLast_first :
    LifecycleValid (oneText wordLast) ∧
      (chainStep [neverRule] [neverRule] (TextKind.text.event 0 wordLast) {}).2 =
        [TextKind.text.event 0 (wordLast.drop 48 ++ wordLast.take 32)] ∧
      ¬ Composes (fun a b => ∀ index, itemText index a = itemText index b) (oneText wordLast) := by
  have hdelta := deltaOf_event .text 0 wordLast
  have hfirst : onStreamEvent [neverRule] (TextKind.text.event 0 wordLast) {} =
      ({ text := wordLast.drop 48 }, [TextKind.text.event 0 (wordLast.take 48)]) := by
    have hlength : safeLength wordLast = 48 := by decide
    have hpushed : ({} : PiiBuffer).get .text ++ wordLast = wordLast := rfl
    rw [never_of_lt hdelta hpushed (by decide), hlength]
    rfl
  have hsecond : (onStreamEvent [neverRule] (TextKind.text.event 0 (wordLast.take 48))
      { text := wordLast.drop 48 }).2 =
        [TextKind.text.event 0 (wordLast.drop 48 ++ wordLast.take 32)] := by
    have hlength : safeLength (wordLast.drop 48 ++ wordLast.take 48) = 51 := by decide
    have hpushed : ({ text := wordLast.drop 48 } : PiiBuffer).get .text ++ wordLast.take 48 =
        wordLast.drop 48 ++ wordLast.take 48 := rfl
    rw [never_of_lt (deltaOf_event .text 0 (wordLast.take 48)) hpushed (by decide), hlength]
    rfl
  refine ⟨by decide, ?_, not_composes_of_over ?_⟩
  · rw [chainStep, hfirst, forEach_singleton, hsecond]
  · have hlong : ¬ byteLen wordLast ≤ flushThreshold := by decide
    intro h
    rw [oneText, withinThreshold_of_other rfl, withinThreshold_of_other rfl,
      withinThreshold_of_other rfl, withinThreshold_of_delta hdelta, Nat.zero_add] at h
    exact hlong h.1

end AgentShim.Plugins
