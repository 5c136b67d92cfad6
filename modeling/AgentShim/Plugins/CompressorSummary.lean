import AgentShim.Plugins.Compressor

/-
  Summaries in place of old turns

  `summarize_old_turns` asks an upstream for a summary of the groups it is about
  to drop. The call runs under a timeout; its stream is read to the end for the
  texts in it, whatever else it gives, and need not come to a response stop. A call
  that fails, and a stream without text, leave what `drop_old_turns` leaves.

  What is proved:
    1. `drain_ends` — a stream that ends yields its texts in order, and those alone.
    2. `summarize_or_fall_back` — beyond the floor and one group more, the result
       is the kept groups as they are, with a summary before them only if the call
       returned in time a stream that gave text.

  Nothing is said of what a stream with an `Err` item, or one that runs past the
  timeout, is replaced by.
-/

namespace AgentShim.PromptCompressor

open Tiling

/-! ## The summarizer's answer -/

def deltaText? : Except StreamError StreamEvent → Option String
  | .ok (.textDelta _ text) => some text
  | _ => none

/-- The texts a stream gave, joined. -/
def summaryText (items : List (Nat × Except StreamError StreamEvent)) : String :=
  String.join (items.filterMap fun item => deltaText? item.2)

theorem pushDelta_eq (acc : String) (item : Except StreamError StreamEvent) :
    pushDelta acc item = (deltaText? item).elim acc fun text => acc ++ text := by
  unfold pushDelta deltaText?
  split <;> simp

theorem foldl_pushDelta (items : List (Nat × Except StreamError StreamEvent)) (acc : String) :
    items.foldl (fun acc item => pushDelta acc item.2) acc = acc ++ summaryText items := by
  induction items generalizing acc with
  | nil => simp [summaryText]
  | cons item items ih =>
    rw [List.foldl_cons, ih, pushDelta_eq]
    cases hitem : deltaText? item.2 with
    | none => simp [summaryText, hitem]
    | some text => simp [summaryText, hitem, String.append_assoc]

theorem drain_ends (items : List (Nat × Except StreamError StreamEvent)) :
    drainTextFromStream (.ends items) = some (summaryText items) := by
  rw [drainTextFromStream, foldl_pushDelta, String.empty_append]

/-- A call that returned no stream within the timeout. -/
inductive Refuses (timeoutMs : Nat) : Completion → Prop
  | never : Refuses timeoutMs .never
  | late {atMs : Nat} {result : Except ProviderError SummaryStream} (h : timeoutMs < atMs) :
      Refuses timeoutMs (.returns atMs result)
  | failed (atMs : Nat) (e : ProviderError) : Refuses timeoutMs (.returns atMs (.error e))

/-- Every item came within the timeout, and none is an `Err`. -/
def InTime (timeoutMs : Nat) (items : List (Nat × Except StreamError StreamEvent)) : Prop :=
  ∀ item ∈ items, item.1 ≤ timeoutMs ∧ ∃ event, item.2 = .ok event

theorem withTimeout_of_refuses {timeoutMs : Nat} {answer : Completion}
    (h : Refuses timeoutMs answer) (stream : SummaryStream) :
    withTimeout timeoutMs answer ≠ some (.ok stream) := by
  cases h with
  | never => simp [withTimeout]
  | late hlate => simp [withTimeout, Nat.not_le.mpr hlate]
  | failed atMs e => simp [withTimeout]

theorem withTimeout_eq_ok {timeoutMs : Nat} {answer : Completion} {stream : SummaryStream} :
    withTimeout timeoutMs answer = some (.ok stream) ↔
      ∃ atMs, answer = .returns atMs (.ok stream) ∧ atMs ≤ timeoutMs := by
  cases answer with
  | never => simp [withTimeout]
  | returns atMs result => simp [withTimeout, and_comm]

/-! ## The strategy -/

section Strategy

variable {messages : List Message} {keepLastN : Nat}

theorem summarize_short (hadd : Wire.addUsize keepLastN 1 = keepLastN + 1) (s : Summarizer)
    (h : (groupBoundaries messages).length ≤ keepLastN + 1) :
    summarizeOldTurns messages keepLastN s = some (skip messages) := by
  rw [summarizeOldTurns, hadd, if_pos h]

theorem dropOldTurns_long {group : Range} (h : keepLastN < (groupBoundaries messages).length)
    (hget : (groupBoundaries messages)[(groupBoundaries messages).length - keepLastN]? =
      some group) :
    dropOldTurns messages keepLastN = some (cutAt messages group.start .compressed) := by
  rw [dropOldTurns, if_neg (Nat.not_le.mpr h), hget]
  rfl

/-- Beyond the floor and one group more the summarizer is asked. -/
theorem summarize_long {group : Range} (hadd : Wire.addUsize keepLastN 1 = keepLastN + 1)
    (s : Summarizer) (h : keepLastN + 1 < (groupBoundaries messages).length)
    (hget : (groupBoundaries messages)[(groupBoundaries messages).length - keepLastN]? =
      some group) :
    summarizeOldTurns messages keepLastN s =
      match withTimeout s.timeoutMs (s.ask (messages.take group.start)) with
      | some (.ok stream) => do
        let text ← drainTextFromStream stream
        if text = "" then some (cutAt messages group.start .summaryFallback)
        else
          some { newMessages := summaryMessage text :: messages.drop group.start
                 dropped := group.start
                 action := .compressed }
      | _ => some (cutAt messages group.start .summaryFallback) := by
  rw [summarizeOldTurns, hadd, if_neg (by omega), if_neg (by omega), hget]
  rfl

/-- What takes the place of the old messages, given the text of a summary. -/
def summarized (old kept : List Message) (text : String) : CompressionResult where
  newMessages := if text = "" then kept else summaryMessage text :: kept
  dropped := old.length
  action := if text = "" then .summaryFallback else .compressed

/-- A stream that ended is summarized by its text. -/
theorem summarize_answered {group : Range} (hadd : Wire.addUsize keepLastN 1 = keepLastN + 1)
    (s : Summarizer) (h : keepLastN + 1 < (groupBoundaries messages).length)
    (hget : (groupBoundaries messages)[(groupBoundaries messages).length - keepLastN]? =
      some group) {items : List (Nat × Except StreamError StreamEvent)}
    (hanswer : withTimeout s.timeoutMs (s.ask (messages.take group.start)) =
      some (.ok (.ends items))) :
    summarizeOldTurns messages keepLastN s =
      some (summarized (messages.take group.start) (messages.drop group.start)
        (summaryText items)) := by
  have hlength : (messages.take group.start).length = group.start :=
    List.length_take_of_le (Nat.le_of_lt ((groupBoundaries_tiles messages).start_lt hget))
  rw [summarize_long hadd s h hget, hanswer]
  show (drainTextFromStream (.ends items)).bind _ = _
  rw [drain_ends, Option.bind_some, summarized, hlength]
  by_cases htext : summaryText items = ""
  · simp [htext, cutAt]
  · simp [htext]

/-- With at most one group beyond the floor nothing is asked for and nothing changes.
With more, a call that fails or is late leaves the kept messages, as dropping the
old turns does; a stream that ends in time and without an `Err` leaves them as well
if it gave no text, and puts a summary of its texts before them if it did, whatever
its other events. In no case are the kept messages touched, or is a summary put
before them that a stream did not give, returned within the timeout. -/
theorem summarize_or_fall_back (hkeep : 1 ≤ keepLastN)
    (husize : keepLastN + 1 < 18446744073709551616) (s : Summarizer) :
    ((groupBoundaries messages).length ≤ keepLastN + 1 →
      summarizeOldTurns messages keepLastN s = some (skip messages)) ∧
    (keepLastN + 1 < (groupBoundaries messages).length →
      ∃ old kept, messages = old ++ kept ∧
        dropOldTurns messages keepLastN = some ⟨kept, old.length, .compressed⟩ ∧
        (Refuses s.timeoutMs (s.ask old) →
          summarizeOldTurns messages keepLastN s =
            some ⟨kept, old.length, .summaryFallback⟩) ∧
        (∀ atMs items, s.ask old = .returns atMs (.ok (.ends items)) → atMs ≤ s.timeoutMs →
          InTime s.timeoutMs items →
          summarizeOldTurns messages keepLastN s =
            some (summarized old kept (summaryText items))) ∧
        ∀ result, summarizeOldTurns messages keepLastN s = some result →
          result = ⟨kept, old.length, .summaryFallback⟩ ∨
          ∃ atMs items, s.ask old = .returns atMs (.ok (.ends items)) ∧ atMs ≤ s.timeoutMs ∧
            summaryText items ≠ "" ∧
            result = ⟨summaryMessage (summaryText items) :: kept, old.length, .compressed⟩) := by
  have hadd : Wire.addUsize keepLastN 1 = keepLastN + 1 := Nat.mod_eq_of_lt husize
  refine ⟨summarize_short hadd s, ?_⟩
  intro hlong
  obtain ⟨group, hget⟩ : ∃ group,
      (groupBoundaries messages)[(groupBoundaries messages).length - keepLastN]? = some group :=
    ⟨_, List.getElem?_eq_getElem (by omega)⟩
  have hstart := (groupBoundaries_tiles messages).start_lt hget
  have hlength : (messages.take group.start).length = group.start :=
    List.length_take_of_le (Nat.le_of_lt hstart)
  have hdrop := dropOldTurns_long (by omega) hget
  have hrun := summarize_long hadd s hlong hget
  refine ⟨messages.take group.start, messages.drop group.start,
    (List.take_append_drop _ _).symm, ?_, ?_, ?_, ?_⟩
  · rw [hdrop, hlength]
    rfl
  · intro hrefuses
    rw [hrun, hlength]
    split
    · rename_i stream hstream
      exact absurd hstream (withTimeout_of_refuses hrefuses stream)
    · rfl
  · intro atMs items hanswer hin _
    exact summarize_answered hadd s hlong hget (withTimeout_eq_ok.mpr ⟨atMs, hanswer, hin⟩)
  · intro result hresult
    by_cases hended : ∃ items, withTimeout s.timeoutMs (s.ask (messages.take group.start)) =
        some (.ok (.ends items))
    · obtain ⟨items, hitems⟩ := hended
      obtain ⟨atMs, hanswer, hin⟩ := withTimeout_eq_ok.mp hitems
      rw [summarize_answered hadd s hlong hget hitems] at hresult
      obtain rfl := Option.some.inj hresult
      by_cases htext : summaryText items = ""
      · refine Or.inl ?_
        rw [summarized, if_pos htext, if_pos htext]
      · refine Or.inr ⟨atMs, items, hanswer, hin, htext, ?_⟩
        rw [summarized, if_neg htext, if_neg htext]
    · -- no stream, or one that runs on
      rw [hrun] at hresult
      rw [hlength]
      split at hresult
      · rename_i stream hstream
        cases stream with
        | runsOn items => cases hresult
        | ends items => exact absurd ⟨items, hstream⟩ hended
      · cases hresult
        exact Or.inl rfl

end Strategy

/-- Three groups of one text each. -/
def threeTurns : List Message :=
  [.user [.ofText "What is a monad?"], .user [.ofText "And a comonad?"],
    .user [.ofText "And a monoid?"]]

/-- A summarizer that answers every request alike, within five seconds. -/
def summarizerOf (answer : Completion) : Summarizer where
  complete := fun _ _ => answer
  target := { provider := "mock", model := "test-model"
              policy := ⟨none, none, []⟩ }
  maxSummaryTokens := 300
  timeoutMs := 5000
  requestId := "req-1"
  codec := objectCodec

theorem summarize_or_fall_back_threeTurns :
    ∃ old kept, threeTurns = old ++ kept ∧
      summarizeOldTurns threeTurns 1
          (summarizerOf (.returns 20 (.ok (.ends [(30, .ok (.textDelta 0 "Two questions."))])))) =
        some (summarized old kept "Two questions.") := by
  obtain ⟨old, kept, hsplit, -, -, hstream, -⟩ := (@summarize_or_fall_back threeTurns 1
    (Nat.le_refl 1) (by decide)
    (summarizerOf (.returns 20 (.ok (.ends [(30, .ok (.textDelta 0 "Two questions."))]))))).2
    (by decide)
  refine ⟨old, kept, hsplit, hstream 20 _ rfl (by decide) ?_⟩
  simp [InTime, summarizerOf]

/-- An answer that breaks off: one text, then an error of the upstream. -/
def brokenOff : List (Nat × Except StreamError StreamEvent) :=
  [(30, .ok (.textDelta 0 "Two ques")), (40, .ok (.error "overloaded"))]

/-- A summary is put in of a stream that came to an error and to no stop. -/
theorem summary_of_brokenOff :
    ¬ ∀ messages keepLastN s result, 1 ≤ keepLastN →
        summarizeOldTurns messages keepLastN s = some result → result.action = .compressed →
        ∃ atMs items, s.ask (messages.take result.dropped) = .returns atMs (.ok (.ends items)) ∧
          (∃ usage, ∃ item ∈ items, item.2 = .ok (.responseStop usage)) ∧
          ∀ message, ∀ item ∈ items, item.2 ≠ .ok (.error message) := by
  intro hclaim
  obtain ⟨atMs, items, hanswer, -, herror⟩ := hclaim threeTurns 1
    (summarizerOf (.returns 20 (.ok (.ends brokenOff))))
    { newMessages := summaryMessage "Two ques" :: threeTurns.drop 2, dropped := 2
      action := .compressed } (Nat.le_refl 1) rfl rfl
  cases hanswer
  exact herror "overloaded" _ (List.mem_cons_of_mem _ List.mem_cons_self) rfl

end AgentShim.PromptCompressor
