import AgentShim.Core.Doubles
import AgentShim.Core.Request
import AgentShim.Lib.Saturating
import AgentShim.Router.CostFilter
import Mathlib.Logic.Relation
import Mathlib.Tactic.Linarith

/-
  The cost estimate

  Prices a request before it is sent: the tokens of its text blocks and its
  images at the input price, the output cap at the output price. The cost filter
  compares the result with the cap of the route. The text is read from the text
  blocks of the messages alone; system instructions and reasoning blocks are
  sent upstream all the same.

  What is proved:
    1. `len_canonicalRequestText`, `estimateImageTokens_eq` — what the two counts
       read of a request.
    2. `estimateRequestCost_eq_of_blocks` — two requests with the same text and
       image blocks are priced alike, whatever else they hold.
    3. `MovesText.text_shorter` — a text moved out of the text blocks leaves a
       shorter text, and the same images.
    4. `move_never_lowers_iff_images_saturate` — a move lowers the estimate, for
       some schedule and tokenizer, unless the images alone use up the counter.

  Correspondence (Rust ↔ Lean):
    `agent_shim_tokens`' `encode_ordinary(..)`  ↔ `Estimators.encodedLen`
      `.len()`
    `tokens_for_image(ImageSizeHint::Unknown)`  ↔ `Estimators.tokensForImage`
    `canonical_request_text`, `output_token_cap` ↔ the same names
    `estimate_text_tokens`,                     ↔ the same names
      `estimate_image_tokens`
    `estimate_request_cost`                     ↔ `estimateRequestCost`
    `request_has_image`, and what `filter_chain` ↔ `requestFacts`
      asks of the request
-/

namespace AgentShim.RequestCost

open AgentShim.Config

/-- `u32::MAX`. -/
abbrev maxTokenCount : Nat := 4294967295

/-- The tokenizer, and the image estimator of the inbound frontend. -/
structure Estimators where
  encodedLen : String → Nat
  tokensForImage : Nat

def defaultMaxOutputTokens : Nat := 4096

structure CostEstimate where
  costUsd : F64
  deriving DecidableEq, Repr

/-- One block of the loop that joins the text blocks. -/
def pushText (out : String) : ContentBlock → String
  | .text t => out ++ t.text ++ "\n"
  | _ => out

def canonicalRequestText (request : CanonicalRequest) : String :=
  request.messages.foldl (fun out msg => msg.content.foldl pushText out) ""

/-- The length is cast to a `u32`, which wraps. -/
def estimateTextTokens (e : Estimators) (request : CanonicalRequest) : Nat :=
  e.encodedLen (canonicalRequestText request) % 4294967296

def addImage (e : Estimators) (tokens : Nat) (block : ContentBlock) : Nat :=
  if block.isImage then Saturating.add maxTokenCount tokens e.tokensForImage else tokens

def estimateImageTokens (e : Estimators) (request : CanonicalRequest) : Nat :=
  request.messages.foldl (fun tokens msg => msg.content.foldl (addImage e) tokens) 0

def outputTokenCap (request : CanonicalRequest) : Nat :=
  request.generation.maxTokens.getD defaultMaxOutputTokens

/-- The price of so many tokens. -/
def priceOf (cost : UpstreamCost) (inputTokens outputTokens : Nat) : F64 :=
  (((F64.ofNat inputTokens).mul cost.inputPerMillionUsd).add
    ((F64.ofNat outputTokens).mul cost.outputPerMillionUsd)).div (.finite 1000000)

def inputTokens (e : Estimators) (request : CanonicalRequest) : Nat :=
  Saturating.add maxTokenCount (estimateTextTokens e request) (estimateImageTokens e request)

theorem inputTokens_le (e : Estimators) (request : CanonicalRequest) :
    inputTokens e request ≤ maxTokenCount :=
  Saturating.add_le _ _ _

def estimateRequestCost (e : Estimators) (request : CanonicalRequest)
    (cost : Option UpstreamCost) : Option CostEstimate :=
  cost.map fun c => { costUsd := priceOf c (inputTokens e request) (outputTokenCap request) }

/-- What admission reads of a request. -/
def requestFacts (e : Estimators) (request : CanonicalRequest) : CostFilter.RequestFacts where
  hasImage := request.messages.any fun msg => msg.content.any ContentBlock.isImage
  estimateCost := fun c => priceOf c (inputTokens e request) (outputTokenCap request)

/-! ## What the counts read -/

/-- The blocks of all messages, in order. -/
def allBlocks (messages : List Message) : List ContentBlock := messages.flatMap (·.content)

theorem allBlocks_append (a b : List Message) :
    allBlocks (a ++ b) = allBlocks a ++ allBlocks b :=
  List.flatMap_append

theorem allBlocks_cons (msg : Message) (rest : List Message) :
    allBlocks (msg :: rest) = msg.content ++ allBlocks rest :=
  List.flatMap_cons

/-- The nested loops over messages and blocks are one loop over the blocks. -/
theorem foldl_messages {α : Type} (f : α → ContentBlock → α) (messages : List Message) (a : α) :
    messages.foldl (fun acc msg => msg.content.foldl f acc) a =
      (allBlocks messages).foldl f a := by
  induction messages generalizing a with
  | nil => rfl
  | cons msg rest ih => rw [List.foldl_cons, ih, allBlocks_cons, List.foldl_append]

/-- How many bytes of the text a block accounts for. -/
def textBytes : ContentBlock → Nat
  | .text t => Text.len t.text + 1
  | _ => 0

theorem len_pushText (out : String) (block : ContentBlock) :
    Text.len (pushText out block) = Text.len out + textBytes block := by
  cases block with
  | text t =>
    have hline : Text.len "\n" = 1 := by decide
    simp only [pushText, textBytes, Text.len, String.utf8ByteSize_append] at hline ⊢
    omega
  | _ => rfl

theorem len_foldl_pushText (blocks : List ContentBlock) (out : String) :
    Text.len (blocks.foldl pushText out) = Text.len out + (blocks.map textBytes).sum := by
  induction blocks generalizing out with
  | nil => rfl
  | cons block rest ih =>
    rw [List.foldl_cons, ih, len_pushText, List.map_cons, List.sum_cons, Nat.add_assoc]

/-- The text has one line for each text block. -/
theorem len_canonicalRequestText (request : CanonicalRequest) :
    Text.len (canonicalRequestText request) =
      ((allBlocks request.messages).map textBytes).sum := by
  have hempty : Text.len "" = 0 := by decide
  rw [canonicalRequestText, foldl_messages, len_foldl_pushText, hempty, Nat.zero_add]

/-- The number of image blocks of a list of messages. -/
def imageCount (messages : List Message) : Nat :=
  (allBlocks messages).countP ContentBlock.isImage

theorem foldl_addImage (e : Estimators) (blocks : List ContentBlock) {tokens : Nat}
    (h : tokens ≤ maxTokenCount) :
    blocks.foldl (addImage e) tokens =
      Saturating.add maxTokenCount tokens
        (blocks.countP ContentBlock.isImage * e.tokensForImage) := by
  induction blocks generalizing tokens with
  | nil =>
    rw [List.countP_nil, Nat.zero_mul, Saturating.add_of_le (Nat.add_zero tokens ▸ h)]
    rfl
  | cons block rest ih =>
    have hle : addImage e tokens block ≤ maxTokenCount := by
      unfold addImage
      split
      · exact Saturating.add_le _ _ _
      · exact h
    rw [List.foldl_cons, ih hle, List.countP_cons]
    cases himage : block.isImage with
    | false =>
      have hsame : addImage e tokens block = tokens := by simp [addImage, himage]
      rw [hsame, if_neg Bool.false_ne_true, Nat.add_zero]
    | true =>
      have hadd : addImage e tokens block =
          Saturating.add maxTokenCount tokens e.tokensForImage := by simp [addImage, himage]
      rw [hadd, if_pos rfl, Nat.add_mul, Nat.one_mul]
      unfold Saturating.add
      omega

theorem estimateImageTokens_eq (e : Estimators) (request : CanonicalRequest) :
    estimateImageTokens e request =
      min (imageCount request.messages * e.tokensForImage) maxTokenCount := by
  rw [estimateImageTokens, foldl_messages, foldl_addImage e _ (Nat.zero_le _)]
  unfold Saturating.add
  rw [Nat.zero_add]
  rfl

/-- Only text and image blocks and the output cap are read. -/
theorem estimateRequestCost_eq_of_blocks (e : Estimators) {request other : CanonicalRequest}
    (htext : canonicalRequestText other = canonicalRequestText request)
    (himages : imageCount other.messages = imageCount request.messages)
    (hgeneration : other.generation = request.generation) (cost : Option UpstreamCost) :
    estimateRequestCost e other cost = estimateRequestCost e request cost := by
  unfold estimateRequestCost inputTokens estimateTextTokens outputTokenCap
  rw [estimateImageTokens_eq, estimateImageTokens_eq, htext, himages, hgeneration]

/-! ## Moving a text -/

/-- `after` is `before` with one more block somewhere. -/
def InsertsBlock (block : ContentBlock) (before after : List Message) : Prop :=
  ∃ (front back : List Message) (msg : Message) (a b : List ContentBlock),
    before = front ++ { msg with content := a ++ b } :: back ∧
      after = front ++ { msg with content := a ++ block :: b } :: back

/-- A text block of a message becomes a system instruction, or a reasoning block,
of the same request. -/
inductive MovesText : CanonicalRequest → CanonicalRequest → Prop
  | toSystem {request : CanonicalRequest} {t : TextBlock} {rest : List Message}
      {s₁ s₂ : List SystemInstruction} (source : SystemSource)
      (htaken : InsertsBlock (.text t) rest request.messages)
      (hsystem : request.system = s₁ ++ s₂) :
      MovesText request
        { request with
          messages := rest
          system := s₁ ++ { source := source, content := [.text t] } :: s₂ }
  | toReasoning {request : CanonicalRequest} {t : TextBlock} {rest messages : List Message}
      (extensions : OrdMap Json)
      (htaken : InsertsBlock (.text t) rest request.messages)
      (hput : InsertsBlock (.reasoning { text := t.text, extensions := extensions }) rest
        messages) :
      MovesText request { request with messages := messages }

theorem InsertsBlock.allBlocks {block : ContentBlock} {before after : List Message}
    (h : InsertsBlock block before after) :
    ∃ a b, allBlocks before = a ++ b ∧ allBlocks after = a ++ block :: b := by
  obtain ⟨front, back, msg, a, b, rfl, rfl⟩ := h
  refine ⟨RequestCost.allBlocks front ++ a, b ++ RequestCost.allBlocks back, ?_, ?_⟩
  · simp [allBlocks_append, allBlocks_cons, List.append_assoc]
  · simp [allBlocks_append, allBlocks_cons, List.append_assoc]

theorem InsertsBlock.textBytes {block : ContentBlock} {before after : List Message}
    (h : InsertsBlock block before after) :
    ((RequestCost.allBlocks after).map RequestCost.textBytes).sum =
      ((RequestCost.allBlocks before).map RequestCost.textBytes).sum +
        RequestCost.textBytes block := by
  obtain ⟨a, b, hbefore, hafter⟩ := h.allBlocks
  rw [hbefore, hafter]
  simp only [List.map_append, List.map_cons, List.sum_append, List.sum_cons]
  omega

theorem InsertsBlock.imageCount {block : ContentBlock} {before after : List Message}
    (h : InsertsBlock block before after) (hblock : block.isImage = false) :
    imageCount after = imageCount before := by
  obtain ⟨a, b, hbefore, hafter⟩ := h.allBlocks
  rw [RequestCost.imageCount, RequestCost.imageCount, hbefore, hafter]
  simp [List.countP_append, hblock]

/-- What a move does to everything the estimate reads. -/
structure Shortens (request other : CanonicalRequest) : Prop where
  text : Text.len (canonicalRequestText other) < Text.len (canonicalRequestText request)
  images : imageCount other.messages = imageCount request.messages
  generation : other.generation = request.generation

theorem MovesText.text_shorter {request other : CanonicalRequest} (h : MovesText request other) :
    Shortens request other := by
  cases h with
  | @toSystem t rest s₁ s₂ source htaken hsystem =>
    refine ⟨?_, (htaken.imageCount rfl).symm, rfl⟩
    rw [len_canonicalRequestText, len_canonicalRequestText, htaken.textBytes]
    simp only [RequestCost.textBytes]
    omega
  | @toReasoning t rest messages extensions htaken hput =>
    refine ⟨?_, (hput.imageCount rfl).trans (htaken.imageCount rfl).symm, rfl⟩
    rw [len_canonicalRequestText, len_canonicalRequestText, htaken.textBytes, hput.textBytes]
    simp only [RequestCost.textBytes]
    omega

theorem shortens_of_moves {request other : CanonicalRequest}
    (h : Relation.TransGen MovesText request other) : Shortens request other := by
  induction h with
  | single h => exact h.text_shorter
  | tail _ h ih =>
    have hlast := h.text_shorter
    exact ⟨hlast.text.trans ih.text, hlast.images.trans ih.images,
      hlast.generation.trans ih.generation⟩

/-! ## Whether a move lowers the estimate -/

/-- A longer text has no fewer tokens. -/
def Estimators.Monotone (e : Estimators) : Prop :=
  ∀ s t, Text.len s ≤ Text.len t → e.encodedLen s ≤ e.encodedLen t

/-- No schedule with a positive input price and no monotone tokenizer prices
`other` below `request`. -/
def NeverLowers (tokensForImage : Nat) (request other : CanonicalRequest) : Prop :=
  ∀ (e : Estimators) (cost : UpstreamCost) (before after : CostEstimate),
    e.tokensForImage = tokensForImage → e.Monotone →
    (F64.finite 0).lt cost.inputPerMillionUsd = true →
    estimateRequestCost e request (some cost) = some before →
    estimateRequestCost e other (some cost) = some after →
    after.costUsd.lt before.costUsd = false

/-- A dollar for each input token, nothing for the output. -/
def dollarPerToken : UpstreamCost where
  inputPerMillionUsd := .finite 1000000
  outputPerMillionUsd := .finite 0

/-- At a dollar a token the estimate is the number of input tokens. -/
theorem priceOf_dollarPerToken {inputTokens outputTokens : Nat}
    (hinput : inputTokens ≤ maxTokenCount) (houtput : outputTokens ≤ maxTokenCount) :
    priceOf dollarPerToken inputTokens outputTokens = .finite inputTokens := by
  unfold maxTokenCount at hinput houtput
  have hmul : (F64.finite inputTokens).mul (.finite 1000000) =
      .finite (inputTokens * 1000000 : Nat) := by
    have hcast : ((inputTokens : Rat) * 1000000) = (inputTokens * 1000000 : Nat) := by
      push_cast
      rfl
    rw [F64.mul, hcast, F64.ofRat_natCast (by omega)]
  have hzero : (F64.finite outputTokens).mul (.finite 0) = .finite 0 := by
    rw [F64.mul, mul_zero]
    rfl
  have hadd : (F64.finite (inputTokens * 1000000 : Nat)).add (.finite 0) =
      .finite (inputTokens * 1000000 : Nat) := by
    rw [F64.add, add_zero, F64.ofRat_natCast (by omega)]
  have hdiv : (F64.finite (inputTokens * 1000000 : Nat)).div (.finite 1000000) =
      .finite inputTokens := by
    have hcast : ((inputTokens * 1000000 : Nat) : Rat) / 1000000 = inputTokens := by
      push_cast
      exact mul_div_cancel_right₀ _ (by norm_num)
    rw [F64.div, if_neg (by norm_num), hcast, F64.ofRat_natCast (by omega)]
  unfold priceOf dollarPerToken F64.ofNat
  rw [F64.ofRat_natCast (by omega), F64.ofRat_natCast (by omega), hmul, hzero, hadd, hdiv]

/-- The tokenizer that tells texts of at least `n` bytes from shorter ones. -/
def thresholdEstimators (n tokensForImage : Nat) : Estimators where
  encodedLen := fun s => if n ≤ Text.len s then 1 else 0
  tokensForImage := tokensForImage

theorem thresholdEstimators_monotone (n tokensForImage : Nat) :
    (thresholdEstimators n tokensForImage).Monotone := by
  intro s t hlen
  simp only [thresholdEstimators]
  split
  · rw [if_pos (by omega)]
  · exact Nat.zero_le _

/-- Moving text out of the text blocks of a request leaves its estimate where it
was, for every schedule and tokenizer, iff the images alone use up the counter. -/
theorem move_never_lowers_iff_images_saturate {request other : CanonicalRequest}
    (tokensForImage : Nat) (hmoves : Relation.TransGen MovesText request other)
    (hcap : outputTokenCap request ≤ maxTokenCount) :
    NeverLowers tokensForImage request other ↔
      maxTokenCount ≤ imageCount request.messages * tokensForImage := by
  have hshort := shortens_of_moves hmoves
  constructor
  · intro hnever
    by_contra himages
    rw [Nat.not_le] at himages
    -- the tokenizer that sees the difference in length, at a dollar a token
    let e := thresholdEstimators (Text.len (canonicalRequestText request)) tokensForImage
    have hbefore : estimateTextTokens e request = 1 := by
      simp [e, estimateTextTokens, thresholdEstimators]
    have hafter : estimateTextTokens e other = 0 := by
      simp [e, estimateTextTokens, thresholdEstimators, Nat.not_le.mpr hshort.text]
    have hlt : inputTokens e other < inputTokens e request := by
      unfold inputTokens
      rw [hbefore, hafter, estimateImageTokens_eq, estimateImageTokens_eq, hshort.images,
        Saturating.add_lt_add_iff]
      simp only [e, thresholdEstimators]
      omega
    have hcap' : outputTokenCap other ≤ maxTokenCount := by
      unfold outputTokenCap at hcap ⊢
      rwa [hshort.generation]
    have hge := hnever e dollarPerToken _ _ rfl (thresholdEstimators_monotone _ _) rfl rfl rfl
    dsimp only at hge
    rw [priceOf_dollarPerToken (inputTokens_le e other) hcap',
      priceOf_dollarPerToken (inputTokens_le e request) hcap] at hge
    simp only [F64.lt, decide_eq_false_iff_not, Nat.cast_lt] at hge
    exact hge hlt
  · intro himages e cost before after himage _ _ hbefore hafter
    subst himage
    -- both counters are at their largest value
    have hfull (r : CanonicalRequest) (hr : imageCount r.messages = imageCount request.messages) :
        inputTokens e r = maxTokenCount := by
      unfold inputTokens
      rw [estimateImageTokens_eq, hr, Saturating.add_eq_max_iff]
      omega
    have hcapEq : outputTokenCap other = outputTokenCap request := by
      unfold outputTokenCap
      rw [hshort.generation]
    cases hbefore
    cases hafter
    rw [hfull other hshort.images, hfull request rfl, hcapEq]
    exact F64.lt_irrefl _

/-- A prompt in two text blocks. -/
def spokenPrompt : CanonicalRequest where
  id := "req_1"
  frontend := { kind := .anthropicMessages, requestedModel := "m" }
  model := "m"
  messages := [.user [.ofText "Translate.", .ofText "A text."]]
  generation := { maxTokens := some 100 }

/-- The same prompt with its second block in a system instruction. -/
def hiddenPrompt : CanonicalRequest :=
  { spokenPrompt with
    messages := [.user [.ofText "Translate."]]
    system := [{ source := .anthropicSystem, content := [.ofText "A text."] }] }

theorem spokenPrompt_moves : MovesText spokenPrompt hiddenPrompt := by
  have htaken : InsertsBlock (.text { text := "A text." }) hiddenPrompt.messages
      spokenPrompt.messages :=
    ⟨[], [], .user [], [.ofText "Translate."], [], rfl, rfl⟩
  have hsystem : spokenPrompt.system = [] ++ [] := rfl
  exact .toSystem .anthropicSystem htaken hsystem

/-- With an image of 1600 tokens at most, the move lowers some estimate. -/
theorem move_never_lowers_iff_images_saturate_spokenPrompt :
    ¬ (maxTokenCount ≤ imageCount spokenPrompt.messages * 1600) ∧
      ¬ NeverLowers 1600 spokenPrompt hiddenPrompt := by
  have himages : ¬ (maxTokenCount ≤ imageCount spokenPrompt.messages * 1600) := by decide
  refine ⟨himages, fun h => himages ?_⟩
  exact (move_never_lowers_iff_images_saturate 1600 (.single spokenPrompt_moves) (by decide)).mp h

/-- At one token a byte and a dollar a token the prompt is estimated at 19 dollars;
moved it is estimated at 11 and passes a cap of 15. -/
theorem move_passes_cap :
    let bytes : Estimators := { encodedLen := Text.len, tokensForImage := 1600 }
    let capped : RouteEntry :=
      { RouteEntry.singular "anthropic_messages" "m" "openai" "m" with
        maxCostUsd := some (.finite 15) }
    let upstream : UpstreamConfig := .openAiCompatible
      { baseUrl := "https://api", apiKey := "k", requestTimeoutSecs := 120, tier := .standard
        cost := some dollarPerToken, p95LatencyBudgetMs := none }
    MovesText spokenPrompt hiddenPrompt ∧ bytes.Monotone ∧
      estimateRequestCost bytes spokenPrompt dollarPerToken = some { costUsd := .finite 19 } ∧
      estimateRequestCost bytes hiddenPrompt dollarPerToken = some { costUsd := .finite 11 } ∧
      CostFilter.overCap capped (requestFacts bytes spokenPrompt) upstream = true ∧
      CostFilter.overCap capped (requestFacts bytes hiddenPrompt) upstream = false := by
  refine ⟨spokenPrompt_moves, fun _ _ h => h, ?_, ?_, ?_, ?_⟩
  all_goals decide +kernel

end AgentShim.RequestCost
