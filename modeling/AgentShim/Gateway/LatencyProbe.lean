import AgentShim.Core.Rounding
import AgentShim.Lib.Lists
import AgentShim.Router.CostFilter

/-
  The latency probe

  The cost filter asks for the recent 95th percentile of an upstream. The probe reads it
  off the metrics of the gateway: of the buckets of the duration histogram, which count
  the calls that took at most so long, the first that has 95 % of all calls. A histogram
  is kept for every model and status of the upstream, and the buckets of all of them are
  read as one: the total is that of the last one, and each bucket counts the calls of its
  own.

  Correspondence (Rust ↔ Lean):
    `prometheus_parse::{Sample, Value}` ↔ `Sample`, `Value`; the samples of a scrape are
                                          a parameter, and so is `str::parse::<f64>`
    the closures of the filters         ↔ `bucketOf`, `bucketsOf`
    `sort_by` with `partial_cmp`        ↔ `sortBuckets`, stable; comparing a NaN panics
    `compute_p95_from_scrape`           ↔ `computeP95FromScrape`

  What is proved:
    1. `reaches_iff` — the target computed in doubles is 95 % of the calls.
    2. `p95OfBuckets_eq` — the result for buckets that can be sorted.
    3. `p95_of_scrape` — the result for the histograms of an upstream.
    4. `latency_skip_iff` — when the filter leaves out an upstream for its latency.
-/

namespace AgentShim.LatencyProbe

open AgentShim.Config CostFilter

/-! ## The probe -/

inductive Value
  | counter (c : F64)
  | gauge (c : F64)
  | histogram
  | summary
  | untyped (c : F64)

structure Sample where
  metric : String
  labels : List (String × String)
  value : Value

/-- A comparison without an answer is unwrapped. -/
inductive Panic
  | incomparable
  deriving DecidableEq, Repr

abbrev Bucket := F64 × Nat

def bucketMetric : String := "agent_shim_upstream_duration_seconds_bucket"

variable (parseF64 : String → Option F64)

def bucketOf (s : Sample) : Option Bucket :=
  match (s.labels.lookup "le").bind parseF64, s.value with
  | some le, .counter c | some le, .untyped c => some (le, c.toU64)
  | _, _ => none

def bucketsOf (samples : List Sample) (upstream : String) : List Bucket :=
  ((samples.filter fun s => s.metric == bucketMetric).filter
    fun s => s.labels.lookup "upstream" == some upstream).filterMap (bucketOf parseF64)

/-- Two buckets at least are compared, each of them with another. -/
def sortBuckets (buckets : List Bucket) : Except Panic (List Bucket) :=
  if 2 ≤ buckets.length ∧ ∃ b ∈ buckets, b.1 = .nan then .error .incomparable
  else .ok (buckets.insertionSort fun a b => a.1.le b.1 = true)

/-- `0.95_f64`. -/
def share : F64 := .ofRat (95 / 100)

def targetOf (total : Nat) : Nat := (share.mul (.ofNat total)).ceil.toU64

def millis (le : F64) : Nat := (le.mul (.finite 1000)).round.toU64

def p95OfBuckets (buckets : List Bucket) : Except Panic (Option Nat) :=
  if buckets.isEmpty then .ok none
  else
    (sortBuckets buckets).map fun sorted =>
      match sorted.getLast? with
      | none => none
      | some top =>
        if top.2 = 0 then none
        else (sorted.find? fun b => targetOf top.2 ≤ b.2).map fun b => millis b.1

/-- `samples` is what the parser makes of the body, where it does. -/
def computeP95FromScrape (samples : Option (List Sample)) (upstream : String) :
    Except Panic (Option Nat) :=
  match samples with
  | none => .ok none
  | some samples => p95OfBuckets (bucketsOf parseF64 samples upstream)

/-! ## The target -/

theorem share_eq : share = .finite (8556839292003942 / 9007199254740992) := by decide +kernel

theorem targetOf_eq {n : Nat} (h : n < 2 ^ 48) : targetOf n = (19 * n + 19) / 20 := by
  have hexact : F64.ofNat n = .finite n :=
    F64.ofRat_natCast (Nat.lt_trans h (by norm_num))
  rcases Nat.eq_zero_or_pos n with rfl | hpos
  · decide +kernel
  have hn : (1 : Rat) ≤ n := by exact_mod_cast hpos
  have hbound : (n : Rat) ≤ 2 ^ 48 := by exact_mod_cast h.le
  obtain ⟨r, hr, hnear, hside⟩ :=
    F64.ofRat_near (q := 8556839292003942 / 9007199254740992 * n) (by linarith) (by linarith)
  -- the rounded target
  let z : Int := (19 * n + 19) / 20
  have hz : 20 * z ≤ 19 * n + 19 ∧ 19 * n ≤ 20 * z := by omega
  have hzlow : (20 : Rat) * z ≤ 19 * n + 19 := by exact_mod_cast hz.1
  have hzhigh : (19 : Rat) * n ≤ 20 * z := by exact_mod_cast hz.2
  have hceil : r.ceil = z := by
    have habove : r.ceil ≤ z := Rat.ceil_le_iff.mpr (hside z (by linarith))
    have hbelow : z - 1 < r.ceil := by
      apply Rat.lt_ceil_iff.mpr
      push_cast
      linarith
    omega
  have htarget : targetOf n = min z.toNat 18446744073709551615 := by
    rw [targetOf, share_eq, hexact, F64.mul, hr, F64.ceil, F64.toU64, hceil, Rat.floor_intCast]
  omega

/-- The first bucket wanted is the first with 95 % of the calls. -/
theorem reaches_iff {n k : Nat} (h : n < 2 ^ 48) : targetOf n ≤ k ↔ 19 * n ≤ 20 * k := by
  rw [targetOf_eq h]
  omega

/-! ## Buckets that can be sorted -/

/-- The buckets hold no NaN and the last of them has the highest bound. -/
structure Sortable (front : List Bucket) (top : Bucket) : Prop where
  number : ∀ b ∈ front ++ [top], b.1 ≠ .nan
  below : ∀ b ∈ front, b.1.le top.1 = true

theorem sortBuckets_eq {front : List Bucket} {top : Bucket} (h : Sortable front top) :
    sortBuckets (front ++ [top]) =
      .ok (front.insertionSort (fun a b => a.1.le b.1 = true) ++ [top]) := by
  have hnumber : ¬∃ b ∈ front ++ [top], b.1 = .nan := by
    intro hnan
    obtain ⟨b, hb, he⟩ := hnan
    exact h.number b hb he
  rw [sortBuckets, if_neg (fun hboth => hnumber hboth.2), Lists.insertionSort_concat h.below]

theorem sorted_pairwise {l : List Bucket} (h : ∀ b ∈ l, b.1 ≠ .nan) :
    (l.insertionSort fun a b => a.1.le b.1 = true).Pairwise fun a b => a.1.le b.1 = true := by
  apply Lists.pairwise_insertionSort_of (P := fun b => b.1 ≠ .nan) _ _ h
  · exact fun a b ha hb => F64.le_total ha hb
  · exact fun a b c _ _ _ hab hbc => F64.le_trans hab hbc

/-- The result is the least bound with 95 % of what the last bucket counts. -/
theorem p95OfBuckets_eq {front : List Bucket} {top : Bucket} (h : Sortable front top)
    (hpos : 0 < top.2) (hsmall : top.2 < 2 ^ 48) :
    ∃ b ∈ front ++ [top], 19 * top.2 ≤ 20 * b.2 ∧
      (∀ c ∈ front ++ [top], 19 * top.2 ≤ 20 * c.2 → b.1.le c.1 = true) ∧
      p95OfBuckets (front ++ [top]) = .ok (some (millis b.1)) := by
  let sorted := (front ++ [top]).insertionSort fun a b => a.1.le b.1 = true
  have hmem : ∀ b, b ∈ sorted ↔ b ∈ front ++ [top] :=
    fun b => (List.perm_insertionSort _ _).mem_iff
  have hsorted : sorted = front.insertionSort (fun a b => a.1.le b.1 = true) ++ [top] :=
    Lists.insertionSort_concat h.below
  have hreach : ∀ c : Bucket, decide (targetOf top.2 ≤ c.2) = true ↔ 19 * top.2 ≤ 20 * c.2 := by
    intro c
    rw [decide_eq_true_iff]
    exact reaches_iff hsmall
  obtain ⟨b, hfind⟩ : ∃ b, sorted.find? (fun c => targetOf top.2 ≤ c.2) = some b := by
    apply Option.isSome_iff_exists.mp
    apply List.find?_isSome.mpr
    refine ⟨top, (hmem top).mpr (by simp), (hreach top).mpr ?_⟩
    omega
  have hb : 19 * top.2 ≤ 20 * b.2 := by
    have hholds := List.find?_some hfind
    exact (hreach b).mp hholds
  refine ⟨b, (hmem b).mp (List.mem_of_find?_eq_some hfind), hb, ?_, ?_⟩
  · intro c hc hwant
    apply Lists.find?_least (sorted_pairwise h.number) _ hfind ((hmem c).mpr hc)
      ((hreach c).mpr hwant)
    exact fun a ha => F64.le_refl (h.number a ((hmem a).mp ha))
  · have hempty : (front ++ [top]).isEmpty = false := by simp
    rw [p95OfBuckets, hempty, sortBuckets_eq h, ← hsorted]
    simp only [Bool.false_eq_true, if_false, Except.map]
    rw [show sorted.getLast? = some top by rw [hsorted, List.getLast?_concat]]
    simp only [if_neg (Nat.ne_of_gt hpos), hfind, Option.map_some]

/-! ## Histograms -/

/-- What a histogram was given: its bounds, and how long each call took in seconds. -/
structure Histogram where
  bounds : List F64
  calls : List F64
  bounds_number : ∀ b ∈ bounds, b ≠ .nan
  calls_number : ∀ d ∈ calls, d ≠ .nan

namespace Histogram

def atMost (h : Histogram) (bound : F64) : Nat := h.calls.countP (·.le bound)

/-- The bucket without a bound comes last. -/
def limits (h : Histogram) : List F64 := h.bounds ++ [.inf]

def buckets (h : Histogram) : List Bucket := h.limits.map fun b => (b, h.atMost b)

theorem limits_number {h : Histogram} {b : F64} (hb : b ∈ h.limits) : b ≠ .nan := by
  rcases List.mem_append.mp hb with hbound | htop
  · exact h.bounds_number b hbound
  · simp [List.mem_singleton.mp htop]

theorem atMost_inf (h : Histogram) : h.atMost .inf = h.calls.length :=
  List.countP_eq_length.mpr fun d hd => F64.le_inf (h.calls_number d hd)

end Histogram

/-- The buckets of the histograms, one after the other. -/
def scrapeOf (hs : List Histogram) : List Bucket := hs.flatMap Histogram.buckets

theorem mem_scrapeOf {hs : List Histogram} {b : Bucket} :
    b ∈ scrapeOf hs ↔ ∃ h ∈ hs, ∃ bound ∈ h.limits, (bound, h.atMost bound) = b := by
  simp only [scrapeOf, List.mem_flatMap, Histogram.buckets, List.mem_map]

theorem exists_front (hs : List Histogram) (last : Histogram) :
    ∃ front, scrapeOf (hs ++ [last]) = front ++ [(.inf, last.calls.length)] ∧
      Sortable front (.inf, last.calls.length) := by
  let front := scrapeOf hs ++ last.bounds.map fun b => (b, last.atMost b)
  have heq : scrapeOf (hs ++ [last]) = front ++ [(.inf, last.calls.length)] := by
    simp [front, scrapeOf, Histogram.buckets, Histogram.limits, last.atMost_inf]
  have hnumber : ∀ b ∈ scrapeOf (hs ++ [last]), b.1 ≠ .nan := by
    intro b hb
    obtain ⟨h, -, bound, hbound, rfl⟩ := mem_scrapeOf.mp hb
    exact h.limits_number hbound
  rw [heq] at hnumber
  refine ⟨front, heq, hnumber, ?_⟩
  intro b hb
  exact F64.le_inf (hnumber b (List.mem_append_left _ hb))

/-- Of the bounds of all the histograms, the least at which one of them has 95 % of the calls
of the last one. -/
theorem p95_of_scrape {hs : List Histogram} {last : Histogram} (hpos : 0 < last.calls.length)
    (hsmall : last.calls.length < 2 ^ 48) :
    ∃ h ∈ hs ++ [last], ∃ bound ∈ h.limits,
      19 * last.calls.length ≤ 20 * h.atMost bound ∧
      (∀ g ∈ hs ++ [last], ∀ c ∈ g.limits,
        19 * last.calls.length ≤ 20 * g.atMost c → bound.le c = true) ∧
      p95OfBuckets (scrapeOf (hs ++ [last])) = .ok (some (millis bound)) := by
  obtain ⟨front, hscrape, hsort⟩ := exists_front hs last
  obtain ⟨b, hb, hreach, hleast, hresult⟩ := p95OfBuckets_eq hsort hpos hsmall
  rw [← hscrape] at hb hleast hresult
  obtain ⟨h, hh, bound, hbound, rfl⟩ := mem_scrapeOf.mp hb
  refine ⟨h, hh, bound, hbound, hreach, ?_, hresult⟩
  intro g hg c hc hwant
  exact hleast _ (mem_scrapeOf.mpr ⟨g, hg, c, hc, rfl⟩) hwant

theorem p95_of_idle {hs : List Histogram} {last : Histogram} (hidle : last.calls = []) :
    p95OfBuckets (scrapeOf (hs ++ [last])) = .ok none := by
  obtain ⟨front, hscrape, hsort⟩ := exists_front hs last
  have hempty : (front ++ [(F64.inf, last.calls.length)]).isEmpty = false := by simp
  rw [hscrape, p95OfBuckets, hempty, sortBuckets_eq hsort]
  simp [Except.map, hidle]

/-! ## The filter -/

theorem millis_mono {a b : F64} (h : a.le b = true) : millis a ≤ millis b :=
  F64.toU64_round_mono (F64.mul_mono (by norm_num) h)

variable {route : RouteEntry} {request : RequestFacts} {config : GatewayConfig}
  {recentP95Ms : String → Option Nat} {target : BackendTarget}

theorem verdict_latency :
    (verdict route request config recentP95Ms target).skip = some .latency ↔
      failsOn route request config recentP95Ms target .tier = false ∧
      failsOn route request config recentP95Ms target .latency = true := by
  rw [verdict_skip]
  simp only [axes, List.find?_cons]
  cases failsOn route request config recentP95Ms target .tier <;>
    cases failsOn route request config recentP95Ms target .latency <;>
    cases failsOn route request config recentP95Ms target .cap <;> simp

/-- The filter leaves out an upstream for its latency where no histogram has, at a bound
within the budget, 95 % of the calls of the last one. -/
theorem latency_skip_iff {parseF64 : String → Option F64} {samples : List Sample}
    {hs : List Histogram} {last : Histogram} {upstream : UpstreamConfig} {budget : Nat}
    (hscrape : bucketsOf parseF64 samples target.provider = scrapeOf (hs ++ [last]))
    (hprobe : computeP95FromScrape parseF64 (some samples) target.provider =
      .ok (recentP95Ms target.provider))
    (hupstream : config.upstreams.get? target.provider = some upstream)
    (hbudget : upstream.upstreamLatencyBudget = some budget)
    (hsmall : last.calls.length < 2 ^ 48) :
    (verdict route request config recentP95Ms target).skip = some .latency ↔
      failsOn route request config recentP95Ms target .tier = false ∧
      last.calls ≠ [] ∧
      ∀ h ∈ hs ++ [last], ∀ bound ∈ h.limits, millis bound ≤ budget →
        20 * h.atMost bound < 19 * last.calls.length := by
  rw [computeP95FromScrape, hscrape] at hprobe
  rw [verdict_latency]
  apply and_congr_right
  intro _
  simp only [failsOn, hupstream, Option.any_some, hbudget]
  by_cases hidle : last.calls = []
  · rw [p95_of_idle hidle] at hprobe
    injection hprobe with hnone
    simp [← hnone, hidle]
  · have hpos : 0 < last.calls.length := List.length_pos_of_ne_nil hidle
    obtain ⟨h, hh, bound, hbound, hreach, hleast, hresult⟩ := p95_of_scrape hpos hsmall
    rw [hresult] at hprobe
    injection hprobe with hsome
    rw [← hsome, Option.any_some, decide_eq_true_iff]
    constructor
    · intro hover
      refine ⟨hidle, ?_⟩
      intro g hg c hc hwithin
      -- a bound with 95 % of the calls is no lower than the one found
      by_contra hmany
      have hmono := millis_mono (hleast g hg c hc (by omega))
      omega
    · intro hnone
      by_contra hwithin
      have hfew := hnone.2 h hh bound hbound (by omega)
      omega

/-- A call of the first model took 0.1 s, one of the second 2 s. The second has no bound
within the budget that holds its call, but the first has: the upstream stays. -/
theorem latency_skip_iff_twoModels :
    let parseF64 (text : String) : Option F64 :=
      if text = "0.5" then some (.finite (1 / 2)) else if text = "+Inf" then some .inf else none
    let bucket (model le : String) (count : Rat) : Sample :=
      { metric := bucketMetric
        labels := [("upstream", "openai"), ("model", model), ("le", le)]
        value := .untyped (.finite count) }
    let samples :=
      [bucket "gpt-4o-mini" "0.5" 1, bucket "gpt-4o-mini" "+Inf" 1, bucket "gpt-4o" "0.5" 0,
        bucket "gpt-4o" "+Inf" 1]
    let upstream : UpstreamConfig := .openAiCompatible
      { baseUrl := "https://api.openai.com/v1", apiKey := "sk-1", requestTimeoutSecs := 30,
        tier := .standard, p95LatencyBudgetMs := some 500, cost := none }
    let config : GatewayConfig :=
      { pricedConfig with
        upstreams := { entries := [("openai", upstream)], sorted := List.pairwise_singleton _ _ } }
    let target : BackendTarget :=
      { provider := "openai"
        model := "gpt-4o"
        policy :=
          { defaultReasoningEffort := none
            defaultAnthropicBeta := none
            reasoningMapping := [] } }
    let request : RequestFacts := { hasImage := false, estimateCost := fun _ => .finite 0 }
    let route := RouteEntry.singular "openai_chat" "gpt-4o" "openai" "gpt-4o"
    computeP95FromScrape parseF64 (some samples) "openai" = .ok (some 500) ∧
      (verdict route request config (fun _ => some 500) target).skip ≠ some .latency := by
  intro parseF64 bucket samples upstream config target request route
  let within (seconds : Rat) : Histogram :=
    { bounds := [.finite (1 / 2)]
      calls := [.finite seconds]
      bounds_number := by simp
      calls_number := by simp }
  have hscrape : bucketsOf parseF64 samples "openai" =
      scrapeOf ([within (1 / 10)] ++ [within 2]) := by decide +kernel
  have hprobe : computeP95FromScrape parseF64 (some samples) "openai" = .ok (some 500) := by
    decide +kernel
  have hiff : (verdict route request config (fun _ => some 500) target).skip = some .latency ↔
      _ := latency_skip_iff hscrape hprobe rfl rfl (by decide)
  refine ⟨hprobe, ?_⟩
  intro hskip
  have hbound : F64.finite (1 / 2) ∈ (within (1 / 10)).limits := by decide +kernel
  have hfew := (hiff.mp hskip).2.2 (within (1 / 10)) (by simp) _ hbound (by decide +kernel)
  exact absurd hfew (by decide +kernel)

end AgentShim.LatencyProbe
