import AgentShim.Core.Scalars
import AgentShim.Lib.OrdMap
import Mathlib.Data.List.AList
import Mathlib.Algebra.Order.Field.Rat

/-
  The model index

  The catalog of models each provider listed at startup, and the fuzzy match of
  a requested model name against the catalog of one provider.

  Scores are exact rationals where the source computes in doubles. Unicode
  lower-casing (`str::to_lowercase`) is the parameter `lower`.

  Correspondence (Rust ↔ Lean):
    `ModelIndex::with_metadata` ↔ `ModelIndex.withMetadata`
    `tokenize`, `score`         ↔ `tokenize`, `score`
    `ModelIndex::resolve`       ↔ `ModelIndex.resolve` (`better` is the test
                                  of its loop)
    `ModelIndex::metadata`      ↔ `ModelIndex.listed`
-/

namespace AgentShim.ModelIndexing

structure ModelEntry where
  original : String
  normalized : String
  tokens : List String
  deriving DecidableEq, Repr

/-- Metadata by provider and model, and the same models prepared for
matching. -/
structure ModelIndex (M : Type) where
  metadata : AList fun _ : String => OrdMap M
  fuzzy : AList fun _ : String => List ModelEntry

variable {M : Type} (lower : String → String)

def isDelimiter (c : Char) : Bool := c == '-' || c == '_' || c == '.' || c == '/'

/-- The non-empty pieces of the lower-cased name between delimiters. -/
def tokenize (name : String) : List String :=
  (((lower name).toList.splitOnP isDelimiter).filter (!·.isEmpty)).map String.ofList

def modelEntry (name : String) : ModelEntry where
  original := name
  normalized := lower name
  tokens := tokenize lower name

def ModelIndex.withMetadata (providers : List (String × OrdMap M)) : ModelIndex M where
  metadata := providers.foldl (fun m e => m.insert e.1 e.2) ∅
  fuzzy := providers.foldl (fun m e => m.insert e.1 (e.2.keys.map (modelEntry lower))) ∅

/-! ## Scores -/

/-- The share a shorter name has of the longer one it begins. -/
def ratio (short long : String) : ℚ := Text.len short / Text.len long

/-- The weight of the token at a position. -/
def weight (i : Nat) : ℚ := 1 / (1 + i)

/-- How well a candidate matches a request: equal, one the beginning of the
other, or by the weighted share of common tokens. -/
def score (requestedTokens candidateTokens : List String) (reqNorm candNorm : String) : ℚ :=
  if reqNorm == candNorm then 1
  else if Text.startsWith candNorm reqNorm then 4 / 5 + 1 / 5 * ratio reqNorm candNorm
  else if Text.startsWith reqNorm candNorm then 4 / 5 + 1 / 5 * ratio candNorm reqNorm
  else
    let maxLen := max requestedTokens.length candidateTokens.length
    if maxLen == 0 then 0
    else
      let matched := (requestedTokens.zipIdx.map fun (tok, i) =>
        if candidateTokens.contains tok then weight i else 0).sum
      -- every requested token, then the candidate's positions beyond them
      let total := ((List.range maxLen).map weight).sum
      matched / total

def threshold : ℚ := 1 / 2

/-- Whether an entry replaces the best one so far: a higher score, then the
shorter name, then the smaller one. -/
def better (s : ℚ) (e : ModelEntry) : Option (ℚ × ModelEntry) → Bool
  | none => threshold ≤ s
  | some (bestScore, b) =>
    bestScore < s ||
      (s == bestScore &&
        (Text.len e.original < Text.len b.original ||
          (Text.len e.original == Text.len b.original && e.original < b.original)))

namespace ModelIndex

/-- The listed model a requested name stands for. -/
def resolve (index : ModelIndex M) (provider requested : String) : Option String :=
  match index.fuzzy.lookup provider with
  | none => none
  | some entries =>
    match entries.find? fun e =>
        Text.toAsciiLowercase e.normalized == Text.toAsciiLowercase requested with
    | some e => some e.original
    | none =>
      let reqNorm := lower requested
      let reqTokens := tokenize lower requested
      let best := entries.foldl (fun best e =>
        let s := score reqTokens e.tokens reqNorm e.normalized
        if better s e best then some (s, e) else best) none
      best.map fun b => b.2.original

/-- What the catalog lists for a model of a provider. -/
def listed (index : ModelIndex M) (provider model : String) : Option M :=
  (index.metadata.lookup provider).bind (·.get? model)

end ModelIndex

end AgentShim.ModelIndexing
