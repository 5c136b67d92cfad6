import AgentShim.Lib.Runs
import Mathlib.Data.Finset.Basic
import Mathlib.Data.Finset.Lattice.Lemmas

/-
  Ledgers of obligations

  A ledger holds the obligations that are open. An obligation is opened when it
  is not open already and settled while it is; nothing else is allowed. A
  history that starts and ends with an empty ledger settles everything it
  opens.

  What is proved:
    1. `exec_count` — along a history, the openings and the settlements of an
       obligation differ by what the ledger gains or loses.
    2. `count_settle_eq` — a history from the empty ledger to the empty ledger
       settles each obligation as often as it opens it.
    3. `exec_opened`, `exec_settled` — the histories that open, or settle, a
       list of distinct obligations one after the other.
    4. `count_issue_le_one` — such a history opens each obligation at most once.
-/

namespace Ledger

open Runs

variable {ι : Type*} [DecidableEq ι]

/-- One entry of a history. -/
inductive Entry (ι : Type*)
  | issue (i : ι)
  | settle (i : ι)
  deriving DecidableEq, Repr

/-- The open obligations after an entry; none where the entry is not allowed. -/
def step (s : Finset ι) : Entry ι → Option (Finset ι)
  | .issue i => if i ∈ s then none else some (insert i s)
  | .settle i => if i ∈ s then some (s.erase i) else none

theorem step_issue_eq_some {s s' : Finset ι} {i : ι} :
    step s (.issue i) = some s' ↔ i ∉ s ∧ insert i s = s' := by
  unfold step
  split <;> simp_all

theorem step_settle_eq_some {s s' : Finset ι} {i : ι} :
    step s (.settle i) = some s' ↔ i ∈ s ∧ s.erase i = s' := by
  unfold step
  split <;> simp_all

/-- One entry moves the balance of one obligation. -/
theorem step_count {s s' : Finset ι} {e : Entry ι} (h : step s e = some s') (i : ι) :
    [e].count (.issue i) + (if i ∈ s then 1 else 0) =
      [e].count (.settle i) + (if i ∈ s' then 1 else 0) := by
  cases e with
  | issue j =>
    obtain ⟨hj, rfl⟩ := step_issue_eq_some.mp h
    by_cases hij : j = i
    · subst hij
      simp [hj]
    · simp [hij, Ne.symm hij]
  | settle j =>
    obtain ⟨hj, rfl⟩ := step_settle_eq_some.mp h
    by_cases hij : j = i
    · subst hij
      simp [hj]
    · simp [hij, Ne.symm hij]

theorem exec_count {s s' : Finset ι} {es : List (Entry ι)} (h : exec step s es = some s')
    (i : ι) :
    es.count (.issue i) + (if i ∈ s then 1 else 0) =
      es.count (.settle i) + (if i ∈ s' then 1 else 0) := by
  induction es generalizing s with
  | nil =>
    cases h
    rfl
  | cons e es ih =>
    obtain ⟨m, hm, hrest⟩ := exec_cons_eq_some.mp h
    have hhead := step_count hm i
    have htail := ih hrest
    rw [← List.singleton_append, List.count_append, List.count_append]
    omega

/-- What is opened is settled, as often as it is opened. -/
theorem count_settle_eq {es : List (Entry ι)} (h : exec step ∅ es = some ∅) (i : ι) :
    es.count (.settle i) = es.count (.issue i) := by
  have hcount := exec_count h i
  simp only [Finset.notMem_empty, if_false, Nat.add_zero] at hcount
  exact hcount.symm

/-- Distinct obligations that are not open can be opened in turn. -/
theorem exec_opened {is : List ι} (hnodup : is.Nodup) {s : Finset ι} (hnew : ∀ i ∈ is, i ∉ s) :
    exec step s (is.map .issue) = some (s ∪ is.toFinset) := by
  induction is generalizing s with
  | nil => simp
  | cons i is ih =>
    rw [List.nodup_cons] at hnodup
    have hhead : step s (.issue i) = some (insert i s) :=
      step_issue_eq_some.mpr ⟨hnew i List.mem_cons_self, rfl⟩
    have htail : ∀ j ∈ is, j ∉ insert i s := by
      intro j hj hmem
      rcases Finset.mem_insert.mp hmem with rfl | hmem
      · exact hnodup.1 hj
      · exact hnew j (List.mem_cons_of_mem _ hj) hmem
    rw [List.map_cons, exec_cons, hhead, Option.bind_some, ih hnodup.2 htail,
      List.toFinset_cons, Finset.insert_union, Finset.union_insert]

/-- Distinct obligations that are all the open ones can be settled in turn. -/
theorem exec_settled {is : List ι} (hnodup : is.Nodup) :
    exec step is.toFinset (is.map .settle) = some ∅ := by
  induction is with
  | nil => simp
  | cons i is ih =>
    rw [List.nodup_cons] at hnodup
    have hi : i ∉ is.toFinset := fun hmem => hnodup.1 (List.mem_toFinset.mp hmem)
    have hhead : step (i :: is).toFinset (.settle i) = some is.toFinset := by
      rw [step_settle_eq_some, List.toFinset_cons, Finset.erase_insert hi]
      exact ⟨Finset.mem_insert_self i _, rfl⟩
    rw [List.map_cons, exec_cons, hhead, Option.bind_some, ih hnodup.2]

/-- Distinct obligations opened and then settled are opened at most once. -/
theorem count_issue_le_one {is : List ι} (hnodup : is.Nodup) (i : ι) :
    (is.map Entry.issue ++ is.map Entry.settle).count (.issue i) ≤ 1 := by
  have hissue : (is.map Entry.issue).count (.issue i) = is.count i :=
    List.count_map_of_injective is Entry.issue (fun a b h => Entry.issue.inj h) i
  have hsettle : (is.map Entry.settle).count (Entry.issue i) = 0 := by
    apply List.count_eq_zero.mpr
    intro hmem
    obtain ⟨j, -, hj⟩ := List.mem_map.mp hmem
    cases hj
  rw [List.count_append, hissue, hsettle, Nat.add_zero]
  exact List.nodup_iff_count_le_one.mp hnodup i

end Ledger
