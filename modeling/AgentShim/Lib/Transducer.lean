import AgentShim.Lib.Runs

/-
  Transducers watched by a monitor

  An emitter changes a state and puts out a list of outputs; emitters compose in
  sequence and over a list of inputs. A monitor is a partial step function over
  the outputs (`Runs.exec`), and an emitter is specified by what it does to the
  pair of its own state and the monitor's:
    `Accepts P f Q`  from a pair in `P` the monitor takes every output of `f`,
                     and the pair afterwards is in `Q`;
    `Within P f Q`   from a pair in `P`, if the monitor takes every output of
                     `f`, the pair afterwards is in `Q`.

  What is proved:
    1. `Accepts.andThen`, `Within.andThen`, `accepts_forEach` — the rules of
       composition.
    2. `accepts_of_throughout` — if each admissible input keeps a relation that
       may mention the inputs read so far, the monitor takes the whole run of
       every input list that is admissible throughout.
    3. `within_of_not_throughout` — if each inadmissible input is refused or
       leads to a doomed pair and doomed pairs stay doomed, then on every other
       input list the monitor refuses the run or ends doomed.
    4. `exec_andThen_iff` — the two together, with a last emitter after the
       inputs: exactly which runs the monitor takes to their end.
    5. `flatMap_forEach`, `flatMap_untilDone`, `forEach_field`, `forEach_render`,
       `untilDone_concat`, `untilDone_outputs` — what can be read off the outputs of a
       run and off its state, and runs that stop before their inputs do, or at their
       last one.
-/

namespace Transducer

variable {σ ι κ ο μ : Type*}

/-- A change of state together with the outputs it puts out. -/
abbrev Emitter (σ ο : Type*) := σ → σ × List ο

def skip : Emitter σ ο := fun s => (s, [])

/-- Puts out one output. -/
def emit (o : ο) : Emitter σ ο := fun s => (s, [o])

/-- Changes the state silently. -/
def update (f : σ → σ) : Emitter σ ο := fun s => (f s, [])

def andThen (f g : Emitter σ ο) : Emitter σ ο := fun s =>
  ((g (f s).1).1, (f s).2 ++ (g (f s).1).2)

/-- Reads a list of inputs in order. -/
def forEach (step : ι → Emitter σ ο) : List ι → Emitter σ ο
  | [] => skip
  | i :: is => andThen (step i) (forEach step is)

/-- Emitters one after the other. -/
def inOrder (fs : List (Emitter σ ο)) : Emitter σ ο := forEach id fs

/-- Does something with a value that may be missing. -/
def ifSome {α : Type*} (a : Option α) (f : α → Emitter σ ο) : Emitter σ ο :=
  match a with
  | some a => f a
  | none => skip

theorem andThen_apply (f g : Emitter σ ο) (s : σ) :
    andThen f g s = ((g (f s).1).1, (f s).2 ++ (g (f s).1).2) := rfl

@[simp] theorem skip_andThen (f : Emitter σ ο) : andThen skip f = f := rfl

@[simp] theorem andThen_skip (f : Emitter σ ο) : andThen f skip = f := by
  funext s
  rw [andThen_apply, skip, List.append_nil]

theorem andThen_assoc (f g h : Emitter σ ο) :
    andThen (andThen f g) h = andThen f (andThen g h) := by
  funext s
  simp only [andThen, List.append_assoc]

@[simp] theorem forEach_nil (step : ι → Emitter σ ο) : forEach step [] = skip := rfl

theorem forEach_cons (step : ι → Emitter σ ο) (i : ι) (is : List ι) :
    forEach step (i :: is) = andThen (step i) (forEach step is) := rfl

@[simp] theorem forEach_singleton (step : ι → Emitter σ ο) (i : ι) :
    forEach step [i] = step i := by
  rw [forEach_cons, forEach_nil, andThen_skip]

@[simp] theorem ifSome_none {α : Type*} (f : α → Emitter σ ο) : ifSome none f = skip := rfl

@[simp] theorem ifSome_some {α : Type*} (a : α) (f : α → Emitter σ ο) :
    ifSome (some a) f = f a := rfl

theorem ifSome_eq (a : Option ι) (f : ι → Emitter σ ο) : ifSome a f = forEach f a.toList := by
  cases a with
  | none => rfl
  | some a => exact (forEach_singleton f a).symm

theorem forEach_append (step : ι → Emitter σ ο) (is js : List ι) :
    forEach step (is ++ js) = andThen (forEach step is) (forEach step js) := by
  induction is with
  | nil => rfl
  | cons i is ih => rw [List.cons_append, forEach_cons, forEach_cons, ih, andThen_assoc]

/-- Inputs that are read as lists of smaller inputs. -/
theorem forEach_flatMap {whole : κ → Emitter σ ο} {step : ι → Emitter σ ο} {view : κ → List ι}
    (h : ∀ k, whole k = forEach step (view k)) (ks : List κ) :
    forEach whole ks = forEach step (ks.flatMap view) := by
  induction ks with
  | nil => rfl
  | cons k ks ih => rw [forEach_cons, List.flatMap_cons, forEach_append, ih, h]

theorem forEach_map (step : ι → Emitter σ ο) (f : κ → ι) (ks : List κ) :
    forEach step (ks.map f) = forEach (fun k => step (f k)) ks := by
  induction ks with
  | nil => rfl
  | cons k ks ih => rw [List.map_cons, forEach_cons, forEach_cons, ih]

/-- Reads inputs in order until the state is done. -/
def untilDone (done : σ → Bool) (step : ι → Emitter σ ο) : List ι → Emitter σ ο
  | [] => skip
  | i :: is => fun s => if done s then (s, []) else andThen (step i) (untilDone done step is) s

theorem untilDone_cons {done : σ → Bool} (step : ι → Emitter σ ο) (i : ι) (is : List ι) {s : σ}
    (hs : done s = false) :
    untilDone done step (i :: is) s = andThen (step i) (untilDone done step is) s :=
  if_neg (by rw [hs]; exact Bool.false_ne_true)

theorem untilDone_of_done {done : σ → Bool} (step : ι → Emitter σ ο) (is : List ι) {s : σ}
    (hs : done s = true) : untilDone done step is s = (s, []) := by
  cases is with
  | nil => rfl
  | cons i is => exact if_pos hs

/-- Inputs that do not end the run are all read before the others. -/
theorem untilDone_append {done : σ → Bool} {step : ι → Emitter σ ο} {is : List ι} (js : List ι)
    (h : ∀ i ∈ is, ∀ s, done s = false → done (step i s).1 = false) {s : σ}
    (hs : done s = false) :
    untilDone done step (is ++ js) s = andThen (forEach step is) (untilDone done step js) s := by
  induction is generalizing s with
  | nil => rfl
  | cons i is ih =>
    obtain ⟨hi, his⟩ := List.forall_mem_cons.mp h
    rw [List.cons_append, untilDone_cons step i _ hs, forEach_cons, andThen_assoc, andThen_apply,
      andThen_apply, ih his (hi s hs)]

theorem untilDone_map (done : σ → Bool) (step : ι → Emitter σ ο) (view : κ → ι) (ks : List κ) :
    untilDone done step (ks.map view) = untilDone done (fun k => step (view k)) ks := by
  induction ks with
  | nil => rfl
  | cons k ks ih => rw [List.map_cons, untilDone, untilDone, ih]

/-- Every input is read, if none but the last may be the end. -/
theorem untilDone_concat {done : σ → Bool} {step : ι → Emitter σ ο} {is : List ι} (last : ι)
    (h : ∀ i ∈ is, ∀ s, done s = false → done (step i s).1 = false) {s : σ}
    (hs : done s = false) :
    untilDone done step (is ++ [last]) s = forEach step (is ++ [last]) s := by
  induction is generalizing s with
  | nil =>
    rw [List.nil_append, untilDone_cons step last [] hs, forEach_singleton]
    exact congrFun (andThen_skip _) s
  | cons i is ih =>
    obtain ⟨hi, his⟩ := List.forall_mem_cons.mp h
    rw [List.cons_append, untilDone_cons step i _ hs, forEach_cons, andThen_apply, andThen_apply,
      ih his (hi s hs)]

/-- The same over inputs that are made of others. -/
theorem untilDone_map_concat {done : σ → Bool} {step : ι → Emitter σ ο} (view : κ → ι)
    {ks : List κ} (last : κ)
    (h : ∀ k ∈ ks, ∀ s, done s = false → done (step (view k) s).1 = false) {s : σ}
    (hs : done s = false) :
    untilDone done step ((ks ++ [last]).map view) s =
      forEach (fun k => step (view k)) (ks ++ [last]) s := by
  rw [List.map_append, List.map_singleton, untilDone_concat (view last) ?_ hs,
    ← List.map_singleton, ← List.map_append, forEach_map]
  intro i hi
  obtain ⟨k, hk, rfl⟩ := List.mem_map.mp hi
  exact h k hk

/-- What every step keeps of the state, and what it then puts out. -/
theorem untilDone_outputs {done : σ → Bool} {step : ι → Emitter σ ο} {I : σ → Prop}
    {P : ο → Prop} {is : List ι}
    (h : ∀ i ∈ is, ∀ s, I s → I (step i s).1 ∧ ∀ o ∈ (step i s).2, P o) {s : σ} (hs : I s) :
    ∀ o ∈ (untilDone done step is s).2, P o := by
  induction is generalizing s with
  | nil => exact nofun
  | cons i is ih =>
    obtain ⟨hi, his⟩ := List.forall_mem_cons.mp h
    intro o ho
    unfold untilDone at ho
    split at ho
    · cases ho
    · obtain ⟨hkeep, hout⟩ := hi s hs
      rcases List.mem_append.mp ho with ho | ho
      · exact hout o ho
      · exact ih his hkeep o ho

/-- What is read off the outputs, if each input decides what is read off its own. -/
theorem flatMap_forEach {β : Type*} {step : ι → Emitter σ ο} {read : ο → List β}
    {owed : ι → List β} {is : List ι}
    (h : ∀ i ∈ is, ∀ s, (step i s).2.flatMap read = owed i) (s : σ) :
    (forEach step is s).2.flatMap read = is.flatMap owed := by
  induction is generalizing s with
  | nil => rfl
  | cons i is ih =>
    obtain ⟨hi, his⟩ := List.forall_mem_cons.mp h
    rw [forEach_cons, andThen_apply, List.flatMap_append, hi, ih his, List.flatMap_cons]

/-- The same of a run that stops after an input that ends it: what comes after owes nothing. -/
theorem flatMap_untilDone {β : Type*} {done : σ → Bool} {ends : ι → Bool}
    {step : ι → Emitter σ ο} {read : ο → List β} {owed : ι → List β} {is : List ι}
    (h : ∀ i ∈ is, ∀ s, (step i s).2.flatMap read = owed i)
    (hdone : ∀ i ∈ is, ∀ s, done (step i s).1 = (done s || ends i))
    (hrest : is.Pairwise fun i j => ends i = true → owed j = []) {s : σ} (hs : done s = false) :
    (untilDone done step is s).2.flatMap read = is.flatMap owed := by
  induction is generalizing s with
  | nil => rfl
  | cons i is ih =>
    obtain ⟨hi, his⟩ := List.forall_mem_cons.mp h
    obtain ⟨hdi, hdis⟩ := List.forall_mem_cons.mp hdone
    obtain ⟨hafter, hrest⟩ := List.pairwise_cons.mp hrest
    rw [untilDone_cons step i is hs, andThen_apply, List.flatMap_append, hi, List.flatMap_cons]
    congr 1
    have hnext : done (step i s).1 = ends i := by rw [hdi, hs, Bool.false_or]
    cases hends : ends i with
    | false => exact ih his hdis hrest (hnext.trans hends)
    | true =>
      have hnothing : is.flatMap owed = [] := by
        apply List.flatMap_eq_nil_iff.mpr
        intro j hj
        exact hafter j hj hends
      rw [hnothing]
      cases is with
      | nil => rfl
      | cons j js =>
        have hdone : untilDone done step (j :: js) (step i s).1 = ((step i s).1, []) :=
          if_pos (hnext.trans hends)
        rw [hdone, List.flatMap_nil]

/-- A run seen through a view of the state, if every step is: its outputs are those
of the other run, rendered. -/
theorem forEach_render {τ : Type*} {step : ι → Emitter σ ο} {step' : ι → Emitter τ κ}
    {view : σ → τ} {render : ο → List κ}
    (h : ∀ i s, step' i (view s) = (view (step i s).1, (step i s).2.flatMap render))
    (is : List ι) (s : σ) :
    forEach step' is (view s) =
      (view (forEach step is s).1, (forEach step is s).2.flatMap render) := by
  induction is generalizing s with
  | nil => rfl
  | cons i is ih =>
    rw [forEach_cons, forEach_cons, andThen_apply, andThen_apply, h i s, ih, List.flatMap_append]

theorem forEach_keeps {step : ι → Emitter σ ο} {P : σ → Prop} {is : List ι}
    (h : ∀ i ∈ is, ∀ s, P s → P (step i s).1) {s : σ} (hs : P s) : P (forEach step is s).1 := by
  induction is generalizing s with
  | nil => exact hs
  | cons i is ih =>
    obtain ⟨hi, his⟩ := List.forall_mem_cons.mp h
    exact ih his (hi s hs)

/-- A part of the state that every input changes by a rule of its own. -/
theorem forEach_field {α : Type*} {step : ι → Emitter σ ο} {f : σ → α} {g : α → ι → α}
    {is : List ι} (h : ∀ i ∈ is, ∀ s, f (step i s).1 = g (f s) i) (s : σ) :
    f (forEach step is s).1 = is.foldl g (f s) := by
  induction is generalizing s with
  | nil => rfl
  | cons i is ih =>
    obtain ⟨hi, his⟩ := List.forall_mem_cons.mp h
    rw [forEach_cons, List.foldl_cons, ← hi s]
    exact ih his _

/-- Every output of a run is one of some input. -/
theorem exists_of_mem_forEach {step : ι → Emitter σ ο} {is : List ι} {s : σ} {o : ο}
    (h : o ∈ (forEach step is s).2) : ∃ i ∈ is, ∃ s', o ∈ (step i s').2 := by
  induction is generalizing s with
  | nil => cases h
  | cons i is ih =>
    rcases List.mem_append.mp h with hfirst | hrest
    · exact ⟨i, List.mem_cons_self, s, hfirst⟩
    · obtain ⟨j, hj, s', ho⟩ := ih hrest
      exact ⟨j, List.mem_cons_of_mem i hj, s', ho⟩

/-- What only the outputs of the last input have is found there. -/
theorem findSome?_forEach_concat {β : Type*} {step : ι → Emitter σ ο} {read : ο → Option β}
    {is : List ι} (last : ι) (h : ∀ i ∈ is, ∀ s, ∀ o ∈ (step i s).2, read o = none) (s : σ) :
    (forEach step (is ++ [last]) s).2.findSome? read =
      (step last (forEach step is s).1).2.findSome? read := by
  have hnone : (forEach step is s).2.findSome? read = none := by
    refine List.findSome?_eq_none_iff.mpr fun o ho => ?_
    obtain ⟨i, hi, s', ho⟩ := exists_of_mem_forEach ho
    exact h i hi s' o ho
  rw [forEach_append, forEach_singleton, andThen_apply, List.findSome?_append, hnone,
    Option.none_or]

@[simp] theorem inOrder_nil : inOrder ([] : List (Emitter σ ο)) = skip := rfl

@[simp] theorem inOrder_cons (f : Emitter σ ο) (fs : List (Emitter σ ο)) :
    inOrder (f :: fs) = andThen f (inOrder fs) := rfl

variable {obs : μ → ο → Option μ}

/-- From `P` the monitor takes every output, and the pair ends in `Q`. -/
def Accepts (obs : μ → ο → Option μ) (P : σ → μ → Prop) (f : Emitter σ ο)
    (Q : σ → μ → Prop) : Prop :=
  ∀ s m, P s m → ∃ m', Runs.exec obs m (f s).2 = some m' ∧ Q (f s).1 m'

/-- From `P`, where the monitor takes every output, the pair ends in `Q`. -/
def Within (obs : μ → ο → Option μ) (P : σ → μ → Prop) (f : Emitter σ ο)
    (Q : σ → μ → Prop) : Prop :=
  ∀ s m, P s m → ∀ m', Runs.exec obs m (f s).2 = some m' → Q (f s).1 m'

variable {P P' Q Q' S : σ → μ → Prop} {f g : Emitter σ ο}

theorem accepts_skip : Accepts obs P skip P := fun _ m h => ⟨m, rfl, h⟩

theorem within_skip : Within obs P skip P := by
  intro s m h m' hm
  cases hm
  exact h

theorem Accepts.andThen (hf : Accepts obs P f Q) (hg : Accepts obs Q g S) :
    Accepts obs P (andThen f g) S := by
  intro s m h
  obtain ⟨m₁, h₁, hQ⟩ := hf s m h
  obtain ⟨m₂, h₂, hS⟩ := hg _ m₁ hQ
  exact ⟨m₂, Runs.exec_append_eq_some.mpr ⟨m₁, h₁, h₂⟩, hS⟩

theorem Within.andThen (hf : Within obs P f Q) (hg : Within obs Q g S) :
    Within obs P (andThen f g) S := by
  intro s m h m' hm
  obtain ⟨m₁, h₁, h₂⟩ := Runs.exec_append_eq_some.mp hm
  exact hg _ m₁ (hf s m h m₁ h₁) m' h₂

theorem Accepts.mono (h : Accepts obs P f Q) (hP : ∀ s m, P' s m → P s m)
    (hQ : ∀ s m, Q s m → Q' s m) : Accepts obs P' f Q' := by
  intro s m hp
  obtain ⟨m', hm, hq⟩ := h s m (hP s m hp)
  exact ⟨m', hm, hQ _ _ hq⟩

theorem Within.mono (h : Within obs P f Q) (hP : ∀ s m, P' s m → P s m)
    (hQ : ∀ s m, Q s m → Q' s m) : Within obs P' f Q' :=
  fun s m hp m' hm => hQ _ _ (h s m (hP s m hp) m' hm)

/-- What is taken from `P` is also what `Within` speaks of. -/
theorem Accepts.within (h : Accepts obs P f Q) : Within obs P f Q := by
  intro s m hp m' hm
  obtain ⟨m'', hm'', hq⟩ := h s m hp
  rw [hm''] at hm
  cases hm
  exact hq

theorem accepts_forEach {step : ι → Emitter σ ο} {is : List ι}
    (h : ∀ i ∈ is, Accepts obs P (step i) P) : Accepts obs P (forEach step is) P := by
  induction is with
  | nil => exact accepts_skip
  | cons i is ih =>
    exact (h i List.mem_cons_self).andThen (ih fun j hj => h j (List.mem_cons_of_mem i hj))

/-- The monitor that refuses nothing and remembers every output. -/
def record (past : List ο) (o : ο) : Option (List ο) := some (past ++ [o])

theorem exec_record (past os : List ο) : Runs.exec record past os = some (past ++ os) := by
  induction os generalizing past with
  | nil => rw [Runs.exec_nil, List.append_nil]
  | cons o os ih =>
    rw [Runs.exec_cons, record, Option.bind_some, ih, List.append_assoc, List.singleton_append]

/-- Every input of the list is admissible after the ones before it. -/
def Throughout (Ok : List ι → ι → Prop) (is : List ι) : Prop :=
  ∀ past i rest, is = past ++ i :: rest → Ok past i

theorem throughout_nil {Ok : List ι → ι → Prop} : Throughout Ok [] := by
  intro past i rest h
  simp at h

theorem throughout_append_singleton {Ok : List ι → ι → Prop} {is : List ι} {i : ι} :
    Throughout Ok (is ++ [i]) ↔ Throughout Ok is ∧ Ok is i := by
  constructor
  · intro h
    refine ⟨fun past j rest hsplit => h past j (rest ++ [i]) ?_, h is i [] rfl⟩
    rw [hsplit, List.append_assoc, List.cons_append]
  · rintro ⟨hall, hlast⟩ past j rest hsplit
    rcases List.eq_nil_or_concat rest with rfl | ⟨front, k, rfl⟩
    · obtain ⟨rfl, hj⟩ := List.append_inj' hsplit rfl
      cases hj
      exact hlast
    · rw [List.concat_eq_append, ← List.cons_append, ← List.append_assoc] at hsplit
      exact hall past j front (List.append_inj' hsplit rfl).1

theorem throughout_append {Ok : List ι → ι → Prop} {is js : List ι} :
    Throughout Ok (is ++ js) ↔
      Throughout Ok is ∧ Throughout (fun past i => Ok (is ++ past) i) js := by
  induction js using List.reverseRecOn with
  | nil => simp [throughout_nil]
  | append_singleton js j ih =>
    rw [← List.append_assoc, throughout_append_singleton, ih, throughout_append_singleton,
      and_assoc]

theorem throughout_of_forall {Ok : List ι → ι → Prop} {is : List ι}
    (h : ∀ past, ∀ i ∈ is, Ok past i) : Throughout Ok is := by
  intro past i rest hsplit
  refine h past i ?_
  rw [hsplit]
  exact List.mem_append_right past List.mem_cons_self

/-- A condition that more past only helps holds throughout a list read in parts
if it holds throughout each part. -/
theorem throughout_flatMap {Ok : List ι → ι → Prop} {view : κ → List ι}
    (hmono : ∀ before past i, Ok past i → Ok (before ++ past) i)
    (h : ∀ k, Throughout Ok (view k)) (ks : List κ) : Throughout Ok (ks.flatMap view) := by
  induction ks using List.reverseRecOn with
  | nil => exact throughout_nil
  | append_singleton ks k ih =>
    rw [List.flatMap_append, List.flatMap_singleton, throughout_append]
    exact ⟨ih, fun past i rest hsplit => hmono _ past i (h k past i rest hsplit)⟩

variable {step : ι → Emitter σ ο} {R : List ι → σ → μ → Prop} {Shape Ok : List ι → ι → Prop}
  {Doomed : σ → μ → Prop}

/-- `Shape` is what every input list satisfies anyway. -/
theorem accepts_of_throughout
    (good : ∀ past i, Shape past i → Ok past i → Accepts obs (R past) (step i) (R (past ++ [i])))
    {is : List ι} (hshape : Throughout Shape is) (h : Throughout Ok is) :
    Accepts obs (R []) (forEach step is) (R is) := by
  induction is using List.reverseRecOn with
  | nil => exact accepts_skip
  | append_singleton is i ih =>
    obtain ⟨hshape, hlast⟩ := throughout_append_singleton.mp hshape
    obtain ⟨h, hok⟩ := throughout_append_singleton.mp h
    rw [forEach_append, forEach_singleton]
    exact (ih hshape h).andThen (good is i hlast hok)

/-- The same from a list of inputs read before. -/
theorem accepts_of_throughout_from (past : List ι)
    (good : ∀ past i, Shape past i → Ok past i → Accepts obs (R past) (step i) (R (past ++ [i])))
    {is : List ι} (hshape : Throughout (fun front => Shape (past ++ front)) is)
    (h : Throughout (fun front => Ok (past ++ front)) is) :
    Accepts obs (R past) (forEach step is) (R (past ++ is)) := by
  have hrun := accepts_of_throughout (R := fun front => R (past ++ front))
    (fun front i hs hok => by
      rw [← List.append_assoc]
      exact good (past ++ front) i hs hok) hshape h
  rwa [List.append_nil] at hrun

theorem within_of_not_throughout
    (good : ∀ past i, Shape past i → Ok past i → Accepts obs (R past) (step i) (R (past ++ [i])))
    (bad : ∀ past i, Shape past i → ¬ Ok past i → Within obs (R past) (step i) Doomed)
    (doomed : ∀ i, Within obs Doomed (step i) Doomed)
    {is : List ι} (hshape : Throughout Shape is) (h : ¬ Throughout Ok is) :
    Within obs (R []) (forEach step is) Doomed := by
  induction is using List.reverseRecOn with
  | nil => exact absurd throughout_nil h
  | append_singleton is i ih =>
    obtain ⟨hshape, hlast⟩ := throughout_append_singleton.mp hshape
    rw [forEach_append, forEach_singleton]
    rw [throughout_append_singleton] at h
    by_cases hall : Throughout Ok is
    · have hbad : ¬ Ok is i := fun hok => h ⟨hall, hok⟩
      exact (accepts_of_throughout good hshape hall).within.andThen (bad is i hlast hbad)
    · exact (ih hshape hall).andThen (doomed i)

/-- Inputs, then a last emitter: the monitor takes the whole run and it ends in
`Q` iff every input is admissible and the inputs allow the end (`B`). -/
theorem exec_andThen_iff {last : Emitter σ ο} {B : List ι → Prop} [DecidablePred B]
    (good : ∀ past i, Shape past i → Ok past i → Accepts obs (R past) (step i) (R (past ++ [i])))
    (bad : ∀ past i, Shape past i → ¬ Ok past i → Within obs (R past) (step i) Doomed)
    (doomed : ∀ i, Within obs Doomed (step i) Doomed)
    (finish : ∀ past, B past → Accepts obs (R past) last Q)
    (unfinished : ∀ past, ¬ B past → Within obs (R past) last fun s m => ¬ Q s m)
    (finishDoomed : Within obs Doomed last fun s m => ¬ Q s m)
    {is : List ι} (hshape : Throughout Shape is) {s : σ} {m : μ} (hinit : R [] s m) :
    (∃ m', Runs.exec obs m (andThen (forEach step is) last s).2 = some m' ∧
        Q (andThen (forEach step is) last s).1 m') ↔
      B is ∧ Throughout Ok is := by
  by_cases hok : Throughout Ok is
  · have hrun := accepts_of_throughout good hshape hok
    rw [and_iff_left hok]
    by_cases hb : B is
    · exact iff_of_true (hrun.andThen (finish is hb) s m hinit) hb
    · refine iff_of_false (fun ⟨m', hm, hq⟩ => ?_) hb
      exact hrun.within.andThen (unfinished is hb) s m hinit m' hm hq
  · refine iff_of_false (fun ⟨m', hm, hq⟩ => ?_) fun h => hok h.2
    have hdoomed := within_of_not_throughout good bad doomed hshape hok
    exact hdoomed.andThen finishDoomed s m hinit m' hm hq

end Transducer
