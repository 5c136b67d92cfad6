import AgentShim.Lib.Checks
import AgentShim.Router.ModelIndex
import AgentShim.Router.StaticRoutes

/-
  The model resolver

  Static route lookup, then every target of the chain upgraded to the model its
  provider lists. The resolver owns its two tables and is built once.

  What is proved:
    1. `resolveRoute_eq_ok` — a resolved route is the static one with its
       models upgraded: providers, target policies, retry and breaker policies
       and label are the static route's.

  Correspondence (Rust ↔ Lean):
    `ModelResolver::resolve_route`, `apply_fuzzy_upgrades` ↔ the same names
-/

namespace AgentShim.Resolver

open AgentShim.ModelIndexing AgentShim.StaticRoutes

structure ModelResolver (M : Type) where
  staticRouter : StaticRouter
  modelIndex : ModelIndex M

variable {M : Type} (lower : String → String)

/-- One target with the listed model its name stands for, if any. -/
def upgrade (index : ModelIndex M) (target : BackendTarget) : BackendTarget :=
  match index.resolve lower target.provider target.model with
  | some canonical =>
    if canonical != target.model then { target with model := canonical } else target
  | none => target

def applyFuzzyUpgrades (index : ModelIndex M) (chain : List BackendTarget) : List BackendTarget :=
  chain.map (upgrade lower index)

def ModelResolver.resolveRoute (r : ModelResolver M) (frontend : FrontendKind)
    (modelAlias : String) : Except RouteError ResolvedRoute :=
  (r.staticRouter.resolveRoute frontend modelAlias).map fun resolved =>
    { resolved with chain := applyFuzzyUpgrades lower r.modelIndex resolved.chain }

theorem upgrade_provider (index : ModelIndex M) (target : BackendTarget) :
    (upgrade lower index target).provider = target.provider := by
  unfold upgrade
  split
  · split <;> rfl
  · rfl

theorem upgrade_policy (index : ModelIndex M) (target : BackendTarget) :
    (upgrade lower index target).policy = target.policy := by
  unfold upgrade
  split
  · split <;> rfl
  · rfl

theorem resolveRoute_eq_ok {r : ModelResolver M} {frontend : FrontendKind} {modelAlias : String}
    {resolved : ResolvedRoute} (h : r.resolveRoute lower frontend modelAlias = .ok resolved) :
    ∃ static, r.staticRouter.resolveRoute frontend modelAlias = .ok static ∧
      resolved.chain.map (fun t => (t.provider, t.policy)) =
        static.chain.map (fun t => (t.provider, t.policy)) ∧
      resolved.retry = static.retry ∧ resolved.breaker = static.breaker ∧
      resolved.routeLabel = static.routeLabel := by
  obtain ⟨static, hstatic, rfl⟩ := Checks.map_eq_ok.mp h
  refine ⟨static, hstatic, ?_, rfl, rfl, rfl⟩
  rw [applyFuzzyUpgrades, List.map_map]
  apply List.map_congr_left
  intro target _
  show ((upgrade lower r.modelIndex target).provider,
    (upgrade lower r.modelIndex target).policy) = _
  rw [upgrade_provider, upgrade_policy]

end AgentShim.Resolver
