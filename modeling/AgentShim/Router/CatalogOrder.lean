import AgentShim.Router.CatalogSpec

/-
  The catalog and the order of the routes

  The providers are walked in sorted order and the records are sorted by id, so that
  the catalog is the same in every run. The routes are walked in the order of a hash
  map: the frontends of an alias are in that order, and the first of them gives its
  record the upstream, the chain and the metadata.

  What is proved:
    1. `aliases_eq_of_perm` — with one frontend for each alias the first pass collects
       the same in every order.
    2. `listCatalog_unordered_iff` — the catalog does not depend on the order iff no
       alias is routed on two frontends.
-/

namespace AgentShim.Catalog

open AgentShim.Config AgentShim.ModelIndexing AgentShim.Resolver AgentShim.RouteEntries
  AgentShim.StaticRoutes

/-- The catalog is the same in every order the exact routes may be enumerated in. -/
def Unordered (lower : String → String) (r : ModelResolver ModelMetadata) : Prop :=
  ∀ routes routes', routes.Perm r.staticRouter.listRoutes →
    routes'.Perm r.staticRouter.listRoutes →
    listCatalog lower r routes = listCatalog lower r routes'

/-- No alias is routed on two frontends. -/
def OneFrontend (cfg : GatewayConfig) : Prop :=
  ∀ frontend frontend' modelAlias, ExactRoute cfg frontend modelAlias →
    ExactRoute cfg frontend' modelAlias → frontend = frontend'

section Order

variable {lower : String → String} {cfg : GatewayConfig} {r : ModelResolver ModelMetadata}
  (h : StaticRouter.fromConfig cfg = some r.staticRouter)
  {routes routes' : List (FrontendKind × String)}
  (hroutes : routes.Perm r.staticRouter.listRoutes)

include h hroutes

theorem aliases_eq_of_perm (hroutes' : routes'.Perm r.staticRouter.listRoutes)
    (hone : OneFrontend cfg) : aliases lower r routes = aliases lower r routes' := by
  have hperm : routes.Perm routes' := hroutes.trans hroutes'.symm
  -- an alias has one route
  have hrun : ∀ modelAlias, routesOf modelAlias routes = routesOf modelAlias routes' := by
    intro modelAlias
    have heq : ∀ routes : List (FrontendKind × String),
        routes.Perm r.staticRouter.listRoutes → (routesOf modelAlias routes).Pairwise Eq := by
      intro routes hroutes
      apply List.pairwise_of_forall_mem_list
      rintro ⟨frontend, a⟩ ha ⟨frontend', b⟩ hb
      obtain ⟨hleft, hleftAlias : a = modelAlias⟩ := mem_routesOf.mp ha
      obtain ⟨hright, hrightAlias : b = modelAlias⟩ := mem_routesOf.mp hb
      subst hleftAlias hrightAlias
      rw [hone frontend frontend' b ((mem_routes_iff h hroutes).mp hleft)
        ((mem_routes_iff h hroutes).mp hright)]
    exact (hperm.filter _).eq_of_pairwise (fun _ _ _ _ hab _ => hab) (heq _ hroutes)
      (heq _ hroutes')
  have hbyAlias : (aliases lower r routes).byAlias = (aliases lower r routes').byAlias := by
    apply OrdMap.ext_get?
    intro modelAlias
    rw [get?_byAlias h hroutes, get?_byAlias h hroutes', aliasRecord, aliasRecord, hrun modelAlias]
  have htaken : (aliases lower r routes).takenIds = (aliases lower r routes').takenIds := by
    apply Finset.ext
    intro id
    rw [mem_takenIds h hroutes, mem_takenIds h hroutes']
  exact Collected.ext hbyAlias htaken

/-- The frontends of an alias, in the order of the routes. -/
theorem frontends_of_mem {record : ModelRecord} (hrecord : record ∈ listCatalog lower r routes)
    (hexact : ∃ frontend, ExactRoute cfg frontend record.id) :
    record.frontends = (routesOf record.id routes).map Prod.fst := by
  obtain ⟨plain, hplain, rfl⟩ := mem_listCatalog.mp hrecord
  rcases (mem_records h hroutes).mp hplain with ⟨modelAlias, halias⟩ | hkept
  · obtain ⟨rfl, hfrontends, -⟩ := aliasRecord_of_eq_some h hroutes halias
    exact hfrontends
  · exact absurd ((mem_takenIds h hroutes).mpr hexact) (FirstWins.mem_keepFirst.mp hkept).1

end Order

theorem listCatalog_unordered_iff (lower : String → String) {cfg : GatewayConfig}
    {r : ModelResolver ModelMetadata} (h : StaticRouter.fromConfig cfg = some r.staticRouter) :
    Unordered lower r ↔ OneFrontend cfg := by
  constructor
  · intro hsame frontend frontend' modelAlias hexact hexact'
    -- each of the two frontends may come first
    have hfirst : ∀ {frontend}, ExactRoute cfg frontend modelAlias →
        ((frontend, modelAlias) ::
          r.staticRouter.listRoutes.erase (frontend, modelAlias)).Perm r.staticRouter.listRoutes :=
      fun hexact => (List.perm_cons_erase ((mem_listRoutes_iff h).mpr hexact)).symm
    have hcatalog := hsame _ _ (hfirst hexact) (hfirst hexact')
    obtain ⟨record, hrecord, rfl⟩ := List.mem_map.mp
      ((mem_ids_listCatalog h (hfirst hexact) modelAlias).mpr
        (Or.inl ⟨frontend, hexact⟩))
    have hmine := frontends_of_mem h (hfirst hexact) hrecord ⟨frontend, hexact⟩
    rw [hcatalog] at hrecord
    have htheirs := frontends_of_mem h (hfirst hexact') hrecord ⟨frontend, hexact⟩
    rw [hmine] at htheirs
    have hhead := congrArg List.head? htheirs
    simpa [routesOf] using hhead
  · intro hone routes routes' hroutes hroutes'
    exact congrArg (catalogOf r.modelIndex) (aliases_eq_of_perm h hroutes hroutes' hone)

theorem oneFrontend_exactConfig : OneFrontend exactConfig := by
  rintro frontend frontend' modelAlias ⟨hstar, e, he, hfrontend, hmodel⟩
    ⟨-, e', he', hfrontend', hmodel'⟩
  simp only [exactConfig, plainConfig, List.mem_cons, List.not_mem_nil, or_false] at he he'
  rcases he with rfl | rfl
  · rcases he' with rfl | rfl
    · exact Option.some.inj (hfrontend.symm.trans hfrontend')
    · cases hmodel'
      exact absurd hstar (by decide)
  · cases hmodel
    exact absurd hstar (by decide)

theorem listCatalog_unordered_exactConfig :
    ∃ router, StaticRouter.fromConfig exactConfig = some router ∧
      Unordered id (familyResolver router) := by
  obtain ⟨router, hrouter⟩ := fromConfig_isSome (rfl : validate exactConfig = .ok ())
  exact ⟨router, hrouter, (listCatalog_unordered_iff id hrouter).mpr oneFrontend_exactConfig⟩

/-- The alias of two frontends is listed with the upstream of one or of the other, and
the smaller model with another sibling. -/
theorem catalogs_of_two_orders :
    validate familyConfig = .ok () ∧
      ∃ router, StaticRouter.fromConfig familyConfig = some router ∧
        (listCatalog id (familyResolver router) router.listRoutes).map
            (fun record => (record.id, record.upstreamModel, record.longContextVariant)) =
          [("gpt-4.1", "gpt-4.1", none), ("gpt-4o", "gpt-4.1", none),
            ("gpt-4o-2024-11-20", "gpt-4o-2024-11-20", some "gpt-4o"),
            ("gpt-long", "gpt-4.1", none)] ∧
        (listCatalog id (familyResolver router) router.listRoutes.reverse).map
            (fun record => (record.id, record.upstreamModel, record.longContextVariant)) =
          [("gpt-4.1", "gpt-4.1", none), ("gpt-4o", "gpt-4o-2024-11-20", some "gpt-long"),
            ("gpt-4o-2024-11-20", "gpt-4o-2024-11-20", some "gpt-long"),
            ("gpt-long", "gpt-4.1", none)] ∧
        ¬ Unordered id (familyResolver router) := by
  refine ⟨rfl, _, rfl, rfl, rfl, fun hsame => ?_⟩
  have hmodels := congrArg (List.map ModelRecord.upstreamModel)
    (hsame _ _ (List.Perm.refl _) (List.reverse_perm _))
  have hne : ["gpt-4.1", "gpt-4.1", "gpt-4o-2024-11-20", "gpt-4.1"] ≠
      ["gpt-4.1", "gpt-4o-2024-11-20", "gpt-4o-2024-11-20", "gpt-4.1"] := by decide
  exact hne hmodels

end AgentShim.Catalog
