import AgentShim.Gateway.RouteEntries
import AgentShim.Router.Catalog

/-
  What the catalog says

  The public model list against the configuration and the listed models: which ids it
  has, what a record of an alias and of a listed model says, and which sibling it
  names. Nothing here depends on the order in which the routes are enumerated, but for
  the frontend an alias record takes its upstream from: the first of its frontends.

  What is proved:
    1. `longContextVariant_eq_some`, `longContextVariant_eq_none` — the search finds a
       largest sibling, if there is one.
    2. `listCatalog_spec` — ids, alias records, listed records and siblings of the
       catalog, for any order of the routes.
-/

namespace AgentShim.Catalog

open AgentShim.Config AgentShim.ModelIndexing AgentShim.Resolver AgentShim.RouteEntries
  AgentShim.StaticRoutes FirstWins

/-! ## Siblings -/

/-- The other record is of the same family and has the larger window. -/
def Larger (record other : ModelRecord) : Prop :=
  (∃ family, record.family = some family ∧ other.family = some family) ∧
    record.window < other.window

/-- The variant of a record is a largest record that is larger; there is none only where
no record is. -/
structure VariantLaw (catalog : List ModelRecord) (record : ModelRecord) : Prop where
  some : ∀ id, record.longContextVariant = some id → ∃ other ∈ catalog, other.id = id ∧
    Larger record other ∧ ∀ third ∈ catalog, Larger record third → third.window ≤ other.window
  none : record.longContextVariant = none ↔ ∀ other ∈ catalog, ¬ Larger record other

section Variants

variable {records : List ModelRecord} {record : ModelRecord}

def siblings (records : List ModelRecord) (record : ModelRecord) (family : String) :
    List ModelRecord :=
  records.filter fun other => !(other.id == record.id) && (other.family == some family &&
    other.contextWindow.any fun window => decide (record.window < window))

theorem window_lt_iff (record other : ModelRecord) :
    (other.contextWindow.any fun window => decide (record.window < window)) = true ↔
      record.window < other.window := by
  rw [show other.window = other.contextWindow.getD 0 from rfl]
  cases other.contextWindow with
  | none => simp
  | some window => exact decide_eq_true_iff

theorem mem_siblings {family : String} {other : ModelRecord} :
    other ∈ siblings records record family ↔ other ∈ records ∧ other.id ≠ record.id ∧
      other.family = some family ∧ record.window < other.window := by
  rw [siblings, List.mem_filter, Bool.and_eq_true, Bool.and_eq_true, window_lt_iff]
  simp only [Bool.not_eq_true', beq_eq_false_iff_ne, beq_iff_eq]

/-- The search keeps the largest of the siblings. -/
theorem foldl_nextVariant (records : List ModelRecord) (record : ModelRecord) (family : String) :
    records.foldl (nextVariant record family) none =
      best ModelRecord.window (siblings records record family) := by
  rw [best, siblings, List.foldl_filter]
  congr 1
  funext variant other
  rw [nextVariant, heavier]
  have hwindow : (variant.bind ModelRecord.contextWindow).getD 0 =
      (variant.map ModelRecord.window).getD 0 := by
    cases variant <;> rfl
  rw [hwindow]
  cases other.id == record.id <;> rfl

/-- A larger record is a sibling. -/
theorem mem_siblings_of_larger (hnodup : (records.map ModelRecord.id).Nodup)
    (hrecord : record ∈ records) {family : String} (hfamily : record.family = some family)
    {other : ModelRecord} (hother : other ∈ records) (hlarger : Larger record other) :
    other ∈ siblings records record family := by
  obtain ⟨⟨family', hmine, htheirs⟩, hwindow⟩ := hlarger
  have hsame : family' = family := Option.some.inj (hmine.symm.trans hfamily)
  refine mem_siblings.mpr ⟨hother, fun hid => ?_, hsame ▸ htheirs, hwindow⟩
  obtain rfl := List.inj_on_of_nodup_map hnodup hother hrecord hid
  exact Nat.lt_irrefl _ hwindow

theorem longContextVariant_eq_some (hnodup : (records.map ModelRecord.id).Nodup)
    (hrecord : record ∈ records) {id : String}
    (hvariant : longContextVariant records record = some id) :
    ∃ other ∈ records, other.id = id ∧ Larger record other ∧
      ∀ third ∈ records, Larger record third → third.window ≤ other.window := by
  rw [longContextVariant] at hvariant
  split at hvariant
  · cases hvariant
  · rename_i family hfamily
    rw [foldl_nextVariant] at hvariant
    obtain ⟨other, hbest, rfl⟩ := Option.map_eq_some_iff.mp hvariant
    obtain ⟨hmem, hmax⟩ := best_eq_some hbest
    obtain ⟨hother, -, htheirs, hwindow⟩ := mem_siblings.mp hmem
    refine ⟨other, hother, rfl, ⟨⟨family, hfamily, htheirs⟩, hwindow⟩, ?_⟩
    intro third hthird hlarger
    exact hmax third (mem_siblings_of_larger hnodup hrecord hfamily hthird hlarger)

theorem longContextVariant_eq_none (hnodup : (records.map ModelRecord.id).Nodup)
    (hrecord : record ∈ records) :
    longContextVariant records record = none ↔ ∀ other ∈ records, ¬ Larger record other := by
  constructor
  · intro hvariant other hother hlarger
    obtain ⟨family, hfamily, -⟩ := hlarger.1
    rw [longContextVariant, hfamily] at hvariant
    dsimp only at hvariant
    rw [foldl_nextVariant, Option.map_eq_none_iff] at hvariant
    have hzero := best_eq_none hvariant other
      (mem_siblings_of_larger hnodup hrecord hfamily hother hlarger)
    have hwindow := hlarger.2
    omega
  · intro hno
    rcases hvariant : longContextVariant records record with _ | id
    · rfl
    · obtain ⟨other, hother, -, hlarger, -⟩ :=
        longContextVariant_eq_some hnodup hrecord hvariant
      exact absurd hlarger (hno other hother)

end Variants

/-! ## The catalog -/

theorem mem_sortById {records : List ModelRecord} {record : ModelRecord} :
    record ∈ sortById records ↔ record ∈ records :=
  List.mem_insertionSort _

theorem pairwise_sortById {records : List ModelRecord}
    (hnodup : (records.map ModelRecord.id).Nodup) :
    ((sortById records).map ModelRecord.id).Pairwise (· < ·) := by
  have : Std.Total fun a b : ModelRecord => a.id ≤ b.id := ⟨fun a b => le_total a.id b.id⟩
  have : IsTrans ModelRecord fun a b => a.id ≤ b.id := ⟨fun _ _ _ hab hbc => le_trans hab hbc⟩
  have hperm : (sortById records).Perm records := List.perm_insertionSort _ _
  have hne := (hperm.map ModelRecord.id).nodup_iff.mpr hnodup
  have hle := List.pairwise_insertionSort (fun a b : ModelRecord => a.id ≤ b.id) records
  have hboth : (sortById records).Pairwise fun a b => a.id ≤ b.id ∧ a.id ≠ b.id :=
    hle.and (List.pairwise_map.mp hne)
  exact List.pairwise_map.mpr (hboth.imp fun hab => lt_of_le_of_ne hab.1 hab.2)

/-- A record of the catalog is one of the first two passes, with its sibling. -/
theorem mem_listCatalog {lower : String → String} {r : ModelResolver ModelMetadata}
    {routes : List (FrontendKind × String)} {record : ModelRecord} :
    record ∈ listCatalog lower r routes ↔
      ∃ plain ∈ records r.modelIndex (aliases lower r routes),
        withVariant (records r.modelIndex (aliases lower r routes)) plain = record := by
  rw [listCatalog, catalogOf, mem_sortById, List.mem_map]

section Spec

variable (lower : String → String) (cfg : GatewayConfig) (r : ModelResolver ModelMetadata)

/-- A record says where its alias goes: to the upstreams of its first frontend. -/
structure AliasRecord (record : ModelRecord) : Prop where
  frontends : ∀ frontend, frontend ∈ record.frontends ↔ ExactRoute cfg frontend record.id
  once : record.frontends.Nodup
  upstream : ∃ frontend resolved head, record.frontends.head? = some frontend ∧
    r.resolveRoute lower frontend record.id = .ok resolved ∧ resolved.chain.head? = some head ∧
    record.upstreamProvider = head.provider ∧ record.upstreamModel = head.model ∧
    record.upstreamsChain = resolved.chain.map upstreamRef ∧
    record.metadata = r.modelIndex.listed head.provider head.model

variable {lower cfg r} in
theorem AliasRecord.exact {record : ModelRecord} (hrecord : AliasRecord lower cfg r record) :
    ∃ frontend, ExactRoute cfg frontend record.id := by
  obtain ⟨frontend, _, _, hfrontend, -⟩ := hrecord.upstream
  exact ⟨frontend, (hrecord.frontends frontend).mp (List.mem_of_head? hfrontend)⟩

/-- What the catalog of a configuration says. -/
structure CatalogSpec (catalog : ModelCatalog) : Prop where
  ascending : (catalog.map ModelRecord.id).Pairwise (· < ·)
  ids : ∀ id, id ∈ catalog.map ModelRecord.id ↔ (∃ frontend, ExactRoute cfg frontend id) ∨
    ∃ provider metadata, r.modelIndex.listed provider id = some metadata
  aliases : ∀ record ∈ catalog, (∃ frontend, ExactRoute cfg frontend record.id) →
    AliasRecord lower cfg r record
  listed : ∀ record ∈ catalog, (¬ ∃ frontend, ExactRoute cfg frontend record.id) →
    ListedRecord r.modelIndex record
  variants : ∀ record ∈ catalog, VariantLaw catalog record

variable {lower cfg r} (h : StaticRouter.fromConfig cfg = some r.staticRouter)
  {routes : List (FrontendKind × String)} (hroutes : routes.Perm r.staticRouter.listRoutes)

include h

theorem listable_of_exact {frontend : FrontendKind} {modelAlias : String}
    (hexact : ExactRoute cfg frontend modelAlias) : Listable lower r (frontend, modelAlias) := by
  constructor
  · rintro rfl
    exact absurd hexact.1 (by decide)
  · obtain ⟨resolved, hok, hne⟩ := resolveRoute_of_exact h hexact
    obtain ⟨head, rest, hchain⟩ := List.exists_cons_of_ne_nil hne
    have hupgraded : r.resolveRoute lower frontend modelAlias =
        .ok { resolved with chain := applyFuzzyUpgrades lower r.modelIndex resolved.chain } := by
      rw [ModelResolver.resolveRoute, hok]
      rfl
    apply Option.isSome_iff_exists.mp
    rw [newRecord, hupgraded]
    dsimp only
    rw [applyFuzzyUpgrades, hchain]
    rfl

include hroutes

theorem mem_routes_iff {frontend : FrontendKind} {modelAlias : String} :
    (frontend, modelAlias) ∈ routes ↔ ExactRoute cfg frontend modelAlias :=
  hroutes.mem_iff.trans (mem_listRoutes_iff h)

theorem listable_routes : ∀ route ∈ routes, Listable lower r route :=
  fun _ hroute => listable_of_exact h ((mem_routes_iff h hroutes).mp hroute)

/-- The ids taken are the exact aliases. -/
theorem mem_takenIds {id : String} :
    id ∈ (aliases lower r routes).takenIds ↔ ∃ frontend, ExactRoute cfg frontend id := by
  rw [mem_takenIds_iff (listable_routes h hroutes)]
  constructor
  · rintro ⟨⟨frontend, _⟩, hroute, rfl⟩
    exact ⟨frontend, (mem_routes_iff h hroutes).mp hroute⟩
  · rintro ⟨frontend, hexact⟩
    exact ⟨(frontend, id), (mem_routes_iff h hroutes).mpr hexact, rfl⟩

theorem get?_byAlias (modelAlias : String) :
    (aliases lower r routes).byAlias.get? modelAlias = aliasRecord lower r routes modelAlias :=
  get?_aliases (hroutes.nodup_iff.mpr (nodup_listRoutes _)) (listable_routes h hroutes) modelAlias

/-- The records of the first pass are those of the exact aliases. -/
theorem mem_values_aliases {record : ModelRecord} :
    record ∈ (aliases lower r routes).byAlias.values ↔
      ∃ modelAlias, aliasRecord lower r routes modelAlias = some record := by
  constructor
  · intro hmem
    obtain ⟨⟨modelAlias, _⟩, hentry, rfl⟩ := List.mem_map.mp hmem
    exact ⟨modelAlias,
      (get?_byAlias h hroutes modelAlias).symm.trans (OrdMap.get?_eq_some_iff.mpr hentry)⟩
  · rintro ⟨modelAlias, hrecord⟩
    have hentry := OrdMap.get?_eq_some_iff.mp ((get?_byAlias h hroutes modelAlias).trans hrecord)
    exact List.mem_map.mpr ⟨_, hentry, rfl⟩

/-- The record of an alias has its id, and says where it goes. -/
theorem aliasRecord_of_eq_some {modelAlias : String} {record : ModelRecord}
    (hrecord : aliasRecord lower r routes modelAlias = some record) :
    record.id = modelAlias ∧ record.frontends = (routesOf modelAlias routes).map Prod.fst ∧
      AliasRecord lower cfg r record := by
  obtain ⟨first, hfirst, hrecord⟩ := Option.bind_eq_some_iff.mp hrecord
  obtain ⟨fresh, hfresh, rfl⟩ := Option.map_eq_some_iff.mp hrecord
  obtain ⟨resolved, head, hok, hhead, rfl⟩ := newRecord_eq_some hfresh
  refine ⟨rfl, rfl, ?_, ?_, ?_⟩
  · intro frontend
    show frontend ∈ (routesOf modelAlias routes).map Prod.fst ↔ _
    rw [← mem_routes_iff h hroutes, List.mem_map]
    constructor
    · rintro ⟨⟨_, _⟩, hroute, rfl⟩
      obtain ⟨hmem, rfl⟩ := mem_routesOf.mp hroute
      exact hmem
    · exact fun hmem => ⟨_, mem_routesOf.mpr ⟨hmem, rfl⟩, rfl⟩
  · -- two routes of an alias are on two frontends
    have hnodup : routes.Nodup := hroutes.nodup_iff.mpr (nodup_listRoutes _)
    apply (hnodup.filter _).map_on
    intro x hx y hy hxy
    exact Prod.ext hxy ((mem_routesOf.mp hx).2.trans (mem_routesOf.mp hy).2.symm)
  · refine ⟨first.1, resolved, head, ?_, hok, hhead, rfl, rfl, rfl, rfl⟩
    show ((routesOf modelAlias routes).map Prod.fst).head? = _
    rw [List.head?_map, hfirst]
    rfl

/-- The records before the third pass. -/
theorem mem_records {record : ModelRecord} :
    record ∈ records r.modelIndex (aliases lower r routes) ↔
      (∃ modelAlias, aliasRecord lower r routes modelAlias = some record) ∨
        record ∈ keepFirst ModelRecord.id (aliases lower r routes).takenIds
          (offered r.modelIndex) := by
  rw [records_eq, List.mem_append, mem_values_aliases h hroutes]

theorem ids_values_aliases :
    (aliases lower r routes).byAlias.values.map ModelRecord.id =
      (aliases lower r routes).byAlias.keys := by
  rw [OrdMap.values, OrdMap.keys, List.map_map]
  apply List.map_congr_left
  rintro ⟨modelAlias, record⟩ hentry
  have hrecord : aliasRecord lower r routes modelAlias = some record :=
    (get?_byAlias h hroutes modelAlias).symm.trans (OrdMap.get?_eq_some_iff.mpr hentry)
  exact (aliasRecord_of_eq_some h hroutes hrecord).1

/-- An alias has a record. -/
theorem exists_aliasRecord {frontend : FrontendKind} {modelAlias : String}
    (hexact : ExactRoute cfg frontend modelAlias) :
    ∃ record, aliasRecord lower r routes modelAlias = some record := by
  have hroute : (frontend, modelAlias) ∈ routesOf modelAlias routes :=
    mem_routesOf.mpr ⟨(mem_routes_iff h hroutes).mpr hexact, rfl⟩
  obtain ⟨first, rest, hfirst⟩ := List.exists_cons_of_ne_nil (List.ne_nil_of_mem hroute)
  have hmem : first ∈ routesOf modelAlias routes := hfirst ▸ List.mem_cons_self
  obtain ⟨hfirstmem, hsame⟩ := mem_routesOf.mp hmem
  have hlistable : Listable lower r first := listable_routes h hroutes first hfirstmem
  obtain ⟨-, fresh, hfresh⟩ := hlistable
  rw [hsame] at hfresh
  rw [aliasRecord, hfirst, List.head?_cons, Option.bind_some, hfresh]
  exact ⟨_, rfl⟩

theorem ids_records (id : String) :
    id ∈ (records r.modelIndex (aliases lower r routes)).map ModelRecord.id ↔
      (∃ frontend, ExactRoute cfg frontend id) ∨
        ∃ provider metadata, r.modelIndex.listed provider id = some metadata := by
  have hoffered : id ∈ (offered r.modelIndex).map ModelRecord.id ↔
      ∃ provider metadata, r.modelIndex.listed provider id = some metadata := by
    rw [List.mem_map]
    constructor
    · rintro ⟨record, hrecord, rfl⟩
      obtain ⟨provider, modelId, metadata, hlisted, rfl⟩ := (mem_offered _).mp hrecord
      exact ⟨provider, metadata, hlisted⟩
    · rintro ⟨provider, metadata, hlisted⟩
      exact ⟨_, (mem_offered _).mpr ⟨provider, id, metadata, hlisted, rfl⟩, rfl⟩
  constructor
  · intro hid
    obtain ⟨record, hrecord, rfl⟩ := List.mem_map.mp hid
    rcases (mem_records h hroutes).mp hrecord with ⟨modelAlias, halias⟩ | hkept
    · exact Or.inl (aliasRecord_of_eq_some h hroutes halias).2.2.exact
    · have hkey := mem_keys_keepFirst.mp (List.mem_map_of_mem hkept)
      exact Or.inr (hoffered.mp hkey.2)
  · intro hid
    by_cases hexact : ∃ frontend, ExactRoute cfg frontend id
    · obtain ⟨frontend, hexact⟩ := hexact
      have hsome : ∃ record, aliasRecord lower r routes id = some record :=
        exists_aliasRecord h hroutes hexact
      obtain ⟨record, halias⟩ := hsome
      have hsame := (aliasRecord_of_eq_some h hroutes halias).1
      exact List.mem_map.mpr ⟨record, (mem_records h hroutes).mpr (Or.inl ⟨id, halias⟩), hsame⟩
    · -- a listed model whose id is free
      have hfree : id ∉ (aliases lower r routes).takenIds :=
        fun hmem => hexact ((mem_takenIds h hroutes).mp hmem)
      have hkey := mem_keys_keepFirst.mpr ⟨hfree, hoffered.mpr (hid.resolve_left hexact)⟩
      obtain ⟨record, hkept, hsame⟩ := List.mem_map.mp hkey
      exact List.mem_map.mpr ⟨record, (mem_records h hroutes).mpr (Or.inr hkept), hsame⟩

theorem nodup_ids_records :
    ((records r.modelIndex (aliases lower r routes)).map ModelRecord.id).Nodup := by
  rw [records_eq, List.map_append, List.nodup_append, ids_values_aliases h hroutes]
  refine ⟨(aliases lower r routes).byAlias.nodup_keys, nodup_keepFirst _ _ _, ?_⟩
  rintro modelAlias halias id hid rfl
  apply (mem_keys_keepFirst.mp hid).1
  -- the ids of the first pass are taken
  rw [← ids_values_aliases h hroutes] at halias
  obtain ⟨record, hrecord, rfl⟩ := List.mem_map.mp halias
  obtain ⟨modelAlias, halias⟩ := (mem_values_aliases h hroutes).mp hrecord
  exact (mem_takenIds h hroutes).mpr (aliasRecord_of_eq_some h hroutes halias).2.2.exact

/-- A record is an alias's, or that of a listed model whose id is not an alias. -/
theorem describes_of_mem_records {record : ModelRecord}
    (hrecord : record ∈ records r.modelIndex (aliases lower r routes)) :
    ((∃ frontend, ExactRoute cfg frontend record.id) ∧ AliasRecord lower cfg r record) ∨
      ((¬ ∃ frontend, ExactRoute cfg frontend record.id) ∧ ListedRecord r.modelIndex record) := by
  rcases (mem_records h hroutes).mp hrecord with ⟨modelAlias, halias⟩ | hkept
  · have hrecord := (aliasRecord_of_eq_some h hroutes halias).2.2
    exact Or.inl ⟨hrecord.exact, hrecord⟩
  · refine Or.inr ⟨fun hexact => ?_, listedRecord_of_mem _ hkept⟩
    exact (mem_keepFirst.mp hkept).1 ((mem_takenIds h hroutes).mpr hexact)

theorem variantLaw_of_mem {record : ModelRecord}
    (hrecord : record ∈ records r.modelIndex (aliases lower r routes)) :
    VariantLaw (listCatalog lower r routes)
      (withVariant (records r.modelIndex (aliases lower r routes)) record) := by
  set plain := records r.modelIndex (aliases lower r routes) with hplain
  have hnodup : (plain.map ModelRecord.id).Nodup := nodup_ids_records h hroutes
  constructor
  · intro id hvariant
    obtain ⟨other, hother, hid, hlarger, hmax⟩ :=
      longContextVariant_eq_some hnodup hrecord hvariant
    refine ⟨withVariant plain other, mem_listCatalog.mpr ⟨other, hother, rfl⟩, hid, hlarger, ?_⟩
    intro third hthird hlarger'
    obtain ⟨found, hfound, rfl⟩ := mem_listCatalog.mp hthird
    exact hmax found hfound hlarger'
  · show longContextVariant plain record = none ↔ _
    rw [longContextVariant_eq_none hnodup hrecord]
    constructor
    · intro hno other hother
      obtain ⟨found, hfound, rfl⟩ := mem_listCatalog.mp hother
      exact hno found hfound
    · exact fun hno other hother =>
        hno (withVariant plain other) (mem_listCatalog.mpr ⟨other, hother, rfl⟩)

theorem mem_ids_listCatalog (id : String) :
    id ∈ (listCatalog lower r routes).map ModelRecord.id ↔
      (∃ frontend, ExactRoute cfg frontend id) ∨
        ∃ provider metadata, r.modelIndex.listed provider id = some metadata := by
  rw [← ids_records h hroutes]
  have hperm := (List.perm_insertionSort (fun a b : ModelRecord => a.id ≤ b.id)
    ((records r.modelIndex (aliases lower r routes)).map
      (withVariant (records r.modelIndex (aliases lower r routes))))).map ModelRecord.id
  rw [List.map_map] at hperm
  exact hperm.mem_iff

theorem listCatalog_spec : CatalogSpec lower cfg r (listCatalog lower r routes) := by
  refine ⟨?_, mem_ids_listCatalog h hroutes, ?_, ?_, ?_⟩
  · apply pairwise_sortById
    rw [List.map_map]
    exact nodup_ids_records h hroutes
  · intro record hrecord hexact
    obtain ⟨plain, hplain, rfl⟩ := mem_listCatalog.mp hrecord
    rcases describes_of_mem_records h hroutes hplain with ⟨-, hdescribes⟩ | ⟨hno, -⟩
    · exact ⟨hdescribes.frontends, hdescribes.once, hdescribes.upstream⟩
    · exact absurd hexact hno
  · intro record hrecord hno
    obtain ⟨plain, hplain, rfl⟩ := mem_listCatalog.mp hrecord
    rcases describes_of_mem_records h hroutes hplain with ⟨hexact, -⟩ | ⟨-, hlists⟩
    · exact absurd hexact hno
    · exact ⟨hlists.frontends, hlists.model, hlists.chain, hlists.listed, hlists.first⟩
  · intro record hrecord
    obtain ⟨plain, hplain, rfl⟩ := mem_listCatalog.mp hrecord
    exact variantLaw_of_mem h hroutes hplain

end Spec

/-! ## Two models of a family -/

def gpt4 (window : Nat) : ModelMetadata :=
  { contextWindowTokens := some window, family := some "gpt-4" }

def gptModels : OrdMap ModelMetadata where
  entries := [("gpt-4.1", gpt4 1047576), ("gpt-4o-2024-11-20", gpt4 128000)]
  sorted := show ["gpt-4.1", "gpt-4o-2024-11-20"].Pairwise (· < ·) by decide

/-- An alias for another model on each of two frontends, and one for the larger. -/
def familyConfig : GatewayConfig :=
  plainConfig
    [.singular "openai_chat" "gpt-4o" "openai" "gpt-4o-2024-11-20",
      .singular "anthropic_messages" "gpt-4o" "openai" "gpt-4.1",
      .singular "openai_chat" "gpt-long" "openai" "gpt-4.1"]

def familyResolver (router : StaticRouter) : ModelResolver ModelMetadata where
  staticRouter := router
  modelIndex := .withMetadata id [("openai", gptModels)]

theorem listCatalog_spec_family :
    ∃ router, StaticRouter.fromConfig familyConfig = some router ∧
      CatalogSpec id familyConfig (familyResolver router)
        (listCatalog id (familyResolver router) router.listRoutes) := by
  obtain ⟨router, hrouter⟩ := fromConfig_isSome (rfl : validate familyConfig = .ok ())
  exact ⟨router, hrouter, listCatalog_spec hrouter (List.Perm.refl _)⟩

end AgentShim.Catalog
