import AgentShim.Core.Types
import AgentShim.Lib.FirstWins
import AgentShim.Router.Resolver
import Mathlib.Data.String.Basic

/-
  The model catalog

  The public list of models: one record per exact route alias, then one per listed
  model whose id is still free, each with its larger sibling, sorted by id. The
  routes come in the order in which the hash map of the router enumerates them,
  which the caller does not choose: it is an argument here.

  What is proved:
    1. `mem_listRoutes_iff` — the enumeration is that of the exact routes of the
       configuration.
    2. `get?_aliases`, `mem_takenIds_iff` — what the first pass collects, alias by
       alias.
    3. `records_eq` — the second pass appends the first record offered under each
       free id.

  Correspondence (Rust ↔ Lean):
    `catalog::{UpstreamRef, ModelRecord}`      ↔ the same names
    `ModelIndex::{providers, provider_models}` ↔ the same names
    `ModelResolver::list_catalog`              ↔ `listCatalog`: the first loop is
                                                 `aliases`, the second `records`, the
                                                 third `longContextVariant`
  The windows and families of a record are those of its metadata.
-/

namespace AgentShim.ModelIndexing.ModelIndex

variable {M : Type}

def providers (index : ModelIndex M) : List String := index.metadata.keys

def providerModels (index : ModelIndex M) (provider : String) : List (String × M) :=
  ((index.metadata.lookup provider).map OrdMap.entries).getD []

theorem mem_providerModels {index : ModelIndex M} {provider model : String} {metadata : M} :
    (model, metadata) ∈ index.providerModels provider ↔
      index.listed provider model = some metadata := by
  rw [providerModels, listed]
  cases index.metadata.lookup provider with
  | none => simp
  | some models => exact OrdMap.get?_eq_some_iff.symm

theorem mem_providers_of_listed {index : ModelIndex M} {provider model : String} {metadata : M}
    (h : index.listed provider model = some metadata) : provider ∈ index.providers := by
  obtain ⟨models, hmodels, -⟩ := Option.bind_eq_some_iff.mp h
  exact AList.mem_keys.mp (AList.lookup_isSome.mp (Option.isSome_iff_exists.mpr ⟨models, hmodels⟩))

end AgentShim.ModelIndexing.ModelIndex

namespace AgentShim.Catalog

open AgentShim.Config AgentShim.ModelIndexing AgentShim.Resolver AgentShim.StaticRoutes FirstWins

structure UpstreamRef where
  provider : String
  model : String
  deriving DecidableEq, Repr

structure ModelRecord where
  id : String
  frontends : List FrontendKind
  upstreamProvider : String
  upstreamModel : String
  upstreamsChain : List UpstreamRef
  metadata : Option ModelMetadata
  longContextVariant : Option String
  deriving DecidableEq, Repr

abbrev ModelCatalog := List ModelRecord

def upstreamRef (t : BackendTarget) : UpstreamRef := { provider := t.provider, model := t.model }

/-! ## First pass -/

section Aliases

variable (lower : String → String) (r : ModelResolver ModelMetadata)

/-- The record of an alias on a frontend, before the frontend is noted. -/
def newRecord (frontend : FrontendKind) (modelAlias : String) : Option ModelRecord :=
  match r.resolveRoute lower frontend modelAlias with
  | .error _ => none
  | .ok resolved =>
    resolved.chain.head?.map fun head =>
      { id := modelAlias
        frontends := []
        upstreamProvider := head.provider
        upstreamModel := head.model
        upstreamsChain := resolved.chain.map upstreamRef
        metadata := r.modelIndex.listed head.provider head.model
        longContextVariant := none }

def ModelRecord.addFrontend (record : ModelRecord) (frontend : FrontendKind) : ModelRecord :=
  if record.frontends.contains frontend then record
  else { record with frontends := record.frontends ++ [frontend] }

/-- The records by alias, and the ids they take. -/
@[ext]
structure Collected where
  byAlias : OrdMap ModelRecord
  takenIds : Finset String

def addRoute (c : Collected) (route : FrontendKind × String) : Collected :=
  if route.2 == "*" then c
  else
    match newRecord lower r route.1 route.2 with
    | none => c
    | some fresh =>
      { byAlias := c.byAlias.insert route.2
          (((c.byAlias.get? route.2).getD fresh).addFrontend route.1)
        takenIds := insert route.2 c.takenIds }

def aliases (routes : List (FrontendKind × String)) : Collected :=
  routes.foldl (addRoute lower r) { byAlias := .empty, takenIds := ∅ }

end Aliases

/-! ## Second pass -/

section Listed

variable (index : ModelIndex ModelMetadata)

def upstreamRecord (provider modelId : String) (metadata : ModelMetadata) : ModelRecord where
  id := modelId
  frontends := []
  upstreamProvider := provider
  upstreamModel := modelId
  upstreamsChain := [{ provider := provider, model := modelId }]
  metadata := some metadata
  longContextVariant := none

def addModel (provider : String) (state : List ModelRecord × Finset String)
    (model : String × ModelMetadata) : List ModelRecord × Finset String :=
  if model.1 ∈ state.2 then state
  else (state.1 ++ [upstreamRecord provider model.1 model.2], insert model.1 state.2)

def addProvider (state : List ModelRecord × Finset String) (provider : String) :
    List ModelRecord × Finset String :=
  (index.providerModels provider).foldl (addModel provider) state

def sortedProviders : List String := index.providers.insertionSort (· ≤ ·)

def records (c : Collected) : List ModelRecord :=
  ((sortedProviders index).foldl (addProvider index) (c.byAlias.values, c.takenIds)).1

end Listed

/-! ## Third pass -/

def ModelRecord.family (record : ModelRecord) : Option String :=
  record.metadata.bind ModelMetadata.family

def ModelRecord.contextWindow (record : ModelRecord) : Option Nat :=
  record.metadata.bind ModelMetadata.contextWindowTokens

/-- The context window; one that is not listed counts as zero. -/
def ModelRecord.window (record : ModelRecord) : Nat := record.contextWindow.getD 0

/-- The larger sibling so far, and the next record. -/
def nextVariant (record : ModelRecord) (family : String) (variant : Option ModelRecord)
    (other : ModelRecord) : Option ModelRecord :=
  if other.id == record.id then variant
  else if other.family == some family &&
      other.contextWindow.any fun window => decide (record.window < window) then
    if (variant.bind ModelRecord.contextWindow).getD 0 < other.window then some other
    else variant
  else variant

def longContextVariant (records : List ModelRecord) (record : ModelRecord) : Option String :=
  match record.family with
  | none => none
  | some family => (records.foldl (nextVariant record family) none).map ModelRecord.id

def withVariant (records : List ModelRecord) (record : ModelRecord) : ModelRecord :=
  { record with longContextVariant := longContextVariant records record }

def sortById (records : List ModelRecord) : List ModelRecord :=
  records.insertionSort fun a b => a.id ≤ b.id

/-- The catalog of what the first pass collected. -/
def catalogOf (index : ModelIndex ModelMetadata) (c : Collected) : ModelCatalog :=
  sortById ((records index c).map (withVariant (records index c)))

/-- The catalog, the routes enumerated in the given order. -/
def listCatalog (lower : String → String) (r : ModelResolver ModelMetadata)
    (routes : List (FrontendKind × String)) : ModelCatalog :=
  catalogOf r.modelIndex (aliases lower r routes)

/-! ## The routes of the table -/

/-- The configuration routes the alias on the frontend by an exact route. -/
def ExactRoute (cfg : GatewayConfig) (frontend : FrontendKind) (modelAlias : String) : Prop :=
  Text.endsWithChar modelAlias '*' = false ∧
    ∃ e ∈ cfg.routes, parseFrontend e.frontend = some frontend ∧ e.model = modelAlias

theorem mem_listRoutes {r : StaticRouter} {frontend : FrontendKind} {modelAlias : String} :
    (frontend, modelAlias) ∈ r.listRoutes ↔
      (r.exactEntries.lookup { frontend := frontend, model := modelAlias }).isSome := by
  rw [AList.lookup_isSome, AList.mem_keys, StaticRouter.listRoutes, List.mem_map]
  constructor
  · rintro ⟨key, hkey, heq⟩
    obtain ⟨rfl, rfl⟩ := Prod.mk.inj heq
    exact hkey
  · exact fun hkey => ⟨_, hkey, rfl⟩

theorem nodup_listRoutes (r : StaticRouter) : r.listRoutes.Nodup := by
  apply r.exactEntries.keys_nodup.map
  intro a b hab
  obtain ⟨hfrontend, hmodel⟩ := Prod.mk.inj hab
  cases a
  cases b
  cases hfrontend
  cases hmodel
  rfl

section Routes

variable {cfg : GatewayConfig} {r : StaticRouter} (h : StaticRouter.fromConfig cfg = some r)
  {frontend : FrontendKind} {modelAlias : String}

include h

theorem mem_listRoutes_iff :
    (frontend, modelAlias) ∈ r.listRoutes ↔ ExactRoute cfg frontend modelAlias := by
  rw [mem_listRoutes, exactEntries_eq h, ExactRoute]
  cases hend : Text.endsWithChar modelAlias '*' with
  | true => simp
  | false =>
    rw [if_neg Bool.false_ne_true, List.getLast?_isSome]
    constructor
    · intro hroutes
      obtain ⟨e, he⟩ := List.exists_mem_of_ne_nil _ hroutes
      exact ⟨rfl, e, mem_routesFor.mp he⟩
    · rintro ⟨-, e, he⟩
      exact List.ne_nil_of_mem (mem_routesFor.mpr he)

/-- An exact route answers for its alias, with at least one target. -/
theorem resolveRoute_of_exact (hexact : ExactRoute cfg frontend modelAlias) :
    ∃ resolved, r.resolveRoute frontend modelAlias = .ok resolved ∧ resolved.chain ≠ [] := by
  obtain ⟨e, he⟩ := Option.isSome_iff_exists.mp
    (mem_listRoutes.mp ((mem_listRoutes_iff h).mpr hexact))
  obtain ⟨r₀, hI, rfl⟩ := tables_fromConfig h
  obtain ⟨-, ts, hts⟩ := targets_of_getLast? (k := frontend) (m := modelAlias) hI (by
    have hlast := hI.exactEntries frontend modelAlias
    rw [if_neg (Bool.eq_false_iff.mp hexact.1)] at hlast
    exact hlast.symm.trans he)
  have hlookup : r₀.sortBuckets.exact.lookup { frontend := frontend, model := modelAlias } =
      some ts := by
    show r₀.exact.lookup _ = _
    rw [hI.exact, show r₀.exactEntries.lookup _ = some e from he]
    exact hts
  have hresolved : ∃ resolved, r₀.sortBuckets.resolveRoute frontend modelAlias = .ok resolved ∧
      resolved.chain = ts := by
    rw [StaticRouter.resolveRoute]
    simp only [hlookup]
    exact ⟨_, rfl, rfl⟩
  obtain ⟨resolved, hok, hchain⟩ := hresolved
  refine ⟨resolved, hok, fun hnil => ?_⟩
  rw [← hchain, hnil] at hts
  exact routeTargets_ne_nil hts

end Routes

/-! ## What the first pass collects -/

section Collect

variable {lower : String → String} {r : ModelResolver ModelMetadata}

/-- The routes of an alias. -/
def routesOf (modelAlias : String) (routes : List (FrontendKind × String)) :
    List (FrontendKind × String) :=
  routes.filter fun route => route.2 == modelAlias

theorem mem_routesOf {modelAlias : String} {routes : List (FrontendKind × String)}
    {route : FrontendKind × String} :
    route ∈ routesOf modelAlias routes ↔ route ∈ routes ∧ route.2 = modelAlias := by
  rw [routesOf, List.mem_filter, beq_iff_eq]

/-- Each route of the enumeration gives a record. -/
def Listable (lower : String → String) (r : ModelResolver ModelMetadata)
    (route : FrontendKind × String) : Prop :=
  route.2 ≠ "*" ∧ ∃ fresh, newRecord lower r route.1 route.2 = some fresh

/-- The record of an alias: that of the first frontend that routes it, with all of them
in the order of the routes. -/
def aliasRecord (lower : String → String) (r : ModelResolver ModelMetadata)
    (routes : List (FrontendKind × String)) (modelAlias : String) : Option ModelRecord :=
  (routesOf modelAlias routes).head?.bind fun route =>
    (newRecord lower r route.1 modelAlias).map fun fresh =>
      { fresh with frontends := (routesOf modelAlias routes).map Prod.fst }

theorem newRecord_eq_some {frontend : FrontendKind} {modelAlias : String} {fresh : ModelRecord}
    (hfresh : newRecord lower r frontend modelAlias = some fresh) :
    ∃ resolved head, r.resolveRoute lower frontend modelAlias = .ok resolved ∧
      resolved.chain.head? = some head ∧
      fresh =
        { id := modelAlias
          frontends := []
          upstreamProvider := head.provider
          upstreamModel := head.model
          upstreamsChain := resolved.chain.map upstreamRef
          metadata := r.modelIndex.listed head.provider head.model
          longContextVariant := none } := by
  unfold newRecord at hfresh
  split at hfresh
  · cases hfresh
  · rename_i resolved hok
    obtain ⟨head, hhead, rfl⟩ := Option.map_eq_some_iff.mp hfresh
    exact ⟨resolved, head, hok, hhead, rfl⟩

theorem newRecord_frontends {frontend : FrontendKind} {modelAlias : String} {fresh : ModelRecord}
    (hfresh : newRecord lower r frontend modelAlias = some fresh) : fresh.frontends = [] := by
  obtain ⟨resolved, head, -, -, rfl⟩ := newRecord_eq_some hfresh
  rfl

theorem addRoute_of_listable {c : Collected} {route : FrontendKind × String} {fresh : ModelRecord}
    (hne : route.2 ≠ "*") (hfresh : newRecord lower r route.1 route.2 = some fresh) :
    addRoute lower r c route =
      { byAlias := c.byAlias.insert route.2
          (((c.byAlias.get? route.2).getD fresh).addFrontend route.1)
        takenIds := insert route.2 c.takenIds } := by
  have hstar : ¬ (route.2 == "*") = true := by simpa using hne
  rw [addRoute, if_neg hstar, hfresh]

theorem addFrontend_of_not_mem {record : ModelRecord} {frontend : FrontendKind}
    (hnot : frontend ∉ record.frontends) :
    record.addFrontend frontend = { record with frontends := record.frontends ++ [frontend] } :=
  if_neg (by simpa using hnot)

theorem aliases_concat (routes : List (FrontendKind × String)) (route : FrontendKind × String) :
    aliases lower r (routes ++ [route]) = addRoute lower r (aliases lower r routes) route := by
  rw [aliases, List.foldl_append]
  rfl

theorem routesOf_concat_self (routes : List (FrontendKind × String))
    (route : FrontendKind × String) :
    routesOf route.2 (routes ++ [route]) = routesOf route.2 routes ++ [route] := by
  rw [routesOf, List.filter_append, List.filter_singleton, beq_self_eq_true]
  rfl

theorem routesOf_concat_ne (routes : List (FrontendKind × String))
    {route : FrontendKind × String} {modelAlias : String} (hne : modelAlias ≠ route.2) :
    routesOf modelAlias (routes ++ [route]) = routesOf modelAlias routes := by
  have hb : (route.2 == modelAlias) = false := beq_eq_false_iff_ne.mpr (Ne.symm hne)
  rw [routesOf, List.filter_append, List.filter_singleton, hb]
  exact List.append_nil _

/-- One more route of an alias: its frontend is added to the record, or makes it. -/
theorem aliasRecord_concat {routes : List (FrontendKind × String)} {route : FrontendKind × String}
    (hnotmem : route ∉ routes) (hlistable : ∀ x ∈ routes, Listable lower r x)
    {fresh : ModelRecord} (hfresh : newRecord lower r route.1 route.2 = some fresh) :
    aliasRecord lower r (routes ++ [route]) route.2 =
      some (((aliasRecord lower r routes route.2).getD fresh).addFrontend route.1) := by
  rw [aliasRecord, aliasRecord, routesOf_concat_self]
  cases hroutes : routesOf route.2 routes with
  | nil =>
    -- the first frontend of the alias
    have hnot : route.1 ∉ fresh.frontends := by
      rw [newRecord_frontends hfresh]
      exact List.not_mem_nil
    show _ = some (fresh.addFrontend route.1)
    rw [addFrontend_of_not_mem hnot, newRecord_frontends hfresh]
    simp only [List.nil_append, List.head?_cons, Option.bind_some, hfresh]
    rfl
  | cons first rest =>
    -- another one: the record is there
    have hfirst : first ∈ routesOf route.2 routes := by
      rw [hroutes]
      exact List.mem_cons_self
    obtain ⟨hmem, hsame⟩ := mem_routesOf.mp hfirst
    obtain ⟨-, record, hrecord⟩ := hlistable first hmem
    rw [hsame] at hrecord
    have hnot : route.1 ∉ (first :: rest).map Prod.fst := by
      rw [← hroutes]
      intro hin
      obtain ⟨x, hx, hkind⟩ := List.mem_map.mp hin
      obtain ⟨hxmem, hxalias⟩ := mem_routesOf.mp hx
      exact hnotmem ((Prod.ext hkind hxalias : x = route) ▸ hxmem)
    simp only [List.head?_cons, Option.bind_some, hrecord, Option.map_some, Option.getD_some,
      List.cons_append]
    rw [addFrontend_of_not_mem hnot]
    simp only [List.map_cons, List.map_append, List.map_nil, List.cons_append]

/-- Alias by alias. -/
theorem get?_aliases {routes : List (FrontendKind × String)} (hnodup : routes.Nodup)
    (hlistable : ∀ route ∈ routes, Listable lower r route) (modelAlias : String) :
    (aliases lower r routes).byAlias.get? modelAlias = aliasRecord lower r routes modelAlias := by
  induction routes using List.reverseRecOn generalizing modelAlias with
  | nil => rfl
  | append_singleton routes route ih =>
    obtain ⟨hne, fresh, hfresh⟩ := hlistable route (by simp)
    obtain ⟨hnodup', -, hdisjoint⟩ := List.nodup_append.mp hnodup
    have hnotmem : route ∉ routes := fun hmem =>
      hdisjoint route hmem route (List.mem_singleton_self _) rfl
    have hbefore : ∀ x ∈ routes, Listable lower r x :=
      fun x hx => hlistable x (List.mem_append_left _ hx)
    rw [aliases_concat, addRoute_of_listable hne hfresh, OrdMap.get?_insert]
    by_cases halias : modelAlias = route.2
    · subst halias
      rw [if_pos rfl, ih hnodup' hbefore, aliasRecord_concat hnotmem hbefore hfresh]
    · rw [if_neg halias, ih hnodup' hbefore, aliasRecord, aliasRecord,
        routesOf_concat_ne routes halias]

theorem mem_takenIds_iff {routes : List (FrontendKind × String)}
    (hlistable : ∀ route ∈ routes, Listable lower r route) (id : String) :
    id ∈ (aliases lower r routes).takenIds ↔ ∃ route ∈ routes, route.2 = id := by
  induction routes using List.reverseRecOn with
  | nil => exact ⟨fun hmem => absurd hmem (Finset.notMem_empty id), by simp⟩
  | append_singleton routes route ih =>
    obtain ⟨hne, fresh, hfresh⟩ := hlistable route (by simp)
    rw [aliases_concat, addRoute_of_listable hne hfresh, Finset.mem_insert,
      ih fun x hx => hlistable x (List.mem_append_left _ hx)]
    constructor
    · rintro (rfl | ⟨x, hx, hid⟩)
      · exact ⟨route, by simp, rfl⟩
      · exact ⟨x, List.mem_append_left _ hx, hid⟩
    · rintro ⟨x, hx, hid⟩
      rcases List.mem_append.mp hx with hx | hx
      · exact Or.inr ⟨x, hx, hid⟩
      · obtain rfl := List.mem_singleton.mp hx
        exact Or.inl hid.symm

end Collect

/-! ## What the second pass appends -/

section Offered

variable (index : ModelIndex ModelMetadata)

/-- A record for every listed model, by provider. -/
def offered : List ModelRecord :=
  (sortedProviders index).flatMap fun provider =>
    (index.providerModels provider).map fun model => upstreamRecord provider model.1 model.2

theorem records_eq (c : Collected) :
    records index c =
      c.byAlias.values ++ keepFirst ModelRecord.id c.takenIds (offered index) := by
  have hprovider : addProvider index = fun state provider =>
      ((index.providerModels provider).map fun model =>
        upstreamRecord provider model.1 model.2).foldl (claim ModelRecord.id) state := by
    funext state provider
    rw [List.foldl_map]
    rfl
  rw [records, hprovider, ← foldl_claim, offered, List.foldl_flatMap]

theorem mem_offered {record : ModelRecord} :
    record ∈ offered index ↔ ∃ provider modelId metadata,
      index.listed provider modelId = some metadata ∧
        record = upstreamRecord provider modelId metadata := by
  rw [offered, List.mem_flatMap]
  constructor
  · rintro ⟨provider, -, hrecord⟩
    obtain ⟨⟨modelId, metadata⟩, hmodel, rfl⟩ := List.mem_map.mp hrecord
    exact ⟨provider, modelId, metadata, ModelIndex.mem_providerModels.mp hmodel, rfl⟩
  · rintro ⟨provider, modelId, metadata, hlisted, rfl⟩
    refine ⟨provider, ?_, ?_⟩
    · exact (List.mem_insertionSort _).mpr (ModelIndex.mem_providers_of_listed hlisted)
    · exact List.mem_map.mpr ⟨(modelId, metadata), ModelIndex.mem_providerModels.mpr hlisted, rfl⟩

theorem pairwise_offered :
    (offered index).Pairwise fun a b => a.upstreamProvider ≤ b.upstreamProvider := by
  rw [offered, List.pairwise_flatMap]
  refine ⟨fun provider _ => ?_, ?_⟩
  · -- the models of one provider
    exact List.pairwise_map.mpr (List.pairwise_of_forall fun _ _ => le_refl provider)
  · apply (List.pairwise_insertionSort (· ≤ ·) index.providers).imp
    intro a b hab x hx y hy
    obtain ⟨_, -, rfl⟩ := List.mem_map.mp hx
    obtain ⟨_, -, rfl⟩ := List.mem_map.mp hy
    exact hab

/-- A record says what the first provider by name lists under its id. -/
structure ListedRecord (record : ModelRecord) : Prop where
  frontends : record.frontends = []
  model : record.upstreamModel = record.id
  chain : record.upstreamsChain = [{ provider := record.upstreamProvider, model := record.id }]
  listed : ∃ metadata, index.listed record.upstreamProvider record.id = some metadata ∧
    record.metadata = some metadata
  first : ∀ provider metadata, index.listed provider record.id = some metadata →
    record.upstreamProvider ≤ provider

theorem listedRecord_of_mem {taken : Finset String} {record : ModelRecord}
    (hrecord : record ∈ keepFirst ModelRecord.id taken (offered index)) :
    ListedRecord index record := by
  obtain ⟨-, hfind⟩ := mem_keepFirst.mp hrecord
  obtain ⟨provider, modelId, metadata, hlisted, rfl⟩ :=
    (mem_offered index).mp (List.mem_of_find?_eq_some hfind)
  refine ⟨rfl, rfl, rfl, ⟨metadata, hlisted, rfl⟩, fun provider' metadata' hlisted' => ?_⟩
  -- the other provider's record was offered too
  have hoffered := (mem_offered index).mpr ⟨provider', modelId, metadata', hlisted', rfl⟩
  rcases Precedence.find?_eq_some_of_pairwise (pairwise_offered index) hfind _ hoffered
    (decide_eq_true rfl) with heq | hle
  · exact le_of_eq (congrArg ModelRecord.upstreamProvider heq).symm
  · exact hle

end Offered

end AgentShim.Catalog
