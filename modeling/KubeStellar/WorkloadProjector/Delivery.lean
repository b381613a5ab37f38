import KubeStellar.SetBinder.Calls
import KubeStellar.WorkloadProjector.IndexAgreement

/-! # From the receivers of the set binder to the mailboxes

`AssemplePlacementTranslator` lets the set binder write to the workload projector: a call on one of the two receivers is
one transaction. The projector then has, for every destination, the join of the latest "whats" and "wheres", and the
loop over the changed destinations never meets a nil map of modes.
-/

namespace KubeStellar.WorkloadProjector

open SetBinder hiding Env State

variable {Ext Obj : Type} [DecidableEq Ext] [DecidableEq Obj]

/-- The maps of the projector for a scope hold what its sections were told. -/
structure ScopeMirrors (layout : Layout (ProjectionModeKey × Ext) Obj) (maps : ScopeMaps Obj)
    (sections : ScopeSections Ext) : Prop where
  flat : layout.Flat maps sections.distributions.get
  modes : ∀ mk, maps.modesForSync.get mk.destination mk.groupResource = sections.modes.get mk

/-- The two factorings of a tuple agree, and its first part is the key of its mode. -/
structure ModeKeyed (layout : Layout (ProjectionModeKey × Ext) Obj) : Prop where
  mode : ∀ d obj source, (layout.forSync.symm (d, obj, source)).1 = ⟨obj.1, d⟩
  proj : ∀ source gr obj d, layout.forProj.symm (source, gr, obj, d) = layout.forSync.symm (d, (gr, obj), source)

/-- What is copied to the mailboxes and listed for the syncers, given the parts that are bound to a destination. -/
structure ScopeDelivers (modes : ResourceModes) (maps : ScopeMaps Obj)
    (binds : String → GroupResource → Obj → SinglePlacement → WorkloadPartDetails → Prop) : Prop where
  copies : ∀ source gr obj d, (objectDestinations maps source gr obj).has d = true ↔
    ∃ details, binds source gr obj d details
  createOnly : ∀ source gr obj d bits, (objectDestinations maps source gr obj).get d = some bits →
    (bits.createOnly = true ↔ ∃ details, binds source gr obj d details ∧ details.createOnly = true)
  returnSingletonState : ∀ source gr obj d bits, (sourcesWants maps d gr obj).get source = some bits →
    (bits.returnSingletonState = true ↔ ∃ details, binds source gr obj d details ∧ details.returnSingletonState = true)
  lists : ∀ env : Env, env.resourceModes = modes → ∀ d gr obj,
    (∃ version, entry (scopeObjects env maps d) gr obj = some ⟨version⟩) ↔
      (modes gr).toEdge = true ∧ ∃ source details, binds source gr obj d details
  versions : ∀ (env : Env) d gr obj pmv, entry (scopeObjects env maps d) gr obj = some pmv →
    ∃ source obj' details, binds source gr obj' d details ∧ details.apiVersion = pmv.apiVersion

section Scope

variable {layout : Layout (ProjectionModeKey × Ext) Obj} {maps : ScopeMaps Obj} {sections : ScopeSections Ext}
  (hMirrors : ScopeMirrors layout maps sections)

include hMirrors

theorem ScopeMirrors.writeDistribution {factor : ProjectionModeKey × Ext → Distribution Obj}
    (hFactors : layout.Factors factor) (records : Records) (w : MapWrite (ProjectionModeKey × Ext) DistributionBits) :
    ScopeMirrors layout (writeDistribution factor maps records w).1 (sections.apply (.distributions w)) := by
  constructor
  · have hFlat := hMirrors.flat.write hFactors records w
    rw [← GoMap.get_write] at hFlat
    exact hFlat
  · cases w <;> exact hMirrors.modes

theorem ScopeMirrors.writeMode (records : Records) (w : MapWrite ProjectionModeKey ProjectionModeVal) :
    ScopeMirrors layout (writeMode maps records w).1 (sections.apply (.modes w)) := by
  refine ⟨?_, fun mk => ?_⟩
  · cases w <;> exact ⟨hMirrors.flat.sync, hMirrors.flat.proj⟩
  · have hKey : ∀ mk', (mk.destination = mk'.destination ∧ mk.groupResource = mk'.groupResource) ↔ mk = mk' := by
      intro mk'
      cases mk
      cases mk'
      simp [and_comm]
    rw [ScopeSections.apply, GoMap.get_write, MapWrite.on, ← hMirrors.modes]
    cases w with
    | put mk' val => simp only [WorkloadProjector.writeMode, FactoredMap.get_put, hKey]; rfl
    | delete mk' => simp only [WorkloadProjector.writeMode, FactoredMap.get_delete, hKey]; rfl

theorem ScopeMirrors.sync_get (d : SinglePlacement) (obj : GroupResource × Obj) (source : String) :
    maps.distributionsForSync.get d (obj, source) =
      sections.distributions.get (layout.forSync.symm (d, obj, source)) := by
  rw [← hMirrors.flat.sync, Equiv.apply_symm_apply]

variable (hKeyed : ModeKeyed layout) {contributes : ProjectionModeKey × Ext → ObjectName → WorkloadPartDetails → Prop}
  (hJoined : ScopeJoined sections contributes)

include hKeyed hJoined

theorem ScopeMirrors.mode_ne_none {d : SinglePlacement} {obj : GroupResource × Obj} {source : String}
    (hDist : maps.distributionsForSync.get d (obj, source) ≠ none) : maps.modesForSync.get d obj.1 ≠ none := by
  rw [hMirrors.sync_get, ← Option.isSome_iff_ne_none] at hDist
  rw [← Option.isSome_iff_ne_none, hMirrors.modes ⟨obj.1, d⟩, ← hKeyed.mode d obj source]
  exact (hJoined.modeKeys _).mpr ⟨_, hDist⟩

theorem ScopeMirrors.ready (d : SinglePlacement) : Ready maps d := by
  intro hIndex hModes
  refine hIndex ((FactoredMap.index_eq_none_iff _ _).mpr fun key => ?_)
  by_contra hDist
  exact hMirrors.mode_ne_none hKeyed hJoined hDist ((FactoredMap.index_eq_none_iff _ _).mp hModes _)

theorem ScopeMirrors.delivers (modes : ResourceModes)
    {binds : String → GroupResource → Obj → SinglePlacement → WorkloadPartDetails → Prop}
    (hBinds : ∀ source gr obj d details, binds source gr obj d details ↔
      ∃ ep, contributes (layout.forSync.symm (d, (gr, obj), source)) ep details) : ScopeDelivers modes maps binds := by
  have hProj : ∀ source gr obj d, (objectDestinations maps source gr obj).get d = _ := fun source gr obj d =>
    (hMirrors.flat.objectDestinations_get source gr obj d).trans (by rw [hKeyed.proj])
  have hHas : ∀ source gr obj d,
      (sections.distributions.get (layout.forSync.symm (d, (gr, obj), source))).isSome = true ↔
      ∃ details, binds source gr obj d details := by
    intro source gr obj d
    refine (hJoined.keys _).trans ?_
    simp only [hBinds]
    exact exists_comm
  have hSome : ∀ {source gr obj d} {p : WorkloadPartDetails → Prop},
      (∃ ep details, contributes (layout.forSync.symm (d, (gr, obj), source)) ep details ∧ p details) ↔
        ∃ details, binds source gr obj d details ∧ p details := by
    intro source gr obj d p
    simp only [hBinds]
    exact exists_comm.trans (by simp only [exists_and_right])
  have hDist : ∀ d gr obj, Distributed maps d gr obj ↔ ∃ source details, binds source gr obj d details := by
    intro d gr obj
    simp only [Distributed, hMirrors.sync_get, ← Option.isSome_iff_ne_none, hHas]
  refine ⟨fun source gr obj d => ?_, fun source gr obj d bits hGet => ?_, fun source gr obj d bits hGet => ?_,
    fun env hModes d gr obj => ?_, fun env d gr obj pmv hEntry => ?_⟩
  · rw [GoMap.has, hProj, hHas]
  · rw [hProj] at hGet
    exact (hJoined.createOnly _ bits hGet).trans hSome
  · rw [hMirrors.flat.sourcesWants_get] at hGet
    exact (hJoined.returnSingletonState _ bits hGet).trans hSome
  · rw [exists_version_iff, hModes, hDist]
  · obtain ⟨⟨source, hObj⟩, -, hMode⟩ := (entry_scopeObjects_iff env maps d gr obj pmv).mp hEntry
    obtain ⟨val, hVal⟩ := Option.ne_none_iff_exists'.mp (hMirrors.mode_ne_none hKeyed hJoined hObj)
    rw [modeOf, hVal] at hMode
    rw [hMirrors.modes ⟨gr, d⟩] at hVal
    obtain ⟨ext, ep, details, hContributes, hVersion⟩ := hJoined.versions _ _ hVal
    obtain ⟨⟨d', ⟨gr', obj'⟩, source'⟩, hTuple⟩ := layout.forSync.symm.surjective (⟨gr, d⟩, ext)
    have hKey := hKeyed.mode d' (gr', obj') source'
    rw [hTuple] at hKey
    cases hKey
    rw [hMode]
    exact ⟨source', obj', details, (hBinds _ _ _ _ _).mpr ⟨ep, hTuple ▸ hContributes⟩, hVersion⟩

end Scope

/-- The projector has the same content as the sections that it is a receiver of. -/
structure Mirrors (tx : Transaction) (sections : Sections) : Prop where
  ns : ScopeMirrors namespacedLayout tx.ns sections.namespaced
  nns : ScopeMirrors nonNamespacedLayout tx.nns sections.nonNamespaced
  upsyncs : ∀ pair, tx.upsyncs.get pair.1 pair.2 = sections.upsyncs.get pair

theorem Mirrors.apply {tx : Transaction} {sections : Sections} (hMirrors : Mirrors tx sections) (w : SectionWrite) :
    Mirrors (tx.apply w) (sections.apply w) := by
  obtain ⟨hNs, hNns, hUpsyncs⟩ := hMirrors
  cases w with
  | namespacedObjectDistributions w => exact ⟨hNs.writeDistribution namespaced_factors tx.records w, hNns, hUpsyncs⟩
  | nonNamespacedObjectDistributions w =>
    exact ⟨hNs, hNns.writeDistribution nonNamespaced_factors tx.records w, hUpsyncs⟩
  | namespacedModes w => exact ⟨hNs.writeMode tx.records w, hNns, hUpsyncs⟩
  | nonNamespacedModes w => exact ⟨hNs, hNns.writeMode tx.records w, hUpsyncs⟩
  | upsyncs w =>
    cases w
    all_goals
      refine ⟨hNs, hNns, fun pair => ?_⟩
      simp only [Transaction.apply, Sections.apply, FactoredMap.get_put, FactoredMap.get_delete, hUpsyncs,
        GoMap.get_write, MapWrite.on, ← Prod.ext_iff]
      rfl

theorem Mirrors.foldl {tx : Transaction} {sections : Sections} (hMirrors : Mirrors tx sections)
    (writes : List SectionWrite) :
    Mirrors (writes.foldl Transaction.apply tx) (writes.foldl Sections.apply sections) := by
  induction writes generalizing tx sections with
  | nil => exact hMirrors
  | cons w writes ih => exact ih (hMirrors.apply w)

theorem namespaced_modeKeyed : ModeKeyed namespacedLayout := ⟨fun _ _ _ => rfl, fun _ _ _ _ => rfl⟩

theorem nonNamespaced_modeKeyed : ModeKeyed nonNamespacedLayout := ⟨fun _ _ _ => rfl, fun _ _ _ _ => rfl⟩

/-- The set binder and the projector that it writes to, whose workers copy source objects between the calls. -/
inductive Assembled (modes : ResourceModes) : System → State → Prop where
  | new : Assembled modes System.start newWorkloadProjector
  | call {env : Env} {sys : System} {wp wp' : State} {call : Call}
      {items : List QueueItem} : Assembled modes sys wp → KeepsScope modes sys.latest call →
      transact env wp (sys.binder.call ⟨env.ord, modes⟩ call).2 = .ok (wp', items) →
      Assembled modes (sys.step modes (env.ord, call)) wp'
  | sourceObject {J C L : Type} [DecidableEq J] {sys : System} {wp : State}
      (env : Env) (caches : Caches J) (cz : Customization J C L)
      (answers : SinglePlacement → DestinationAnswers J C L) (soRef : SourceObjectRef) :
      Assembled modes sys wp → Assembled modes sys (syncSourceObject env wp caches cz answers soRef).1

/-- The projector has the join of the latest "whats" and "wheres". -/
structure Delivers (modes : ResourceModes) (latest : Latest) (wp : State) : Prop where
  namespaced : ScopeDelivers modes wp.ns fun source gr nn d details => nn.1 ≠ "" ∧
    ∃ ep, Binds modes latest ⟨source, ep⟩ (gr, nn.1, nn.2) d details
  nonNamespaced : ScopeDelivers modes wp.nns fun source gr name d details =>
    ∃ ep, Binds modes latest ⟨source, ep⟩ (gr, "", name) d details
  upsyncs : ∀ env d upsyncSet, (syncerConfigRelations env wp d).upsyncs.has upsyncSet = true ↔
    ∃ ep, upsyncSet ∈ (latest.what ep).upsync ∧ d ∈ latest.destinations ep

variable {modes : ResourceModes} {sys : System} {wp : State}

theorem Mirrors.delivers {latest : Latest} {sections : Sections} (hMirrors : Mirrors wp.begin sections)
    (hJoined : Joined modes latest sections) : Delivers modes latest wp where
  namespaced := hMirrors.ns.delivers namespaced_modeKeyed hJoined.namespaced modes fun _ _ _ _ _ => exists_and_left.symm
  nonNamespaced := hMirrors.nns.delivers nonNamespaced_modeKeyed hJoined.nonNamespaced modes fun _ _ _ _ _ => Iff.rfl
  upsyncs env d upsyncSet := by
    rw [← hJoined.upsyncs, GoMap.has, GoMap.has, ← hMirrors.upsyncs (d, upsyncSet), FactoredMap.get]
    cases hIndex : wp.upsyncs.index d <;> simp [State.begin, syncerConfigRelations, hIndex]

theorem Assembled.invariant (hAssembled : Assembled modes sys wp) :
    Consistent modes sys ∧ Mirrors wp.begin sys.sections ∧ Reachable wp := by
  induction hAssembled with
  | new =>
    have hNew : ∀ {Ext Obj : Type} [DecidableEq Ext] [DecidableEq Obj] (layout : Layout (ProjectionModeKey × Ext) Obj),
        ScopeMirrors layout ⟨∅, ∅, ∅, ∅⟩ ⟨∅, ∅⟩ := fun _ => ⟨⟨fun _ => rfl, fun _ => rfl⟩, fun _ => rfl⟩
    exact ⟨start_consistent modes, ⟨hNew _, hNew _, fun _ => rfl⟩, .new⟩
  | @call env sys wp wp' call items _ hKeeps hOk ih =>
    obtain ⟨hCons, hMirrors, hReach⟩ := ih
    have hTrans := transacted_of_transact env _ hReach.wellNamed.recorded hOk
    have hAfter := hMirrors.foldl (sys.binder.call ⟨env.ord, modes⟩ call).2
    refine ⟨step_consistent sys (env.ord, call) hCons hKeeps, ⟨?_, ?_, ?_⟩, hReach.transact hOk⟩
    · exact (congrArg (ScopeMirrors _ · _) hTrans.ns).mpr hAfter.ns
    · exact (congrArg (ScopeMirrors _ · _) hTrans.nns).mpr hAfter.nns
    · intro pair
      rw [State.begin, hTrans.upsyncs]
      exact hAfter.upsyncs pair
  | @sourceObject J C L _ sys wp env caches cz answers soRef _ ih =>
    obtain ⟨hCons, hMirrors, hReach⟩ := ih
    refine ⟨hCons, ?_, hReach.sourceObject env caches cz answers soRef⟩
    obtain ⟨perDestination, hState, -⟩ := syncSourceObject_state env wp soRef caches cz answers
    rw [hState]
    exact ⟨hMirrors.ns, hMirrors.nns, hMirrors.upsyncs⟩

theorem Assembled.delivers (hAssembled : Assembled modes sys wp) : Delivers modes sys.latest wp := by
  obtain ⟨hCons, hMirrors, -⟩ := hAssembled.invariant
  exact hMirrors.delivers (joined_of_organized hCons.organized hCons.remembers)

def edgeModes : ResourceModes := fun _ => .goesToEdge

def placedSystem : System := System.start.step edgeModes (edgeEnv.ord, .putWhere widgetsPlacement [[edge1]])

/-- A widget is placed on one destination. -/
def widgetSystem : System :=
  placedSystem.step edgeModes (edgeEnv.ord, .putWhat widgetsPlacement (oneWidget "ns1"))

theorem assembled_widgetSystem : ∃ wp, Assembled edgeModes widgetSystem wp ∧
    wp.mbwsNameToSP.get (SPMailboxWorkspaceName edge1) = some edge1 := by
  have hPlaced : Assembled edgeModes placedSystem newWorkloadProjector :=
    Assembled.new.call trivial rfl
  obtain ⟨⟨wp, items⟩, hOk⟩ : ∃ result, transact edgeEnv newWorkloadProjector
    (placedSystem.binder.call ⟨edgeEnv.ord, edgeModes⟩ (.putWhat widgetsPlacement (oneWidget "ns1"))).2 =
      .ok result := ⟨_, rfl⟩
  refine ⟨wp, hPlaced.call (fun gr ns name _ _ hHas => by cases hHas) hOk, ?_⟩
  rw [(transacted_of_transact edgeEnv _ newWorkloadProjector_recorded hOk).names]
  rfl

/-- Whatever calls came before, and however the workers ran between them, the projector has the join of what the
receivers were told last, and the transaction of the next call goes through. -/
theorem assembled_delivers (hAssembled : Assembled modes sys wp) :
    Delivers modes sys.latest wp ∧ ∀ env call, KeepsScope modes sys.latest call →
      ∃ wp' items, transact env wp (sys.binder.call ⟨env.ord, modes⟩ call).2 = .ok (wp', items) := by
  obtain ⟨hCons, hMirrors, hReach⟩ := hAssembled.invariant
  refine ⟨hAssembled.delivers, fun env call hKeeps => ?_⟩
  have hNext := step_consistent sys (env.ord, call) hCons hKeeps
  have hAfter := hMirrors.foldl (sys.binder.call ⟨env.ord, modes⟩ call).2
  have hJoined := joined_of_organized hNext.organized hNext.remembers
  obtain ⟨wp', items, hOk, -⟩ := transact_of_ready env _ hReach.wellNamed.recorded fun d _ =>
    ⟨hAfter.ns.ready namespaced_modeKeyed hJoined.namespaced d,
      hAfter.nns.ready nonNamespaced_modeKeyed hJoined.nonNamespaced d⟩
  exact ⟨wp', items, hOk⟩

theorem assembled_delivers_widget :
    Binds edgeModes widgetSystem.latest widgetsPlacement (widgets, "ns1", "w") edge1 widgetDetails ∧
    ∃ wp, Assembled edgeModes widgetSystem wp ∧ Delivers edgeModes widgetSystem.latest wp := by
  obtain ⟨wp, hAssembled, -⟩ := assembled_widgetSystem
  exact ⟨⟨by decide, by decide, rfl⟩, wp, hAssembled, (assembled_delivers hAssembled).1⟩

/-- The spec has what is bound to the destination and goes to the edge. -/
structure Conveys (modes : ResourceModes) (latest : Latest) (d : SinglePlacement) (spec : SyncerConfigSpec) : Prop where
  namespaced : ∀ gr nn, (∃ version, spec.ListsNamespaced gr version nn) ↔ (modes gr).toEdge = true ∧
    ∃ source details, nn.1 ≠ "" ∧ ∃ ep, Binds modes latest ⟨source, ep⟩ (gr, nn.1, nn.2) d details
  clusterScope : ∀ gr name, (∃ version, spec.ListsClusterScoped gr version name) ↔ (modes gr).toEdge = true ∧
    ∃ source details ep, Binds modes latest ⟨source, ep⟩ (gr, "", name) d details
  upsync : ∀ upsyncSet, upsyncSet ∈ spec.upsync ↔ ∃ ep, upsyncSet ∈ (latest.what ep).upsync ∧ d ∈ latest.destinations ep

/-- What is written to a mailbox, over whatever was there, has what the receivers were told last for a destination of
that mailbox. -/
theorem assembled_conveys (hAssembled : Assembled modes sys wp) {env : Env} (hModes : env.resourceModes = modes)
    (existing : Option SyncerConfigSpec) (scRef : ExternalName) (spec : SyncerConfigSpec)
    (hWritten : ∃ attempt ∈ (syncConfigObject env (.succeeding existing) wp scRef).1,
      attempt.call.written = some spec) :
    ∃ d, SPMailboxWorkspaceName d = scRef.cluster ∧ Conveys modes sys.latest d spec := by
  obtain ⟨-, d, hName, -, rfl⟩ := (written_succeeding_iff env existing wp scRef spec).mp hWritten
  have hDelivers := hAssembled.delivers
  refine ⟨d, hAssembled.invariant.2.2.wellNamed.named _ d hName, fun gr nn => ?_, fun gr name => ?_,
    fun upsyncSet => ?_⟩
  · simp only [listsNamespaced_fromRelations_iff]
    exact hDelivers.namespaced.lists env hModes d gr nn
  · simp only [listsClusterScoped_fromRelations_iff]
    exact hDelivers.nonNamespaced.lists env hModes d gr name
  · rw [← hDelivers.upsyncs env]
    exact mem_visitableToSlice_iff env.ord _ upsyncSet

theorem assembled_conveys_widget : ∃ wp spec, Assembled edgeModes widgetSystem wp ∧
    (∃ attempt ∈ (syncConfigObject edgeEnv (.succeeding none) wp ⟨SPMailboxWorkspaceName edge1, SyncerConfigName⟩).1,
      attempt.call.written = some spec) ∧
    ∃ d, SPMailboxWorkspaceName d = SPMailboxWorkspaceName edge1 ∧ Conveys edgeModes widgetSystem.latest d spec := by
  obtain ⟨wp, hAssembled, hName⟩ := assembled_widgetSystem
  have hWritten := (written_succeeding_iff edgeEnv none wp ⟨_, SyncerConfigName⟩ _).mpr
    ⟨SPMailboxWorkspaceName_ne_empty edge1, edge1, hName, fun _ hOld => absurd hOld (Option.some_ne_none _).symm, rfl⟩
  exact ⟨wp, _, hAssembled, hWritten, assembled_conveys hAssembled rfl none _ _ hWritten⟩

end KubeStellar.WorkloadProjector
