import KubeStellar.SetBinder.Joined

/-! # Runs of the set binder

Every interleaving of calls on the two receivers, with the maps that the sections make beside it, and what the deletion
of a tuple leaves alone.
-/

namespace KubeStellar.SetBinder

/-- The binder, what its writes have made of the sections, and what it was told last. -/
structure System where
  binder : State
  sections : Sections
  latest : Latest

namespace System

def start : System := ⟨newSetBinder, ⟨⟨∅, ∅⟩, ⟨∅, ∅⟩, ∅⟩, ⟨∅, ∅⟩⟩

/-- A call, with the order in which maps are visited during it. -/
def step (modes : ResourceModes) (sys : System) (event : RangeOrder × Call) : System :=
  let told := sys.binder.call ⟨event.1, modes⟩ event.2
  ⟨told.1, told.2.foldl Sections.apply sys.sections, sys.latest.after event.2⟩

end System

/-- A "what" that is put has no cluster-scoped part whose namespaced twin goes. -/
def KeepsScope (modes : ResourceModes) (latest : Latest) : Call → Prop
  | .putWhat ep what => KeepsTwins modes latest ep what
  | .deleteWhat _ | .putWhere _ _ | .deleteWhere _ => True

structure Consistent (modes : ResourceModes) (sys : System) : Prop where
  organized : Organized modes sys.binder sys.sections
  remembers : Remembers sys.latest sys.binder

variable (modes : ResourceModes)

theorem start_consistent : Consistent modes System.start where
  organized := by
    refine ⟨⟨?_, ?_⟩, ⟨fun _ _ => rfl, fun _ _ => rfl⟩, fun _ => rfl, ⟨?_, ?_, rfl⟩⟩
    · funext key
      exact (ite_self none).symm
    · funext key
      exact (ite_self none).symm
    · exact ⟨fun _ => .none, fun _ => .none, fun _ => .none⟩
    · exact ⟨fun _ => .none, fun _ => .none, fun _ => .none⟩
  remembers := ⟨fun _ => rfl, fun _ _ => Iff.rfl, fun _ _ => rfl, fun _ _ => rfl, fun _ _ => rfl, fun _ _ => rfl,
    fun _ _ => rfl⟩

theorem getD_get_put {K V : Type} [DecidableEq K] (m : GoMap K V) (k k' : K) (v zero : V) :
    ((m.put k v).get k').getD zero = if k' = k then v else (m.get k').getD zero := by
  rw [GoMap.get_put]
  split <;> rfl

theorem getD_get_delete {K V : Type} [DecidableEq K] (m : GoMap K V) (k k' : K) (zero : V) :
    ((m.delete k).get k').getD zero = if k' = k then zero else (m.get k').getD zero := by
  rw [GoMap.get_delete]
  split <;> rfl

theorem keepsTwins_nil (latest : Latest) (ep : ExternalName) : KeepsTwins modes latest ep ⟨∅, []⟩ := by
  intro gr ns name _ _ _ _ hHas
  cases hHas

theorem flatten_getD {E : Type} (p : Prop) [Decidable p] (l m : List (List E)) :
    (if p then l else m).flatten = if p then l.flatten else m.flatten := by
  split <;> rfl

variable {env : Env} {sys : System} {sb : State}

theorem Consistent.receiveWhat (hCons : Consistent env.resourceModes sys) {ep : ExternalName}
    {what : ResolvedWhat} {latest : Latest} (hKeeps : KeepsTwins env.resourceModes sys.latest ep what)
    (hWhat : ∀ ep', latest.what ep' = if ep' = ep then what else sys.latest.what ep')
    (hDests : latest.destinations = sys.latest.destinations) :
    Consistent env.resourceModes ⟨(sys.binder.receiveWhat env ep what).1,
      (sys.binder.receiveWhat env ep what).2.foldl Sections.apply sys.sections, latest⟩ :=
  ⟨hCons.organized.receiveWhat hCons.remembers hKeeps, hCons.remembers.receiveWhat hWhat hDests⟩

theorem Consistent.receiveWhere (hCons : Consistent env.resourceModes sys) {ep : ExternalName}
    {resolvedWhere : ResolvedWhere} {latest : Latest} (hWhat : latest.what = sys.latest.what)
    (hDests : ∀ ep', latest.destinations ep' =
      if ep' = ep then resolvedWhere.flatten else sys.latest.destinations ep') :
    Consistent env.resourceModes ⟨(sys.binder.receiveWhere env ep resolvedWhere).1,
      (sys.binder.receiveWhere env ep resolvedWhere).2.foldl Sections.apply sys.sections, latest⟩ :=
  ⟨hCons.organized.receiveWhere ep resolvedWhere, hCons.remembers.receiveWhere hWhat hDests⟩

theorem ensurePlacement_unknown {ep : ExternalName} (hUnknown : ¬ sb.perCluster.has ep.cluster = true) :
    sb.ensurePlacement ep = ⟨∅, [], ∅⟩ := by
  rw [State.ensurePlacement, Option.not_isSome_iff_eq_none.mp hUnknown]
  rfl

variable {latest : Latest}

theorem what_unknown (hRem : Remembers latest sb) {ep : ExternalName}
    (hUnknown : ¬ sb.perCluster.has ep.cluster = true) :
    (∀ part, (latest.what ep).downsync.get part = none) ∧ (∀ upsyncSet, upsyncSet ∉ (latest.what ep).upsync) := by
  have hFresh := ensurePlacement_unknown hUnknown
  constructor
  · intro part
    rw [← hRem.downsyncParts ep, hFresh]
    rfl
  · intro upsyncSet hMem
    rw [← hRem.upsyncs ep, hFresh] at hMem
    cases hMem

theorem destinations_unknown (hRem : Remembers latest sb) {ep : ExternalName}
    (hUnknown : ¬ sb.perCluster.has ep.cluster = true) : latest.destinations ep = [] := by
  rw [List.eq_nil_iff_forall_not_mem]
  intro z hMem
  have hGet := hRem.resolvedWhere ep z
  rw [ensurePlacement_unknown hUnknown, if_pos hMem] at hGet
  cases hGet

theorem Remembers.deleteWhat_unknown (hRem : Remembers latest sb)
    {ep : ExternalName} (hUnknown : ¬ sb.perCluster.has ep.cluster = true) :
    Remembers (latest.after (.deleteWhat ep)) sb := by
  obtain ⟨hParts, hTerms⟩ := what_unknown hRem hUnknown
  have hWhat : ∀ ep', (latest.after (.deleteWhat ep)).what ep' = if ep' = ep then ⟨∅, []⟩ else latest.what ep' :=
    fun ep' => getD_get_delete latest.whats ep ep' _
  have hDownsync : ∀ ep' part, ((latest.after (.deleteWhat ep)).what ep').downsync.get part =
      (latest.what ep').downsync.get part := by
    intro ep' part
    rw [hWhat]
    split
    · rename_i hEq
      rw [hEq, hParts]
      rfl
    · rfl
  have hUpsync : ∀ ep' upsyncSet, upsyncSet ∈ ((latest.after (.deleteWhat ep)).what ep').upsync ↔
      upsyncSet ∈ (latest.what ep').upsync := by
    intro ep' upsyncSet
    rw [hWhat]
    split
    · rename_i hEq
      rw [hEq]
      exact iff_of_false List.not_mem_nil (hTerms upsyncSet)
    · rfl
  refine ⟨?_, ?_, hRem.resolvedWhere, ?_, hRem.destinations, ?_, hRem.upsyncDestinations⟩
  · intro ep'
    rw [hRem.downsyncParts ep']
    exact (funext (hDownsync ep')).symm
  · intro ep' upsyncSet
    rw [hRem.upsyncs, hUpsync]
  · intro ep' part
    rw [hRem.parts, hDownsync]
  · intro ep' upsyncSet
    rw [hRem.terms]
    exact if_congr (hUpsync ep' upsyncSet).symm rfl rfl

theorem Remembers.deleteWhere_unknown (hRem : Remembers latest sb)
    {ep : ExternalName} (hUnknown : ¬ sb.perCluster.has ep.cluster = true) :
    Remembers (latest.after (.deleteWhere ep)) sb := by
  have hSame : (latest.after (.deleteWhere ep)).destinations = latest.destinations := by
    funext ep'
    refine (congrArg List.flatten (getD_get_delete latest.wheres ep ep' [])).trans ?_
    split
    · rename_i hEq
      rw [hEq, destinations_unknown hRem hUnknown]
      rfl
    · rfl
  refine ⟨hRem.downsyncParts, hRem.upsyncs, ?_, hRem.parts, ?_, hRem.terms, ?_⟩
  · rw [hSame]
    exact hRem.resolvedWhere
  · rw [hSame]
    exact hRem.destinations
  · rw [hSame]
    exact hRem.upsyncDestinations

theorem step_consistent {modes : ResourceModes} (sys : System) (event : RangeOrder × Call)
    (hCons : Consistent modes sys) (hKeeps : KeepsScope modes sys.latest event.2) :
    Consistent modes (sys.step modes event) := by
  obtain ⟨ord, call⟩ := event
  cases call with
  | putWhat ep what =>
    exact @Consistent.receiveWhat ⟨ord, modes⟩ sys hCons ep what _ hKeeps
      (fun ep' => getD_get_put sys.latest.whats ep ep' what _) rfl
  | putWhere ep resolvedWhere =>
    refine @Consistent.receiveWhere ⟨ord, modes⟩ sys hCons ep resolvedWhere _ rfl fun ep' => ?_
    exact (congrArg List.flatten (getD_get_put sys.latest.wheres ep ep' resolvedWhere [])).trans (flatten_getD _ _ _)
  | deleteWhat ep =>
    rw [System.step, State.call]
    by_cases hKnown : sys.binder.perCluster.has ep.cluster = true
    · rw [if_pos hKnown]
      exact @Consistent.receiveWhat ⟨ord, modes⟩ sys hCons ep ⟨∅, []⟩ _ (keepsTwins_nil modes sys.latest ep)
        (fun ep' => getD_get_delete sys.latest.whats ep ep' _) rfl
    · rw [if_neg hKnown]
      exact ⟨hCons.organized, hCons.remembers.deleteWhat_unknown hKnown⟩
  | deleteWhere ep =>
    rw [System.step, State.call]
    by_cases hKnown : sys.binder.perCluster.has ep.cluster = true
    · rw [if_pos hKnown]
      refine @Consistent.receiveWhere ⟨ord, modes⟩ sys hCons ep [] _ rfl fun ep' => ?_
      exact (congrArg List.flatten (getD_get_delete sys.latest.wheres ep ep' [])).trans (flatten_getD _ _ _)
    · rw [if_neg hKnown]
      exact ⟨hCons.organized, hCons.remembers.deleteWhere_unknown hKnown⟩

/-- After every call the sections are the join of what the receivers were told last. -/
theorem calls_joined (modes : ResourceModes) (events : List (RangeOrder × Call))
    (hKeeps : Run.Guarded (System.step modes) (fun sys event => KeepsScope modes sys.latest event.2)
      System.start events) :
    Joined modes (Run.run (System.step modes) System.start events).latest
      (Run.run (System.step modes) System.start events).sections := by
  have hConsistent := Run.invariant step_consistent (start_consistent modes) hKeeps
  exact joined_of_organized hConsistent.organized hConsistent.remembers

def widgets : GroupResource := ⟨"example.io", "widgets"⟩

def widgetsPlacement : ExternalName := ⟨"wds1", "widgets-everywhere"⟩

def edge1 : SinglePlacement := ⟨"inventory1", "location1", "target1", "uid1"⟩

def widgetDetails : WorkloadPartDetails := ⟨"v1", false, false⟩

def oneWidget (ns : NamespaceName) : ResolvedWhat := ⟨GoMap.ofList [((widgets, ns, "w"), widgetDetails)], []⟩

/-- A widget in a namespace, and then another "what". -/
def widgetEvents (next : ResolvedWhat) : List (RangeOrder × Call) :=
  [(.insertion, .putWhere widgetsPlacement [[edge1]]), (.insertion, .putWhat widgetsPlacement (oneWidget "ns1")),
    (.reversed, .putWhat widgetsPlacement next)]

theorem calls_joined_moved_widget :
    Run.Guarded (System.step fun _ => .goesToEdge)
      (fun sys event => KeepsScope (fun _ => .goesToEdge) sys.latest event.2)
      System.start (widgetEvents (oneWidget "ns2")) ∧
    Joined (fun _ => .goesToEdge)
      (Run.run (System.step fun _ => .goesToEdge) System.start (widgetEvents (oneWidget "ns2"))).latest
      (Run.run (System.step fun _ => .goesToEdge) System.start (widgetEvents (oneWidget "ns2"))).sections := by
  have hGuarded : Run.Guarded (System.step fun _ => .goesToEdge)
      (fun sys event => KeepsScope (fun _ => .goesToEdge) sys.latest event.2) System.start
      (widgetEvents (oneWidget "ns2")) := by
    refine ⟨trivial, ?_, ?_, trivial⟩
    · intro gr ns name _ _ hHas
      cases hHas
    · intro gr ns name _ _ _ _ hTwin
      have hKey : (gr, "", name) = (widgets, "ns2", "w") := by
        by_contra hNe
        rw [show (oneWidget "ns2").downsync.has (gr, "", name) = false from
          by simp [oneWidget, GoMap.has, GoMap.get_ofList_singleton, hNe]] at hTwin
        cases hTwin
      simp at hKey
  exact ⟨hGuarded, calls_joined _ _ hGuarded⟩

/-- The deletion of the namespaced widget takes the cluster-scoped one of the same name with it. -/
theorem calls_not_joined_rescoped_widget : ¬ Joined (fun _ => .goesToEdge)
      (Run.run (System.step fun _ => .goesToEdge) System.start (widgetEvents (oneWidget ""))).latest
      (Run.run (System.step fun _ => .goesToEdge) System.start (widgetEvents (oneWidget ""))).sections := by
  intro hJoined
  have hHas := (hJoined.nonNamespaced.keys (⟨widgets, edge1⟩, ⟨"wds1", "w"⟩)).mpr
    ⟨"widgets-everywhere", widgetDetails, by decide, by decide, rfl⟩
  revert hHas
  decide

open List

def toNamespaced : SectionWrite → Bool
  | .namespacedObjectDistributions _ | .namespacedModes _ => true
  | .nonNamespacedObjectDistributions _ | .nonNamespacedModes _ | .upsyncs _ => false

def toNonNamespaced : SectionWrite → Bool
  | .nonNamespacedObjectDistributions _ | .nonNamespacedModes _ => true
  | .namespacedObjectDistributions _ | .namespacedModes _ | .upsyncs _ => false

/-- The sections of the other scope are told nothing. -/
structure KeepsToScope (tup : NamespacedWhatWhereFullKey) (writes : List SectionWrite) : Prop where
  namespaced : tup.2.1.2.1 ≠ "" → ∀ write ∈ writes, toNonNamespaced write = false
  nonNamespaced : tup.2.1.2.1 = "" → ∀ write ∈ writes, toNamespaced write = false

/-- The organizer looks for the cluster-scoped twin and holds it for the `EdgePlacement` of the tuple. -/
structure TwinHeld (env : Env) (sbo : Organizer) (tup : NamespacedWhatWhereFullKey) : Prop where
  toMailbox : (env.resourceModes tup.2.1.1).toMailbox = true
  source : sbo.perSourceCluster.has tup.1.cluster = true
  held : sbo.cluster.whatWhereFull.content (factorClusterWhatWhereFullKey (clusterKey tup)) ≠ none

variable {Obj : Type} [DecidableEq Obj] (ord : RangeOrder)

theorem ScopeIndex.delete_told_iff (index : ScopeIndex Obj) (key : (ProjectionModeKey × Obj) × ObjectName) :
    (index.write ord (.delete key)).2 = [] ↔ index.whatWhereFull.content key = none := by
  rw [← factoredMapMap_delete_iff, ScopeIndex.write]
  cases (factoredMapMap index.whatWhereFull (.delete key)).2 with
  | nil => simp [emitAll]
  | cons write writes => simp [emitAll, changeReceiver]

variable {sbo : Organizer} {tup : NamespacedWhatWhereFullKey} {write : SectionWrite}

theorem toNonNamespaced_of_namespaced {writes : List (ScopeWrite ExternalNamespacedName)}
    (hMem : write ∈ writes.map toNamespacedSections) : toNonNamespaced write = false := by
  obtain ⟨w, -, rfl⟩ := mem_map.mp hMem
  cases w <;> rfl

theorem toNamespaced_of_nonNamespaced {writes : List (ScopeWrite ExternalName)}
    (hMem : write ∈ writes.map toNonNamespacedSections) :
    toNonNamespaced write = true ∧ toNamespaced write = false := by
  obtain ⟨w, -, rfl⟩ := mem_map.mp hMem
  cases w <;> exact ⟨rfl, rfl⟩

theorem delete_of_ignored (hIgnored : ¬ ((env.resourceModes tup.2.1.1).toMailbox = true ∧
    sbo.perSourceCluster.has tup.1.cluster = true)) : sbo.delete env tup = (sbo, []) := by
  rw [Organizer.delete]
  split
  · rfl
  · split
    · rfl
    · simp_all

theorem mem_delete_iff (hMailbox : (env.resourceModes tup.2.1.1).toMailbox = true)
    (hSource : sbo.perSourceCluster.has tup.1.cluster = true) :
    write ∈ (sbo.delete env tup).2 ↔
      (tup.2.1.2.1 ≠ "" ∧ write ∈ (sbo.namespaced.write env.ord (.delete (factorNamespacedWhatWhereFullKey tup))).2.map
        toNamespacedSections) ∨
      write ∈ (sbo.cluster.write env.ord (.delete (factorClusterWhatWhereFullKey (clusterKey tup)))).2.map
        toNonNamespacedSections := by
  rw [Organizer.delete, if_neg (by simp [hMailbox]), if_neg (by simp [hSource])]
  split
  · next hNs => simp [Organizer.writeNamespaced, Organizer.writeCluster, hNs]
  · next hNs => simp [Organizer.writeCluster, hNs]

/-- A deletion tells only the sections of its own scope, if and only if a tuple with a namespace has no cluster-scoped
twin. -/
theorem delete_keepsToScope_iff (env : Env) (sbo : Organizer) (tup : NamespacedWhatWhereFullKey) :
    KeepsToScope tup (sbo.delete env tup).2 ↔ (tup.2.1.2.1 ≠ "" → ¬ TwinHeld env sbo tup) := by
  constructor
  · rintro hKeeps hNs ⟨hMailbox, hSource, hHeld⟩
    -- A deletion that finds the twin tells something, and all it tells goes to the other scope.
    refine hHeld ((ScopeIndex.delete_told_iff env.ord _ _).mp (eq_nil_iff_forall_not_mem.mpr fun w hMem => ?_))
    have hTold := mem_map_of_mem (f := toNonNamespacedSections) hMem
    have hNone := hKeeps.namespaced hNs _ ((mem_delete_iff hMailbox hSource).mpr (.inr hTold))
    rw [(toNamespaced_of_nonNamespaced hTold).1] at hNone
    cases hNone
  · intro hFree
    by_cases hTaken : (env.resourceModes tup.2.1.1).toMailbox = true ∧ sbo.perSourceCluster.has tup.1.cluster = true
    · refine ⟨fun hNs write hMem => ?_, fun hNs write hMem => ?_⟩
      · obtain ⟨-, hMem⟩ | hMem := (mem_delete_iff hTaken.1 hTaken.2).mp hMem
        · exact toNonNamespaced_of_namespaced hMem
        · have hNone : sbo.cluster.whatWhereFull.content (factorClusterWhatWhereFullKey (clusterKey tup)) = none :=
            not_not.mp fun hHeld => hFree hNs ⟨hTaken.1, hTaken.2, hHeld⟩
          rw [(ScopeIndex.delete_told_iff env.ord _ _).mpr hNone] at hMem
          cases hMem
      · obtain ⟨hOther, -⟩ | hMem := (mem_delete_iff hTaken.1 hTaken.2).mp hMem
        · exact absurd hNs hOther
        · exact (toNamespaced_of_nonNamespaced hMem).2
    · rw [delete_of_ignored hTaken]
      exact ⟨fun _ _ hMem => absurd hMem not_mem_nil, fun _ _ hMem => absurd hMem not_mem_nil⟩

def widgetTuple (ns : NamespaceName) : NamespacedWhatWhereFullKey := (widgetsPlacement, (widgets, ns, "w"), edge1)

def widgetEnv : Env := ⟨.insertion, fun _ => .goesToEdge⟩

def toldTwins : Organizer × List SectionWrite :=
  emitAll (Organizer.write widgetEnv) newSetBinder.organizer
    [.put (widgetTuple "") widgetDetails, .put (widgetTuple "ns1") widgetDetails]

def twinSections : Sections := toldTwins.2.foldl Sections.apply System.start.sections

/-- The deletion of the widget in the namespace is told as that of the cluster-scoped one too. -/
theorem delete_tells_twin : ¬ KeepsToScope (widgetTuple "ns1") (toldTwins.1.delete widgetEnv (widgetTuple "ns1")).2 ∧
      twinSections.nonNamespaced.distributions.has (⟨widgets, edge1⟩, ⟨"wds1", "w"⟩) = true ∧
      ((toldTwins.1.delete widgetEnv (widgetTuple "ns1")).2.foldl Sections.apply
        twinSections).nonNamespaced.distributions.has (⟨widgets, edge1⟩, ⟨"wds1", "w"⟩) = false := by
  refine ⟨fun hKeeps => ?_, by decide, by decide⟩
  have hTold : (toldTwins.1.delete widgetEnv (widgetTuple "ns1")).2.any toNonNamespaced = true := by decide
  obtain ⟨write, hMem, hTrue⟩ := any_eq_true.mp hTold
  rw [hKeeps.namespaced (by decide) write hMem] at hTrue
  cases hTrue

end KubeStellar.SetBinder
