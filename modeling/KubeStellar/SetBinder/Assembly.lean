import KubeStellar.Api
import KubeStellar.Containers.Differencers
import KubeStellar.Containers.DynamicJoin

/-! # The set binder

`SimpleBindingOrganizer` of `pkg/placement/binding-organizer.go` is told which workload part of which `EdgePlacement`
goes to which destination and tells the sections of the projection. `NewSetBinder` of `set-binder-assembly.go` makes,
for each `EdgePlacement`, differencers of its "what" and "where", which feed two joins, and the joins feed the
organizer.
-/

namespace KubeStellar.SetBinder

inductive ScopeWrite (Obj : Type) where
  | distributions (write : MapWrite (ProjectionModeKey × Obj) DistributionBits)
  | modes (write : MapWrite ProjectionModeKey ProjectionModeVal)

structure ScopeIndex (Obj : Type) where
  whatWhereFull : FactoredMap (ProjectionModeKey × Obj) ObjectName WorkloadPartDetails
  aggregate : FactoredMap ProjectionModeKey Obj ProjectionModeVal

def detailsSansEP (ord : RangeOrder) (versions : GoMap ObjectName WorkloadPartDetails) : WorkloadPartDetails :=
  (ord.visit versions).foldl (fun ans pair =>
    ⟨pair.2.apiVersion, ans.returnSingletonState || pair.2.returnSingletonState,
      ans.createOnly || pair.2.createOnly⟩) ⟨"", false, false⟩

variable {Obj : Type} [DecidableEq Obj] (ord : RangeOrder)

/-- `namespacedChangeReceiver` and `clusterChangeReceiver`. -/
def changeReceiver (aggregate : FactoredMap ProjectionModeKey Obj ProjectionModeVal)
    (write : MapWrite (ProjectionModeKey × Obj) (GoMap ObjectName WorkloadPartDetails)) :
    FactoredMap ProjectionModeKey Obj ProjectionModeVal × List (ScopeWrite Obj) :=
  let version := write.mapVal fun _ versions => detailsSansEP ord versions
  let told := factoredMapMapAggregator (fun _ problem => pickThe1 ord problem) aggregate
    (version.mapVal fun _ details => ⟨details.apiVersion⟩)
  (told.1, .distributions (version.mapVal fun _ details => details.distributionBits) :: told.2.map .modes)

def ScopeIndex.write (index : ScopeIndex Obj)
    (w : MapWrite ((ProjectionModeKey × Obj) × ObjectName) WorkloadPartDetails) :
    ScopeIndex Obj × List (ScopeWrite Obj) :=
  let told := factoredMapMap index.whatWhereFull w
  let received := emitAll (changeReceiver ord) index.aggregate told.2
  (⟨told.1, received.1⟩, received.2)

structure Organizer where
  perSourceCluster : MapSet String
  namespaced : ScopeIndex ExternalNamespacedName
  cluster : ScopeIndex ExternalName
  upsyncsFull : FactoredMap (SinglePlacement × UpsyncSet) ExternalName Unit

/-- The `EdgePlacement`, the part and the destination. -/
abbrev NamespacedWhatWhereFullKey := ExternalName × WorkloadPartID × SinglePlacement

abbrev ClusterWhatWhereFullKey := ExternalName × (GroupResource × ObjectName) × SinglePlacement

def factorNamespacedWhatWhereFullKey (nfk : NamespacedWhatWhereFullKey) :
    NamespacedDistributionTuple × ObjectName :=
  ((⟨nfk.2.1.1, nfk.2.2⟩, (nfk.1.cluster, nfk.2.1.2.1, nfk.2.1.2.2)), nfk.1.name)

def factorClusterWhatWhereFullKey (cfk : ClusterWhatWhereFullKey) : NonNamespacedDistributionTuple × ObjectName :=
  ((⟨cfk.2.1.1, cfk.2.2⟩, ⟨cfk.1.cluster, cfk.2.1.2⟩), cfk.1.name)

def factorUpsyncTuple (whole : ExternalName × UpsyncSet × SinglePlacement) :
    (SinglePlacement × UpsyncSet) × ExternalName :=
  ((whole.2.2, whole.2.1), whole.1)

def clusterKey (tup : NamespacedWhatWhereFullKey) : ClusterWhatWhereFullKey :=
  (tup.1, (tup.2.1.1, tup.2.1.2.2), tup.2.2)

def toNamespacedSections : ScopeWrite ExternalNamespacedName → SectionWrite
  | .distributions write => .namespacedObjectDistributions write
  | .modes write => .namespacedModes write

def toNonNamespacedSections : ScopeWrite ExternalName → SectionWrite
  | .distributions write => .nonNamespacedObjectDistributions write
  | .modes write => .nonNamespacedModes write

structure Env where
  ord : RangeOrder
  resourceModes : ResourceModes

namespace Organizer

variable (env : Env) (sbo : Organizer)

def writeNamespaced (w : MapWrite (NamespacedDistributionTuple × ObjectName) WorkloadPartDetails) :
    Organizer × List SectionWrite :=
  let told := sbo.namespaced.write env.ord w
  ({ sbo with namespaced := told.1 }, told.2.map toNamespacedSections)

def writeCluster (w : MapWrite (NonNamespacedDistributionTuple × ObjectName) WorkloadPartDetails) :
    Organizer × List SectionWrite :=
  let told := sbo.cluster.write env.ord w
  ({ sbo with cluster := told.1 }, told.2.map toNonNamespacedSections)

def put (tup : NamespacedWhatWhereFullKey) (val : WorkloadPartDetails) : Organizer × List SectionWrite :=
  if !(env.resourceModes tup.2.1.1).toMailbox then (sbo, [])
  else
    let sbo := { sbo with perSourceCluster := sbo.perSourceCluster.add tup.1.cluster }
    if tup.2.1.2.1 ≠ "" then sbo.writeNamespaced env (.put (factorNamespacedWhatWhereFullKey tup) val)
    else sbo.writeCluster env (.put (factorClusterWhatWhereFullKey (clusterKey tup)) val)

/-- The key that forgets the namespace is deleted for a namespaced part too. -/
def delete (tup : NamespacedWhatWhereFullKey) : Organizer × List SectionWrite :=
  if !(env.resourceModes tup.2.1.1).toMailbox then (sbo, [])
  else if !sbo.perSourceCluster.has tup.1.cluster then (sbo, [])
  else
    let told := if tup.2.1.2.1 ≠ "" then sbo.writeNamespaced env (.delete (factorNamespacedWhatWhereFullKey tup))
      else (sbo, [])
    let toldCluster := told.1.writeCluster env (.delete (factorClusterWhatWhereFullKey (clusterKey tup)))
    (toldCluster.1, told.2 ++ toldCluster.2)

def write : MapWrite NamespacedWhatWhereFullKey WorkloadPartDetails → Organizer × List SectionWrite
  | .put tup val => sbo.put env tup val
  | .delete tup => sbo.delete env tup

def receiveUpsyncChange (w : SetWrite (ExternalName × UpsyncSet × SinglePlacement)) :
    Organizer × List SectionWrite :=
  let told := setChangeProjector sbo.upsyncsFull (w.mapElt factorUpsyncTuple)
  ({ sbo with upsyncsFull := told.1 }, told.2.map .upsyncs)

end Organizer

abbrev ResolvedWhere := List (List SinglePlacement)

/-- What the differencers for an `EdgePlacement` remember. -/
structure SetBindingForPlacement where
  downsyncParts : WorkloadParts
  upsyncs : List UpsyncSet
  resolvedWhere : MapSet SinglePlacement

structure State where
  perCluster : GoMap String (GoMap ObjectName SetBindingForPlacement)
  downsyncJoin : DynamicJoin12VWith13 ExternalName WorkloadPartID SinglePlacement WorkloadPartDetails
  upsyncJoin : DynamicJoin12With13 ExternalName UpsyncSet SinglePlacement
  organizer : Organizer

def newSetBinder : State where
  perCluster := ∅
  downsyncJoin := ⟨∅, ∅⟩
  upsyncJoin := ⟨∅, ∅⟩
  organizer := ⟨∅, ⟨∅, ∅⟩, ⟨∅, ∅⟩, ∅⟩

namespace State

variable (env : Env) (sb : State)

def downsyncJoinLeftInput (writes : List (MapWrite (ExternalName × WorkloadPartID) WorkloadPartDetails)) :
    State × List SectionWrite :=
  let tuples := emitAll (DynamicJoin12VWith13.left env.ord) sb.downsyncJoin writes
  let told := emitAll (Organizer.write env) sb.organizer tuples.2
  ({ sb with downsyncJoin := tuples.1, organizer := told.1 }, told.2)

def upsyncJoinLeftInput (writes : List (SetWrite (ExternalName × UpsyncSet))) : State × List SectionWrite :=
  let tuples := emitAll (DynamicJoin12With13.left env.ord) sb.upsyncJoin writes
  let told := emitAll Organizer.receiveUpsyncChange sb.organizer tuples.2
  ({ sb with upsyncJoin := tuples.1, organizer := told.1 }, told.2)

def bothJoinRightInput (write : SetWrite (ExternalName × SinglePlacement)) : State × List SectionWrite :=
  let tuples := sb.downsyncJoin.right env.ord write
  let told := emitAll (Organizer.write env) sb.organizer tuples.2
  let upsyncTuples := sb.upsyncJoin.right env.ord write
  let upsyncTold := emitAll Organizer.receiveUpsyncChange told.1 upsyncTuples.2
  ({ sb with downsyncJoin := tuples.1, upsyncJoin := upsyncTuples.1, organizer := upsyncTold.1 },
    told.2 ++ upsyncTold.2)

variable (ep : ExternalName)

/-- `ensurePlacement`, with fresh differencers for an `EdgePlacement` that is not known. -/
def ensurePlacement : SetBindingForPlacement :=
  (((sb.perCluster.get ep.cluster).getD ∅).get ep.name).getD ⟨∅, [], ∅⟩

def setPlacement (sbp : SetBindingForPlacement) : State :=
  { sb with perCluster := sb.perCluster.put ep.cluster (((sb.perCluster.get ep.cluster).getD ∅).put ep.name sbp) }

def receiveWhat (what : ResolvedWhat) : State × List SectionWrite :=
  let sbp := sb.ensurePlacement ep
  let parts := mapUpdateToMatch env.ord sbp.downsyncParts what.downsync
  let told := sb.downsyncJoinLeftInput env (parts.2.map (MapWrite.mapKey (ep, ·)))
  let terms := sliceDifferencer sbp.upsyncs what.upsync
  let upsyncTold := told.1.upsyncJoinLeftInput env (terms.2.map (SetWrite.mapElt (ep, ·)))
  (upsyncTold.1.setPlacement ep { sbp with downsyncParts := parts.1, upsyncs := terms.1 }, told.2 ++ upsyncTold.2)

def receiveWhere (resolvedWhere : ResolvedWhere) : State × List SectionWrite :=
  let sbp := sb.ensurePlacement ep
  let destinations := setUpdateToMatch env.ord sbp.resolvedWhere resolvedWhere.flatten
  let told := emitAll (bothJoinRightInput env) sb (destinations.2.map (SetWrite.mapElt (ep, ·)))
  (told.1.setPlacement ep { sbp with resolvedWhere := destinations.1 }, told.2)

end State

inductive Call where
  | putWhat (ep : ExternalName) (what : ResolvedWhat)
  | deleteWhat (ep : ExternalName)
  | putWhere (ep : ExternalName) (resolvedWhere : ResolvedWhere)
  | deleteWhere (ep : ExternalName)

/-- The state afterwards and what the sections have been told. Nothing is done for the deletion of an
`EdgePlacement` in a space that is not known. -/
def State.call (env : Env) (sb : State) : Call → State × List SectionWrite
  | .putWhat ep what => sb.receiveWhat env ep what
  | .deleteWhat ep => if sb.perCluster.has ep.cluster then sb.receiveWhat env ep ⟨∅, []⟩ else (sb, [])
  | .putWhere ep resolvedWhere => sb.receiveWhere env ep resolvedWhere
  | .deleteWhere ep => if sb.perCluster.has ep.cluster then sb.receiveWhere env ep [] else (sb, [])

structure ScopeSections (Obj : Type) where
  distributions : GoMap (ProjectionModeKey × Obj) DistributionBits
  modes : GoMap ProjectionModeKey ProjectionModeVal

def ScopeSections.apply {Obj : Type} [DecidableEq Obj] (sections : ScopeSections Obj) :
    ScopeWrite Obj → ScopeSections Obj
  | .distributions write => { sections with distributions := sections.distributions.write write }
  | .modes write => { sections with modes := sections.modes.write write }

structure Sections where
  namespaced : ScopeSections ExternalNamespacedName
  nonNamespaced : ScopeSections ExternalName
  upsyncs : MapSet (SinglePlacement × UpsyncSet)

def Sections.apply (sections : Sections) : SectionWrite → Sections
  | .namespacedObjectDistributions write =>
    { sections with namespaced := sections.namespaced.apply (.distributions write) }
  | .namespacedModes write => { sections with namespaced := sections.namespaced.apply (.modes write) }
  | .nonNamespacedObjectDistributions write =>
    { sections with nonNamespaced := sections.nonNamespaced.apply (.distributions write) }
  | .nonNamespacedModes write => { sections with nonNamespaced := sections.nonNamespaced.apply (.modes write) }
  | .upsyncs write => { sections with upsyncs := sections.upsyncs.write write.asMapWrite }

end KubeStellar.SetBinder
