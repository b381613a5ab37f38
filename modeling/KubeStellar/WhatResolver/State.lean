import KubeStellar.Api
import KubeStellar.Containers.MapTypes

/-! # The what-resolver

The state of `pkg/placement/what-resolver.go`, the test of a workload object against an EdgePlacement, the resolution of
an EdgePlacement, and the processing of a workload object. The puts to the receiver are recorded in the state, the
latest first.
-/

namespace KubeStellar.WhatResolver

structure ObjectDetails where
  placementBits : GoMap ObjectName DistributionBits

def newObjectDetails : ObjectDetails := ⟨∅⟩

structure ResourceResolver where
  gvr : GroupVersionResource
  byObjName : GoMap NamespacedName ObjectDetails
  definers : List Definer

structure WorkspaceDetails (Sel : Type) where
  placements : GoMap ObjectName (EdgePlacement Sel)
  resources : GoMap String ResourceResolver
  gkToARName : GoMap GroupKind String

def objectIsSystem (obj : MRObject) : Bool :=
  if obj.apiVersion ≠ "v1" then false
  else match obj.kind with
    | "Secret" => obj.secretType = "kubernetes.io/service-account-token" ||
        obj.secretType = "bootstrap.kubernetes.io/token"
    | "ConfigMap" => obj.objectMeta.name = "kube-root-ca.crt"
    | "ServiceAccount" => obj.objectMeta.name = "default"
    | _ => false

def isCreateOnly (obj : MRObject) : Bool :=
  obj.objectMeta.annotations.getD DownsyncOverwriteKey "" = "false"

/-- `*` is listed or the sought name is. -/
def listed (names : List String) (seek : String) : Bool :=
  names.contains "*" || names.contains seek

variable {Sel : Type} (lib : SelectorLibrary Sel) (informers : Informers)

def labelsMatchAny (labelSet : Labels) (selectors : List Sel) : Bool :=
  selectors.any fun ls =>
    match lib.asSelector ls with
    | none => false
    | some sel => sel labelSet

variable (wsd : WorkspaceDetails Sel)

def namespaceLabelsMatch (objTest : DownsyncObjectTest Sel) (objNS : String) : Bool × Bool × Bool :=
  if objTest.namespaceSelectors.isEmpty then (true, true, false)
  else if objNS = "" then (labelsMatchAny lib ∅ objTest.namespaceSelectors, true, false)
  else
    let nsARName := wsd.gkToARName.getD ⟨"", "Namespace"⟩ ""
    match wsd.resources.get nsARName with
    | none => (false, false, false)
    | some nsRR =>
      match (informers nsRR.gvr).get ("", objNS) with
      | .failed => (false, true, false)
      | .notFound => (false, false, true)
      | .found objNSR =>
        (labelsMatchAny lib objNSR.objectMeta.labels objTest.namespaceSelectors, true, false)

/-- One round of the loop of `downsyncMatches`: what it returns, or `none` to continue. -/
def downsyncTest (whatResource group objNS objName : String)
    (objLabels : Labels) (objTest : DownsyncObjectTest Sel) : Option (Bool × Bool) :=
  if objTest.apiGroup.any (fun apiGroup => apiGroup ≠ group) then none
  else if !objTest.resources.isEmpty && !listed objTest.resources whatResource then none
  else if !objTest.namespaces.isEmpty && !listed objTest.namespaces objNS then none
  else
    match namespaceLabelsMatch lib informers wsd objTest objNS with
    | (_, false, retry) => some (retry, retry)
    | (false, true, _) => none
    | (true, true, _) =>
      if !objTest.objectNames.isEmpty && !listed objTest.objectNames objName then none
      else if !objTest.labelSelectors.isEmpty &&
          !labelsMatchAny lib objLabels objTest.labelSelectors then none
      else some (true, true)

def downsyncMatches (downsync : List (DownsyncObjectTest Sel))
    (whatResource group objNS objName : String) (objLabels : Labels) : Bool × Bool :=
  match downsync.findSome? (downsyncTest lib informers wsd whatResource group objNS objName objLabels) with
  | some answer => answer
  | none => (false, true)

/-- The object's namespace and name are looked up in `objTest.resources`, as in the source. -/
def upsyncMatches (upsync : List UpsyncSet) (whatResource group objNS objName : String) : Bool :=
  upsync.any fun objTest =>
    if objTest.apiGroup ≠ group then false
    else if !listed objTest.resources whatResource then false
    else if objNS ≠ "" && !(objTest.namespaces.contains "*" || objTest.resources.contains objNS) then
      false
    else objTest.names.contains "*" || objTest.resources.contains objName

def whatMatches (spec : EdgePlacementSpec Sel) (whatResource : String) (whatObj : MRObject) : Bool × Bool :=
  if objectIsSystem whatObj then (false, true)
  else
    let objNS := whatObj.objectMeta.ns
    let objName := whatObj.objectMeta.name
    let (mtch, ok) := downsyncMatches lib informers wsd spec.downsync whatResource whatObj.group
      objNS objName whatObj.objectMeta.labels
    if !(mtch && ok) then (mtch, ok)
    else (!upsyncMatches spec.upsync whatResource whatObj.group objNS objName, true)

structure State (Sel : Type) where
  workspaceDetails : GoMap String (WorkspaceDetails Sel)
  received : List (ExternalName × ResolvedWhat)

structure SpaceClients where
  configForSpace : Bool
  newDiscoveryClient : Bool
  newDynamicClient : Bool
  apiCacheSynced : Bool

structure Env (Sel : Type) where
  lib : SelectorLibrary Sel
  ord : RangeOrder
  edgePlacementLister : ObjectName → Lookup (EdgePlacement Sel)
  spaceIDFromKubeBind : String → String
  informers : String → Informers
  apiLister : String → String → Lookup APIResourceSpec
  clients : String → SpaceClients

def definerKindToPieces (kind : String) : GroupResource × WorkloadPartDetails :=
  if kind = "CustomResourceDefinition" then
    (⟨"apiextensions.k8s.io", "customresourcedefinitions"⟩, ⟨"v1", false, false⟩)
  else (⟨"", ""⟩, ⟨"", false, false⟩)

/-- One round of the loop over the objects of a resource, on the parts and `gotSome`. -/
def addPart (epName : ObjectName) (rr : ResourceResolver) (acc : WorkloadParts × Bool)
    (entry : NamespacedName × ObjectDetails) : WorkloadParts × Bool :=
  match entry.2.placementBits.get epName with
  | none => acc
  | some distrBits =>
    let partID := (rr.gvr.groupResource, entry.1.1, entry.1.2)
    let partDetails := WorkloadPartDetails.setDistributionBits ⟨rr.gvr.version, false, false⟩ distrBits
    (acc.1.put partID partDetails, true)

variable (ord : RangeOrder)

def addResource (epName : ObjectName) (acc : WorkloadParts × MapSet Definer)
    (rr : ResourceResolver) : WorkloadParts × MapSet Definer :=
  let (parts, gotSome) := (ord.visit rr.byObjName).foldl (addPart epName rr) (acc.1, false)
  (parts, if gotSome then acc.2.addAll rr.definers else acc.2)

def addDefiner (parts : WorkloadParts) (definer : Definer) : WorkloadParts :=
  let pieces := definerKindToPieces definer.kind
  let definerID := (pieces.1, "", definer.name)
  if parts.has definerID then parts else parts.put definerID pieces.2

variable (wr : State Sel)

def getPartsLocked (wldCluster : String) (epName : ObjectName) : ResolvedWhat :=
  match wr.workspaceDetails.get wldCluster with
  | none => ⟨∅, []⟩
  | some wsDetails =>
    let upsyncs := match wsDetails.placements.get epName with
      | some ep => ep.spec.upsync
      | none => []
    let (parts, definers) := ((ord.visit wsDetails.resources).map Prod.snd).foldl (addResource ord epName)
      ((∅ : WorkloadParts), (∅ : MapSet Definer))
    ⟨((ord.visit definers).map Prod.fst).foldl addDefiner parts, upsyncs⟩

def notifyReceivers (wldCluster : String) (epName : ObjectName) : State Sel :=
  { wr with received := (⟨wldCluster, epName⟩, getPartsLocked ord wr wldCluster epName) :: wr.received }

def notifyReceiversOfPlacements (cluster : String) (placements : List ObjectName) : State Sel :=
  placements.foldl (fun wr epName => notifyReceivers ord wr cluster epName) wr

def setByMatch (od : ObjectDetails) (spec : EdgePlacementSpec Sel)
    (epName : ObjectName) (whatResource : String) (whatObj : MRObject) : ObjectDetails × Bool × Bool :=
  let oldDistrBits := (od.placementBits.get epName).getD ⟨false, false⟩
  let found := (od.placementBits.get epName).isSome
  let newDistrBits : DistributionBits := ⟨spec.wantSingletonReportedState, isCreateOnly whatObj⟩
  match whatMatches lib informers wsd spec whatResource whatObj with
  | (_, false) => (od, false, false)
  | (objMatch, true) =>
    if objMatch = found ∧ (oldDistrBits = newDistrBits ∨ found = false) then (od, false, true)
    else if objMatch then (⟨od.placementBits.put epName newDistrBits⟩, true, true)
    else (⟨od.placementBits.delete epName⟩, true, true)

/-- One round of the loop over the EdgePlacements; `none` ends it. -/
def matchPlacement (whatResource : String) (whatObj : MRObject)
    (ans : ObjectDetails) (entry : ObjectName × EdgePlacement Sel) : Option ObjectDetails :=
  match setByMatch lib informers wsd ans entry.2.spec entry.1 whatResource whatObj with
  | (ans, _, true) => some ans
  | (_, _, false) => none

/-- `none` when an accurate answer cannot be computed. -/
def whatMatchingPlacements (wsd : WorkspaceDetails Sel)
    (candidates : GoMap ObjectName (EdgePlacement Sel)) (whatResource : String) (whatObj : MRObject) :
    Option ObjectDetails :=
  (ord.visit candidates).foldlM (matchPlacement lib informers wsd whatResource whatObj) newObjectDetails

def changedPlacements (newDetails oldDetails : ObjectDetails) : GoMap ObjectName DistributionBits :=
  receiveAll
    (receiveAll ∅ (mapEnumerateDifferences ord newDetails.placementBits oldDetails.placementBits))
    (mapEnumerateDifferences ord oldDetails.placementBits newDetails.placementBits)

def State.setResource (cluster : String) (wsDetails : WorkspaceDetails Sel)
    (arName : String) (rr : ResourceResolver) : State Sel :=
  let wsDetails := { wsDetails with resources := wsDetails.resources.put arName rr }
  { wr with workspaceDetails := wr.workspaceDetails.put cluster wsDetails }

/-- The processing of a workload object: success and the state afterwards. -/
def processCenterObject (env : Env Sel) (wr : State Sel) (cluster : String) (gk : GroupKind)
    (objName : NamespacedName) : Bool × State Sel :=
  match wr.workspaceDetails.get cluster with
  | none => (true, wr)
  | some wsDetails =>
  match wsDetails.gkToARName.get gk with
  | none => (true, wr)
  | some arName =>
  match wsDetails.resources.get arName with
  | none => (true, wr)
  | some rr =>
    let oldDetails := (rr.byObjName.get objName).getD newObjectDetails
    match (env.informers cluster rr.gvr).get objName with
    | .failed => (true, wr)
    | .notFound =>
      let wr := wr.setResource cluster wsDetails arName { rr with byObjName := rr.byObjName.delete objName }
      let changed := changedPlacements env.ord newObjectDetails oldDetails
      if changed.isEmpty then (true, wr)
      else (true, notifyReceiversOfPlacements env.ord wr cluster ((env.ord.visit changed).map Prod.fst))
    | .found mrObj =>
      match whatMatchingPlacements env.lib (env.informers cluster) env.ord wsDetails wsDetails.placements
          rr.gvr.resource mrObj with
      | none => (false, wr)
      | some newDetails =>
        let changed := changedPlacements env.ord newDetails oldDetails
        if changed.isEmpty then (true, wr)
        else
          let wr := wr.setResource cluster wsDetails arName
            { rr with byObjName := rr.byObjName.put objName newDetails }
          (true, notifyReceiversOfPlacements env.ord wr cluster ((env.ord.visit changed).map Prod.fst))

end KubeStellar.WhatResolver
