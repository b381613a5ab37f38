import KubeStellar.Kbuser
import KubeStellar.WhatResolver.State

/-! # The processing of APIResources and EdgePlacements

The remaining item kinds of `pkg/placement/what-resolver.go` and the dispatch over all three.
-/

namespace KubeStellar.WhatResolver

open Kbuser

def grsNotSupported : List GroupResource :=
  [⟨"apiresource.kcp.io", "apiresourceimports"⟩, ⟨"apiresource.kcp.io", "negotiatedapiresources"⟩,
   ⟨"apis.kcp.io", "apiconversions"⟩]

def groupsNotForEdge : List String :=
  ["edge.kubestellar.io", "scheduling.kcp.io", "tenancy.kcp.io", "topology.kcp.io", "workload.kcp.io"]

def grsNotForEdge : List GroupResource :=
  [⟨"apis.kcp.io", "apiexports"⟩, ⟨"apis.kcp.io", "apiexportendpointslices"⟩,
   ⟨"apis.kcp.io", "apiresourceschemas"⟩, ⟨"apps", "controllerrevisions"⟩,
   ⟨"authentication.k8s.io", "tokenreviews"⟩, ⟨"authorization.k8s.io", "localsubjectaccessreviews"⟩,
   ⟨"authorization.k8s.io", "selfsubjectaccessreviews"⟩,
   ⟨"authorization.k8s.io", "selfsubjectrulesreviews"⟩, ⟨"authorization.k8s.io", "subjectaccessreviews"⟩,
   ⟨"certificates.k8s.io", "certificatesigningrequests"⟩, ⟨"core.kcp.io", "logicalclusters"⟩,
   ⟨"core.kcp.io", "shards"⟩, ⟨"events.k8s.io", "events"⟩, ⟨"", "bindings"⟩, ⟨"", "componentstatuses"⟩,
   ⟨"", "events"⟩, ⟨"", "nodes"⟩]

/-- `SetEqual` on sets that are slices. -/
def sliceSetEqual (set1 set2 : List Definer) : Bool :=
  set1.length == set2.length && set1.all set2.contains

def placementsOfResource (ord : RangeOrder) (rr : ResourceResolver) : MapSet ObjectName :=
  (ord.visit rr.byObjName).foldl
    (fun changed entry => changed.addAll ((ord.visit entry.2.placementBits).map Prod.fst)) ∅

variable {Sel : Type} (env : Env Sel)

def processResource (wr : State Sel) (cluster arName : String) : Bool × State Sel :=
  match wr.workspaceDetails.get cluster with
  | none => (true, wr)
  | some wsDetails =>
  let notify (wr : State Sel) (rr : ResourceResolver) :=
    notifyReceiversOfPlacements env.ord wr cluster
      ((env.ord.visit (placementsOfResource env.ord rr)).map Prod.fst)
  match env.apiLister cluster arName, wsDetails.resources.get arName with
  | .failed, _ => (true, wr)
  | .notFound, none => (true, wr)
  | .notFound, some rr =>
    let wsDetails := { wsDetails with resources := wsDetails.resources.delete arName }
    (true, notify { wr with workspaceDetails := wr.workspaceDetails.put cluster wsDetails } rr)
  | .found ar, rr =>
    let gvr : GroupVersionResource := ⟨ar.group, ar.version, ar.name⟩
    let gr : GroupResource := ⟨ar.group, ar.name⟩
    if grsNotSupported.contains gr then (true, wr)
    else if grsNotForEdge.contains gr || groupsNotForEdge.contains gr.group then (true, wr)
    else
      match rr with
      | none =>
        let wsDetails := { wsDetails with
          resources := wsDetails.resources.put arName ⟨gvr, ∅, ar.definers⟩
          gkToARName := wsDetails.gkToARName.put ⟨ar.group, ar.kind⟩ arName }
        (true, { wr with workspaceDetails := wr.workspaceDetails.put cluster wsDetails })
      | some rr =>
        if sliceSetEqual rr.definers ar.definers then (true, wr)
        else (true, notify (wr.setResource cluster wsDetails arName { rr with definers := ar.definers }) rr)

variable (spaceID : String)

/-- One round of the loop over the objects of a resource, on the resource, `anyChange` and
`completeSuccess`. The tests read only the resource of Namespaces in `wsd`, which the loop leaves as
it is. -/
def matchObject (wsd : WorkspaceDetails Sel) (spec : EdgePlacementSpec Sel)
    (epName : ObjectName) (acc : ResourceResolver × Bool × Bool) (mrObj : MRObject) :
    ResourceResolver × Bool × Bool :=
  let (rr, anyChange, completeSuccess) := acc
  let objNN := mrObj.nn
  let found := rr.byObjName.has objNN
  let objDetails := (rr.byObjName.get objNN).getD newObjectDetails
  match setByMatch env.lib (env.informers spaceID) wsd objDetails spec epName rr.gvr.resource mrObj with
  | (_, _, false) => (rr, anyChange, false)
  | (objDetails, objChange, true) =>
    -- details that were found are updated in place
    let byObjName := if found || objChange then rr.byObjName.put objNN objDetails else rr.byObjName
    ({ rr with byObjName := byObjName }, anyChange || objChange, completeSuccess)

def matchResource (wsd : WorkspaceDetails Sel)
    (spec : EdgePlacementSpec Sel) (epName : ObjectName) (acc : GoMap String ResourceResolver × Bool × Bool)
    (entry : String × ResourceResolver) : GoMap String ResourceResolver × Bool × Bool :=
  let (resources, anyChange, completeSuccess) := acc
  let (rr, anyChange, completeSuccess) :=
    (env.informers spaceID entry.2.gvr).list.foldl (matchObject env spaceID wsd spec epName)
      (entry.2, anyChange, completeSuccess)
  (resources.put entry.1 rr, anyChange, completeSuccess)

def matchResources (wsd : WorkspaceDetails Sel)
    (spec : EdgePlacementSpec Sel) (epName : ObjectName) : GoMap String ResourceResolver × Bool × Bool :=
  (env.ord.visit wsd.resources).foldl (matchResource env spaceID wsd spec epName) (wsd.resources, false, true)

def resolveEdgePlacement [DecidableEq Sel] (env : Env Sel) (wr : State Sel) (spaceID : String)
    (wsDetails : WorkspaceDetails Sel) (epName : ObjectName) (ep : EdgePlacement Sel) : Bool × State Sel :=
  let prevEp := wsDetails.placements.get epName
  let wsDetails := { wsDetails with placements := wsDetails.placements.put epName ep }
  let wr := { wr with workspaceDetails := wr.workspaceDetails.put spaceID wsDetails }
  if prevEp.any (fun prevEp => prevEp.spec.downsync = ep.spec.downsync) then (true, wr)
  else
    let (resources, anyChange, completeSuccess) := matchResources env spaceID wsDetails ep.spec epName
    let wsDetails := { wsDetails with resources := resources }
    let wr := { wr with workspaceDetails := wr.workspaceDetails.put spaceID wsDetails }
    (completeSuccess, if anyChange then notifyReceivers env.ord wr spaceID epName else wr)

def dropPlacement (ord : RangeOrder) (epName : ObjectName) (rr : ResourceResolver) : ResourceResolver :=
  { rr with byObjName := (ord.visit rr.byObjName).foldl (fun byObjName entry =>
      let placementBits := entry.2.placementBits.delete epName
      if placementBits.isEmpty then byObjName.delete entry.1
      else byObjName.put entry.1 ⟨placementBits⟩) rr.byObjName }

def forgetEdgePlacement (wr : State Sel) (spaceID : String)
    (wsDetails : WorkspaceDetails Sel) (epName : ObjectName) : Bool × State Sel :=
  if !wsDetails.placements.has epName then (true, wr)
  else
    let wsDetails := { wsDetails with
      placements := wsDetails.placements.delete epName
      resources := wsDetails.resources.mapVal fun _ rr => dropPlacement env.ord epName rr }
    let wr :=
      if wsDetails.placements.isEmpty then
        { wr with workspaceDetails := wr.workspaceDetails.delete spaceID }
      else
        notifyReceivers env.ord { wr with workspaceDetails := wr.workspaceDetails.put spaceID wsDetails }
          spaceID epName
    (true, notifyReceivers env.ord wr spaceID epName)

/-- The processing of an EdgePlacement, given the name of the provider's copy of it. -/
def processEdgePlacement [DecidableEq Sel] (env : Env Sel) (wr : State Sel) (epName : ObjectName) :
    Except Panic (Bool × State Sel) := do
  let ep ← match env.edgePlacementLister epName with
    | .failed => return (true, wr)
    | .notFound => pure none
    | .found ep => pure (some ep)
  match ← analyzeClusterScopedObject (ep.map EdgePlacement.objectMeta) with
  | .error _ => return (true, wr)
  | .ok (epOriginalName, kbSpaceID) =>
    let spaceID := env.spaceIDFromKubeBind kbSpaceID
    if spaceID = "" then return (false, wr)
    match wr.workspaceDetails.get spaceID, ep with
    | none, none => return (true, wr)
    | none, some ep =>
      let clients := env.clients spaceID
      if !(clients.configForSpace && clients.newDiscoveryClient && clients.newDynamicClient) then
        return (true, wr)
      let wsDetails : WorkspaceDetails Sel := ⟨∅, ∅, ∅⟩
      let wr := { wr with workspaceDetails := wr.workspaceDetails.put spaceID wsDetails }
      if !clients.apiCacheSynced then return (true, wr)
      return resolveEdgePlacement env wr spaceID wsDetails epOriginalName ep
    | some wsDetails, none => return forgetEdgePlacement env wr spaceID wsDetails epOriginalName
    | some wsDetails, some ep => return resolveEdgePlacement env wr spaceID wsDetails epOriginalName ep

structure QueueItem where
  gk : GroupKind
  cluster : String
  nn : NamespacedName

/-- True on success or unrecoverable error, false to retry. -/
def process [DecidableEq Sel] (env : Env Sel) (wr : State Sel) (item : QueueItem) :
    Except Panic (Bool × State Sel) :=
  if item.gk = ⟨"edge.kubestellar.io", "EdgePlacement"⟩ then processEdgePlacement env wr item.nn.2
  else if item.gk = ⟨"meta.kubestellar.io", "APIResource"⟩ then
    .ok (processResource env wr item.cluster item.nn.2)
  else .ok (processCenterObject env wr item.cluster item.gk item.nn)

end KubeStellar.WhatResolver
