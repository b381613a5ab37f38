import KubeStellar.WorkloadProjector.SyncConfigObject
import Mathlib.Data.List.Infix

/-! # Objects on their way to a mailbox

`syncSourceObject` prepares the work for every destination of an object, customized for it, and then does it.
`syncDestinationObject` deletes an object that no source wants, and returns the reported state of one that is wanted.
The caches of the informers and the answers of the API server are inputs.
-/

namespace KubeStellar.WorkloadProjector

def ParameterExpansionAnnotationKey : String := "edge.kubestellar.io/expand-parameters"

def CustomizerAnnotationKey : String := "edge.kubestellar.io/customizer"

def ProjectedLabelKey : String := "edge.kubestellar.io/projected"

def ProjectedLabelVal : String := "yes"

/-- `customize.Customize` and what it is given. The zero values are what a client returns with an error. -/
structure Customization (J C L : Type) where
  zeroCustomizer : C
  zeroLocation : L
  /-- Whether the annotations of the customizer ask for the expansion of parameters. -/
  expands : C → Bool
  customize : Unstructured J → Option C → Option L → Unstructured J

inductive ObjectCall (J : Type) where
  | get (space : String) (gr : GroupResource) (ns name : String)
  | delete (space : String) (gr : GroupResource) (ns name : String) (resourceVersion : Option String)
  | create (space : String) (gr : GroupResource) (ns : String) (obj : Unstructured J)
  | update (space : String) (gr : GroupResource) (ns : String) (obj : Unstructured J)
  | updateStatus (space : String) (gr : GroupResource) (ns : String) (obj : Unstructured J)
  | createNamespace (space : String) (name : String)
  | getCustomizer (space : String) (ns name : String)
  | getLocation (space : String) (name : String)

structure CustomizeAnswers (C L : Type) where
  customizerClient : Bool
  getCustomizer : Except ApiError C
  locationClient : Bool
  getLocation : Except ApiError L

variable {J C L : Type} (cz : Customization J C L) (answers : CustomizeAnswers C L) (srcObj : Unstructured J)

def customizerName (customizerRef : String) : String × String :=
  match customizerRef.splitOn "/" with
  | custNS :: part :: parts => (custNS, "/".intercalate (part :: parts))
  | _ => (srcObj.ns, customizerRef)

def fetchCustomizer (srcCluster : String) (srcObj : Unstructured J) :
    Except Panic (List (Attempt (ObjectCall J)) × Option C) :=
  let customizerRef := srcObj.annotationFor CustomizerAnnotationKey
  if customizerRef = "" then .ok ([], none)
  else if !answers.customizerClient then .error .nilDereference
  else
    let (custNS, custName) := customizerName srcObj customizerRef
    .ok ([⟨.getCustomizer srcCluster custNS custName, errorOf answers.getCustomizer⟩],
      some (answers.getCustomizer.toOption.getD cz.zeroCustomizer))

def wantsExpansion : Bool :=
  srcObj.annotationFor ParameterExpansionAnnotationKey = "true" ||
    srcObj.annotationFor CustomizerAnnotationKey ≠ "" && (answers.getCustomizer.toOption.map cz.expands).getD false

def fetchLocation (destSP : SinglePlacement) (srcObj : Unstructured J) :
    Except Panic (List (Attempt (ObjectCall J)) × Option L) :=
  if !wantsExpansion cz answers srcObj then .ok ([], none)
  else if !answers.locationClient then .error .nilDereference
  else .ok ([⟨.getLocation destSP.cluster destSP.locationName, errorOf answers.getLocation⟩],
    some (answers.getLocation.toOption.getD cz.zeroLocation))

def customizeOrCopy (srcCluster : String) (srcObj : Unstructured J) (destSP : SinglePlacement) :
    Except Panic (List (Attempt (ObjectCall J)) × Unstructured J) := do
  let (customizerCalls, customizer) ← fetchCustomizer cz answers srcCluster srcObj
  let (locationCalls, location) ← fetchLocation cz answers destSP srcObj
  let calls := customizerCalls ++ locationCalls
  if customizer.isSome || location.isSome then return (calls, cz.customize srcObj customizer location)
  else return (calls, srcObj)

/-- What is created at a destination from a customized object. -/
def xformForDestination : Unstructured J :=
  { srcObj with
    managedFields := some []
    ownerReferences := some []
    resourceVersion := ""
    selfLink := ""
    uid := ""
    clusterName := ""
    labels := some ((srcObj.labels.getD ∅).put ProjectedLabelKey ProjectedLabelVal) }

def kvIsSystem (key : String) : Bool :=
  ".kcp.io/".toList <:+: key.toList || "kcp.io/".toList <+: key.toList

def kvMerge (src inputDest : GoMap String String) : GoMap String String :=
  inputDest.putAll (src.entries.filter fun e => !kvIsSystem e.1)

/-- What a customized object makes of the object at the destination. -/
def genericObjectMerge (srcObj inputDest : Unstructured J) : Unstructured J :=
  { inputDest with
    annotations := if (srcObj.annotations.getD ∅).isEmpty then inputDest.annotations
      else some (kvMerge (srcObj.annotations.getD ∅) (inputDest.annotations.getD ∅))
    labels := some ((kvMerge (srcObj.labels.getD ∅) (inputDest.labels.getD ∅)).put ProjectedLabelKey ProjectedLabelVal)
    content := inputDest.content.putAll srcObj.content.entries }

open List

def ExecutingCountKey : String := "kubestellar.io/executing-count"

inductive Lookup (α : Type) where
  | found (obj : α)
  | notFound
  | failed

structure Caches (J : Type) where
  source : String → GroupResource → String → String → Lookup (Unstructured J)
  destination : SinglePlacement → GroupResource → String → String → Lookup (Unstructured J)
  ns : SinglePlacement → String → Lookup Unit

/-- A reference to an object in a source, whose namespace is `noNamespace` if there is none. -/
structure SourceObjectRef where
  cluster : String
  groupResource : GroupResource
  ns : String
  name : String

def SourceObjectRef.namespaced (soRef : SourceObjectRef) : Bool := soRef.ns ≠ noNamespace

structure DestinationAnswers (J C L : Type) where
  deleteObject : Option ApiError
  updateSource : Option ApiError
  createNamespace : Option ApiError
  getObject : Except ApiError (Unstructured J)
  updateSourceStatus : Option ApiError
  customize : CustomizeAnswers C L
  createObject : Option ApiError
  updateObject : Option ApiError

abbrev Work (J : Type) := Except Panic (List (Attempt (ObjectCall J)) × Bool)

def Work.after (calls : List (Attempt (ObjectCall J))) : Work J → Work J
  | .ok (more, retry) => .ok (calls ++ more, retry)
  | .error problem => .error problem

/-- `triers.try`: every trier is run, and one that wants to retry is enough. -/
def triersTry : List (Work J) → Work J
  | [] => .ok ([], false)
  | trier :: triers =>
    match trier with
    | .error problem => .error problem
    | .ok (calls, retry) =>
      match triersTry triers with
      | .error problem => .error problem
      | .ok (more, retryMore) => .ok (calls ++ more, retry || retryMore)

theorem triersTry_spec {works : List (Work J)} (hOk : ∀ work ∈ works, ∃ result, work = .ok result) :
    ∃ calls retry, triersTry works = .ok (calls, retry) ∧
      (∀ attempt, attempt ∈ calls ↔ ∃ part, .ok part ∈ works ∧ attempt ∈ part.1) ∧
        (retry = true ↔ ∃ part, .ok part ∈ works ∧ part.2 = true) := by
  induction works with
  | nil => exact ⟨[], false, rfl, by simp, by simp⟩
  | cons work works ih =>
    obtain ⟨part, rfl⟩ := hOk work mem_cons_self
    obtain ⟨calls, retry, hTry, hCalls, hRetry⟩ := ih fun work hMem => hOk work (mem_cons_of_mem _ hMem)
    refine ⟨part.1 ++ calls, part.2 || retry, by simp only [triersTry, hTry], fun attempt => ?_, ?_⟩
    · simp only [mem_append, hCalls, mem_cons, Except.ok.injEq, or_and_right, exists_or, exists_eq_left]
    · simp only [Bool.or_eq_true, hRetry, mem_cons, Except.ok.injEq, or_and_right, exists_or, exists_eq_left]

def ensureDestCount {J : Type} (answer : Option ApiError) (soRef : SourceObjectRef) (srcObj : Unstructured J)
    (numDestinations : Nat) : List (Attempt (ObjectCall J)) × Bool :=
  if srcObj.annotationFor ExecutingCountKey = toString numDestinations then ([], true)
  else ([⟨.update soRef.cluster soRef.groupResource soRef.ns
      (srcObj.annotate ExecutingCountKey (toString numDestinations)), answer⟩], answer.isNone)

def reportSingletonState {J : Type} [DecidableEq J] (answer : Option ApiError) (source : String) (gr : GroupResource)
    (ns : String) (srcU dstU : Unstructured J) : List (Attempt (ObjectCall J)) × Bool :=
  if srcU.status = dstU.status then ([], true)
  else ([⟨.updateStatus source gr ns { srcU with status := dstU.status }, answer⟩], answer.isNone)

structure SourceToDest (J C L : Type) where
  cz : Customization J C L
  soRef : SourceObjectRef
  destination : SinglePlacement
  distributionBits : DistributionBits
  numDestinations : Nat
  nsLookup : Lookup Unit
  answers : DestinationAnswers J C L

namespace SourceToDest

variable (std : SourceToDest J C L)

def mailbox : String := SPMailboxWorkspaceName std.destination

def propagateDeletion : Work J :=
  .ok ([⟨.delete std.mailbox std.soRef.groupResource std.soRef.ns std.soRef.name none, std.answers.deleteObject⟩],
    match std.answers.deleteObject with
    | none | some .notFound => false
    | some _ => true)

def ensureNamespace : List (Attempt (ObjectCall J)) × Bool :=
  if !std.soRef.namespaced then ([], false)
  else match std.nsLookup with
    | .found _ => ([], false)
    | .failed => ([], true)
    | .notFound => ([⟨.createNamespace std.mailbox std.soRef.ns, std.answers.createNamespace⟩],
      match std.answers.createNamespace with
      | none | some .alreadyExists => false
      | some _ => true)

def customized (srcObj : Unstructured J) : Except Panic (List (Attempt (ObjectCall J)) × Unstructured J) :=
  customizeOrCopy std.cz std.answers.customize std.soRef.cluster srcObj std.destination

def createObject (srcObj : Unstructured J) : Work J :=
  match std.customized srcObj with
  | .error problem => .error problem
  | .ok (calls, customized) =>
    .ok (calls ++ [⟨.create std.mailbox std.soRef.groupResource std.soRef.ns (xformForDestination customized),
      std.answers.createObject⟩], std.answers.createObject.isSome)

variable [DecidableEq J]

def updateObject (srcObj destObj : Unstructured J) : Work J :=
  if std.distributionBits.createOnly then .ok ([], false)
  else match std.customized srcObj with
    | .error problem => .error problem
    | .ok (calls, customized) =>
      let revisedDestObj := genericObjectMerge customized destObj
      if destObj.deepEqual revisedDestObj then .ok (calls, false)
      else .ok (calls ++ [⟨.update std.mailbox std.soRef.groupResource std.soRef.ns revisedDestObj,
        std.answers.updateObject⟩], std.answers.updateObject.isSome)

def reportAndUpdate (srcObj destObj : Unstructured J) : Work J :=
  if std.distributionBits.returnSingletonState && std.numDestinations == 1 then
    let (calls, ok) := reportSingletonState std.answers.updateSourceStatus std.soRef.cluster std.soRef.groupResource
      std.soRef.ns srcObj destObj
    if !ok then .ok (calls, false) else Work.after calls (std.updateObject srcObj destObj)
  else std.updateObject srcObj destObj

def projectObject (srcObj : Unstructured J) : Work J :=
  Work.after [⟨.get std.mailbox std.soRef.groupResource std.soRef.ns std.soRef.name, errorOf std.answers.getObject⟩]
    (match std.answers.getObject with
    | .error .notFound => std.createObject srcObj
    | .error _ => .ok ([], true)
    | .ok destObj => std.reportAndUpdate srcObj destObj)

def inNamespace (srcObj : Unstructured J) : Work J :=
  let (calls, wrong) := std.ensureNamespace
  if wrong then .ok (calls, true) else Work.after calls (std.projectObject srcObj)

/-- The function that `syncSourceToDestLocked` returns; without a source object the deletion is propagated. -/
def work : Option (Unstructured J) → Work J
  | none => std.propagateDeletion
  | some srcObj =>
    if std.distributionBits.returnSingletonState then
      let (calls, ok) := ensureDestCount std.answers.updateSource std.soRef srcObj std.numDestinations
      if !ok then .ok (calls, false) else Work.after calls (std.inNamespace srcObj)
    else std.inNamespace srcObj

end SourceToDest

variable [DecidableEq J] (env : Env) (wp : State) (caches : Caches J) (cz : Customization J C L)
  (answers : SinglePlacement → DestinationAnswers J C L) (soRef : SourceObjectRef) {Obj : Type} (maps : ScopeMaps Obj)

def readyDestination (destination : SinglePlacement) : Option (PerDestination × ProjectionModeVal) :=
  match wp.perDestination.get destination with
  | none => none
  | some wpd =>
    match maps.modesForSync.get destination soRef.groupResource with
    | none => none
    | some pmv => if !wpd.dynamicClient && !env.destinationClient destination then none else some (wpd, pmv)

/-- `syncSourceToDestLocked`: without what is needed there is only a retry. -/
def syncSourceToDestLocked (srcObj : Option (Unstructured J)) (numDestinations : Nat)
    (tup : SinglePlacement × DistributionBits) : Work J :=
  match readyDestination env wp soRef maps tup.1 with
  | none => .ok ([], true)
  | some _ => SourceToDest.work
      ⟨cz, soRef, tup.1, tup.2, numDestinations, caches.ns tup.1 soRef.ns, answers tup.1⟩ srcObj

def addInformer (perDestination : GoMap SinglePlacement PerDestination)
    (destination : SinglePlacement) : GoMap SinglePlacement PerDestination :=
  match readyDestination env wp soRef maps destination with
  | none => perDestination
  | some (wpd, pmv) => perDestination.put destination
      (wpd.getDynamicDuoLocked env destination soRef.groupResource pmv.apiVersion soRef.namespaced)

def informDestinations (destinations : List SinglePlacement) : GoMap SinglePlacement PerDestination :=
  destinations.foldl (addInformer env wp soRef maps) wp.perDestination

def objectDestinations [DecidableEq Obj] (maps : ScopeMaps Obj) (source : String) (gr : GroupResource)
    (obj : Obj) : GoMap SinglePlacement DistributionBits :=
  (((maps.distributionsForProj.index source).getD ∅).under gr).under obj

/-- The source object, unless it is not there or being deleted. -/
def Lookup.live : Lookup (Unstructured J) → Option (Unstructured J)
  | .found obj => if obj.deletionTimestamp.isSome then none else some obj
  | .notFound | .failed => none

def copyToDestinations [DecidableEq Obj] (maps : ScopeMaps Obj) (obj : Obj)
    (srcObj : Option (Unstructured J)) : State × Work J :=
  let destinations := objectDestinations maps soRef.cluster soRef.groupResource obj
  let visited := env.ord.visit destinations
  ({ wp with perDestination := informDestinations env wp soRef maps (visited.map Prod.fst) },
    triersTry (visited.map (syncSourceToDestLocked env wp caches cz answers soRef maps srcObj destinations.len)))

def syncSourceObject : State × Work J :=
  match wp.perSource.get soRef.cluster with
  | none => (wp, .ok ([], false))
  | some wps =>
    if !wps.preInformers.has soRef.groupResource then (wp, .ok ([], false))
    else match caches.source soRef.cluster soRef.groupResource soRef.ns soRef.name with
      | .failed => (wp, .ok ([], false))
      | lookup =>
        if soRef.namespaced then
          copyToDestinations env wp caches cz answers soRef wp.ns (soRef.ns, soRef.name) lookup.live
        else copyToDestinations env wp caches cz answers soRef wp.nns soRef.name lookup.live

def crdGR : GroupResource := ⟨"apiextensions.k8s.io", "customresourcedefinitions"⟩

/-- A reference to an object in a mailbox, whose namespace is `noNamespace` if there is none. -/
structure DestinationObjectRef where
  destination : SinglePlacement
  groupResource : GroupResource
  ns : String
  name : ObjectName

def DestinationObjectRef.namespaced (doRef : DestinationObjectRef) : Bool := doRef.ns ≠ noNamespace

structure ReturnAnswers where
  deleteObject : Option ApiError
  updateSourceStatus : String → Option ApiError

variable {J : Type} [DecidableEq J] (env : Env) (wp : State) (caches : Caches J) (answers : ReturnAnswers)
  (doRef : DestinationObjectRef)

def sourcesWants [DecidableEq Obj] (maps : ScopeMaps Obj) (destination : SinglePlacement)
    (gr : GroupResource) (obj : Obj) : GoMap String DistributionBits :=
  ((maps.distributionsForSync.index destination).getD ∅).under (gr, obj)

def wantsReturn {Obj : Type} [DecidableEq Obj] (maps : ScopeMaps Obj) (obj : Obj)
    (sourceWant : String × DistributionBits) : Bool :=
  sourceWant.2.returnSingletonState &&
    match wp.perSource.get sourceWant.1 with
    | none => false
    | some wps => (objectDestinations maps sourceWant.1 doRef.groupResource obj).len == 1 &&
        wps.preInformers.has doRef.groupResource

/-- The reported state goes to the source object. The function says whether that is OK, and this is taken for
whether to retry. -/
def returnState (dstU : Unstructured J) (source : String) : Work J :=
  match caches.source source doRef.groupResource doRef.ns doRef.name with
  | .found srcU => .ok (reportSingletonState (answers.updateSourceStatus source) source doRef.groupResource doRef.ns
      srcU dstU)
  | .notFound | .failed => .ok ([], true)

def deleteUndesired (objM : Unstructured J) : Work J :=
  .ok ([⟨.delete (SPMailboxWorkspaceName doRef.destination) doRef.groupResource doRef.ns doRef.name
      (some objM.resourceVersion), answers.deleteObject⟩],
    match answers.deleteObject with
    | none | some .notFound => false
    | some _ => true)

def retainOrDelete {Obj : Type} [DecidableEq Obj] (maps : ScopeMaps Obj) (obj : Obj)
    (present : Option (Unstructured J)) : Work J :=
  let sources := sourcesWants maps doRef.destination doRef.groupResource obj
  match present with
  | none => .ok ([], false)
  | some objM =>
    if sources.isEmpty then deleteUndesired answers doRef objM
    else if doRef.groupResource = crdGR then .ok ([], false)
    else triersTry (((env.ord.visit sources).filter (wantsReturn wp doRef maps obj)).map fun sourceWant =>
      returnState caches answers doRef objM sourceWant.1)

def syncDestinationObject : Work J :=
  if doRef.groupResource = nsGR then .ok ([], false)
  else match wp.perDestination.get doRef.destination with
    | none => .ok ([], false)
    | some wpd =>
      if !wpd.preInformers.has doRef.groupResource then .ok ([], false)
      else
        let present := (caches.destination doRef.destination doRef.groupResource doRef.ns doRef.name).live
        if doRef.namespaced then retainOrDelete env wp caches answers doRef wp.ns (doRef.ns, doRef.name) present
        else retainOrDelete env wp caches answers doRef wp.nns doRef.name present

end KubeStellar.WorkloadProjector
