import KubeStellar.Library.ChangeStream

/-! # API objects of the placement translator

The types of `pkg/apis/edge/v2alpha1`, the parts of the Kubernetes meta types and of an unstructured object that the
components read, and the value types of `pkg/placement/declarations.go`, the sections of a workload projection among
them. A label selector is a value of an arbitrary type `Sel`, handled by library code (`SelectorLibrary`).
-/

namespace KubeStellar

abbrev ObjectName := String

abbrev NamespaceName := String

abbrev NamespacedName := NamespaceName × ObjectName

abbrev Labels := GoMap String String

structure GroupResource where
  group : String
  resource : String
deriving DecidableEq

structure GroupKind where
  group : String
  kind : String
deriving DecidableEq

structure GroupVersionResource where
  group : String
  version : String
  resource : String
deriving DecidableEq

def GroupVersionResource.groupResource (gvr : GroupVersionResource) : GroupResource :=
  ⟨gvr.group, gvr.resource⟩

structure ExternalName where
  cluster : String
  name : ObjectName
deriving DecidableEq

structure ObjectMeta where
  name : String
  ns : String
  annotations : GoMap String String
  labels : Labels

/-- What the apimachinery library documents about label selectors: one converts to a predicate on
label sets or is refused, and `{}` matches everything. -/
structure SelectorLibrary (Sel : Type) where
  asSelector : Sel → Option (Labels → Bool)
  emptySelector : Sel
  emptySelector_matches : asSelector emptySelector = some fun _ => true

/-- The selectors that consist of `matchLabels` alone. -/
def SelectorLibrary.matchLabels : SelectorLibrary (List (String × String)) where
  asSelector pairs := some fun labels => pairs.all fun kv => labels.get kv.1 == some kv.2
  emptySelector := []
  emptySelector_matches := rfl

structure MRObject where
  group : String
  version : String
  kind : String
  objectMeta : ObjectMeta
  secretType : String

def MRObject.apiVersion (obj : MRObject) : String :=
  if obj.group = "" then obj.version else obj.group ++ "/" ++ obj.version

def MRObject.nn (obj : MRObject) : NamespacedName := (obj.objectMeta.ns, obj.objectMeta.name)

structure UpsyncSet where
  apiGroup : String
  resources : List String
  namespaces : List String
  names : List String
deriving DecidableEq

structure DownsyncObjectTest (Sel : Type) where
  apiGroup : Option String
  resources : List String
  namespaces : List String
  namespaceSelectors : List Sel
  objectNames : List String
  labelSelectors : List Sel
deriving DecidableEq

structure EdgePlacementSpec (Sel : Type) where
  locationSelectors : List Sel
  downsync : List (DownsyncObjectTest Sel)
  wantSingletonReportedState : Bool
  upsync : List UpsyncSet

structure EdgePlacement (Sel : Type) where
  objectMeta : ObjectMeta
  spec : EdgePlacementSpec Sel

def DownsyncOverwriteKey : String := "edge.kubestellar.io/downsync-overwrite"

structure SinglePlacement where
  cluster : String
  locationName : String
  syncTargetName : String
  syncTargetUID : String
deriving DecidableEq

structure DistributionBits where
  returnSingletonState : Bool
  createOnly : Bool
deriving DecidableEq

abbrev WorkloadPartID := GroupResource × NamespaceName × ObjectName

structure WorkloadPartDetails where
  apiVersion : String
  returnSingletonState : Bool
  createOnly : Bool
deriving DecidableEq

def WorkloadPartDetails.distributionBits (wpd : WorkloadPartDetails) : DistributionBits :=
  ⟨wpd.returnSingletonState, wpd.createOnly⟩

def WorkloadPartDetails.setDistributionBits (wpd : WorkloadPartDetails) (bits : DistributionBits) :
    WorkloadPartDetails :=
  { wpd with returnSingletonState := bits.returnSingletonState, createOnly := bits.createOnly }

abbrev WorkloadParts := GoMap WorkloadPartID WorkloadPartDetails

structure ResolvedWhat where
  downsync : WorkloadParts
  upsync : List UpsyncSet

structure Definer where
  kind : String
  name : String
deriving DecidableEq

structure APIResourceSpec where
  name : String
  group : String
  version : String
  kind : String
  definers : List Definer

/-- The result of `Get` on a lister: the object, the error `NotFound`, or another error. -/
inductive Lookup (α : Type) where
  | found (obj : α)
  | notFound
  | failed

structure Lister where
  get : NamespacedName → Lookup MRObject
  list : List MRObject

abbrev Informers := GroupVersionResource → Lister

inductive ApiError where
  | notFound
  | alreadyExists
  | other
deriving DecidableEq

/-- The field `status`, which is expected to be a map. -/
inductive StatusField (J : Type) where
  | absent
  | map (fields : J)
  | other (value : J)
deriving DecidableEq

structure Unstructured (J : Type) where
  apiVersion : String
  kind : String
  ns : String
  name : String
  uid : String
  resourceVersion : String
  selfLink : String
  clusterName : String
  deletionTimestamp : Option String
  annotations : Option (GoMap String String)
  labels : Option Labels
  managedFields : Option (List J)
  ownerReferences : Option (List J)
  status : StatusField J
  content : GoMap String J

namespace Unstructured

variable {J : Type} (obj : Unstructured J)

/-- `annotations[key]`, the empty string without such an annotation. -/
def annotationFor (key : String) : String := (obj.annotations.getD ∅).getD key ""

def annotate (key value : String) : Unstructured J :=
  { obj with annotations := some ((obj.annotations.getD ∅).put key value) }

theorem annotationFor_annotate (key value key' : String) :
    (obj.annotate key value).annotationFor key' = if key' = key then value else obj.annotationFor key' := by
  simp only [annotationFor, annotate, GoMap.getD, Option.getD_some, GoMap.get_put]
  split <;> rfl

def sameMaps {V : Type} [DecidableEq V] : Option (GoMap String V) → Option (GoMap String V) → Bool
  | none, none => true
  | some m, some m' => m.same m'
  | _, _ => false

/-- `apiequality.Semantic.DeepEqual`. -/
def deepEqual [DecidableEq J] (a b : Unstructured J) : Bool :=
  a.apiVersion == b.apiVersion && a.kind == b.kind && a.ns == b.ns && a.name == b.name && a.uid == b.uid &&
    a.resourceVersion == b.resourceVersion && a.selfLink == b.selfLink && a.clusterName == b.clusterName &&
    a.deletionTimestamp == b.deletionTimestamp && sameMaps a.annotations b.annotations && sameMaps a.labels b.labels &&
    decide (a.managedFields = b.managedFields) && decide (a.ownerReferences = b.ownerReferences) &&
    decide (a.status = b.status) && a.content.same b.content

end Unstructured

structure ProjectionModeKey where
  groupResource : GroupResource
  destination : SinglePlacement
deriving DecidableEq

structure ProjectionModeVal where
  apiVersion : String
deriving DecidableEq

abbrev ExternalNamespacedName := String × NamespaceName × ObjectName

abbrev NamespacedDistributionTuple := ProjectionModeKey × ExternalNamespacedName

abbrev NonNamespacedDistributionTuple := ProjectionModeKey × ExternalName

inductive PropagationMode where
  | errorInCenter
  | tolerateInCenter
  | goesToMailbox
  | goesToEdge
deriving DecidableEq

abbrev ResourceModes := GroupResource → PropagationMode

def PropagationMode.toMailbox : PropagationMode → Bool
  | errorInCenter | tolerateInCenter => false
  | goesToEdge | goesToMailbox => true

def PropagationMode.toEdge : PropagationMode → Bool
  | errorInCenter | tolerateInCenter | goesToMailbox => false
  | goesToEdge => true

def MBspaceNameSep : String := "-mb-"

def SPMailboxWorkspaceName (sp : SinglePlacement) : String :=
  sp.cluster ++ MBspaceNameSep ++ sp.syncTargetUID

def pickThe1 {KeyPartB : Type} (ord : RangeOrder) (problem : GoMap KeyPartB ProjectionModeVal) :
    ProjectionModeVal :=
  (ord.visit problem).foldl (fun _ pair => pair.2) ⟨""⟩

inductive SectionWrite where
  | namespacedObjectDistributions (write : MapWrite NamespacedDistributionTuple DistributionBits)
  | namespacedModes (write : MapWrite ProjectionModeKey ProjectionModeVal)
  | nonNamespacedObjectDistributions (write : MapWrite NonNamespacedDistributionTuple DistributionBits)
  | nonNamespacedModes (write : MapWrite ProjectionModeKey ProjectionModeVal)
  | upsyncs (write : SetWrite (SinglePlacement × UpsyncSet))

end KubeStellar
