import KubeStellar.Kbuser
import KubeStellar.Library.Run
import KubeStellar.Library.Strings

/-! # The mailbox controller

`cmd/mailbox-controller/controller.go` keeps one mailbox space for each SyncTarget. A reference in the queue is turned
into the name of the space, which is looked up in an index of the SyncTargets. The index is client-go's; what is assumed
of it is `Indexer.Lawful`.
-/

namespace KubeStellar.MailboxController

open Kbuser

def mbsNameSep : String := "-mb-"

def SyncTargetNameAnnotationKey : String := "edge.kubestellar.io/sync-target-name"

def isHexDigit (c : Char) : Bool := c.isDigit || 'a' ≤ c && c ≤ 'f' || 'A' ≤ c && c ≤ 'F'

/-- The characters of the UUIDs that the API server makes. -/
structure UID where
  text : String
  chars : text.toList.all (fun c => isHexDigit c || c == '-') = true
deriving DecidableEq

structure SyncTarget where
  objectMeta : ObjectMeta
  uid : UID
  deleting : Bool

structure Space where
  name : String
  uid : String
  deleting : Bool
  ready : Bool

structure NewSpace where
  name : String
  annotations : GoMap String String
  spaceProviderDescName : String

inductive Obj where
  | space (space : Space)
  | syncTarget (st : SyncTarget)
  | deletedFinalStateUnknown (key : String) (obj : Obj)

inductive Ref where
  | syncTarget (stName : String)
  | space (mbsName : String)
deriving DecidableEq

inductive Call where
  | createSpace (space : NewSpace)
  | deleteSpace (name uid : String)
  | bind (spacename resource : String)

inductive CreateError where
  | alreadyExists
  | other

inductive DeleteError where
  | notFound
  | other

structure Api where
  create : NewSpace → Except CreateError Unit
  delete : String → Except DeleteError Unit
  bind : String → String → Bool

inductive NameError where
  | analysis (err : AnalysisError)
  | noSpaceId

inductive Verdict where
  | failedToFetch
  | retrySpaceID
  | failedToName
  | enqueued
  | notMailboxName
  | nothingToDo
  | deletedUnwanted
  | failedToDelete
  | notACopy
  | createdMissing
  | createdConcurrently
  | failedToCreate
  | beingDeleted
  | notReady
  | bound
  | failedToBind
  -- an element of the index without an object is converted to a SyncTarget
  | panicked
deriving DecidableEq

def Verdict.retry : Verdict → Bool
  | retrySpaceID | failedToDelete | failedToCreate | beingDeleted | notReady | failedToBind => true
  | _ => false

structure Outcome where
  verdict : Verdict
  added : List Ref
  calls : List Call

/-- One index of a client-go store. The store evaluates the index function when an object is updated, on the old and on
the new object, and only the values come here. -/
structure Indexer where
  Index : Type
  new : Index
  updateIndices : Index → (oldIndexValues indexValues : List String) → (key : String) → Index
  keys : Index → (indexedValue : String) → MapSet String
  /-- Whether an update that leaves a single value as it is does nothing, as since client-go 0.24. -/
  skipsSame : Bool

def Indexer.Skips (ix : Indexer) (oldIndexValues indexValues : List String) : Prop :=
  ix.skipsSame = true ∧ ∃ value, oldIndexValues = [value] ∧ indexValues = [value]

/-- What is assumed of client-go: an update removes its key under the old values and adds it under the new ones. -/
structure Indexer.Lawful (ix : Indexer) : Prop where
  new : ∀ value key, (ix.keys ix.new value).has key = false
  other : ∀ index oldValues values key value other, other ≠ key →
    (ix.keys (ix.updateIndices index oldValues values key) value).has other = (ix.keys index value).has other
  skipped : ∀ index oldValues values key value, ix.Skips oldValues values →
    (ix.keys (ix.updateIndices index oldValues values key) value).has key = (ix.keys index value).has key
  updated : ∀ index oldValues values key value, ¬ ix.Skips oldValues values →
    ((ix.keys (ix.updateIndices index oldValues values key) value).has key = true ↔
      value ∈ values ∨ value ∉ oldValues ∧ (ix.keys index value).has key = true)

structure MbCtl (ix : Indexer) where
  spaceProvider : String
  syncTargets : GoMap String SyncTarget
  index : ix.Index
  spaces : GoMap String Space
  kbSpaceRelation : KubeBindSpaceRelation
  queue : List Ref

def mbsNameOfSynctarget (reln : KubeBindSpaceRelation) (st : SyncTarget) : Except NameError String :=
  match analyzeClusterScopedObject (some st.objectMeta) with
  | .ok (.ok (_, kbSpaceID)) =>
    let spaceID := reln.spaceIDFromKubeBind kbSpaceID
    if spaceID = "" then .error .noSpaceId else .ok (spaceID ++ mbsNameSep ++ st.uid.text)
  | .ok (.error err) => .error (.analysis err)
  -- the pointer is not nil
  | .error .nilDereference => .error .noSpaceId

def mbsNameOfObj (reln : KubeBindSpaceRelation) (st : SyncTarget) : List String :=
  match mbsNameOfSynctarget reln st with
  | .ok mbsName => [mbsName]
  | .error _ => []

def resourcesToBind : List String := ["syncerconfigs", "edgesyncconfigs"]

def bindResources (api : Api) (spacename : String) : List String → Outcome
  | [] => ⟨.bound, [], []⟩
  | resource :: resources =>
    if api.bind spacename resource then
      let rest := bindResources api spacename resources
      { rest with calls := .bind spacename resource :: rest.calls }
    else ⟨.failedToBind, [], [.bind spacename resource]⟩

def ensureBinding (api : Api) (spacename : String) : Outcome := bindResources api spacename resourcesToBind

namespace MbCtl

variable {ix : Indexer} (ctl : MbCtl ix)

def add (ref : Ref) : MbCtl ix :=
  if ref ∈ ctl.queue then ctl else { ctl with queue := ctl.queue ++ [ref] }

def enqueue : Obj → MbCtl ix
  | .space space => ctl.add (.space space.name)
  | .syncTarget st => ctl.add (.syncTarget st.objectMeta.name)
  -- notified of an object of unexpected type
  | .deletedFinalStateUnknown _ _ => ctl

variable (ord : RangeOrder)

/-- `syncTargetIndexer.ByIndex`. -/
def byIndex (mbsName : String) : List (Option SyncTarget) :=
  (ord.visit (ix.keys ctl.index mbsName)).map fun entry => ctl.syncTargets.get entry.1

def syncUnwanted (api : Api) (mbsName : String) : Outcome :=
  match ctl.spaces.get mbsName with
  | none => ⟨.nothingToDo, [], []⟩
  | some space =>
    if space.deleting then ⟨.nothingToDo, [], []⟩
    else
      match api.delete mbsName with
      | .ok () | .error .notFound => ⟨.deletedUnwanted, [], [.deleteSpace mbsName space.uid]⟩
      | .error .other => ⟨.failedToDelete, [], [.deleteSpace mbsName space.uid]⟩

def syncWanted (api : Api) (mbsName : String) (st : SyncTarget) : Outcome :=
  match ctl.spaces.get mbsName with
  | none =>
    match analyzeClusterScopedObject (some st.objectMeta) with
    | .ok (.ok (stOriginalName, _)) =>
      let mbspace : NewSpace :=
        ⟨mbsName, (∅ : GoMap String String).put SyncTargetNameAnnotationKey stOriginalName, ctl.spaceProvider⟩
      match api.create mbspace with
      | .ok () => ⟨.createdMissing, [], [.createSpace mbspace]⟩
      | .error .alreadyExists => ⟨.createdConcurrently, [], [.createSpace mbspace]⟩
      | .error .other => ⟨.failedToCreate, [], [.createSpace mbspace]⟩
    | _ => ⟨.notACopy, [], []⟩
  | some space =>
    if space.deleting then ⟨.beingDeleted, [], []⟩
    else if !space.ready then ⟨.notReady, [], []⟩
    else ensureBinding api space.name

def syncSpace (api : Api) (mbsName : String) : Outcome :=
  if (Strings.split mbsName mbsNameSep).length ≠ 2 then ⟨.notMailboxName, [], []⟩
  else
    match (ctl.byIndex ord mbsName).head? with
    | none => ctl.syncUnwanted api mbsName
    | some none => ⟨.panicked, [], []⟩
    | some (some st) => if st.deleting then ctl.syncUnwanted api mbsName else ctl.syncWanted api mbsName st

def syncSyncTarget (stName : String) : Outcome :=
  match ctl.syncTargets.get stName with
  | none => ⟨.failedToFetch, [], []⟩
  | some st =>
    match mbsNameOfSynctarget ctl.kbSpaceRelation st with
    | .error .noSpaceId => ⟨.retrySpaceID, [], []⟩
    | .error (.analysis _) => ⟨.failedToName, [], []⟩
    | .ok mbsName => ⟨.enqueued, [.space mbsName], []⟩

def sync (api : Api) : Ref → Outcome
  | .syncTarget stName => ctl.syncSyncTarget stName
  | .space mbsName => ctl.syncSpace ord api mbsName

def sync1 (api : Api) (ref : Ref) : MbCtl ix :=
  let outcome := ctl.sync ord api ref
  let ctl := outcome.added.foldl add { ctl with queue := ctl.queue.erase ref }
  if outcome.verdict.retry then ctl.add ref else ctl

end MbCtl

inductive Told where
  | object
  | finalStateUnknown

def Told.obj (told : Told) (key : String) (obj : Obj) : Obj :=
  match told with
  | .object => obj
  | .finalStateUnknown => .deletedFinalStateUnknown key obj

inductive Event where
  | storeSyncTarget (st : SyncTarget)
  | removeSyncTarget (name : String) (told : Told)
  | storeSpace (space : Space)
  | removeSpace (name : String) (told : Told)
  | relation (event : Kbuser.Event)
  | process (ref : Ref) (ord : RangeOrder) (api : Api)

namespace MbCtl

variable {ix : Indexer}

variable (ix) in
def new (spaceProvider : String) : MbCtl ix := ⟨spaceProvider, ∅, ix.new, ∅, .new, []⟩

variable (ctl : MbCtl ix)

def indexValues (obj : Option SyncTarget) : List String :=
  obj.elim [] (mbsNameOfObj ctl.kbSpaceRelation)

/-- `updateIndices` of the store: the index function is evaluated now, also on the old object. -/
def updateIndices (obj : Option SyncTarget) (key : String) : ix.Index :=
  ix.updateIndices ctl.index (ctl.indexValues (ctl.syncTargets.get key)) (ctl.indexValues obj) key

def step : Event → MbCtl ix
  | .storeSyncTarget st =>
    let key := st.objectMeta.name
    let ctl := { ctl with
      syncTargets := ctl.syncTargets.put key st
      index := ctl.updateIndices (some st) key }
    ctl.enqueue (.syncTarget st)
  | .removeSyncTarget name told =>
    match ctl.syncTargets.get name with
    | none => ctl
    | some st =>
      let ctl := { ctl with
        syncTargets := ctl.syncTargets.delete name
        index := ctl.updateIndices none name }
      ctl.enqueue (told.obj name (.syncTarget st))
  | .storeSpace space => { ctl with spaces := ctl.spaces.put space.name space }.enqueue (.space space)
  | .removeSpace name told =>
    match ctl.spaces.get name with
    | none => ctl
    | some space => { ctl with spaces := ctl.spaces.delete name }.enqueue (told.obj name (.space space))
  | .relation event => { ctl with kbSpaceRelation := ctl.kbSpaceRelation.handle event }
  | .process ref ord api => if ref ∈ ctl.queue then ctl.sync1 ord api ref else ctl

/-- The state after the events of an interleaving. -/
def run (events : List Event) : MbCtl ix := Run.run step ctl events

end MbCtl

end KubeStellar.MailboxController
