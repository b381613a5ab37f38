import KubeStellar.Library.Run
import KubeStellar.Library.Strings
import KubeStellar.Api

/-! # Listing and watching across the mailbox spaces

`pkg/mailboxwatch/impl.go`: a list-watcher that scatters to one list-watcher for each mailbox workspace and gathers what
they answer.
-/

namespace KubeStellar.MailboxWatch

open List

open Strconv

structure GroupVersionKind where
  group : String
  version : String
  kind : String
deriving DecidableEq

/-- An object of a cluster, with its namespace and name as `N`. -/
structure Object (N V : Type) where
  cluster : String
  name : N
  resourceVersion : String
  content : V

structure ObjectList (N V : Type) where
  gvk : GroupVersionKind
  resourceVersion : String
  items : List (Object N V)

structure Workspace where
  name : String
  /-- `Spec.Cluster`. -/
  cluster : String

structure CrossClusterListerWatcher where
  listGVK : GroupVersionKind
  perCluster : MapSet String
  clusterListFirst : String
  /-- The number of the current channel. Those with smaller numbers are closed. -/
  reconfigChan : Nat

structure MyWatch where
  clusters : List String
  resourceVersion : String
  /-- The channel that was current when this watch started. -/
  reconfigChan : Nat

structure Gathered (N V : Type) where
  allItems : List (Object N V)
  firstListRV : Option Int
  maxRV : Int
  clusterOfMaxRV : String

variable {N V : Type} {gathered : Gathered N V} {first : Int}

def Object.notTooNew (firstListRV : Int) (item : Object N V) : Bool :=
  match parseInt item.resourceVersion with
  | none => false
  | some itemRV => itemRV ≤ firstListRV

def Gathered.listCluster (gathered : Gathered N V) (clusterName : String) :
    Option (ObjectList N V × Int) → Gathered N V
  | none => gathered
  | some (sublist, rv) =>
    let gathered :=
      if gathered.maxRV < rv then { gathered with maxRV := rv, clusterOfMaxRV := clusterName } else gathered
    match gathered.firstListRV with
    | none => { gathered with firstListRV := some rv, allItems := gathered.allItems ++ sublist.items }
    | some firstListRV =>
      { gathered with allItems := gathered.allItems ++ sublist.items.filter (Object.notTooNew firstListRV) }

namespace CrossClusterListerWatcher

def new (listGVK : GroupVersionKind) : CrossClusterListerWatcher := ⟨listGVK, ∅, "", 0⟩

variable (clw : CrossClusterListerWatcher)

def setInclusion (ws : Workspace) (included : Bool) : CrossClusterListerWatcher :=
  -- only accept the workspace if its name looks like a mailbox workspace name
  let included := if (Strings.split ws.name MBspaceNameSep).length ≠ 2 then false else included
  if clw.perCluster.has ws.cluster = included then clw
  else
    { clw with
      perCluster := if included then clw.perCluster.add ws.cluster else clw.perCluster.delete ws.cluster
      reconfigChan := clw.reconfigChan + 1 }

def accept (answer : Option (ObjectList N V)) : Option (ObjectList N V × Int) :=
  match answer with
  | none => none
  | some sublist =>
    if sublist.gvk ≠ clw.listGVK ∧ sublist.gvk ≠ ⟨"", "", ""⟩ then none
    else (parseInt sublist.resourceVersion).map (Prod.mk sublist)

variable (ord : RangeOrder)

/-- The clusters in the order in which List queries them. -/
def listed : List String :=
  (if clw.clusterListFirst ≠ "" ∧ clw.perCluster.has clw.clusterListFirst then [clw.clusterListFirst] else []) ++
    ((ord.visit clw.perCluster).map Prod.fst).filter (· ≠ clw.clusterListFirst)

variable (answer : String → Option (ObjectList N V))

def gather : Gathered N V :=
  (clw.listed ord).foldl
    (fun gathered clusterName => gathered.listCluster clusterName (clw.accept (answer clusterName)))
    ⟨[], none, -1, ""⟩

def list : CrossClusterListerWatcher × ObjectList N V :=
  let gathered := clw.gather ord answer
  ({ clw with clusterListFirst := gathered.clusterOfMaxRV },
    ⟨clw.listGVK, formatInt (gathered.firstListRV.getD 1), gathered.allItems⟩)

abbrev Refuses := String → Option String

def watch (refuses : Refuses) (resourceVersion : String) : Except String MyWatch :=
  let clusters := (ord.visit clw.perCluster).map Prod.fst
  match clusters.findSome? fun clusterName =>
    (refuses clusterName).map fun err => "Watch for cluster " ++ clusterName ++ " failed: " ++ err with
  | some err => .error err
  | none => .ok ⟨clusters, resourceVersion, clw.reconfigChan⟩

end CrossClusterListerWatcher

def CrossClusterListerWatcher.reads (clw : CrossClusterListerWatcher) (ord : RangeOrder)
    (answer : String → Option (ObjectList N V)) : List (ObjectList N V × Int) :=
  (clw.listed ord).filterMap fun clusterName => clw.accept (answer clusterName)

theorem Gathered.listCluster_first (hNone : gathered.firstListRV = none) (clusterName : String)
    (read : ObjectList N V × Int) :
    (gathered.listCluster clusterName (some read)).firstListRV = some read.2 ∧
      (gathered.listCluster clusterName (some read)).allItems = gathered.allItems ++ read.1.items := by
  by_cases hMax : gathered.maxRV < read.2 <;> simp [listCluster, hMax, hNone]

theorem Gathered.listCluster_later (hFirst : gathered.firstListRV = some first)
    (clusterName : String) (read : ObjectList N V × Int) :
    (gathered.listCluster clusterName (some read)).firstListRV = some first ∧
      (gathered.listCluster clusterName (some read)).allItems =
        gathered.allItems ++ read.1.items.filter (Object.notTooNew first) := by
  by_cases hMax : gathered.maxRV < read.2 <;> simp [listCluster, hMax, hFirst]

variable (answer : String → Option (ObjectList N V × Int))

theorem Gathered.foldl_later (hFirst : gathered.firstListRV = some first) (clusters : List String) :
    (clusters.foldl (fun gathered c => gathered.listCluster c (answer c)) gathered).firstListRV = some first ∧
      (clusters.foldl (fun gathered c => gathered.listCluster c (answer c)) gathered).allItems =
        gathered.allItems ++ (clusters.filterMap answer).flatMap fun read =>
          read.1.items.filter (Object.notTooNew first) := by
  induction clusters generalizing gathered with
  | nil => exact ⟨hFirst, (append_nil _).symm⟩
  | cons c clusters ih =>
    rw [foldl_cons, filterMap_cons]
    cases answer c with
    | none => exact ih hFirst
    | some read =>
      obtain ⟨hFirst', hItems⟩ := listCluster_later hFirst c read
      obtain ⟨hFirst'', hItems'⟩ := ih hFirst'
      exact ⟨hFirst'', by rw [hItems', hItems, flatMap_cons, append_assoc]⟩

def taken : List (ObjectList N V × Int) → List (Object N V)
  | [] => []
  | first :: later =>
    first.1.items ++ later.flatMap fun read => read.1.items.filter (Object.notTooNew first.2)

theorem Gathered.foldl_first (hNone : gathered.firstListRV = none)
    (hNil : gathered.allItems = []) (clusters : List String) :
    (clusters.foldl (fun gathered c => gathered.listCluster c (answer c)) gathered).firstListRV =
        (clusters.filterMap answer).head?.map Prod.snd ∧
      (clusters.foldl (fun gathered c => gathered.listCluster c (answer c)) gathered).allItems =
        taken (clusters.filterMap answer) := by
  induction clusters with
  | nil => exact ⟨hNone, hNil⟩
  | cons c clusters ih =>
    rw [foldl_cons, filterMap_cons]
    cases answer c with
    | none => exact ih
    | some read =>
      obtain ⟨hFirst, hItems⟩ := listCluster_first hNone c read
      obtain ⟨hFirst', hItems'⟩ := foldl_later answer hFirst clusters
      refine ⟨hFirst', ?_⟩
      rw [hItems', hItems, hNil, nil_append]
      rfl

variable (clw : CrossClusterListerWatcher) (ord : RangeOrder) (answer : String → Option (ObjectList N V))

/-- The version that List returns: that of the first list that it read. -/
def CrossClusterListerWatcher.listRV : Int := ((clw.reads ord answer).head?.map Prod.snd).getD 1

theorem gather_eq : (clw.gather ord answer).firstListRV = (clw.reads ord answer).head?.map Prod.snd ∧
      (clw.gather ord answer).allItems = taken (clw.reads ord answer) :=
  Gathered.foldl_first (fun c => clw.accept (answer c)) rfl rfl (clw.listed ord)

theorem list_resourceVersion : (clw.list ord answer).2.resourceVersion = formatInt (clw.listRV ord answer) :=
  congrArg (fun first : Option Int => formatInt (first.getD 1)) (gather_eq clw ord answer).1

theorem list_items : (clw.list ord answer).2.items = taken (clw.reads ord answer) := (gather_eq clw ord answer).2

end KubeStellar.MailboxWatch
