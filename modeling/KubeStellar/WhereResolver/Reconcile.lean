import KubeStellar.Kbuser

/-! # The reconcilers of the where-resolver

`pkg/where-resolver`: an EdgePlacement selects Locations by their labels, a Location selects SyncTargets of its space,
and each pair of a Location and a SyncTarget that it selects makes a destination. A reconcile updates the store of
selections and then the SinglePlacementSlices that are affected. What it has done when it stops with a fault stays
done. The informer has copies of the slices, which are edited in place before the patch.
-/

namespace KubeStellar.WhereResolver

structure Location (Sel : Type) where
  objectMeta : ObjectMeta
  instanceSelector : Option Sel

structure SyncTarget where
  objectMeta : ObjectMeta
  uid : String

structure SinglePlacementSlice where
  objectMeta : ObjectMeta
  destinations : List SinglePlacement

inductive Fault where
  | nilDereference
  | analysis (err : Kbuser.AnalysisError)
  | invalidSelector
  /-- Failed to obtain space ID from kube-bind reference. -/
  | spaceUnknown
  /-- Failed to get consumer space ID from a provider's copy. -/
  | consumerSpaceUnknown
  | sliceNotFound (name : String)
  | edgePlacementNotFound (name : String)
  | noClient (spaceID : String)
  | originalNotFound (name : String)
  | patchFailed (name : String)
  | createFailed (name : String)

/-- The libraries and the relation between kube-bind ids and spaces. -/
structure Env (Sel : Type) extends Kbuser.SpaceRelation where
  lib : SelectorLibrary Sel

def analyzeClusterScopedObject (obj : Option ObjectMeta) : Except Fault (String × String) :=
  match Kbuser.analyzeClusterScopedObject obj with
  | .error .nilDereference => .error .nilDereference
  | .ok (.error err) => .error (.analysis err)
  | .ok (.ok ids) => .ok ids

def filterUntil {α : Type} (test : α → Except Fault Bool) : List α → List α × Option Fault
  | [] => ([], none)
  | a :: rest =>
    match test a with
    | .error err => ([], some err)
    | .ok true => (a :: (filterUntil test rest).1, (filterUntil test rest).2)
    | .ok false => filterUntil test rest

variable {Sel : Type}

def selectsAny (lib : SelectorLibrary Sel) (labels : Labels) : List Sel → Except Fault Bool
  | [] => .ok false
  | s :: rest =>
    match lib.asSelector s with
    | none => .error .invalidSelector
    | some selector => if selector labels then .ok true else selectsAny lib labels rest

/-- `LabelSelectorAsSelector` of a pointer: nil selects nothing. -/
def labelSelectorAsSelector (lib : SelectorLibrary Sel) : Option Sel → Option (Labels → Bool)
  | none => some fun _ => false
  | some s => lib.asSelector s

def instanceSelects (lib : SelectorLibrary Sel) (loc : Location Sel) (st : SyncTarget) : Except Fault Bool :=
  match labelSelectorAsSelector lib loc.instanceSelector with
  | none => .error .invalidSelector
  | some selector => .ok (selector st.objectMeta.labels)

variable (env : Env Sel)

def filterStsByLoc (sts : List SyncTarget) (loc : Location Sel) : List SyncTarget × Option Fault :=
  match analyzeClusterScopedObject (some loc.objectMeta) with
  | .error err => ([], some err)
  | .ok (_, locKBSpaceID) =>
    filterUntil (fun st =>
      match analyzeClusterScopedObject (some st.objectMeta) with
      | .error err => .error err
      | .ok (_, stKBSpaceID) => if stKBSpaceID ≠ locKBSpaceID then .ok false else instanceSelects env.lib loc st) sts

variable (eps : List (EdgePlacement Sel))

def filterEpsByLoc (loc : Location Sel) : List (EdgePlacement Sel) × Option Fault :=
  filterUntil (fun ep => selectsAny env.lib loc.objectMeta.labels ep.spec.locationSelectors) eps

variable (locs : List (Location Sel))

def filterLocsBySt (st : SyncTarget) : List (Location Sel) × Option Fault :=
  filterUntil (fun loc => instanceSelects env.lib loc st) locs

def filterLocsByEp (ep : EdgePlacement Sel) : List (Location Sel) × Option Fault :=
  filterUntil (fun loc => selectsAny env.lib loc.objectMeta.labels ep.spec.locationSelectors) locs

def packEpKeys : MapSet String :=
  MapSet.addAll ∅ (eps.map fun ep => ep.objectMeta.name)

def packStKeys (sts : List SyncTarget) : MapSet String := MapSet.addAll ∅ (sts.map fun st => st.objectMeta.name)

def packLocKeys : MapSet String :=
  MapSet.addAll ∅ (locs.map fun loc => loc.objectMeta.name)

variable (sps : SinglePlacementSlice)

def cleanSPSByLoc (locSpaceID lName : String) : SinglePlacementSlice :=
  { sps with destinations := sps.destinations.filter fun sp => sp.cluster ≠ locSpaceID || sp.locationName ≠ lName }

def cleanSPSBySt (stSpaceID stName : String) : SinglePlacementSlice :=
  { sps with destinations := sps.destinations.filter fun sp => sp.cluster ≠ stSpaceID || sp.syncTargetName ≠ stName }

def extendSPS (singles : List SinglePlacement) : SinglePlacementSlice :=
  { sps with destinations := sps.destinations ++ singles }

def makeSinglePlacementsForLoc (loc : Option (Location Sel)) (sts : List SyncTarget) : List SinglePlacement :=
  match loc with
  | none => []
  | some loc =>
    match analyzeClusterScopedObject (some loc.objectMeta) with
    | .error _ => []
    | .ok (locOriginalName, kbSpaceID) =>
      let locSpaceID := env.spaceIDFromKubeBind kbSpaceID
      if locSpaceID = "" then []
      else sts.filterMap fun st =>
        match analyzeClusterScopedObject (some st.objectMeta) with
        | .error _ => none
        | .ok (stOriginalName, _) => some ⟨locSpaceID, locOriginalName, stOriginalName, st.uid⟩

def makeSinglePlacementsForSt (st : Option SyncTarget) : List SinglePlacement :=
  match st with
  | none => []
  | some st =>
    match analyzeClusterScopedObject (some st.objectMeta) with
    | .error _ => []
    | .ok (stOriginalName, kbSpaceID) =>
      let stSpaceID := env.spaceIDFromKubeBind kbSpaceID
      if stSpaceID = "" then []
      else locs.filterMap fun loc =>
        match analyzeClusterScopedObject (some loc.objectMeta) with
        | .error _ => none
        | .ok (locOriginalName, _) => some ⟨stSpaceID, locOriginalName, stOriginalName, st.uid⟩

def getConsumerSpaceForSPS (sps : SinglePlacementSlice) : Except Fault (String × String) :=
  match analyzeClusterScopedObject (some sps.objectMeta) with
  | .error err => .error err
  | .ok (name, kbSpaceID) =>
    let spaceID := env.spaceIDFromKubeBind kbSpaceID
    if spaceID = "" then .error .consumerSpaceUnknown else .ok (name, spaceID)

abbrev SetsByKey := GoMap String (MapSet String)

def SetsByKey.mem (sets : SetsByKey) (key elt : String) : Bool := ((sets.get key).getD ∅).has elt

structure Store where
  epsBySelectedLoc : SetsByKey
  locsBySelectedSt : SetsByKey

/-- The local copies of the objects that are selected and that select. -/
structure Caches (Sel : Type) where
  edgePlacements : GoMap String (EdgePlacement Sel)
  locations : GoMap String (Location Sel)
  syncTargets : GoMap String SyncTarget

structure State where
  store : Store
  cached : GoMap String SinglePlacementSlice
  slices : GoMap ExternalName (List SinglePlacement)

/-- What a reconcile meets: an order of visits, and which calls to the consumers' spaces succeed. -/
structure Attempt where
  ord : RangeOrder
  client : String → Bool
  original : ExternalName → Bool
  patches : ExternalName → Bool
  creates : ExternalName → Bool

abbrev Outcome := State × Except Fault Unit

def unionTwo (a b : MapSet String) : MapSet String := a.addAll b.keys

def Store.findEpsUsedSt (ord : RangeOrder) (store : Store) (st : String) : MapSet String :=
  ((ord.visit ((store.locsBySelectedSt.get st).getD ∅)).map Prod.fst).foldl
    (fun eps l => unionTwo eps ((store.epsBySelectedLoc.get l).getD ∅)) ∅

variable (store : Store)

def Store.dropEp (epKey : String) : Store :=
  { store with epsBySelectedLoc := store.epsBySelectedLoc.mapVal fun _ eps => eps.delete epKey }

def Store.dropLoc (locKey : String) : Store where
  epsBySelectedLoc := store.epsBySelectedLoc.delete locKey
  locsBySelectedSt := store.locsBySelectedSt.mapVal fun _ locs => locs.delete locKey

def Store.dropSt (stKey : String) : Store :=
  { store with locsBySelectedSt := store.locsBySelectedSt.delete stKey }

def SetsByKey.select (ord : RangeOrder) (sets : SetsByKey) (elt : String) (keys : MapSet String) : SetsByKey :=
  let sets := sets.mapVal fun key elts => if keys.has key then elts else elts.delete elt
  ((ord.visit keys).map Prod.fst).foldl (fun sets key => sets.put key (((sets.get key).getD ∅).add elt)) sets

def forEachEp (body : State → String → Outcome) : State → List String → Outcome
  | s, [] => (s, .ok ())
  | s, ep :: rest =>
    match body s ep with
    | (s, .error fault) => (s, .error fault)
    | (s, .ok ()) => forEachEp body s rest

variable (env : Env Sel) (attempt : Attempt)

def patchSpsDestinations (s : State) (destinations : List SinglePlacement) (spaceID spsName : String) : Outcome :=
  if !attempt.client spaceID then (s, .error (.noClient spaceID))
  else if !attempt.patches ⟨spaceID, spsName⟩ || !s.slices.has ⟨spaceID, spsName⟩ then
    (s, .error (.patchFailed spsName))
  else ({ s with slices := s.slices.put ⟨spaceID, spsName⟩ destinations }, .ok ())

def createSlice (s : State) (destinations : List SinglePlacement) (spaceID spsName : String) : Outcome :=
  if !attempt.creates ⟨spaceID, spsName⟩ then (s, .error (.createFailed spsName))
  else if s.slices.has ⟨spaceID, spsName⟩ then (s, .ok ())
  else ({ s with slices := s.slices.put ⟨spaceID, spsName⟩ destinations }, .ok ())

def updateForLoc (locSpaceID locOriginalName : String) (singles : List SinglePlacement) (s : State) (name : String) :
    Outcome :=
  match s.cached.get name with
  | none => (s, .error (.sliceNotFound name))
  | some currentSPS =>
    match getConsumerSpaceForSPS env currentSPS with
    | .error err => (s, .error err)
    | .ok (originalName, spaceID) =>
      let nextSPS := extendSPS (cleanSPSByLoc currentSPS locSpaceID locOriginalName) singles
      patchSpsDestinations attempt { s with cached := s.cached.put name nextSPS } nextSPS.destinations spaceID
        originalName

def additionalSingles (caches : Caches Sel) (locsFilteredBySt : List (Location Sel)) (st : Option SyncTarget)
    (name : String) : Except Fault (List SinglePlacement) :=
  match caches.edgePlacements.get name with
  | none => .error (.edgePlacementNotFound name)
  | some epObj =>
    match filterLocsByEp env locsFilteredBySt epObj with
    | (_, some err) => .error err
    | (locsFilteredByStAndEp, none) => .ok (makeSinglePlacementsForSt env locsFilteredByStAndEp st)

def updateForSt (stSpaceID stOriginalName : String) (additional : String → Except Fault (List SinglePlacement))
    (s : State) (name : String) : Outcome :=
  match s.cached.get name with
  | none => (s, .error (.sliceNotFound name))
  | some currentSPS =>
    let nextSPS := cleanSPSBySt currentSPS stSpaceID stOriginalName
    match additional name with
    | .error err => ({ s with cached := s.cached.put name nextSPS }, .error err)
    | .ok singles =>
      let nextSPS := extendSPS nextSPS singles
      let s := { s with cached := s.cached.put name nextSPS }
      match getConsumerSpaceForSPS env currentSPS with
      | .error err => (s, .error err)
      | .ok (originalName, spaceID) => patchSpsDestinations attempt s nextSPS.destinations spaceID originalName

variable (caches : Caches Sel)

def listLocations : List (Location Sel) := (attempt.ord.visit caches.locations).map Prod.snd

def listSyncTargets : List SyncTarget := (attempt.ord.visit caches.syncTargets).map Prod.snd

def listEdgePlacements : List (EdgePlacement Sel) := (attempt.ord.visit caches.edgePlacements).map Prod.snd

def singlesForLocs : List (Location Sel) → Except Fault (List SinglePlacement)
  | [] => .ok []
  | loc :: rest =>
    match filterStsByLoc env (listSyncTargets attempt caches) loc with
    | (_, some err) => .error err
    | (stsSelecting, none) =>
      match singlesForLocs rest with
      | .error err => .error err
      | .ok singles => .ok (makeSinglePlacementsForLoc env (some loc) stsSelecting ++ singles)

/-- Step 4 of `reconcileOnEdgePlacement`. -/
def writeSlice (s : State) (epName : String) (ep : EdgePlacement Sel) (singles : List SinglePlacement) : Outcome :=
  match analyzeClusterScopedObject (some ep.objectMeta) with
  | .error err => (s, .error err)
  | .ok (originalName, kbSpaceID) =>
    let spaceID := env.spaceIDFromKubeBind kbSpaceID
    if spaceID = "" then (s, .error .spaceUnknown)
    else if !attempt.client spaceID then (s, .error (.noClient spaceID))
    else if !attempt.original ⟨spaceID, originalName⟩ then (s, .error (.originalNotFound originalName))
    else if s.cached.has epName then patchSpsDestinations attempt s singles spaceID originalName
    else createSlice attempt s singles spaceID originalName

def reconcileOnEdgePlacement (s : State) (epName : String) : Outcome :=
  match caches.edgePlacements.get epName with
  | none => ({ s with store := s.store.dropEp epName }, .ok ())
  | some ep =>
    -- an error of this filter is logged, and what it found up to there is used
    let locsFilteredByEp := (filterLocsByEp env (listLocations attempt caches) ep).1
    match singlesForLocs env attempt caches locsFilteredByEp with
    | .error err => (s, .error err)
    | .ok singles =>
      let store := { s.store with
        epsBySelectedLoc := s.store.epsBySelectedLoc.select attempt.ord epName (packLocKeys locsFilteredByEp) }
      writeSlice env attempt { s with store := store } epName ep singles

def reconcileOnLocation (s : State) (locName : String) : Outcome :=
  let loc := caches.locations.get locName
  -- for a Location that is gone this dereferences nil
  match analyzeClusterScopedObject (loc.map fun loc => loc.objectMeta) with
  | .error err => (s, .error err)
  | .ok (locOriginalName, kbSpaceID) =>
    let locSpaceID := env.spaceIDFromKubeBind kbSpaceID
    if locSpaceID = "" then (s, .error .spaceUnknown)
    else
      let epsSelectedLoc := (s.store.epsBySelectedLoc.get locName).getD ∅
      match (loc.map (filterStsByLoc env (listSyncTargets attempt caches))).getD ([], none) with
      | (_, some err) => (s, .error err)
      | (stsFilteredByLoc, none) =>
        let epsSelectingLoc := packEpKeys
          ((loc.map fun loc => (filterEpsByLoc env (listEdgePlacements attempt caches) loc).1).getD [])
        let store := if loc.isNone then s.store.dropLoc locName else
          { epsBySelectedLoc := s.store.epsBySelectedLoc.put locName epsSelectingLoc
            locsBySelectedSt := s.store.locsBySelectedSt.select attempt.ord locName (packStKeys stsFilteredByLoc) }
        let singles := makeSinglePlacementsForLoc env loc stsFilteredByLoc
        -- first the obsolete and the ongoing EdgePlacements, then the new ones
        forEachEp (fun s ep => updateForLoc env attempt locSpaceID locOriginalName
            (if epsSelectingLoc.has ep then singles else []) s ep)
          { s with store := store }
          ((attempt.ord.visit epsSelectedLoc).map Prod.fst ++
            ((attempt.ord.visit epsSelectingLoc).map Prod.fst).filter fun ep => !epsSelectedLoc.has ep)

def reconcileOnSyncTarget (s : State) (stName : String) : Outcome :=
  let st := caches.syncTargets.get stName
  match analyzeClusterScopedObject (st.map fun st => st.objectMeta) with
  | .error err => (s, .error err)
  | .ok (stOriginalName, kbSpaceID) =>
    let stSpaceID := env.spaceIDFromKubeBind kbSpaceID
    if stSpaceID = "" then (s, .error .spaceUnknown)
    else
      let epsUsedSt := s.store.findEpsUsedSt attempt.ord stName
      match (st.map (filterLocsBySt env (listLocations attempt caches))).getD ([], none) with
      | (_, some err) => (s, .error err)
      | (locsFilteredBySt, none) =>
        let epsUsingSt := (locsFilteredBySt.map fun loc => loc.objectMeta.name).foldl
          (fun eps locKey => unionTwo eps ((s.store.epsBySelectedLoc.get locKey).getD ∅)) ∅
        let store := if st.isNone then s.store.dropSt stName else
          { s.store with locsBySelectedSt := s.store.locsBySelectedSt.put stName (packLocKeys locsFilteredBySt) }
        forEachEp (fun s ep => updateForSt env attempt stSpaceID stOriginalName
            (fun ep => if epsUsingSt.has ep then additionalSingles env caches locsFilteredBySt st ep else .ok []) s ep)
          { s with store := store }
          ((attempt.ord.visit epsUsedSt).map Prod.fst ++
            ((attempt.ord.visit epsUsingSt).map Prod.fst).filter fun ep => !epsUsedSt.has ep)

/-- The kind of the object that triggers a reconcile, and its key. -/
inductive QueueItem where
  | edgePlacement (key : String)
  | location (key : String)
  | syncTarget (key : String)
deriving DecidableEq

def process (s : State) : QueueItem → Outcome
  | .edgePlacement key => reconcileOnEdgePlacement env attempt caches s key
  | .location key => reconcileOnLocation env attempt caches s key
  | .syncTarget key => reconcileOnSyncTarget env attempt caches s key

end KubeStellar.WhereResolver
