import KubeStellar.Library.Run
import KubeStellar.SetBinder.Binding

/-! # The sections are the join of the latest "whats" and "wheres"

After every call the sections hold the join of what the two receivers were told last, if no "what" replaces a
namespaced part by a cluster-scoped one of the same resource and name while the `EdgePlacement` has a destination.
-/

namespace KubeStellar.SetBinder

open List MapWrite

structure Latest where
  whats : GoMap ExternalName ResolvedWhat
  wheres : GoMap ExternalName ResolvedWhere

namespace Latest

variable (latest : Latest)

def what (ep : ExternalName) : ResolvedWhat := (latest.whats.get ep).getD ⟨∅, []⟩

def destinations (ep : ExternalName) : List SinglePlacement :=
  ((latest.wheres.get ep).getD []).flatten

def after : Call → Latest
  | .putWhat ep what => { latest with whats := latest.whats.put ep what }
  | .deleteWhat ep => { latest with whats := latest.whats.delete ep }
  | .putWhere ep resolvedWhere => { latest with wheres := latest.wheres.put ep resolvedWhere }
  | .deleteWhere ep => { latest with wheres := latest.wheres.delete ep }

end Latest

/-- The `EdgePlacement` has the part, has the destination, and the resource goes to the mailbox. -/
def Binds (modes : ResourceModes) (latest : Latest) (ep : ExternalName) (part : WorkloadPartID)
    (destination : SinglePlacement) (details : WorkloadPartDetails) : Prop :=
  (latest.what ep).downsync.get part = some details ∧ destination ∈ latest.destinations ep ∧
    (modes part.1).toMailbox = true

/-- The sections are the join of the latest "whats" and "wheres". -/
structure Joined (modes : ResourceModes) (latest : Latest) (sections : Sections) : Prop where
  namespaced : ScopeJoined sections.namespaced fun nndt ep details => nndt.2.2.1 ≠ "" ∧
    Binds modes latest ⟨nndt.2.1, ep⟩ (nndt.1.groupResource, nndt.2.2.1, nndt.2.2.2) nndt.1.destination details
  nonNamespaced : ScopeJoined sections.nonNamespaced fun nndt ep details =>
    Binds modes latest ⟨nndt.2.cluster, ep⟩ (nndt.1.groupResource, "", nndt.2.name) nndt.1.destination details
  upsyncs : ∀ destination upsyncSet, sections.upsyncs.has (destination, upsyncSet) = true ↔
    ∃ ep, upsyncSet ∈ (latest.what ep).upsync ∧ destination ∈ latest.destinations ep

structure Remembers (latest : Latest) (sb : State) : Prop where
  downsyncParts : ∀ ep, (sb.ensurePlacement ep).downsyncParts.get = (latest.what ep).downsync.get
  upsyncs : ∀ ep upsyncSet, upsyncSet ∈ (sb.ensurePlacement ep).upsyncs ↔ upsyncSet ∈ (latest.what ep).upsync
  resolvedWhere : ∀ ep z, (sb.ensurePlacement ep).resolvedWhere.get z =
    if z ∈ latest.destinations ep then some () else none
  parts : ∀ ep part, sb.downsyncJoin.xyvReln.content (ep, part) = (latest.what ep).downsync.get part
  destinations : ∀ ep z, sb.downsyncJoin.xzReln.content (ep, z) =
    if z ∈ latest.destinations ep then some () else none
  terms : ∀ ep upsyncSet, sb.upsyncJoin.xyReln.content (ep, upsyncSet) =
    if upsyncSet ∈ (latest.what ep).upsync then some () else none
  upsyncDestinations : ∀ ep z, sb.upsyncJoin.xzReln.content (ep, z) =
    if z ∈ latest.destinations ep then some () else none

theorem ensurePlacement_setPlacement (sb : State) (ep ep' : ExternalName) (sbp : SetBindingForPlacement) :
    (sb.setPlacement ep sbp).ensurePlacement ep' = if ep' = ep then sbp else sb.ensurePlacement ep' := by
  obtain ⟨cluster, name⟩ := ep
  obtain ⟨cluster', name'⟩ := ep'
  simp only [State.ensurePlacement, State.setPlacement, GoMap.get_put, ExternalName.mk.injEq]
  by_cases hCluster : cluster' = cluster
  · subst hCluster
    by_cases hName : name' = name <;> simp [hName]
  · simp [hCluster]

variable {sb : State}

theorem ensurePlacement_congr {sb' : State} (hSame : sb'.perCluster = sb.perCluster) (ep : ExternalName) :
    sb'.ensurePlacement ep = sb.ensurePlacement ep := by
  rw [State.ensurePlacement, State.ensurePlacement, hSame]

variable {modes : ResourceModes} {latest : Latest} {sections : Sections}

theorem join_eq_some_iff (hRem : Remembers latest sb) (ep : ExternalName) (part : WorkloadPartID)
    (z : SinglePlacement) (details : WorkloadPartDetails) : sb.downsyncJoin.join (ep, part, z) = some details ↔
      (latest.what ep).downsync.get part = some details ∧ z ∈ latest.destinations ep := by
  have hRight : sb.downsyncJoin.xzReln.get ep z = _ := hRem.destinations ep z
  have hLeft : sb.downsyncJoin.xyvReln.get ep part = _ := hRem.parts ep part
  rw [DynamicJoin12VWith13.join, hRight, hLeft]
  by_cases hMem : z ∈ latest.destinations ep <;> simp [hMem]

theorem upsyncJoin_isSome_iff (hRem : Remembers latest sb) (ep : ExternalName) (upsyncSet : UpsyncSet)
    (z : SinglePlacement) : sb.upsyncJoin.keyed.join (ep, upsyncSet, z) = some () ↔
      upsyncSet ∈ (latest.what ep).upsync ∧ z ∈ latest.destinations ep := by
  have hRight : sb.upsyncJoin.keyed.xzReln.get ep z = _ := hRem.upsyncDestinations ep z
  have hLeft : sb.upsyncJoin.keyed.xyvReln.get ep upsyncSet = _ := hRem.terms ep upsyncSet
  rw [DynamicJoin12VWith13.join, hRight, hLeft]
  by_cases hMem : z ∈ latest.destinations ep <;> simp [hMem]

theorem joined_of_organized (hOrg : Organized modes sb sections) (hRem : Remembers latest sb) :
    Joined modes latest sections where
  namespaced := by
    refine hOrg.follows.namespaced.joined ?_
    intro nndt ep details
    rw [hOrg.holds.namespaced, namespacedContent, namespacedWhole]
    by_cases hCond : (modes nndt.1.groupResource).toMailbox = true ∧ nndt.2.2.1 ≠ ""
    · rw [if_pos hCond, join_eq_some_iff hRem]
      exact ⟨fun h => ⟨hCond.2, h.1, h.2, hCond.1⟩, fun h => ⟨h.2.1, h.2.2.1⟩⟩
    · rw [if_neg hCond]
      exact ⟨fun h => absurd h (by simp), fun h => absurd ⟨h.2.2.2, h.1⟩ hCond⟩
  nonNamespaced := by
    refine hOrg.follows.nonNamespaced.joined ?_
    intro nndt ep details
    rw [hOrg.holds.cluster, clusterContent, clusterWhole]
    by_cases hCond : (modes nndt.1.groupResource).toMailbox = true
    · rw [if_pos hCond, join_eq_some_iff hRem]
      exact ⟨fun h => ⟨h.1, h.2, hCond⟩, fun h => ⟨h.1, h.2.1⟩⟩
    · rw [if_neg hCond]
      exact ⟨fun h => absurd h (by simp), fun h => absurd h.2.2 hCond⟩
  upsyncs destination upsyncSet := by
    rw [GoMap.has, hOrg.follows.upsyncs, outerKeys, Option.isSome_map, isSome_index_iff]
    constructor
    · rintro ⟨ep, _, hContent⟩
      refine ⟨ep, (upsyncJoin_isSome_iff hRem ep upsyncSet destination).mp ?_⟩
      exact (hOrg.upsyncs (ep, upsyncSet, destination)).symm.trans hContent
    · rintro ⟨ep, hBoth⟩
      refine ⟨ep, (), (hOrg.upsyncs (ep, upsyncSet, destination)).trans ?_⟩
      exact (upsyncJoin_isSome_iff hRem ep upsyncSet destination).mpr hBoth

variable {ep : ExternalName} {what : ResolvedWhat}
  {env : Env} {latest' : Latest} (dj : DynamicJoin12With13 ExternalName UpsyncSet SinglePlacement)
  (ws : List (SetWrite (ExternalName × UpsyncSet)))

theorem upsyncLeft_xyReln :
    (emitAll (DynamicJoin12With13.left env.ord) dj ws).1.xyReln.content = SetWrite.replay dj.xyReln.content ws := by
  rw [SetWrite.replay, MapWrite.replay, foldl_map]
  exact emitAll_view (fun dj => dj.xyReln.content) (fun content w => MapWrite.on content w.asMapWrite)
    (DynamicJoin12With13.left_content env.ord) dj ws

theorem upsyncLeft_xzReln : (emitAll (DynamicJoin12With13.left env.ord) dj ws).1.xzReln = dj.xzReln := by
  induction ws generalizing dj with
  | nil => rfl
  | cons w ws ih => exact ih _

variable (hRem : Remembers latest sb)

include hRem

theorem replay_parts (ep ep' : ExternalName) (what : ResolvedWhat) (part : WorkloadPartID) :
    MapWrite.replay sb.downsyncJoin.xyvReln.content ((mapUpdateToMatch env.ord
      (sb.ensurePlacement ep).downsyncParts what.downsync).2.map (MapWrite.mapKey (ep, ·))) (ep', part) =
      if ep' = ep then what.downsync.get part else (latest.what ep').downsync.get part := by
  have hContent : (fun part => sb.downsyncJoin.xyvReln.content (ep, part)) =
      (sb.ensurePlacement ep).downsyncParts.get := by
    rw [hRem.downsyncParts ep]
    exact funext (hRem.parts ep)
  rw [replay_mapKey_pair, hContent, replay_mapUpdateToMatch, hRem.parts]

theorem replay_terms (ep ep' : ExternalName) (what : ResolvedWhat) (upsyncSet : UpsyncSet) :
    SetWrite.replay sb.upsyncJoin.xyReln.content ((sliceDifferencer (sb.ensurePlacement ep).upsyncs
      what.upsync).2.map (SetWrite.mapElt (ep, ·))) (ep', upsyncSet) =
      if upsyncSet ∈ (if ep' = ep then what else latest.what ep').upsync then some () else none := by
  rw [SetWrite.replay_mapElt_pair]
  by_cases hEq : ep' = ep
  · rw [if_pos hEq, if_pos hEq]
    refine replay_sliceDifferencer _ ?_ upsyncSet
    intro e
    rw [hRem.terms]
    exact if_congr (hRem.upsyncs ep e).symm rfl rfl
  · rw [if_neg hEq, if_neg hEq, hRem.terms]

theorem Remembers.receiveWhat (hWhat : ∀ ep', latest'.what ep' = if ep' = ep then what else latest.what ep')
    (hDests : latest'.destinations = latest.destinations) :
    Remembers latest' (sb.receiveWhat env ep what).1 where
  downsyncParts ep' := by
    rw [State.receiveWhat, ensurePlacement_setPlacement, hWhat]
    by_cases hEq : ep' = ep
    · rw [if_pos hEq, if_pos hEq, get_mapUpdateToMatch]
    · rw [if_neg hEq, if_neg hEq]
      exact hRem.downsyncParts ep'
  upsyncs ep' upsyncSet := by
    rw [State.receiveWhat, ensurePlacement_setPlacement, hWhat]
    by_cases hEq : ep' = ep
    · rw [if_pos hEq, if_pos hEq]
      rfl
    · rw [if_neg hEq, if_neg hEq]
      exact hRem.upsyncs ep' upsyncSet
  resolvedWhere ep' z := by
    rw [State.receiveWhat, ensurePlacement_setPlacement, hDests, ← hRem.resolvedWhere ep' z]
    by_cases hEq : ep' = ep
    · rw [if_pos hEq, hEq]
    · rw [if_neg hEq]
      rfl
  parts ep' part := by
    refine (congrFun (emitAll_left_content env.ord sb.downsyncJoin _) (ep', part)).trans ?_
    rw [replay_parts hRem, hWhat]
    split <;> rfl
  destinations ep' z := by
    rw [hDests, ← hRem.destinations ep' z]
    exact congrArg (fun reln => FactoredMap.content reln (ep', z)) (emitAll_left_xzReln env.ord sb.downsyncJoin _)
  terms ep' upsyncSet := by
    refine (congrFun (upsyncLeft_xyReln sb.upsyncJoin _) (ep', upsyncSet)).trans ?_
    rw [replay_terms hRem, hWhat]
  upsyncDestinations ep' z := by
    rw [hDests, ← hRem.upsyncDestinations ep' z]
    exact congrArg (fun reln => FactoredMap.content reln (ep', z)) (upsyncLeft_xzReln sb.upsyncJoin _)

omit hRem

def KeepsTwins (modes : ResourceModes) (latest : Latest) (ep : ExternalName) (what : ResolvedWhat) : Prop :=
  ∀ gr ns name, ns ≠ "" → (modes gr).toMailbox = true →
    (latest.what ep).downsync.has (gr, ns, name) = true → what.downsync.has (gr, ns, name) = false →
    what.downsync.has (gr, "", name) = true → latest.destinations ep = []

theorem receiveWhat_departs (hRem : Remembers latest sb) (hKeeps : KeepsTwins env.resourceModes latest ep what) :
    Departs env.resourceModes sb ((mapUpdateToMatch env.ord (sb.ensurePlacement ep).downsyncParts
      what.downsync).2.map (MapWrite.mapKey (ep, ·))) := by
  constructor
  · intro u hMap
    obtain ⟨w, hMem, rfl⟩ := mem_map.mp hMap
    rw [key_mapKey, after_mapKey, replay_parts hRem, if_pos rfl]
    exact after_of_mem_mapUpdateToMatch hMem
  · intro u hMap hNone hMode z hRight
    obtain ⟨w, hMem, rfl⟩ := mem_map.mp hMap
    rw [key_mapKey] at hMode hRight ⊢
    rw [replay_parts hRem, if_pos rfl]
    rcases (mem_mapUpdateToMatch_iff _ _ _ _).mp hMem with ⟨k, v, _, rfl⟩ | ⟨part, v, hOld, hGone, rfl⟩
    · cases hNone
    · obtain ⟨gr, ns, name⟩ := part
      rw [hRem.downsyncParts ep] at hOld
      by_cases hNS : ns = ""
      · subst hNS
        exact hGone
      · by_contra hTwin
        have hEmpty := hKeeps gr ns name hNS hMode (by rw [GoMap.has, hOld]; rfl)
          (by rw [GoMap.has, hGone]; rfl) (Option.isSome_iff_ne_none.mpr hTwin)
        have hNoDestination : sb.downsyncJoin.xzReln.get ep z = _ := hRem.destinations ep z
        rw [hRight, hEmpty] at hNoDestination
        simp at hNoDestination

theorem Organized.setPlacement (hOrg : Organized modes sb sections) (ep : ExternalName)
    (sbp : SetBindingForPlacement) : Organized modes (sb.setPlacement ep sbp) sections :=
  ⟨hOrg.holds, hOrg.known, hOrg.upsyncs, hOrg.follows⟩

theorem Organized.receiveWhat (hOrg : Organized env.resourceModes sb sections)
    (hRem : Remembers latest sb) (hKeeps : KeepsTwins env.resourceModes latest ep what) :
    Organized env.resourceModes (sb.receiveWhat env ep what).1
      ((sb.receiveWhat env ep what).2.foldl Sections.apply sections) := by
  rw [State.receiveWhat, foldl_append]
  exact ((hOrg.downsyncJoinLeftInput (receiveWhat_departs hRem hKeeps)).upsyncJoinLeftInput _).setPlacement ep _

structure Redirected (sb sb' : State) (ws : List (SetWrite (ExternalName × SinglePlacement))) : Prop where
  perCluster : sb'.perCluster = sb.perCluster
  xyvReln : sb'.downsyncJoin.xyvReln = sb.downsyncJoin.xyvReln
  xyReln : sb'.upsyncJoin.xyReln = sb.upsyncJoin.xyReln
  xzReln : sb'.downsyncJoin.xzReln.content = SetWrite.replay sb.downsyncJoin.xzReln.content ws
  upsyncXzReln : sb'.upsyncJoin.xzReln.content = SetWrite.replay sb.upsyncJoin.xzReln.content ws

theorem emitAll_redirected (sb : State) (ws : List (SetWrite (ExternalName × SinglePlacement))) :
    Redirected sb (emitAll (State.bothJoinRightInput env) sb ws).1 ws := by
  induction ws generalizing sb with
  | nil => exact ⟨rfl, rfl, rfl, rfl, rfl⟩
  | cons w ws ih =>
    have hRest := ih (sb.bothJoinRightInput env w).1
    rw [emitAll]
    refine ⟨hRest.perCluster, hRest.xyvReln, hRest.xyReln, ?_, ?_⟩
    · rw [hRest.xzReln]
      exact congrArg (fun content => SetWrite.replay content ws)
        (DynamicJoin12VWith13.right_content env.ord sb.downsyncJoin w)
    · rw [hRest.upsyncXzReln]
      exact congrArg (fun content => SetWrite.replay content ws)
        (DynamicJoin12With13.right_content env.ord sb.upsyncJoin w)

theorem Organized.redirect (hOrg : Organized env.resourceModes sb sections)
    (ws : List (SetWrite (ExternalName × SinglePlacement))) :
    Organized env.resourceModes (emitAll (State.bothJoinRightInput env) sb ws).1
      ((emitAll (State.bothJoinRightInput env) sb ws).2.foldl Sections.apply sections) := by
  induction ws generalizing sb sections with
  | nil => exact hOrg
  | cons w ws ih =>
    rw [emitAll, foldl_append]
    exact ih (hOrg.bothJoinRightInput w)

theorem replay_destinations (hRem : Remembers latest sb) (ep ep' : ExternalName) (resolvedWhere : ResolvedWhere)
    {content : ExternalName × SinglePlacement → Option Unit}
    (hContent : ∀ ep z, content (ep, z) = if z ∈ latest.destinations ep then some () else none) (z : SinglePlacement) :
    SetWrite.replay content ((setUpdateToMatch env.ord (sb.ensurePlacement ep).resolvedWhere
      resolvedWhere.flatten).2.map (SetWrite.mapElt (ep, ·))) (ep', z) =
      if z ∈ (if ep' = ep then resolvedWhere.flatten else latest.destinations ep') then some () else none := by
  have hCurrent : (fun z => content (ep, z)) = (sb.ensurePlacement ep).resolvedWhere.get := by
    funext z
    rw [hContent, hRem.resolvedWhere]
  rw [SetWrite.replay_mapElt_pair, hCurrent, replay_setUpdateToMatch, hContent]
  by_cases hEq : ep' = ep
  · rw [if_pos hEq, if_pos hEq]
  · rw [if_neg hEq, if_neg hEq]

theorem Remembers.receiveWhere (hRem : Remembers latest sb) {resolvedWhere : ResolvedWhere}
    (hWhat : latest'.what = latest.what)
    (hDests : ∀ ep', latest'.destinations ep' = if ep' = ep then resolvedWhere.flatten else latest.destinations ep') :
    Remembers latest' (sb.receiveWhere env ep resolvedWhere).1 := by
  have hRedirected := @emitAll_redirected env sb ((setUpdateToMatch env.ord
    (sb.ensurePlacement ep).resolvedWhere resolvedWhere.flatten).2.map (SetWrite.mapElt (ep, ·)))
  have hPlacement : ∀ ep', (sb.receiveWhere env ep resolvedWhere).1.ensurePlacement ep' = if ep' = ep then
      { sb.ensurePlacement ep with resolvedWhere := (setUpdateToMatch env.ord
        (sb.ensurePlacement ep).resolvedWhere resolvedWhere.flatten).1 } else sb.ensurePlacement ep' := by
    intro ep'
    rw [State.receiveWhere, ensurePlacement_setPlacement]
    exact if_congr Iff.rfl rfl (ensurePlacement_congr hRedirected.perCluster ep')
  constructor
  case downsyncParts =>
    intro ep'
    rw [hPlacement, hWhat, ← hRem.downsyncParts ep']
    split
    · rename_i hEq
      rw [hEq]
    · rfl
  case upsyncs =>
    intro ep' upsyncSet
    rw [hPlacement, hWhat, ← hRem.upsyncs ep']
    split
    · rename_i hEq
      rw [hEq]
    · rfl
  case resolvedWhere =>
    intro ep' z
    rw [hPlacement, hDests]
    by_cases hEq : ep' = ep
    · rw [if_pos hEq, if_pos hEq, get_setUpdateToMatch]
    · rw [if_neg hEq, if_neg hEq, hRem.resolvedWhere]
  case parts =>
    intro ep' part
    rw [hWhat, ← hRem.parts ep' part, ← hRedirected.xyvReln]
    rfl
  case terms =>
    intro ep' upsyncSet
    rw [hWhat, ← hRem.terms ep' upsyncSet, ← hRedirected.xyReln]
    rfl
  case destinations =>
    intro ep' z
    rw [hDests, ← replay_destinations hRem ep ep' resolvedWhere hRem.destinations z, ← hRedirected.xzReln]
    rfl
  case upsyncDestinations =>
    intro ep' z
    rw [hDests, ← replay_destinations hRem ep ep' resolvedWhere hRem.upsyncDestinations z, ← hRedirected.upsyncXzReln]
    rfl

theorem Organized.receiveWhere (hOrg : Organized env.resourceModes sb sections) (ep : ExternalName)
    (resolvedWhere : ResolvedWhere) :
    Organized env.resourceModes (sb.receiveWhere env ep resolvedWhere).1
      ((sb.receiveWhere env ep resolvedWhere).2.foldl Sections.apply sections) :=
  (hOrg.redirect _).setPlacement ep _

end KubeStellar.SetBinder
