import KubeStellar.WhatResolver.State

/-! # The documented criteria of a downsync test

`DownsyncObjectTest` as `pkg/apis/edge/v2alpha1/edge-placement.go` documents it, and how far
`downsyncMatches` agrees with that reading.
-/

namespace KubeStellar.WhatResolver

open List

/-- The empty list and `*` accept everything. -/
def Acceptable (names : List String) (seek : String) : Prop :=
  names = [] ∨ "*" ∈ names ∨ seek ∈ names

instance (names : List String) (seek : String) : Decidable (Acceptable names seek) := by
  unfold Acceptable
  infer_instance

variable (names : List String)

theorem listed_eq_true_iff (seek : String) : listed names seek = true ↔ "*" ∈ names ∨ seek ∈ names := by
  simp [listed]

theorem refused_eq_true_iff (seek : String) :
    (!names.isEmpty && !listed names seek) = true ↔ ¬ Acceptable names seek := by
  rw [Bool.and_eq_true, Bool.not_eq_true', Bool.not_eq_true', Acceptable, ← listed_eq_true_iff,
    not_or, Bool.not_eq_true, ← List.isEmpty_iff, Bool.not_eq_true]

inductive NamespaceInfo where
  | clusterScoped
  | resourceUnknown
  | lookup (result : Lookup MRObject)

variable {Sel : Type}

def namespaceInfo (informers : Informers) (wsd : WorkspaceDetails Sel) (objNS : String) : NamespaceInfo :=
  if objNS = "" then .clusterScoped
  else match wsd.resources.get (wsd.gkToARName.getD ⟨"", "Namespace"⟩ "") with
    | none => .resourceUnknown
    | some nsRR => .lookup ((informers nsRR.gvr).get ("", objNS))

theorem namespaceInfo_eq_clusterScoped_iff (informers : Informers)
    (wsd : WorkspaceDetails Sel) (objNS : String) :
    namespaceInfo informers wsd objNS = .clusterScoped ↔ objNS = "" := by
  unfold namespaceInfo
  split
  · simp [*]
  · rename_i hNS
    cases wsd.resources.get (wsd.gkToARName.getD ⟨"", "Namespace"⟩ "") <;> simp [hNS]

def NamespaceInfo.labels : NamespaceInfo → Option Labels
  | .lookup (.found objNSR) => some objNSR.objectMeta.labels
  | _ => none

variable (lib : SelectorLibrary Sel)

/-- The answer of `namespaceLabelsMatch` for a list of selectors that is not empty. -/
def NamespaceInfo.verdict (selectors : List Sel) :
    NamespaceInfo → Bool × Bool × Bool
  | .clusterScoped => (labelsMatchAny lib ∅ selectors, true, false)
  | .resourceUnknown => (false, false, false)
  | .lookup .failed => (false, true, false)
  | .lookup .notFound => (false, false, true)
  | .lookup (.found objNSR) => (labelsMatchAny lib objNSR.objectMeta.labels selectors, true, false)

theorem namespaceLabelsMatch_eq (informers : Informers)
    (wsd : WorkspaceDetails Sel) (objTest : DownsyncObjectTest Sel) (objNS : String) :
    namespaceLabelsMatch lib informers wsd objTest objNS =
      if objTest.namespaceSelectors = [] then (true, true, false)
      else (namespaceInfo informers wsd objNS).verdict lib objTest.namespaceSelectors := by
  unfold namespaceLabelsMatch namespaceInfo
  by_cases hSel : objTest.namespaceSelectors = []
  · simp [hSel]
  · by_cases hNS : objNS = ""
    · simp [hSel, hNS, NamespaceInfo.verdict]
    · simp only [List.isEmpty_iff, hSel, hNS, if_false]
      cases wsd.resources.get (wsd.gkToARName.getD ⟨"", "Namespace"⟩ "") with
      | none => rfl
      | some nsRR =>
        dsimp only
        cases (informers nsRR.gvr).get ("", objNS) <;> rfl

structure Subject where
  resource : String
  group : String
  ns : String
  name : String
  labels : Labels

def subject (whatResource : String) (whatObj : MRObject) : Subject :=
  ⟨whatResource, whatObj.group, whatObj.objectMeta.ns, whatObj.objectMeta.name, whatObj.objectMeta.labels⟩

variable {Sel : Type} (lib : SelectorLibrary Sel)

def SelectorsMatch (labels : Labels) (selectors : List Sel) : Prop :=
  ∃ ls ∈ selectors, ∃ sel, lib.asSelector ls = some sel ∧ sel labels = true

theorem labelsMatchAny_eq_true_iff (labels : Labels) (selectors : List Sel) :
    labelsMatchAny lib labels selectors = true ↔ SelectorsMatch lib labels selectors := by
  rw [labelsMatchAny, any_eq_true]
  constructor
  · rintro ⟨ls, hMem, hMatch⟩
    cases hSel : lib.asSelector ls with
    | none => simp [hSel] at hMatch
    | some sel => exact ⟨ls, hMem, sel, hSel, by simpa [hSel] using hMatch⟩
  · rintro ⟨ls, hMem, sel, hSel, hMatch⟩
    exact ⟨ls, hMem, by simpa [hSel] using hMatch⟩

variable (o : Subject)

structure Satisfied (nsLabels : Option Labels) (objTest : DownsyncObjectTest Sel) : Prop where
  apiGroup : ∀ apiGroup ∈ objTest.apiGroup, apiGroup = o.group
  resources : Acceptable objTest.resources o.resource
  namespaces : objTest.namespaces = [] ∨ "*" ∈ objTest.namespaces ∨
    (o.ns ≠ "" ∧ o.ns ∈ objTest.namespaces)
  namespaceSelectors : objTest.namespaceSelectors = [] ∨
    (o.ns = "" ∧ lib.emptySelector ∈ objTest.namespaceSelectors) ∨
    (o.ns ≠ "" ∧ ∃ labels ∈ nsLabels, SelectorsMatch lib labels objTest.namespaceSelectors)
  objectNames : Acceptable objTest.objectNames o.name
  labelSelectors : objTest.labelSelectors = [] ∨ SelectorsMatch lib o.labels objTest.labelSelectors

def SomeSatisfied (nsLabels : Option Labels) (downsync : List (DownsyncObjectTest Sel)) : Prop :=
  ∃ objTest ∈ downsync, Satisfied lib o nsLabels objTest

structure Reaches (objTest : DownsyncObjectTest Sel) : Prop where
  apiGroup : ∀ apiGroup ∈ objTest.apiGroup, apiGroup = o.group
  resources : Acceptable objTest.resources o.resource
  namespaces : Acceptable objTest.namespaces o.ns

structure MeetsRest (objTest : DownsyncObjectTest Sel) : Prop where
  objectNames : Acceptable objTest.objectNames o.name
  labelSelectors : objTest.labelSelectors = [] ∨ SelectorsMatch lib o.labels objTest.labelSelectors

variable (informers : Informers) (wsd : WorkspaceDetails Sel) (downsync : List (DownsyncObjectTest Sel))

def DependsOnNamespace : Prop :=
  o.ns ≠ "" ∧ (namespaceInfo informers wsd o.ns).labels = none ∧
    ¬ SomeSatisfied lib o none downsync ∧ ∃ labels, SomeSatisfied lib o (some labels) downsync

/-- An accurate match has a satisfied test, an accurate mismatch has none, and an answer that
depends on an unknown Namespace is not accurate. -/
structure Justified (downsync : List (DownsyncObjectTest Sel)) (answer : Bool × Bool) : Prop where
  match_sound : answer = (true, true) →
    SomeSatisfied lib o (namespaceInfo informers wsd o.ns).labels downsync
  mismatch_sound : answer = (false, true) →
    ¬ SomeSatisfied lib o (namespaceInfo informers wsd o.ns).labels downsync
  unknown_reported : DependsOnNamespace lib o informers wsd downsync → answer.2 = false

/-- The states of knowledge about the Namespace in which the loop answers as documented.
For a cluster-scoped object, a test that admits it through `""` among the namespaces or through a
selector other than `{}` must come with a test that is really satisfied; when the Namespace is not in
the cache, so must a test that reaches its namespace selectors. -/
def AnswerGuard : Prop :=
  match namespaceInfo informers wsd o.ns with
  | .clusterScoped =>
    (∃ objTest ∈ downsync, Reaches o objTest ∧ MeetsRest lib o objTest ∧
      (objTest.namespaceSelectors = [] ∨ SelectorsMatch lib ∅ objTest.namespaceSelectors)) →
    SomeSatisfied lib o none downsync
  | .resourceUnknown => True
  | .lookup (.found _) => True
  | .lookup .notFound =>
    (∃ objTest ∈ downsync, Reaches o objTest ∧ objTest.namespaceSelectors ≠ []) →
    SomeSatisfied lib o none downsync
  | .lookup .failed => ¬ DependsOnNamespace lib o informers wsd downsync

section Loop

variable {lib o informers wsd} {objTest : DownsyncObjectTest Sel} {nsLabels : Option Labels}

theorem Satisfied.reaches (h : Satisfied lib o nsLabels objTest) : Reaches o objTest :=
  ⟨h.apiGroup, h.resources, h.namespaces.imp_right (Or.imp_right And.right)⟩

theorem Satisfied.meetsRest (h : Satisfied lib o nsLabels objTest) : MeetsRest lib o objTest :=
  ⟨h.objectNames, h.labelSelectors⟩

theorem satisfied_iff (hNS : o.ns ≠ "") :
    Satisfied lib o nsLabels objTest ↔ Reaches o objTest ∧ MeetsRest lib o objTest ∧ (objTest.namespaceSelectors = [] ∨
        ∃ labels ∈ nsLabels, SelectorsMatch lib labels objTest.namespaceSelectors) := by
  constructor
  · intro h
    refine ⟨h.reaches, h.meetsRest, h.namespaceSelectors.imp_right ?_⟩
    rintro (⟨hEmpty, _⟩ | ⟨_, hMatch⟩)
    · exact absurd hEmpty hNS
    · exact hMatch
  · rintro ⟨hReach, hRest, hSel⟩
    exact ⟨hReach.apiGroup, hReach.resources, hReach.namespaces.imp_right (Or.imp_right fun hMem => ⟨hNS, hMem⟩),
      hSel.imp_right fun hMatch => .inr ⟨hNS, hMatch⟩, hRest.objectNames, hRest.labelSelectors⟩

theorem Satisfied.selectors_empty_labels (hNS : o.ns = "") (h : Satisfied lib o none objTest) :
    objTest.namespaceSelectors = [] ∨ SelectorsMatch lib ∅ objTest.namespaceSelectors := by
  refine h.namespaceSelectors.imp_right ?_
  rintro (⟨_, hMem⟩ | ⟨hNe, _⟩)
  · exact ⟨lib.emptySelector, hMem, _, lib.emptySelector_matches, rfl⟩
  · exact absurd hNS hNe

variable (lib o informers wsd)

abbrev round (objTest : DownsyncObjectTest Sel) : Option (Bool × Bool) :=
  downsyncTest lib informers wsd o.resource o.group o.ns o.name o.labels objTest

variable {lib o informers wsd} {retry nsMatch : Bool} (downsync : List (DownsyncObjectTest Sel))
  {matched : List Sel → Bool}

theorem apiGroup_refused_iff (objTest : DownsyncObjectTest Sel) :
    objTest.apiGroup.any (fun apiGroup => apiGroup ≠ o.group) = true ↔
      ¬ ∀ apiGroup ∈ objTest.apiGroup, apiGroup = o.group := by
  cases objTest.apiGroup <;> simp

theorem round_of_not_reaches (hReach : ¬ Reaches o objTest) : round lib o informers wsd objTest = none := by
  simp only [round, downsyncTest, apiGroup_refused_iff, refused_eq_true_iff]
  split
  · rfl
  · rename_i hGroup
    split
    · rfl
    · rename_i hResource
      apply if_pos
      intro hNs
      exact hReach ⟨not_not.mp hGroup, not_not.mp hResource, hNs⟩

theorem round_of_reaches (hReach : Reaches o objTest) :
    round lib o informers wsd objTest = match namespaceLabelsMatch lib informers wsd objTest o.ns with
      | (_, false, retry) => some (retry, retry)
      | (false, true, _) => none
      | (true, true, _) =>
        if !objTest.objectNames.isEmpty && !listed objTest.objectNames o.name then none
        else if !objTest.labelSelectors.isEmpty && !labelsMatchAny lib o.labels objTest.labelSelectors then none
        else some (true, true) := by
  refine (if_neg ?_).trans ((if_neg ?_).trans (if_neg ?_))
  · rw [apiGroup_refused_iff]
    exact not_not.mpr hReach.apiGroup
  · rw [refused_eq_true_iff]
    exact not_not.mpr hReach.resources
  · rw [refused_eq_true_iff]
    exact not_not.mpr hReach.namespaces

theorem round_eq_of_unknown (hReach : Reaches o objTest)
    (hNS : namespaceLabelsMatch lib informers wsd objTest o.ns = (nsMatch, false, retry)) :
    round lib o informers wsd objTest = some (retry, retry) := by
  rw [round_of_reaches hReach, hNS]

theorem round_eq_of_known (hNS : namespaceLabelsMatch lib informers wsd objTest o.ns = (nsMatch, true, retry)) :
    round lib o informers wsd objTest = some (true, true) ∧
        Reaches o objTest ∧ MeetsRest lib o objTest ∧ nsMatch = true ∨
      round lib o informers wsd objTest = none ∧ ¬ (Reaches o objTest ∧ MeetsRest lib o objTest ∧ nsMatch = true) := by
  by_cases hReach : Reaches o objTest
  · rw [round_of_reaches hReach, hNS]
    cases nsMatch with
    | false => simp
    | true =>
      have hRest : MeetsRest lib o objTest ↔ Acceptable objTest.objectNames o.name ∧
          (objTest.labelSelectors = [] ∨ SelectorsMatch lib o.labels objTest.labelSelectors) :=
        ⟨fun h => ⟨h.1, h.2⟩, fun h => ⟨h.1, h.2⟩⟩
      simp only [refused_eq_true_iff, hReach, hRest, ← labelsMatchAny_eq_true_iff]
      by_cases hName : Acceptable objTest.objectNames o.name
      · by_cases hSel : objTest.labelSelectors = []
        · simp [hName, hSel]
        · cases hLabels : labelsMatchAny lib o.labels objTest.labelSelectors <;> simp [hName, hSel]
      · simp [hName]
  · exact .inr ⟨round_of_not_reaches hReach, fun h => hReach h.1⟩

theorem round_of_verdict_known (hInfo : ∀ selectors, (namespaceInfo informers wsd o.ns).verdict lib selectors =
      (matched selectors, true, retry)) (objTest : DownsyncObjectTest Sel) :
    (round lib o informers wsd objTest = none ∨ round lib o informers wsd objTest = some (true, true)) ∧
    (round lib o informers wsd objTest = some (true, true) ↔ Reaches o objTest ∧ MeetsRest lib o objTest ∧
      (objTest.namespaceSelectors = [] ∨ matched objTest.namespaceSelectors = true)) := by
  have hNS := namespaceLabelsMatch_eq lib informers wsd objTest o.ns
  rw [hInfo] at hNS
  by_cases hSel : objTest.namespaceSelectors = []
  · rw [if_pos hSel] at hNS
    rcases round_eq_of_known hNS with ⟨hRound, hMet⟩ | ⟨hRound, hMet⟩ <;> simp [hRound, hSel] at hMet ⊢
    · exact hMet
    · exact hMet
  · rw [if_neg hSel] at hNS
    rcases round_eq_of_known hNS with ⟨hRound, hMet⟩ | ⟨hRound, hMet⟩ <;> simp [hRound, hSel] at hMet ⊢
    · exact hMet
    · exact hMet

theorem round_of_verdict_unknown
    (hInfo : ∀ selectors, (namespaceInfo informers wsd o.ns).verdict lib selectors = (false, false, retry))
    (objTest : DownsyncObjectTest Sel) :
    Reaches o objTest ∧ objTest.namespaceSelectors ≠ [] ∧ round lib o informers wsd objTest = some (retry, retry) ∨
      Reaches o objTest ∧ MeetsRest lib o objTest ∧ objTest.namespaceSelectors = [] ∧
        round lib o informers wsd objTest = some (true, true) ∨
      ¬ (Reaches o objTest ∧ (objTest.namespaceSelectors ≠ [] ∨ MeetsRest lib o objTest)) ∧
        round lib o informers wsd objTest = none := by
  have hNS := namespaceLabelsMatch_eq lib informers wsd objTest o.ns
  rw [hInfo] at hNS
  by_cases hReach : Reaches o objTest
  · by_cases hSel : objTest.namespaceSelectors = []
    · rw [if_pos hSel] at hNS
      rcases round_eq_of_known hNS with ⟨hRound, _, hRest, _⟩ | ⟨hRound, hMet⟩
      · exact .inr (.inl ⟨hReach, hRest, hSel, hRound⟩)
      · refine .inr (.inr ⟨?_, hRound⟩)
        rintro ⟨_, hNe | hRest⟩
        · exact hNe hSel
        · exact hMet ⟨hReach, hRest, rfl⟩
    · rw [if_neg hSel] at hNS
      exact .inl ⟨hReach, hSel, round_eq_of_unknown hReach hNS⟩
  · exact .inr (.inr ⟨fun h => hReach h.1, round_of_not_reaches hReach⟩)

theorem downsyncMatches_cases (hRounds : ∀ objTest ∈ downsync,
      round lib o informers wsd objTest = none ∨ round lib o informers wsd objTest = some (true, true)) :
    let answer := downsyncMatches lib informers wsd downsync o.resource o.group o.ns o.name o.labels
    let accepted := ∃ objTest ∈ downsync, round lib o informers wsd objTest = some (true, true)
    answer = (true, true) ∧ accepted ∨ answer = (false, true) ∧ ¬ accepted := by
  intro answer accepted
  cases hFind : downsync.findSome? (round lib o informers wsd) with
  | none =>
    right
    refine ⟨by simp only [answer, downsyncMatches, hFind], ?_⟩
    rintro ⟨objTest, hMem, hAccept⟩
    rw [List.findSome?_eq_none_iff.mp hFind objTest hMem] at hAccept
    cases hAccept
  | some found =>
    left
    obtain ⟨objTest, hMem, hRound⟩ := exists_of_findSome?_eq_some hFind
    have hFound : found = (true, true) := by
      rcases hRounds objTest hMem with h | h <;> rw [hRound] at h <;> cases h
      rfl
    subst hFound
    exact ⟨by simp only [answer, downsyncMatches, hFind], objTest, hMem, hRound⟩

theorem justified_iff {downsync : List (DownsyncObjectTest Sel)} {answer : Bool × Bool} {accepted : Prop}
    (hAnswer : answer = (true, true) ∧ accepted ∨ answer = (false, true) ∧ ¬ accepted) :
    Justified lib o informers wsd downsync answer ↔
      (accepted ↔ SomeSatisfied lib o (namespaceInfo informers wsd o.ns).labels downsync) ∧
      ¬ DependsOnNamespace lib o informers wsd downsync := by
  rcases hAnswer with ⟨rfl, hAcc⟩ | ⟨rfl, hAcc⟩
  · constructor
    · intro h
      exact ⟨⟨fun _ => h.match_sound rfl, fun _ => hAcc⟩, fun hDep => nomatch h.unknown_reported hDep⟩
    · rintro ⟨hIff, hDep⟩
      exact ⟨fun _ => hIff.mp hAcc, nofun, fun h => absurd h hDep⟩
  · constructor
    · intro h
      exact ⟨⟨fun hA => absurd hA hAcc, fun hS => absurd hS (h.mismatch_sound rfl)⟩,
        fun hDep => nomatch h.unknown_reported hDep⟩
    · rintro ⟨hIff, hDep⟩
      exact ⟨nofun, fun _ hS => hAcc (hIff.mpr hS), fun h => absurd h hDep⟩

theorem justified_iff_of_verdict_known (hInfo : ∀ selectors, (namespaceInfo informers wsd o.ns).verdict lib selectors =
      (matched selectors, true, retry)) :
    Justified lib o informers wsd downsync
        (downsyncMatches lib informers wsd downsync o.resource o.group o.ns o.name o.labels) ↔
      ((∃ objTest ∈ downsync, Reaches o objTest ∧ MeetsRest lib o objTest ∧
          (objTest.namespaceSelectors = [] ∨ matched objTest.namespaceSelectors = true)) ↔
        SomeSatisfied lib o (namespaceInfo informers wsd o.ns).labels downsync) ∧
      ¬ DependsOnNamespace lib o informers wsd downsync := by
  rw [justified_iff (downsyncMatches_cases downsync fun objTest _ => (round_of_verdict_known hInfo objTest).1)]
  simp only [(round_of_verdict_known hInfo _).2]

theorem someSatisfied_iff {downsync : List (DownsyncObjectTest Sel)} (hNS : o.ns ≠ "") :
    SomeSatisfied lib o nsLabels downsync ↔ ∃ objTest ∈ downsync, Reaches o objTest ∧
      MeetsRest lib o objTest ∧ (objTest.namespaceSelectors = [] ∨
        ∃ labels ∈ nsLabels, SelectorsMatch lib labels objTest.namespaceSelectors) := by
  simp only [SomeSatisfied, satisfied_iff hNS]

theorem justified_iff_of_clusterScoped (hNS : o.ns = "") : Justified lib o informers wsd downsync
        (downsyncMatches lib informers wsd downsync o.resource o.group o.ns o.name o.labels) ↔
      ((∃ objTest ∈ downsync, Reaches o objTest ∧ MeetsRest lib o objTest ∧
        (objTest.namespaceSelectors = [] ∨ SelectorsMatch lib ∅ objTest.namespaceSelectors)) →
        SomeSatisfied lib o none downsync) := by
  have hInfo := (namespaceInfo_eq_clusterScoped_iff informers wsd o.ns).mpr hNS
  rw [justified_iff_of_verdict_known downsync (by rw [hInfo]; exact fun _ => rfl), hInfo]
  simp only [labelsMatchAny_eq_true_iff, NamespaceInfo.labels]
  constructor
  · exact fun h => h.1.mp
  · intro h
    refine ⟨⟨h, ?_⟩, fun hDep => hDep.1 hNS⟩
    rintro ⟨objTest, hMem, hSat⟩
    exact ⟨objTest, hMem, hSat.reaches, hSat.meetsRest, hSat.selectors_empty_labels hNS⟩

variable (hNS : o.ns ≠ "")

include hNS

theorem justified_of_found {objNSR : MRObject} (hInfo : namespaceInfo informers wsd o.ns = .lookup (.found objNSR)) :
    Justified lib o informers wsd downsync
      (downsyncMatches lib informers wsd downsync o.resource o.group o.ns o.name o.labels) := by
  rw [justified_iff_of_verdict_known downsync (by rw [hInfo]; exact fun _ => rfl), someSatisfied_iff hNS, hInfo]
  refine ⟨?_, fun hDep => ?_⟩
  · simp [NamespaceInfo.labels, labelsMatchAny_eq_true_iff]
  · have hLabels := hDep.2.1
    rw [hInfo] at hLabels
    cases hLabels

theorem justified_iff_of_failed (hInfo : namespaceInfo informers wsd o.ns = .lookup .failed) :
    Justified lib o informers wsd downsync
        (downsyncMatches lib informers wsd downsync o.resource o.group o.ns o.name o.labels) ↔
      ¬ DependsOnNamespace lib o informers wsd downsync := by
  rw [justified_iff_of_verdict_known downsync (by rw [hInfo]; exact fun _ => rfl), someSatisfied_iff hNS, hInfo]
  simp [NamespaceInfo.labels]

theorem justified_iff_of_notFound (hInfo : namespaceInfo informers wsd o.ns = .lookup .notFound) :
    Justified lib o informers wsd downsync
        (downsyncMatches lib informers wsd downsync o.resource o.group o.ns o.name o.labels) ↔
      ((∃ objTest ∈ downsync, Reaches o objTest ∧ objTest.namespaceSelectors ≠ []) →
        SomeSatisfied lib o none downsync) := by
  have hRound := @round_of_verdict_unknown Sel lib o informers wsd true (by rw [hInfo]; exact fun _ => rfl)
  rw [justified_iff (downsyncMatches_cases downsync fun objTest _ => by
    rcases hRound objTest with h | h | h
    · exact .inr h.2.2
    · exact .inr h.2.2.2
    · exact .inl h.2), hInfo]
  constructor
  · rintro ⟨hIff, _⟩ ⟨objTest, hMem, hReach, hSel⟩
    refine hIff.mp ⟨objTest, hMem, ?_⟩
    rcases hRound objTest with h | h | h
    · exact h.2.2
    · exact h.2.2.2
    · exact absurd ⟨hReach, .inl hSel⟩ h.1
  · intro hGuard
    refine ⟨⟨?_, ?_⟩, ?_⟩
    · rintro ⟨objTest, hMem, hAccept⟩
      rcases hRound objTest with ⟨hReach, hSel, _⟩ | ⟨hReach, hRest, hSel, _⟩ | ⟨_, hNone⟩
      · exact hGuard ⟨objTest, hMem, hReach, hSel⟩
      · exact (someSatisfied_iff hNS).mpr ⟨objTest, hMem, hReach, hRest, .inl hSel⟩
      · rw [hNone] at hAccept
        cases hAccept
    · rintro ⟨objTest, hMem, hSat⟩
      refine ⟨objTest, hMem, ?_⟩
      rcases hRound objTest with h | h | h
      · exact h.2.2
      · exact h.2.2.2
      · exact absurd ⟨hSat.reaches, .inr hSat.meetsRest⟩ h.1
    · rintro ⟨_, _, hNone, labels, objTest, hMem, hSat⟩
      apply hNone
      by_cases hSel : objTest.namespaceSelectors = []
      · exact (someSatisfied_iff hNS).mpr ⟨objTest, hMem, hSat.reaches, hSat.meetsRest, .inl hSel⟩
      · exact hGuard ⟨objTest, hMem, hSat.reaches, hSel⟩

theorem justified_of_resourceUnknown (hInfo : namespaceInfo informers wsd o.ns = .resourceUnknown) :
    Justified lib o informers wsd downsync
      (downsyncMatches lib informers wsd downsync o.resource o.group o.ns o.name o.labels) := by
  have hRound := @round_of_verdict_unknown Sel lib o informers wsd false (by rw [hInfo]; exact fun _ => rfl)
  unfold downsyncMatches
  cases hFind : downsync.findSome? (round lib o informers wsd) with
  | none =>
    rw [List.findSome?_eq_none_iff] at hFind
    have hStop : ∀ objTest ∈ downsync,
        ¬ (Reaches o objTest ∧ (objTest.namespaceSelectors ≠ [] ∨ MeetsRest lib o objTest)) := by
      intro objTest hMem
      have hNone := hFind objTest hMem
      rcases hRound objTest with h | h | h
      · rw [h.2.2] at hNone
        cases hNone
      · rw [h.2.2.2] at hNone
        cases hNone
      · exact h.1
    refine ⟨nofun, ?_, ?_⟩
    · rintro _ ⟨objTest, hMem, hSat⟩
      exact hStop objTest hMem ⟨hSat.reaches, .inr hSat.meetsRest⟩
    · rintro ⟨_, _, _, labels, objTest, hMem, hSat⟩
      exact absurd ⟨hSat.reaches, .inr hSat.meetsRest⟩ (hStop objTest hMem)
  | some found =>
    obtain ⟨objTest, hMem, hFound⟩ := exists_of_findSome?_eq_some hFind
    rcases hRound objTest with h | h | h
    · rw [h.2.2] at hFound
      cases hFound
      exact ⟨nofun, nofun, fun _ => rfl⟩
    · rw [h.2.2.2] at hFound
      cases hFound
      have hSat : ∀ nsLabels, SomeSatisfied lib o nsLabels downsync := fun nsLabels =>
        (someSatisfied_iff hNS).mpr ⟨objTest, hMem, h.1, h.2.1, .inl h.2.2.1⟩
      exact ⟨fun _ => hSat _, nofun, fun hDep => absurd (hSat none) hDep.2.2.1⟩
    · rw [h.2] at hFound
      cases hFound

end Loop

/-- `downsyncMatches` answers as documented exactly under `AnswerGuard`. -/
theorem downsyncMatches_justified_iff (downsync : List (DownsyncObjectTest Sel)) :
    Justified lib o informers wsd downsync
        (downsyncMatches lib informers wsd downsync o.resource o.group o.ns o.name o.labels) ↔
      AnswerGuard lib o informers wsd downsync := by
  by_cases hNS : o.ns = ""
  · rw [justified_iff_of_clusterScoped downsync hNS, AnswerGuard,
      (namespaceInfo_eq_clusterScoped_iff informers wsd o.ns).mpr hNS]
  · unfold AnswerGuard
    cases hInfo : namespaceInfo informers wsd o.ns with
    | clusterScoped => exact absurd ((namespaceInfo_eq_clusterScoped_iff informers wsd o.ns).mp hInfo) hNS
    | resourceUnknown => exact iff_of_true (justified_of_resourceUnknown downsync hNS hInfo) trivial
    | lookup result =>
      cases result with
      | found objNSR => exact iff_of_true (justified_of_found downsync hNS hInfo) trivial
      | notFound => exact justified_iff_of_notFound downsync hNS hInfo
      | failed => exact justified_iff_of_failed downsync hNS hInfo

/-- A space in which the resource of Namespaces is being watched. -/
def watchingNamespaces : WorkspaceDetails (List (String × String)) where
  placements := ∅
  resources := GoMap.ofList [(":v1:namespaces", ⟨⟨"", "v1", "namespaces"⟩, ∅, []⟩)]
  gkToARName := GoMap.ofList [(⟨"", "Namespace"⟩, ":v1:namespaces")]

def emptyCaches : Informers := fun _ => ⟨fun _ => .notFound, []⟩

/-- The Namespace `apps` is not in the cache yet and the only test asks for a label of it. -/
theorem downsyncMatches_not_justified :
    ¬ Justified SelectorLibrary.matchLabels ⟨"configmaps", "", "apps", "settings", ∅⟩ emptyCaches
      watchingNamespaces [⟨none, [], [], [[("env", "prod")]], [], []⟩]
      (downsyncMatches SelectorLibrary.matchLabels emptyCaches watchingNamespaces
        [⟨none, [], [], [[("env", "prod")]], [], []⟩] "configmaps" "" "apps" "settings" ∅) := by
  intro h
  have hAnswer : downsyncMatches SelectorLibrary.matchLabels emptyCaches watchingNamespaces
      [⟨none, [], [], [[("env", "prod")]], [], []⟩] "configmaps" "" "apps" "settings" ∅ =
      (true, true) := by decide
  obtain ⟨objTest, hMem, hSat⟩ := h.match_sound hAnswer
  have hTest := mem_singleton.mp hMem
  rcases hSat.namespaceSelectors with hSel | ⟨hNS, _⟩ | ⟨_, labels, hLabels, _⟩
  · rw [hTest] at hSel
    cases hSel
  · exact absurd hNS (by decide)
  · have hNone : (namespaceInfo emptyCaches watchingNamespaces "apps").labels = none := by rfl
    rw [hNone] at hLabels
    cases hLabels

end KubeStellar.WhatResolver
