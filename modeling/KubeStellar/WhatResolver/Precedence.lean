import KubeStellar.WhatResolver.Criteria

/-! # Precedence of upsync over downsync

An object that matches both the downsync and the upsync of an EdgePlacement is upsynced, exactly where it makes no
difference that `upsyncMatches` looks for the namespace and the name among the resources.
-/

namespace KubeStellar.WhatResolver

/-- The documented membership in an `UpsyncSet`. -/
structure InUpsyncSet (o : Subject) (objTest : UpsyncSet) : Prop where
  apiGroup : objTest.apiGroup = o.group
  resources : "*" ∈ objTest.resources ∨ o.resource ∈ objTest.resources
  namespaces : o.ns = "" ∨ "*" ∈ objTest.namespaces ∨ o.ns ∈ objTest.namespaces
  names : "*" ∈ objTest.names ∨ o.name ∈ objTest.names

/-- The set has the object's group and resource and lists its namespace and its name, if not by `*`,
among the resources. -/
structure NamedAmongResources (o : Subject) (objTest : UpsyncSet) : Prop where
  apiGroup : objTest.apiGroup = o.group
  resources : "*" ∈ objTest.resources ∨ o.resource ∈ objTest.resources
  namespaces : o.ns = "" ∨ "*" ∈ objTest.namespaces ∨ o.ns ∈ objTest.resources
  names : "*" ∈ objTest.names ∨ o.name ∈ objTest.resources

theorem upsyncMatches_eq_true_iff (o : Subject) (upsync : List UpsyncSet) :
    upsyncMatches upsync o.resource o.group o.ns o.name = true ↔
      ∃ objTest ∈ upsync, NamedAmongResources o objTest := by
  rw [upsyncMatches, List.any_eq_true]
  refine exists_congr fun objTest => and_congr_right fun _ => ?_
  have hFields : NamedAmongResources o objTest ↔ objTest.apiGroup = o.group ∧
      listed objTest.resources o.resource = true ∧
      (o.ns = "" ∨ "*" ∈ objTest.namespaces ∨ o.ns ∈ objTest.resources) ∧
      ("*" ∈ objTest.names ∨ o.name ∈ objTest.resources) := by
    rw [listed_eq_true_iff]
    exact ⟨fun h => ⟨h.1, h.2, h.3, h.4⟩, fun h => ⟨h.1, h.2.1, h.2.2.1, h.2.2.2⟩⟩
  rw [hFields]
  by_cases hGroup : objTest.apiGroup = o.group
  · cases hResource : listed objTest.resources o.resource with
    | false => simp [hGroup]
    | true =>
      by_cases hNS : o.ns = "" ∨ "*" ∈ objTest.namespaces ∨ o.ns ∈ objTest.resources
      · simp
      · simp
  · simp [hGroup]

variable {Sel : Type} (lib : SelectorLibrary Sel) (informers : Informers) (wsd : WorkspaceDetails Sel)
  (spec : EdgePlacementSpec Sel) (whatResource : String) (whatObj : MRObject)

/-- Some downsync test of the spec has all its criteria satisfied. -/
def DownsyncSatisfied : Prop :=
  SomeSatisfied lib (subject whatResource whatObj)
    (namespaceInfo informers wsd whatObj.objectMeta.ns).labels spec.downsync

def DownsyncComputable : Prop :=
  ∃ mtch, downsyncMatches lib informers wsd spec.downsync whatResource whatObj.group
      whatObj.objectMeta.ns whatObj.objectMeta.name whatObj.objectMeta.labels = (mtch, true) ∧
    (mtch = true ↔ DownsyncSatisfied lib informers wsd spec whatResource whatObj)

variable {lib informers wsd spec whatResource whatObj}

theorem whatMatches_eq_true_iff (hSystem : objectIsSystem whatObj = false)
    (hComp : DownsyncComputable lib informers wsd spec whatResource whatObj) :
    whatMatches lib informers wsd spec whatResource whatObj = (true, true) ↔
      DownsyncSatisfied lib informers wsd spec whatResource whatObj ∧
        ¬ ∃ objTest ∈ spec.upsync, NamedAmongResources (subject whatResource whatObj) objTest := by
  obtain ⟨mtch, hAnswer, hMatch⟩ := hComp
  rw [← hMatch, ← upsyncMatches_eq_true_iff]
  simp only [whatMatches, hSystem, hAnswer, subject]
  cases mtch <;> simp

/-- Upsync has its documented precedence exactly when, for an object that downsync selects, the
listing of its namespace and name among the resources comes to membership in an `UpsyncSet`. -/
theorem whatMatches_precedence_iff (hSystem : objectIsSystem whatObj = false)
    (hComputable : DownsyncComputable lib informers wsd spec whatResource whatObj) :
    (whatMatches lib informers wsd spec whatResource whatObj = (true, true) ↔
      DownsyncSatisfied lib informers wsd spec whatResource whatObj ∧
        ¬ ∃ objTest ∈ spec.upsync, InUpsyncSet (subject whatResource whatObj) objTest) ↔
    (DownsyncSatisfied lib informers wsd spec whatResource whatObj →
      ((∃ objTest ∈ spec.upsync, InUpsyncSet (subject whatResource whatObj) objTest) ↔
        ∃ objTest ∈ spec.upsync, NamedAmongResources (subject whatResource whatObj) objTest)) := by
  rw [whatMatches_eq_true_iff hSystem hComputable]
  by_cases hDownsync : DownsyncSatisfied lib informers wsd spec whatResource whatObj
  · simp only [hDownsync, true_and, true_implies]
    exact not_iff_not.trans Iff.comm
  · simp only [hDownsync, false_and, iff_self, false_implies]

def settings : MRObject := ⟨"", "v1", "ConfigMap", ⟨"settings", "apps", ∅, ∅⟩, ""⟩

/-- Downsync of all ConfigMaps and upsync of the one called `settings` in the namespace `apps`. -/
def upsyncSettings : EdgePlacementSpec (List (String × String)) where
  locationSelectors := []
  downsync := [⟨some "", ["configmaps"], [], [], [], []⟩]
  wantSingletonReportedState := false
  upsync := [⟨"", ["configmaps"], ["apps"], ["settings"]⟩]

theorem downsyncSatisfied_settings :
    DownsyncSatisfied SelectorLibrary.matchLabels emptyCaches watchingNamespaces upsyncSettings
      "configmaps" settings :=
  ⟨_, List.mem_singleton_self _, by simp [subject, settings], by decide, .inl rfl, .inl rfl, by decide, .inl rfl⟩

theorem downsyncComputable_settings :
    DownsyncComputable SelectorLibrary.matchLabels emptyCaches watchingNamespaces upsyncSettings
      "configmaps" settings :=
  ⟨true, by decide, iff_of_true rfl downsyncSatisfied_settings⟩

theorem whatMatches_precedence_iff_settings : objectIsSystem settings = false ∧
    ((whatMatches SelectorLibrary.matchLabels emptyCaches watchingNamespaces upsyncSettings "configmaps"
        settings = (true, true) ↔
      DownsyncSatisfied SelectorLibrary.matchLabels emptyCaches watchingNamespaces upsyncSettings
        "configmaps" settings ∧
        ¬ ∃ objTest ∈ upsyncSettings.upsync, InUpsyncSet (subject "configmaps" settings) objTest) ↔
    (DownsyncSatisfied SelectorLibrary.matchLabels emptyCaches watchingNamespaces upsyncSettings
        "configmaps" settings →
      ((∃ objTest ∈ upsyncSettings.upsync, InUpsyncSet (subject "configmaps" settings) objTest) ↔
        ∃ objTest ∈ upsyncSettings.upsync, NamedAmongResources (subject "configmaps" settings) objTest))) :=
  ⟨by decide, whatMatches_precedence_iff (by decide) downsyncComputable_settings⟩

/-- The ConfigMap is in the `UpsyncSet` and is downsynced all the same. -/
theorem whatMatches_precedence_fails : objectIsSystem settings = false ∧
    DownsyncComputable SelectorLibrary.matchLabels emptyCaches watchingNamespaces upsyncSettings
      "configmaps" settings ∧
    ¬ (whatMatches SelectorLibrary.matchLabels emptyCaches watchingNamespaces upsyncSettings "configmaps"
        settings = (true, true) ↔
      DownsyncSatisfied SelectorLibrary.matchLabels emptyCaches watchingNamespaces upsyncSettings
        "configmaps" settings ∧
        ¬ ∃ objTest ∈ upsyncSettings.upsync, InUpsyncSet (subject "configmaps" settings) objTest) := by
  refine ⟨by decide, downsyncComputable_settings, fun hIff => ?_⟩
  refine (hIff.mp (by decide)).2 ⟨_, List.mem_singleton_self _, rfl, ?_, ?_, ?_⟩ <;> decide

end KubeStellar.WhatResolver
