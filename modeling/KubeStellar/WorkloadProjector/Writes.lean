import KubeStellar.WorkloadProjector.State

/-! # What the writes of a transaction record

A destination is noted when a distribution to it is written, and when it gets its first mode of a scope or
loses its last one.
-/

namespace KubeStellar.WorkloadProjector

open FactoredMap

variable (destination : SinglePlacement)

def DistributesTo : SectionWrite → Prop
  | .namespacedObjectDistributions (.put tuple _) => tuple.1.destination = destination
  | .namespacedObjectDistributions (.delete tuple) => tuple.1.destination = destination
  | .nonNamespacedObjectDistributions (.put tuple _) => tuple.1.destination = destination
  | .nonNamespacedObjectDistributions (.delete tuple) => tuple.1.destination = destination
  | _ => False

def PutsTo : SectionWrite → Prop
  | .namespacedObjectDistributions (.put tuple _) => tuple.1.destination = destination
  | .nonNamespacedObjectDistributions (.put tuple _) => tuple.1.destination = destination
  | _ => False

def Toggled {Obj : Type} (maps maps' : ScopeMaps Obj) (destination : SinglePlacement) : Prop :=
  (maps.modesForSync.index destination).isSome ≠ (maps'.modesForSync.index destination).isSome

def Noted (tx : Transaction) (write : SectionWrite) (destination : SinglePlacement) : Prop :=
  DistributesTo destination write ∨ Toggled tx.ns (tx.apply write).ns destination ∨
    Toggled tx.nns (tx.apply write).nns destination

def Touched (tx : Transaction) : List SectionWrite → SinglePlacement → Prop
  | [], _ => False
  | write :: rest, destination => Noted tx write destination ∨ Touched (tx.apply write) rest destination

/-- There is a record of every destination to which something is distributed. -/
structure Recorded (tx : Transaction) : Prop where
  ns : ∀ destination, tx.ns.distributionsForSync.index destination ≠ none →
    tx.records.perDestination.has destination = true
  nns : ∀ destination, tx.nns.distributionsForSync.index destination ≠ none →
    tx.records.perDestination.has destination = true

structure ScopeStep {Obj : Type} (maps maps' : ScopeMaps Obj) (records records' : Records)
    (noted puts : SinglePlacement → Prop) : Prop where
  changed : ∀ d, records'.changedDestinations.has d = true ↔
    records.changedDestinations.has d = true ∨ noted d
  recorded : (∀ d, maps.distributionsForSync.index d ≠ none → records.perDestination.has d = true) →
    ∀ d, records'.perDestination.has d = true ↔ records.perDestination.has d = true ∨ puts d
  kept : ∀ d, ¬ noted d → maps'.distributionsForSync.index d = maps.distributionsForSync.index d
  covered : ∀ d, maps'.distributionsForSync.index d ≠ none →
    maps.distributionsForSync.index d ≠ none ∨ puts d

variable {Obj : Type} (maps : ScopeMaps Obj)

section Distributions

variable [DecidableEq Obj]

theorem has_add_iff {Elt : Type} [DecidableEq Elt] (set : MapSet Elt) (elt elt' : Elt) :
    (set.add elt).has elt' = true ↔ set.has elt' = true ∨ elt = elt' := by
  rw [show set.add elt = set.addAll [elt] from rfl, MapSet.has_addAll_iff, List.mem_singleton, or_comm,
    @eq_comm _ elt']

open Records

variable (records : Records)

@[simp] theorem Records.addSource_perDestination (source : String) :
    (records.addSource source).perDestination = records.perDestination := by
  rw [addSource]
  split <;> rfl

@[simp] theorem Records.addSource_changedDestinations (source : String) :
    (records.addSource source).changedDestinations = records.changedDestinations := by
  rw [addSource]
  split <;> rfl

@[simp] theorem Records.addDestination_changedDestinations (destination : SinglePlacement) :
    (records.addDestination destination).changedDestinations = records.changedDestinations := by
  rw [addDestination]
  split <;> rfl

theorem Records.addDestination_has_iff (destination d : SinglePlacement) :
    (records.addDestination destination).perDestination.has d = true ↔
      records.perDestination.has d = true ∨ destination = d := by
  rw [addDestination]
  split
  · rename_i hHas
    refine ⟨.inl, ?_⟩
    rintro (h | rfl)
    · exact h
    · exact hHas
  · by_cases hKey : d = destination <;> simp [GoMap.has, hKey, @eq_comm _ destination]

variable (dist : Distribution Obj) (bits : DistributionBits)

theorem putDistribution_changed : (putDistribution maps records dist bits).2.changedDestinations =
      records.changedDestinations.add dist.destination := by
  simp only [putDistribution, apply_ite changedDestinations, addSource_changedDestinations,
    addDestination_changedDestinations, ite_self]
  rfl

theorem putDistribution_perDestination : (putDistribution maps records dist bits).2.perDestination =
      if (maps.distributionsForSync.index dist.destination).isSome then records.perDestination
      else ((records.recordParts dist.destination dist.source).addDestination dist.destination).perDestination := by
  simp only [putDistribution, apply_ite perDestination, addSource_perDestination, ite_self]
  rfl

theorem putDistribution_step :
    ScopeStep maps (putDistribution maps records dist bits).1 records (putDistribution maps records dist bits).2
      (fun d => dist.destination = d) (fun d => dist.destination = d) := by
  have hKept : ∀ d, dist.destination ≠ d →
      (putDistribution maps records dist bits).1.distributionsForSync.index d = maps.distributionsForSync.index d :=
    fun d hNe => (index_put _ _ _ _ _).trans (if_neg hNe.symm)
  constructor
  · intro d
    rw [putDistribution_changed]
    exact has_add_iff _ _ _
  · intro hRec d
    rw [putDistribution_perDestination]
    split
    · rename_i hSome
      refine ⟨.inl, ?_⟩
      rintro (h | rfl)
      · exact h
      · exact hRec _ (Option.isSome_iff_ne_none.mp hSome)
    · exact addDestination_has_iff _ _ _
  · exact hKept
  · intro d hIndex
    by_cases hDest : dist.destination = d
    · exact .inr hDest
    · exact .inl (hKept d hDest ▸ hIndex)

theorem deleteDistribution_step :
    ScopeStep maps (deleteDistribution maps records dist).1 records (deleteDistribution maps records dist).2
      (fun d => dist.destination = d) (fun _ => False) := by
  have hKept : ∀ d, dist.destination ≠ d →
      (deleteDistribution maps records dist).1.distributionsForSync.index d = maps.distributionsForSync.index d :=
    fun d hNe => index_delete_of_ne _ _ hNe.symm
  constructor
  · intro d
    exact has_add_iff _ _ _
  · intro _ d
    rw [or_false]
    rfl
  · exact hKept
  · intro d hIndex
    exact .inl fun hNone => hIndex (index_delete_of_none hNone)

end Distributions

variable (records : Records) (write : MapWrite ProjectionModeKey ProjectionModeVal)

theorem writeMode_distributionsForSync :
    (writeMode maps records write).1.distributionsForSync = maps.distributionsForSync := by
  cases write <;> rfl

theorem writeMode_perDestination : (writeMode maps records write).2.perDestination = records.perDestination := by
  cases write with
  | put key val => simp only [writeMode, Records.noteModeWrite, if_true]; split <;> rfl
  | delete key => simp only [writeMode, Records.noteModeWrite]; split <;> rfl

theorem noteModeWrite_has_iff (add told : Bool) (destination d : SinglePlacement) :
    (if told then records.noteModeWrite add destination else records).changedDestinations.has d = true ↔
      records.changedDestinations.has d = true ∨ told = true ∧ destination = d := by
  cases told with
  | false => simp
  | true =>
    have hNote : (records.noteModeWrite add destination).changedDestinations =
        records.changedDestinations.add destination := by
      cases add <;> rfl
    rw [if_pos rfl, hNote, has_add_iff]
    simp

theorem writeMode_changed (d : SinglePlacement) :
    (writeMode maps records write).2.changedDestinations.has d = true ↔
      records.changedDestinations.has d = true ∨ Toggled maps (writeMode maps records write).1 d := by
  cases write with
  | put key val =>
    refine (noteModeWrite_has_iff _ _ _ _ _).trans (or_congr_right ?_)
    by_cases hDest : key.destination = d
    · subst hDest
      cases hIndex : maps.modesForSync.index key.destination <;> simp [Toggled, writeMode, index_put, hIndex]
    · simp [Toggled, writeMode, index_put, hDest, Ne.symm hDest]
  | delete key =>
    refine (noteModeWrite_has_iff _ _ _ _ _).trans (or_congr_right ?_)
    by_cases hDest : key.destination = d
    · subst hDest
      cases hIndex : maps.modesForSync.index key.destination with
      | none => simp [Toggled, writeMode, index_delete_of_none hIndex, hIndex]
      | some modes =>
        cases hAfter : (maps.modesForSync.delete key.destination key.groupResource).index key.destination <;>
          simp [Toggled, writeMode, hIndex, hAfter]
    · have hKept := index_delete_of_ne maps.modesForSync key.groupResource (Ne.symm hDest)
      simp [Toggled, writeMode, hKept, hDest]

theorem writeMode_step :
    ScopeStep maps (writeMode maps records write).1 records (writeMode maps records write).2
      (Toggled maps (writeMode maps records write).1) (fun _ => False) := by
  constructor
  · exact writeMode_changed maps records write
  · intro _ d
    rw [writeMode_perDestination, or_false]
  · intro d _
    rw [writeMode_distributionsForSync]
  · intro d hIndex
    rw [writeMode_distributionsForSync] at hIndex
    exact .inl hIndex

structure TransactionStep (tx tx' : Transaction) (noted puts : SinglePlacement → Prop) : Prop where
  changed : ∀ d, tx'.records.changedDestinations.has d = true ↔
    tx.records.changedDestinations.has d = true ∨ noted d
  recorded : Recorded tx →
    ∀ d, tx'.records.perDestination.has d = true ↔ tx.records.perDestination.has d = true ∨ puts d
  kept_ns : ∀ d, ¬ noted d → tx'.ns.distributionsForSync.index d = tx.ns.distributionsForSync.index d
  kept_nns : ∀ d, ¬ noted d → tx'.nns.distributionsForSync.index d = tx.nns.distributionsForSync.index d
  covered_ns : ∀ d, tx'.ns.distributionsForSync.index d ≠ none →
    tx.ns.distributionsForSync.index d ≠ none ∨ puts d
  covered_nns : ∀ d, tx'.nns.distributionsForSync.index d ≠ none →
    tx.nns.distributionsForSync.index d ≠ none ∨ puts d

variable {tx : Transaction} {records : Records} {noted puts : SinglePlacement → Prop}

theorem TransactionStep.of_ns {ns : ScopeMaps NamespacedName}
    (hStep : ScopeStep tx.ns ns tx.records records noted puts) :
    TransactionStep tx { tx with ns := ns, records := records } noted puts where
  changed := hStep.changed
  recorded hRec := hStep.recorded hRec.ns
  kept_ns := hStep.kept
  kept_nns _ _ := rfl
  covered_ns := hStep.covered
  covered_nns _ := .inl

theorem TransactionStep.of_nns {nns : ScopeMaps ObjectName}
    (hStep : ScopeStep tx.nns nns tx.records records noted puts) :
    TransactionStep tx { tx with nns := nns, records := records } noted puts where
  changed := hStep.changed
  recorded hRec := hStep.recorded hRec.nns
  kept_ns _ _ := rfl
  kept_nns := hStep.kept
  covered_ns _ := .inl
  covered_nns := hStep.covered

variable {tx' : Transaction}

theorem TransactionStep.congr {noted' puts' : SinglePlacement → Prop} (hStep : TransactionStep tx tx' noted puts)
    (hNoted : ∀ d, noted' d ↔ noted d) (hPuts : ∀ d, puts' d ↔ puts d) : TransactionStep tx tx' noted' puts' := by
  obtain rfl : noted' = noted := funext fun d => propext (hNoted d)
  obtain rfl : puts' = puts := funext fun d => propext (hPuts d)
  exact hStep

open Transaction TransactionStep

theorem apply_step (tx : Transaction) (write : SectionWrite) :
    TransactionStep tx (tx.apply write) (Noted tx write) (fun d => PutsTo d write) := by
  cases write with
  | namespacedObjectDistributions write =>
    cases write with
    | put tuple bits =>
      refine (of_ns (putDistribution_step tx.ns tx.records _ bits)).congr ?_ fun _ => Iff.rfl
      intro d
      simp [Noted, DistributesTo, Toggled, apply, writeDistribution, putDistribution,
        factorNamespacedDistributionTuple]
    | delete tuple =>
      refine (of_ns (deleteDistribution_step tx.ns tx.records _)).congr ?_ fun _ => Iff.rfl
      intro d
      simp [Noted, DistributesTo, Toggled, apply, writeDistribution, deleteDistribution,
        factorNamespacedDistributionTuple]
  | namespacedModes write =>
    refine (of_ns (writeMode_step tx.ns tx.records write)).congr ?_ fun _ => Iff.rfl
    intro d
    simp [Noted, DistributesTo, Toggled, apply]
  | nonNamespacedObjectDistributions write =>
    cases write with
    | put tuple bits =>
      refine (of_nns (putDistribution_step tx.nns tx.records _ bits)).congr ?_ fun _ => Iff.rfl
      intro d
      simp [Noted, DistributesTo, Toggled, apply, writeDistribution, putDistribution,
        factorNonNamespacedDistributionTuple]
    | delete tuple =>
      refine (of_nns (deleteDistribution_step tx.nns tx.records _)).congr ?_ fun _ => Iff.rfl
      intro d
      simp [Noted, DistributesTo, Toggled, apply, writeDistribution, deleteDistribution,
        factorNonNamespacedDistributionTuple]
  | nonNamespacedModes write =>
    refine (of_nns (writeMode_step tx.nns tx.records write)).congr ?_ fun _ => Iff.rfl
    intro d
    simp [Noted, DistributesTo, Toggled, apply]
  | upsyncs write =>
    cases write <;> constructor <;> intros <;> simp_all [Noted, DistributesTo, Toggled, apply, PutsTo]

theorem TransactionStep.recorded_after (hStep : TransactionStep tx tx' noted puts) (hRec : Recorded tx) :
    Recorded tx' where
  ns d hIndex := (hStep.recorded hRec d).mpr ((hStep.covered_ns d hIndex).imp (hRec.ns d) id)
  nns d hIndex := (hStep.recorded hRec d).mpr ((hStep.covered_nns d hIndex).imp (hRec.nns d) id)

variable (writes : List SectionWrite)

theorem foldl_apply_changed (tx : Transaction) (d : SinglePlacement) :
    (writes.foldl apply tx).records.changedDestinations.has d = true ↔
      tx.records.changedDestinations.has d = true ∨ Touched tx writes d := by
  induction writes generalizing tx with
  | nil => simp [Touched]
  | cons write rest ih => rw [List.foldl_cons, ih, (apply_step tx write).changed, Touched, or_assoc]

theorem foldl_apply_recorded (hRec : Recorded tx) : Recorded (writes.foldl apply tx) := by
  induction writes generalizing tx with
  | nil => exact hRec
  | cons write rest ih => exact ih ((apply_step tx write).recorded_after hRec)

theorem foldl_apply_perDestination (hRec : Recorded tx) (d : SinglePlacement) :
    (writes.foldl apply tx).records.perDestination.has d = true ↔
      tx.records.perDestination.has d = true ∨ ∃ write ∈ writes, PutsTo d write := by
  induction writes generalizing tx with
  | nil => simp
  | cons write rest ih =>
    rw [List.foldl_cons, ih ((apply_step tx write).recorded_after hRec), (apply_step tx write).recorded hRec,
      List.exists_mem_cons_iff, or_assoc]

theorem foldl_apply_kept {d : SinglePlacement} (hTouched : ¬ Touched tx writes d) :
    (writes.foldl apply tx).ns.distributionsForSync.index d = tx.ns.distributionsForSync.index d ∧
      (writes.foldl apply tx).nns.distributionsForSync.index d = tx.nns.distributionsForSync.index d := by
  induction writes generalizing tx with
  | nil => exact ⟨rfl, rfl⟩
  | cons write rest ih =>
    rw [Touched, not_or] at hTouched
    obtain ⟨hNoted, hRest⟩ := hTouched
    obtain ⟨hNs, hNns⟩ := ih hRest
    exact ⟨hNs.trans ((apply_step tx write).kept_ns d hNoted), hNns.trans ((apply_step tx write).kept_nns d hNoted)⟩

end KubeStellar.WorkloadProjector
