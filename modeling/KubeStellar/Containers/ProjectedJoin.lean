import KubeStellar.Containers.DynamicJoin
import KubeStellar.Containers.IndexedSet
import Mathlib.Logic.Equiv.Prod

/-! # Runs of the projected join

`NewDynamicJoin12with13` of `pkg/placement/join-dynamic-12with13.go`. The two inputs of the full join are kept in
relations over hash maps. What it tells goes to a projector, which tells a pair when its first triple comes and when
its last one goes.
-/

namespace KubeStellar

open List

namespace IndexedSet

variable {T K V S M O : Type} {ix : Indexing T K V S M} (gi : IndexedSet ix)

def writeTuple : SetWrite T → IndexedSet ix × Bool
  | .add tup => ((gi.add tup).1, (gi.add tup).2.1)
  | .remove tup => ((gi.remove tup).1, (gi.remove tup).2.1)

theorem has_writeTuple {same : T → T → Bool} (hSame : ∀ t t', same t t' = true ↔ ix.tupleEq t t') (gi : IndexedSet ix)
    (w : SetWrite T) : (gi.writeTuple w).1.has = w.onUpTo same gi.has := by
  funext t
  rw [SetWrite.onUpTo, Bool.eq_iff_iff]
  cases w with
  | add tup =>
    rw [writeTuple, has_add_iff, ← hSame, SetWrite.elt]
    cases same t tup <;> simp [SetWrite.isAdd]
  | remove tup =>
    rw [writeTuple, has_remove_iff, ← hSame, SetWrite.elt]
    cases same t tup <;> simp [SetWrite.isAdd]

theorem relation2WithObservers_told (inner : IndexedSet ix) (observer : SetWrite T → List O) (w : SetWrite T) :
    (relation2WithObservers writeTuple inner observer w).2 = if inner.has w.elt = w.isAdd then [] else observer w := by
  cases w with
  | add tup =>
    rw [relation2WithObservers, writeTuple, add_changed, SetWrite.elt]
    cases inner.has tup <;> rfl
  | remove tup =>
    rw [relation2WithObservers, writeTuple, remove_changed, SetWrite.elt]
    cases inner.has tup <;> rfl

theorem has_iff_visit1to2 (key : K) (val : V) : gi.has (ix.factoring.symm (key, val)) = true ↔
    ∃ val' ∈ gi.getIndex1to2.visit1to2 key, ix.valEq val' val := by
  rw [has_iff, Equiv.apply_symm_apply]
  simp only [getIndex1to2]
  cases ix.rep.get gi.rep key with
  | none => simp
  | some valSet => simp [ix.vals_lawful.has_iff, and_comm]

theorem visit1to2_distinct (key : K) :
    (gi.getIndex1to2.visit1to2 key).Pairwise fun val val' => ¬ ix.valEq val val' := by
  simp only [getIndex1to2]
  split
  · exact ix.vals_lawful.visit_distinct _
  · exact List.Pairwise.nil

end IndexedSet

variable {X Y Z : Type} {dX : HashDomain X} {dY : HashDomain Y} {dZ : HashDomain Z} {hX : dX.Lawful} {hY : dY.Lawful}
  {hZ : dZ.Lawful} (gi : IndexedSet (hashRelation2 hX hY))

structure HashJoin (hX : dX.Lawful) (hY : dY.Lawful) (hZ : dZ.Lawful) where
  xyReln : IndexedSet (hashRelation2 hX hY)
  xzReln : IndexedSet (hashRelation2 hX hZ)

namespace HashJoin

def start (hX : dX.Lawful) (hY : dY.Lawful) (hZ : dZ.Lawful) : HashJoin hX hY hZ := ⟨.empty _, .empty _⟩

variable (dj : HashJoin hX hY hZ)

def step : SetWrite (X × Y) ⊕ SetWrite (X × Z) → HashJoin hX hY hZ × List (SetWrite (X × Y × Z))
  | .inl w =>
    let told := relation2WithObservers IndexedSet.writeTuple dj.xyReln
      (extrapolateFwd1 dj.xzReln.getIndex1to2.visit1to2) w
    ({ dj with xyReln := told.1 }, told.2)
  | .inr w =>
    let told := relation2WithObservers IndexedSet.writeTuple dj.xzReln
      (fun w => (extrapolateFwd1 dj.xyReln.getIndex1to2.visit1to2 w).map (SetWrite.mapElt tripleReverse23)) w
    ({ dj with xzReln := told.1 }, told.2)

def join (tup : X × Y × Z) : Bool :=
  dj.xyReln.has (tup.1, tup.2.1) && dj.xzReln.has (tup.1, tup.2.2)

theorem pairEqual_iff (t t' : X × Y) :
    (pairHashDomain dX dY).equal t t' = true ↔ (hashRelation2 hX hY).tupleEq t t' := pairHashDomain_equal_iff t t'

open IndexedSet

theorem has_congr {t t' : X × Y} (hSame : (pairHashDomain dX dY).equal t t' = true) : gi.has t = gi.has t' :=
  (setOps_lawful _).has_congr gi ((pairEqual_iff t t').mp hSame)

theorem has_iff_of_equal {x x' : X} (hSame : dX.equal x x' = true) (y : Y) :
    gi.has (x, y) = true ↔ ∃ y' ∈ gi.getIndex1to2.visit1to2 x', dY.equal y y' = true := by
  rw [has_congr gi ((pairHashDomain_equal_iff (x, y) (x', y)).mpr ⟨hSame, hY.equiv.refl y⟩)]
  refine (gi.has_iff_visit1to2 x' y).trans (exists_congr fun y' => and_congr_right fun _ => ?_)
  exact ⟨fun hEq => hY.equiv.symm hEq, fun hEq => hY.equiv.symm hEq⟩

theorem visit1to2_distinct (x : X) : (gi.getIndex1to2.visit1to2 x).Pairwise fun y y' => dY.equal y y' = false :=
  (gi.visit1to2_distinct x).imp fun hNe => Bool.eq_false_iff.mpr hNe

/-- The second column split off, as in a call on the second input. -/
def tripleFactorerTo13and2 (X Y Z : Type) : X × Y × Z ≃ (X × Z) × Y where
  toFun tup := ((tup.1, tup.2.2), tup.2.1)
  invFun tup := (tup.1.1, tup.2, tup.1.2)
  left_inv _ := rfl
  right_inv _ := rfl

theorem step_exact (input : SetWrite (X × Y) ⊕ SetWrite (X × Z)) :
    SetWrite.ExactUpTo (tripleHashDomain dX dY dZ).equal dj.join (dj.step input).1.join (dj.step input).2 := by
  cases input with
  | inl w =>
    have hExact := SetWrite.ExactUpTo.extrapolate (L := dj.xyReln.has)
      (R := fun xy z => dj.xzReln.has (xy.1, z)) (w := w)
      (tripleHashDomain dX dY dZ).equal (pairHashDomain dX dY).equal dZ.equal (Equiv.prodAssoc X Y Z).symm
      (fun _ _ => rfl) (fun t hSame => has_congr dj.xyReln hSame)
      (fun t z hSame => has_iff_of_equal dj.xzReln ((pairHashDomain_equal_iff _ _).mp hSame).1 z)
      (visit1to2_distinct dj.xzReln _)
    rw [← has_writeTuple pairEqual_iff dj.xyReln] at hExact
    simp only [step, relation2WithObservers_told]
    exact hExact
  | inr w =>
    have hExact := SetWrite.ExactUpTo.extrapolate (L := dj.xzReln.has)
      (R := fun xz y => dj.xyReln.has (xz.1, y)) (w := w)
      (tripleHashDomain dX dY dZ).equal (pairHashDomain dX dZ).equal dY.equal (tripleFactorerTo13and2 X Y Z)
      (fun _ _ => Bool.and_right_comm _ _ _) (fun t hSame => has_congr dj.xzReln hSame)
      (fun t y hSame => has_iff_of_equal dj.xyReln ((pairHashDomain_equal_iff _ _).mp hSame).1 y)
      (visit1to2_distinct dj.xyReln _)
    have hReversed : (extrapolateFwd1 dj.xyReln.getIndex1to2.visit1to2 w).map (SetWrite.mapElt tripleReverse23) =
        (dj.xyReln.getIndex1to2.visit1to2 w.elt.1).map fun y =>
          w.mapElt fun xz => (tripleFactorerTo13and2 X Y Z).symm (xz, y) := by
      cases w <;> exact map_map
    rw [← has_writeTuple pairEqual_iff dj.xzReln] at hExact
    simp only [Bool.and_comm (dj.xzReln.has _), Bool.and_comm (has _ _) (dj.xyReln.has _)] at hExact
    simp only [step, relation2WithObservers_told, hReversed]
    exact hExact

abbrev Input (X Y Z : Type) := SetWrite (X × Y) ⊕ SetWrite (X × Z)

/-- The full join of what the two inputs have been told. -/
def joined (dX : HashDomain X) (dY : HashDomain Y) (dZ : HashDomain Z) (inputs : List (Input X Y Z)) (tup : X × Y × Z) :
    Bool :=
  SetWrite.heldBy (pairHashDomain dX dY).equal (inputs.filterMap Sum.getLeft?) (tup.1, tup.2.1) &&
    SetWrite.heldBy (pairHashDomain dX dZ).equal (inputs.filterMap Sum.getRight?) (tup.1, tup.2.2)

theorem has_run (inputs : List (Input X Y Z)) : (emitAll step (start hX hY hZ) inputs).1.xyReln.has =
        SetWrite.heldBy (pairHashDomain dX dY).equal (inputs.filterMap Sum.getLeft?) ∧
      (emitAll step (start hX hY hZ) inputs).1.xzReln.has =
        SetWrite.heldBy (pairHashDomain dX dZ).equal (inputs.filterMap Sum.getRight?) := by
  induction inputs using List.reverseRecOn with
  | nil =>
    exact ⟨funext (setOps_lawful (hashRelation2 hX hY)).has_empty,
      funext (setOps_lawful (hashRelation2 hX hZ)).has_empty⟩
  | append_singleton inputs input ih =>
    rw [emitAll_append, SetWrite.heldBy, SetWrite.heldBy, filterMap_append, filterMap_append,
      foldl_append, foldl_append]
    cases input with
    | inl w => exact ⟨(has_writeTuple pairEqual_iff _ w).trans (by rw [ih.1]; rfl), ih.2⟩
    | inr w => exact ⟨ih.1, (has_writeTuple pairEqual_iff _ w).trans (by rw [ih.2]; rfl)⟩

theorem run_exact (hX : dX.Lawful) (hY : dY.Lawful) (hZ : dZ.Lawful) (inputs : List (Input X Y Z))
    (input : Input X Y Z) :
    SetWrite.ExactUpTo (tripleHashDomain dX dY dZ).equal (joined dX dY dZ inputs) (joined dX dY dZ (inputs ++ [input]))
      ((emitAll step (start hX hY hZ) inputs).1.step input).2 := by
  have hJoin : ∀ inputs, (emitAll step (start hX hY hZ) inputs).1.join = joined dX dY dZ inputs := by
    intro inputs
    funext tup
    rw [join, (has_run inputs).1, (has_run inputs).2, joined]
  rw [← hJoin, ← hJoin, emitAll_append]
  exact step_exact _ input

end HashJoin

open MapWrite

variable {A B : Type} [DecidableEq A] [DecidableEq B]

theorem elt_of_mem_setChangeProjector {m : FactoredMap A B Unit} {w : SetWrite (A × B)} {u : SetWrite A}
    (hMem : u ∈ (setChangeProjector m w).2) : u.elt = w.elt.1 := by
  cases w with
  | add tup =>
    rw [setChangeProjector] at hMem
    split at hMem <;> simp_all [SetWrite.elt]
  | remove tup =>
    rw [setChangeProjector] at hMem
    repeat' split at hMem
    all_goals simp_all [SetWrite.elt]

/-- Changes of elements with different parts are projected without a pair of an addition and a removal. -/
theorem emitAll_setChangeProjector_exact (m : FactoredMap A B Unit) (ws : List (SetWrite (A × B)))
    (hParts : (ws.map fun w => w.elt.1).Nodup) :
    SetWrite.Exact (fun a => (m.index a).isSome = true)
        (fun a => ((emitAll setChangeProjector m ws).1.index a).isSome = true) (emitAll setChangeProjector m ws).2 ∧
      ∀ u ∈ (emitAll setChangeProjector m ws).2, u.elt ∈ ws.map fun w => w.elt.1 := by
  induction ws generalizing m with
  | nil =>
    exact ⟨⟨nodup_nil, fun _ => iff_of_false not_mem_nil fun h => h.1 h.2,
      fun _ => iff_of_false not_mem_nil fun h => h.2 h.1⟩,
      fun u hMem => by cases hMem⟩
  | cons w ws ih =>
    obtain ⟨hNot, hParts⟩ := nodup_cons.mp hParts
    obtain ⟨hLater, hElts⟩ := ih (setChangeProjector m w).1 hParts
    refine ⟨(setChangeProjector_exact m w).append hLater fun u hMem u' hMem' hEq => hNot ?_, fun u hMem => ?_⟩
    · have hElt := hElts u' hMem'
      rwa [← hEq, elt_of_mem_setChangeProjector hMem] at hElt
    · rcases mem_append.mp hMem with hMem | hMem
      · exact mem_cons.mpr (.inl (elt_of_mem_setChangeProjector hMem))
      · exact mem_cons_of_mem _ (hElts u hMem)

variable [DecidableEq X] [DecidableEq Y] [DecidableEq Z]

abbrev JoinInput (X Y Z : Type) := RangeOrder × (SetWrite (X × Y) ⊕ SetWrite (X × Z))

variable (dj : DynamicJoin12With13 X Y Z)

def DynamicJoin12With13.step (input : JoinInput X Y Z) : DynamicJoin12With13 X Y Z × List (SetWrite (X × Y × Z)) :=
  match input.2 with
  | .inl w => dj.left input.1 w
  | .inr w => dj.right input.1 w

structure ProjectedJoin (X Y Z : Type) where
  full : DynamicJoin12With13 X Y Z
  indexer : FactoredMap (Y × Z) X Unit

namespace ProjectedJoin

def start : ProjectedJoin X Y Z := ⟨⟨∅, ∅⟩, ∅⟩

def step (pj : ProjectedJoin X Y Z) (input : JoinInput X Y Z) : ProjectedJoin X Y Z × List (SetWrite (Y × Z)) :=
  let told := pj.full.step input
  let projected := emitAll setChangeProjector pj.indexer (told.2.map (SetWrite.mapElt Prod.swap))
  (⟨told.1, projected.1⟩, projected.2)

variable (inputs : List (JoinInput X Y Z))

def leftInput : X × Y → Option Unit :=
  SetWrite.replay (fun _ => none) (inputs.filterMap fun input => input.2.getLeft?)

def rightInput : X × Z → Option Unit :=
  SetWrite.replay (fun _ => none) (inputs.filterMap fun input => input.2.getRight?)

def Projected (yz : Y × Z) : Prop :=
  ∃ x, leftInput inputs (x, yz.1) = some () ∧ rightInput inputs (x, yz.2) = some ()

theorem parts_nodup (input : JoinInput X Y Z) : ((dj.step input).2.map fun w => w.elt.2).Nodup := by
  obtain ⟨ord, w | w⟩ := input
  · rcases relation2WithObservers_cases dj.xyReln (extrapolateFwd1 (DynamicJoin12With13.seconds ord dj.xzReln)) w with
      ⟨_, hEq⟩ | ⟨_, hEq⟩
    · simp only [DynamicJoin12With13.step, DynamicJoin12With13.left, hEq, map_nil, nodup_nil]
    · have hParts : (extrapolateFwd1 (DynamicJoin12With13.seconds ord dj.xzReln) w).map (fun w => w.elt.2) =
          (DynamicJoin12With13.seconds ord dj.xzReln w.elt.1).map fun z => (w.elt.2, z) := by
        cases w <;> simp only [extrapolateFwd1, map_map] <;> rfl
      simp only [DynamicJoin12With13.step, DynamicJoin12With13.left, hEq, hParts]
      exact (ord.visit_nodup _).map fun z z' hPair => (Prod.mk.inj hPair).2
  · rcases relation2WithObservers_cases dj.xzReln
      (fun w => (extrapolateFwd1 (DynamicJoin12With13.seconds ord dj.xyReln) w).map
      (SetWrite.mapElt tripleReverse23)) w with ⟨_, hEq⟩ | ⟨_, hEq⟩
    · simp only [DynamicJoin12With13.step, DynamicJoin12With13.right, hEq, map_nil, nodup_nil]
    · have hParts : ((extrapolateFwd1 (DynamicJoin12With13.seconds ord dj.xyReln) w).map
        (SetWrite.mapElt tripleReverse23)).map (fun w => w.elt.2) =
          (DynamicJoin12With13.seconds ord dj.xyReln w.elt.1).map fun y => (y, w.elt.2) := by
        cases w <;> simp only [extrapolateFwd1, map_map] <;> rfl
      simp only [DynamicJoin12With13.step, DynamicJoin12With13.right, hEq, hParts]
      exact (ord.visit_nodup _).map fun y y' hPair => (Prod.mk.inj hPair).1

/-- The projector holds the triples of the full join. -/
def Indexed (pj : ProjectedJoin X Y Z) : Prop := ∀ tup, pj.indexer.content (Prod.swap tup) = pj.full.keyed.join tup

theorem indexed_step {pj : ProjectedJoin X Y Z} (hIndexed : pj.Indexed) (input : JoinInput X Y Z) :
    (pj.step input).1.Indexed := by
  have hFull : (pj.full.step input).1.keyed.join = SetWrite.replay pj.full.keyed.join (pj.full.step input).2 := by
    obtain ⟨ord, w | w⟩ := input
    · exact pj.full.left_accounts ord w
    · exact pj.full.right_accounts ord w
  intro tup
  rw [show (pj.step input).1.full.keyed.join = _ from hFull]
  simp only [step]
  generalize (pj.full.step input).2 = told
  have hReplay : ∀ (m : FactoredMap (Y × Z) X Unit) (f : X × Y × Z → Option Unit),
    (∀ tup, m.content (Prod.swap tup) = f tup) →
      (emitAll setChangeProjector m (told.map (SetWrite.mapElt Prod.swap))).1.content (Prod.swap tup) =
        SetWrite.replay f told tup := by
    induction told with
    | nil => exact fun m f hSame => hSame tup
    | cons w told ih =>
      intro m f hSame
      refine ih _ (MapWrite.on f w.asMapWrite) fun tup => ?_
      rw [setChangeProjector_fst, FactoredMap.content_write, MapWrite.on, MapWrite.on, hSame]
      cases w <;> exact if_congr Prod.swap_inj rfl rfl
  exact hReplay pj.indexer _ hIndexed

theorem run_snoc (input : JoinInput X Y Z) :
    (emitAll step start (inputs ++ [input])).1 = ((emitAll step start inputs).1.step input).1 ∧
      (emitAll step start (inputs ++ [input])).2 =
        (emitAll step start inputs).2 ++ ((emitAll step start inputs).1.step input).2 := by
  rw [emitAll_append, emitAll, emitAll, append_nil]
  exact ⟨rfl, rfl⟩

/-- The relations of the full join are what the inputs hold. -/
theorem holds_run :
    (emitAll step start inputs).1.Indexed ∧ (emitAll step start inputs).1.full.xyReln.content = leftInput inputs ∧
      (emitAll step start inputs).1.full.xzReln.content = rightInput inputs := by
  induction inputs using List.reverseRecOn with
  | nil => exact ⟨fun _ => rfl, rfl, rfl⟩
  | append_singleton inputs input ih =>
    rw [(run_snoc inputs input).1, leftInput, rightInput, filterMap_append, filterMap_append]
    refine ⟨indexed_step ih.1 input, ?_⟩
    obtain ⟨ord, w | w⟩ := input
    · refine ⟨?_, ih.2.2.trans (congrArg (SetWrite.replay fun _ => none) (append_nil _).symm)⟩
      refine (DynamicJoin12With13.left_content ord _ w).trans ?_
      rw [ih.2.1, leftInput, SetWrite.replay, SetWrite.replay, map_append, replay_append]
      rfl
    · refine ⟨ih.2.1.trans (congrArg (SetWrite.replay fun _ => none) (append_nil _).symm), ?_⟩
      refine (DynamicJoin12With13.right_content ord _ w).trans ?_
      rw [ih.2.2, rightInput, SetWrite.replay, SetWrite.replay, map_append, replay_append]
      rfl

theorem index_run_iff (yz : Y × Z) :
    ((emitAll step start inputs).1.indexer.index yz).isSome = true ↔ Projected inputs yz := by
  obtain ⟨hIndexed, hLeft, hRight⟩ := holds_run inputs
  rw [Option.isSome_iff_ne_none, ne_eq, FactoredMap.index_eq_none_iff, not_forall]
  refine exists_congr fun x => ?_
  rw [show (emitAll step start inputs).1.indexer.get yz x = _ from hIndexed (x, yz), ← hLeft, ← hRight,
    ← ne_eq, Option.ne_none_iff_exists']
  constructor
  · rintro ⟨⟨⟩, hJoin⟩
    obtain ⟨⟨⟩, hRight, hLeft⟩ := Option.bind_eq_some_iff.mp hJoin
    exact ⟨hLeft, hRight⟩
  · rintro ⟨hLeft, hRight⟩
    exact ⟨(), Option.bind_eq_some_iff.mpr ⟨(), hRight, hLeft⟩⟩

theorem step_exact (input : JoinInput X Y Z) :
    SetWrite.Exact (Projected inputs) (Projected (inputs ++ [input])) ((emitAll step start inputs).1.step input).2 := by
  have hParts : (((emitAll step start inputs).1.full.step input).2.map (SetWrite.mapElt Prod.swap)).map
      (fun w => w.elt.1) = ((emitAll step start inputs).1.full.step input).2.map fun w => w.elt.2 := by
    rw [map_map]
    refine map_congr_left fun w _ => ?_
    cases w <;> rfl
  refine (emitAll_setChangeProjector_exact (emitAll step start inputs).1.indexer _
    (hParts ▸ parts_nodup _ input)).1.congr
    (fun yz => (index_run_iff inputs yz).symm) fun yz => ?_
  rw [← index_run_iff, (run_snoc inputs input).1]
  rfl

theorem replay_run_iff (yz : Y × Z) :
    SetWrite.replay (fun _ => none) (emitAll step start inputs).2 yz = some () ↔ Projected inputs yz := by
  induction inputs using List.reverseRecOn generalizing yz with
  | nil => exact iff_of_false (fun h => by cases h) fun ⟨_, h, _⟩ => by cases h
  | append_singleton inputs input ih =>
    rw [(run_snoc inputs input).2, SetWrite.replay, map_append, replay_append]
    exact (step_exact inputs input).replay_eq_some_iff ih yz

end ProjectedJoin

/-- After every call the receiver of the projected join has been told the pairs that some `x` joins, each when it comes
and when it goes. The full join over hash domains tells each triple, up to their equality, when it comes and goes. -/
theorem dynamicJoins_exact {ColX ColY ColZ : Type} {dX : HashDomain ColX} {dY : HashDomain ColY} {dZ : HashDomain ColZ}
    (hX : dX.Lawful) (hY : dY.Lawful) (hZ : dZ.Lawful) :
    (∀ inputs : List (JoinInput X Y Z),
      (∀ yz, SetWrite.replay (fun _ => none) (emitAll ProjectedJoin.step .start inputs).2 yz = some () ↔
        ProjectedJoin.Projected inputs yz) ∧
      ∀ input, SetWrite.Exact (ProjectedJoin.Projected inputs) (ProjectedJoin.Projected (inputs ++ [input]))
        ((emitAll ProjectedJoin.step .start inputs).1.step input).2) ∧
    ∀ inputs input, SetWrite.ExactUpTo (tripleHashDomain dX dY dZ).equal (HashJoin.joined dX dY dZ inputs)
      (HashJoin.joined dX dY dZ (inputs ++ [input]))
      ((emitAll HashJoin.step (HashJoin.start hX hY hZ) inputs).1.step input).2 :=
  ⟨fun inputs => ⟨ProjectedJoin.replay_run_iff inputs, ProjectedJoin.step_exact inputs⟩, HashJoin.run_exact hX hY hZ⟩

/-- A pair that two triples support is not withdrawn with the first of them. -/
theorem dynamicJoins_exact_supported :
    let inputs : List (JoinInput Nat Nat Nat) := [(.insertion, .inl (.add (1, 2))), (.insertion, .inl (.add (5, 2))),
      (.insertion, .inr (.add (1, 3))), (.insertion, .inr (.add (5, 3))), (.insertion, .inl (.remove (1, 2)))]
    (hashDomainString fun _ => 0).Lawful ∧
      SetWrite.replay (fun _ => none) (emitAll ProjectedJoin.step .start inputs).2 (2, 3) = some () :=
  have hString := hashDomainString_lawful fun _ => 0
  ⟨hString, (((dynamicJoins_exact hString hString hString).1 _).1 (2, 3)).mpr ⟨5, by decide⟩⟩

end KubeStellar
