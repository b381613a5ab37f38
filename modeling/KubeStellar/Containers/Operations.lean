import KubeStellar.Containers.MapTypes
import KubeStellar.Library.Modulo

/-! # The interfaces of maps and sets

`MutableMap` and `MutableSet` of `pkg/placement`, and the laws that make a representation a finite map or a finite
set, modulo an equivalence of its keys or elements.
-/

namespace KubeStellar

open List GoMap

/-- The operations of a map on a representation `M`. A put or a delete comes with the calls that the observer of the map
gets. -/
structure MapOps (K V M : Type) where
  empty : M
  isEmpty : M → Bool
  len : M → Nat
  get : M → K → Option V
  visit : M → List (K × V)
  put : M → K → V → M × List (MapChange K V)
  delete : M → K → M × List (MapChange K V)
  modify : M → K → (V → V) → M

structure SetOps (E S : Type) where
  empty : S
  isEmpty : S → Bool
  len : S → Nat
  has : S → E → Bool
  visit : S → List E
  add : S → E → S × Bool
  remove : S → E → S × Bool

variable {K V M E S : Type}

structure MapOps.Lawful (ops : MapOps K V M) (r : Setoid K) : Prop where
  visit_empty : ops.visit ops.empty = []
  visit_distinct : ∀ m, (ops.visit m).Pairwise fun e e' => ¬ r e.1 e'.1
  get_eq_some_iff : ∀ m k v, ops.get m k = some v ↔ ∃ k', r k' k ∧ (k', v) ∈ ops.visit m
  len_eq : ∀ m, ops.len m = (ops.visit m).length
  isEmpty_eq : ∀ m, ops.isEmpty m = (ops.visit m).isEmpty
  get_put_of_rel : ∀ m k v k', r k' k → ops.get (ops.put m k v).1 k' = some v
  get_put_of_not_rel : ∀ m k v k', ¬ r k' k → ops.get (ops.put m k v).1 k' = ops.get m k'
  get_delete_of_rel : ∀ m k k', r k' k → ops.get (ops.delete m k).1 k' = none
  get_delete_of_not_rel : ∀ m k k', ¬ r k' k → ops.get (ops.delete m k).1 k' = ops.get m k'
  get_modify_of_rel : ∀ m k f k', r k' k → ops.get (ops.modify m k f) k' = (ops.get m k').map f
  get_modify_of_not_rel : ∀ m k f k', ¬ r k' k → ops.get (ops.modify m k f) k' = ops.get m k'
  put_told_none : ∀ m k v, ops.get m k = none → (ops.put m k v).2 = [.create k v]
  put_told_some : ∀ m k v old, ops.get m k = some old → (ops.put m k v).2 = [.update k old v]
  delete_told_none : ∀ m k, ops.get m k = none → (ops.delete m k).2 = []
  delete_told_some : ∀ m k old, ops.get m k = some old → (ops.delete m k).2 = [.deleteWithFinal k old]

structure SetOps.Lawful (ops : SetOps E S) (r : Setoid E) : Prop where
  visit_empty : ops.visit ops.empty = []
  visit_distinct : ∀ s, (ops.visit s).Pairwise fun e e' => ¬ r e e'
  has_iff : ∀ s e, ops.has s e = true ↔ ∃ e', r e' e ∧ e' ∈ ops.visit s
  len_eq : ∀ s, ops.len s = (ops.visit s).length
  isEmpty_eq : ∀ s, ops.isEmpty s = (ops.visit s).isEmpty
  has_add_iff : ∀ s e e', ops.has (ops.add s e).1 e' = true ↔ r e' e ∨ ops.has s e' = true
  add_changed : ∀ s e, (ops.add s e).2 = !ops.has s e
  has_remove_iff : ∀ s e e', ops.has (ops.remove s e).1 e' = true ↔ ¬ r e' e ∧ ops.has s e' = true
  remove_changed : ∀ s e, (ops.remove s e).2 = ops.has s e

def MapOps.write (ops : MapOps K V M) (m : M) : MapWrite K V → M × List (MapChange K V)
  | .put key val => ops.put m key val
  | .delete key => ops.delete m key

def SetOps.write (ops : SetOps E S) (s : S) : SetWrite E → S × List Bool
  | .add elt => ((ops.add s elt).1, [(ops.add s elt).2])
  | .remove elt => ((ops.remove s elt).1, [(ops.remove s elt).2])

def setByMapToEmpty (theMap : MapOps E Unit M) : SetOps E M where
  empty := theMap.empty
  isEmpty := theMap.isEmpty
  len := theMap.len
  has m elt := (theMap.get m elt).isSome
  visit m := (theMap.visit m).map Prod.fst
  add m elt := if (theMap.get m elt).isSome then (m, false) else ((theMap.put m elt ()).1, true)
  remove m elt := if (theMap.get m elt).isSome then ((theMap.delete m elt).1, true) else (m, false)

variable {theMap : MapOps E Unit M} {r : Setoid E}

theorem setByMapToEmpty_has_iff (m : M) (e : E) :
    (setByMapToEmpty theMap).has m e = true ↔ theMap.get m e = some () := by
  refine Option.isSome_iff_exists.trans ⟨?_, fun hGet => ⟨(), hGet⟩⟩
  rintro ⟨⟨⟩, hGet⟩
  exact hGet

theorem setByMapToEmpty_lawful (hLawful : theMap.Lawful r) : (setByMapToEmpty theMap).Lawful r where
  visit_empty := by simp only [setByMapToEmpty, hLawful.visit_empty, map_nil]
  visit_distinct m := pairwise_map.mpr (hLawful.visit_distinct m)
  has_iff m e := by
    rw [setByMapToEmpty_has_iff, hLawful.get_eq_some_iff]
    refine exists_congr fun e' => and_congr_right fun _ => ⟨fun hMem => mem_map_of_mem hMem, fun hMem => ?_⟩
    obtain ⟨⟨_, ⟨⟩⟩, hVisited, rfl⟩ := List.mem_map.mp hMem
    exact hVisited
  len_eq m := by simp only [setByMapToEmpty, hLawful.len_eq, length_map]
  isEmpty_eq m := by simp only [setByMapToEmpty, hLawful.isEmpty_eq, isEmpty_map]
  has_add_iff m e e' := by
    rw [setByMapToEmpty_has_iff, setByMapToEmpty_has_iff]
    simp only [setByMapToEmpty]
    by_cases hRel : r e' e
    · refine iff_of_true ?_ (.inl hRel)
      split
      · next hHas =>
        obtain ⟨e'', hRel'', hMem⟩ := (hLawful.get_eq_some_iff m e ()).mp ((setByMapToEmpty_has_iff m e).mp hHas)
        exact (hLawful.get_eq_some_iff m e' ()).mpr ⟨e'', r.trans hRel'' (r.symm hRel), hMem⟩
      · exact hLawful.get_put_of_rel m e () e' hRel
    · rw [or_iff_right hRel]
      split
      · rfl
      · rw [hLawful.get_put_of_not_rel m e () e' hRel]
  add_changed m e := by
    simp only [setByMapToEmpty]
    split <;> simp [*]
  has_remove_iff m e e' := by
    rw [setByMapToEmpty_has_iff, setByMapToEmpty_has_iff]
    simp only [setByMapToEmpty]
    by_cases hRel : r e' e
    · refine iff_of_false ?_ fun hBoth => hBoth.1 hRel
      split
      · rw [hLawful.get_delete_of_rel m e e' hRel]
        simp
      · next hHas =>
        intro hGet
        obtain ⟨e'', hRel'', hMem⟩ := (hLawful.get_eq_some_iff m e' ()).mp hGet
        exact hHas ((setByMapToEmpty_has_iff m e).mpr
          ((hLawful.get_eq_some_iff m e ()).mpr ⟨e'', r.trans hRel'' hRel, hMem⟩))
    · rw [and_iff_right hRel]
      split
      · rw [hLawful.get_delete_of_not_rel m e e' hRel]
      · rfl
  remove_changed m e := by
    simp only [setByMapToEmpty]
    split <;> simp [*]

section Builtin

variable [DecidableEq K] (ord : RangeOrder)

/-- `MapMap` as a map, with the order in which it is visited. -/
def mapMapOps (V : Type) (ord : RangeOrder) : MapOps K V (GoMap K V) where
  empty := ∅
  isEmpty := GoMap.isEmpty
  len := GoMap.len
  get := GoMap.get
  visit := ord.visit
  put := MapMap.put
  delete := MapMap.delete
  modify mm key f :=
    match mm.get key with
    | none => mm
    | some val => mm.put key (f val)

theorem mapMapOps_lawful (V : Type) (ord : RangeOrder) : (mapMapOps (K := K) V ord).Lawful (eqSetoid K) where
  visit_empty := perm_nil.mp (ord.perm ∅)
  visit_distinct m := (AnyMap.ofGoMap ord m).distinct
  get_eq_some_iff m := (AnyMap.ofGoMap ord m).get_eq_some_iff
  len_eq m := (AnyMap.ofGoMap ord m).len_eq
  isEmpty_eq m := (ord.perm m).isEmpty_eq.symm
  get_put_of_rel m k v k' hRel := by
    simp only [mapMapOps, MapMap.put_fst]
    exact (get_put m k k' v).trans (if_pos hRel)
  get_put_of_not_rel m k v k' hRel := by
    simp only [mapMapOps, MapMap.put_fst]
    exact (get_put m k k' v).trans (if_neg hRel)
  get_delete_of_rel m k k' hRel := by
    simp only [mapMapOps, MapMap.delete_fst]
    exact (get_delete m k k').trans (if_pos hRel)
  get_delete_of_not_rel m k k' hRel := by
    simp only [mapMapOps, MapMap.delete_fst]
    exact (get_delete m k k').trans (if_neg hRel)
  get_modify_of_rel m k f k' hRel := by
    cases hRel
    simp only [mapMapOps]
    cases hGet : m.get k with
    | none => exact hGet
    | some val => exact (get_put m k k (f val)).trans (if_pos rfl)
  get_modify_of_not_rel m k f k' hRel := by
    simp only [mapMapOps]
    cases m.get k with
    | none => rfl
    | some val => exact (get_put m k k' (f val)).trans (if_neg hRel)
  put_told_none m k v hGet := by
    have hGet : m.get k = none := hGet
    simp only [mapMapOps, MapMap.put, hGet]
  put_told_some m k v old hGet := by
    have hGet : m.get k = some old := hGet
    simp only [mapMapOps, MapMap.put, hGet]
  delete_told_none m k hGet := by
    have hGet : m.get k = none := hGet
    simp only [mapMapOps, MapMap.delete, hGet]
  delete_told_some m k old hGet := by
    have hGet : m.get k = some old := hGet
    simp only [mapMapOps, MapMap.delete, hGet]

/-- `MapSet` as a set. -/
def mapSetOps (ord : RangeOrder) : SetOps K (MapSet K) where
  empty := ∅
  isEmpty := GoMap.isEmpty
  len := GoMap.len
  has := GoMap.has
  visit s := (ord.visit s).map Prod.fst
  add s elt := if s.has elt then (s, false) else (s.add elt, true)
  remove s elt := if s.has elt then (s.delete elt, true) else (s, false)

theorem mapSetOps_eq : mapSetOps (K := K) ord = setByMapToEmpty (mapMapOps Unit ord) := by
  simp only [mapSetOps, setByMapToEmpty, mapMapOps, MapMap.put_fst, MapMap.delete_fst, SetOps.mk.injEq]
  trivial

theorem mapSetOps_lawful : (mapSetOps ord).Lawful (eqSetoid K) :=
  mapSetOps_eq (K := K) ord ▸ setByMapToEmpty_lawful (mapMapOps_lawful Unit ord)

end Builtin

def MapOps.Represents (ops : MapOps K V M) {r : Setoid K} [DecidableEq (Quotient r)] (m : M)
    (g : GoMap (Quotient r) V) : Prop :=
  ∀ k, ops.get m k = g.get (Quotient.mk r k)

structure MapOps.Refines (ops : MapOps K V M) {r : Setoid K} [DecidableEq (Quotient r)] (m : M)
    (g : GoMap (Quotient r) V) : Prop where
  represents : ops.Represents m g
  len_eq : ops.len m = g.len
  isEmpty_eq : ops.isEmpty m = g.isEmpty
  visit_perm : ((ops.visit m).map fun e => (Quotient.mk r e.1, e.2)).Perm g.entries

namespace MapOps.Lawful

variable {ops : MapOps K V M} {r : Setoid K} (hLawful : ops.Lawful r)

include hLawful

theorem get_empty (k : K) : ops.get ops.empty k = none := by
  refine Option.eq_none_iff_forall_ne_some.mpr fun v hGet => ?_
  obtain ⟨k', -, hMem⟩ := (hLawful.get_eq_some_iff ops.empty k v).mp hGet
  rw [hLawful.visit_empty] at hMem
  cases hMem

theorem get_congr (m : M) {k k' : K} (hRel : r k k') : ops.get m k = ops.get m k' := by
  ext v
  rw [hLawful.get_eq_some_iff, hLawful.get_eq_some_iff]
  exact exists_congr fun k'' => and_congr_left fun _ =>
    ⟨fun hRel' => r.trans hRel' hRel, fun hRel' => r.trans hRel' (r.symm hRel)⟩

theorem visit_nodup (m : M) : ((ops.visit m).map fun e => (Quotient.mk r e.1, e.2)).Nodup := by
  refine pairwise_map.mpr ((hLawful.visit_distinct m).imp fun {e e'} hDist hEq => hDist ?_)
  exact Quotient.exact (congrArg Prod.fst hEq)

variable [DecidableEq (Quotient r)] {g : GoMap (Quotient r) V} {m : M}

theorem represents_empty : ops.Represents (r := r) ops.empty ∅ := fun k => hLawful.get_empty k

theorem represents_write (hRep : ops.Represents m g) (w : MapWrite K V) :
    ops.Represents (ops.write m w).1 (MapMap.write g (w.mapKey (Quotient.mk r))).1 ∧
      (ops.write m w).2.map (MapChange.mapKey (Quotient.mk r)) = (MapMap.write g (w.mapKey (Quotient.mk r))).2 := by
  cases w with
  | put key val =>
    refine ⟨fun k => ?_, ?_⟩
    · rw [MapMap.write_content, MapWrite.on]
      by_cases hRel : r k key
      · exact (hLawful.get_put_of_rel m key val k hRel).trans (if_pos (Quotient.sound hRel)).symm
      · refine (hLawful.get_put_of_not_rel m key val k hRel).trans ((hRep k).trans (if_neg fun hEq => ?_).symm)
        exact hRel (Quotient.exact hEq)
    · rw [write, MapWrite.mapKey, MapMap.write, MapMap.put, ← hRep]
      cases hGet : ops.get m key with
      | none => rw [hLawful.put_told_none m key val hGet, map_singleton, MapChange.mapKey]
      | some old => rw [hLawful.put_told_some m key val old hGet, map_singleton, MapChange.mapKey]
  | delete key =>
    refine ⟨fun k => ?_, ?_⟩
    · rw [MapMap.write_content, MapWrite.on]
      by_cases hRel : r k key
      · exact (hLawful.get_delete_of_rel m key k hRel).trans (if_pos (Quotient.sound hRel)).symm
      · refine (hLawful.get_delete_of_not_rel m key k hRel).trans ((hRep k).trans (if_neg fun hEq => ?_).symm)
        exact hRel (Quotient.exact hEq)
    · rw [write, MapWrite.mapKey, MapMap.write, MapMap.delete, ← hRep]
      cases hGet : ops.get m key with
      | none => rw [hLawful.delete_told_none m key hGet, map_nil]
      | some old => rw [hLawful.delete_told_some m key old hGet, map_singleton, MapChange.mapKey]

theorem represents_writes (ws : List (MapWrite K V)) : ops.Represents (emitAll ops.write ops.empty ws).1
        (emitAll MapMap.write ∅ (ws.map (MapWrite.mapKey (Quotient.mk r)))).1 ∧
      (emitAll ops.write ops.empty ws).2.map (MapChange.mapKey (Quotient.mk r)) =
        (emitAll MapMap.write ∅ (ws.map (MapWrite.mapKey (Quotient.mk r)))).2 :=
  emitAll_simulates ops.Represents (MapWrite.mapKey (Quotient.mk r)) (MapChange.mapKey (Quotient.mk r))
    (fun _ _ w hRep => hLawful.represents_write hRep w) hLawful.represents_empty ws

theorem visit_perm (hRep : ops.Represents m g) :
    ((ops.visit m).map fun e => (Quotient.mk r e.1, e.2)).Perm g.entries := by
  refine (perm_ext_iff_of_nodup (hLawful.visit_nodup m) g.entries_nodup).mpr fun e => ?_
  obtain ⟨q, v⟩ := e
  obtain ⟨k, rfl⟩ := Quotient.exists_rep q
  rw [← GoMap.get_eq_some_iff, ← hRep, hLawful.get_eq_some_iff, List.mem_map]
  refine ⟨?_, fun ⟨k', hRel, hMem⟩ => ⟨(k', v), hMem, Prod.ext (Quotient.sound hRel) rfl⟩⟩
  rintro ⟨e, hMem, hEq⟩
  rw [Prod.mk.injEq] at hEq
  exact ⟨e.1, Quotient.exact hEq.1, hEq.2 ▸ hMem⟩

theorem refines (hRep : ops.Represents m g) : ops.Refines m g where
  represents := hRep
  len_eq := by rw [hLawful.len_eq, GoMap.len, ← (hLawful.visit_perm hRep).length_eq, length_map]
  isEmpty_eq := by rw [hLawful.isEmpty_eq, GoMap.isEmpty, ← (hLawful.visit_perm hRep).isEmpty_eq, isEmpty_map]
  visit_perm := hLawful.visit_perm hRep

end MapOps.Lawful

def finiteSetWrite [DecidableEq E] (s : MapSet E) : SetWrite E → MapSet E × List Bool
  | .add elt => (s.add elt, [!s.has elt])
  | .remove elt => (s.delete elt, [s.has elt])

def SetOps.Represents (ops : SetOps E S) {r : Setoid E} [DecidableEq (Quotient r)] (s : S)
    (g : MapSet (Quotient r)) : Prop :=
  ∀ e, ops.has s e = g.has (Quotient.mk r e)

structure SetOps.Refines (ops : SetOps E S) {r : Setoid E} [DecidableEq (Quotient r)] (s : S)
    (g : MapSet (Quotient r)) : Prop where
  represents : ops.Represents s g
  len_eq : ops.len s = g.len
  isEmpty_eq : ops.isEmpty s = g.isEmpty
  visit_perm : ((ops.visit s).map (Quotient.mk r)).Perm g.keys

namespace SetOps.Lawful

variable {ops : SetOps E S} {r : Setoid E} (hLawful : ops.Lawful r)

include hLawful

theorem has_empty (e : E) : ops.has ops.empty e = false := by
  refine Bool.eq_false_iff.mpr fun hHas => ?_
  obtain ⟨e', -, hMem⟩ := (hLawful.has_iff ops.empty e).mp hHas
  rw [hLawful.visit_empty] at hMem
  cases hMem

theorem has_congr (s : S) {e e' : E} (hRel : r e e') : ops.has s e = ops.has s e' := by
  rw [Bool.eq_iff_iff, hLawful.has_iff, hLawful.has_iff]
  exact exists_congr fun e'' => and_congr_left fun _ =>
    ⟨fun hRel' => r.trans hRel' hRel, fun hRel' => r.trans hRel' (r.symm hRel)⟩

theorem isEmpty_iff (s : S) : ops.isEmpty s = true ↔ ∀ e, ops.has s e = false := by
  rw [hLawful.isEmpty_eq, List.isEmpty_iff, eq_nil_iff_forall_not_mem]
  refine ⟨fun hNone e => Bool.eq_false_iff.mpr fun hHas => ?_, fun hNone e hMem => ?_⟩
  · obtain ⟨e', -, hMem⟩ := (hLawful.has_iff s e).mp hHas
    exact hNone e' hMem
  · exact Bool.eq_false_iff.mp (hNone e) ((hLawful.has_iff s e).mpr ⟨e, r.refl e, hMem⟩)

theorem isEmpty_eq_false_iff (s : S) : ops.isEmpty s = false ↔ ∃ e, ops.has s e = true := by
  rw [← Bool.not_eq_true, hLawful.isEmpty_iff, not_forall]
  exact exists_congr fun e => Bool.not_eq_false _ ▸ Iff.rfl

theorem visit_nodup (s : S) : ((ops.visit s).map (Quotient.mk r)).Nodup :=
  pairwise_map.mpr ((hLawful.visit_distinct s).imp fun hDist hEq => hDist (Quotient.exact hEq))

variable [DecidableEq (Quotient r)] {g : MapSet (Quotient r)} {s : S}

theorem represents_empty : ops.Represents (r := r) ops.empty ∅ := fun e => hLawful.has_empty e

variable (hRep : ops.Represents s g)

include hRep

theorem represents_write (w : SetWrite E) :
    ops.Represents (ops.write s w).1 (finiteSetWrite g (w.mapElt (Quotient.mk r))).1 ∧
      (ops.write s w).2 = (finiteSetWrite g (w.mapElt (Quotient.mk r))).2 := by
  cases w with
  | add elt =>
    refine ⟨fun e => ?_, ?_⟩
    · rw [write, SetWrite.mapElt, finiteSetWrite, Bool.eq_iff_iff, hLawful.has_add_iff, hRep, MapSet.add]
      simp only [GoMap.has, get_put]
      split
      · next hEq => exact iff_of_true (.inl (Quotient.exact hEq)) rfl
      · next hNe => exact or_iff_right fun hRel => hNe (Quotient.sound hRel)
    · rw [write, SetWrite.mapElt, finiteSetWrite, hLawful.add_changed, hRep]
  | remove elt =>
    refine ⟨fun e => ?_, ?_⟩
    · rw [write, SetWrite.mapElt, finiteSetWrite, Bool.eq_iff_iff, hLawful.has_remove_iff, hRep, GoMap.has, GoMap.has,
        get_delete]
      split
      · next hEq => exact iff_of_false (fun hBoth => hBoth.1 (Quotient.exact hEq)) Bool.false_ne_true
      · next hNe => exact and_iff_right fun hRel => hNe (Quotient.sound hRel)
    · rw [write, SetWrite.mapElt, finiteSetWrite, hLawful.remove_changed, hRep]

theorem represents_writes (ws : List (SetWrite E)) :
    ops.Represents (emitAll ops.write s ws).1 (emitAll finiteSetWrite g (ws.map (SetWrite.mapElt (Quotient.mk r)))).1 ∧
      (emitAll ops.write s ws).2 = (emitAll finiteSetWrite g (ws.map (SetWrite.mapElt (Quotient.mk r)))).2 := by
  have hRun := emitAll_simulates ops.Represents (SetWrite.mapElt (Quotient.mk r)) id
    (fun _ _ w hRep => by rw [map_id]; exact hLawful.represents_write hRep w) hRep ws
  rwa [map_id] at hRun

theorem visit_perm : ((ops.visit s).map (Quotient.mk r)).Perm g.keys := by
  refine (perm_ext_iff_of_nodup (hLawful.visit_nodup s) g.nodup).mpr fun q => ?_
  obtain ⟨e, rfl⟩ := Quotient.exists_rep q
  rw [← GoMap.keys, mem_keys_iff, ← Option.isSome_iff_exists, ← GoMap.has, ← hRep, hLawful.has_iff, List.mem_map]
  exact exists_congr fun e' => and_comm.trans (and_congr_left fun _ => Quotient.eq)

theorem refines : ops.Refines s g where
  represents := hRep
  len_eq := by
    rw [hLawful.len_eq, GoMap.len, ← length_map Prod.fst, ← GoMap.keys, ← (hLawful.visit_perm hRep).length_eq,
      length_map]
  isEmpty_eq := by
    rw [hLawful.isEmpty_eq, GoMap.isEmpty, ← isEmpty_map (f := Prod.fst), ← GoMap.keys,
      ← (hLawful.visit_perm hRep).isEmpty_eq, isEmpty_map]
  visit_perm := hLawful.visit_perm hRep

end SetOps.Lawful

end KubeStellar
