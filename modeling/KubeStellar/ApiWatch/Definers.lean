import KubeStellar.Api
import KubeStellar.Library.Run

/-! # Which objects define which API resources

`pkg/apiwatch/definition-tracking.go`, with the part of `invalidateWithDefinerLocked` of `resources.go` that leads to
it. Both directions of the relation are kept, each as a map to sets.
-/

namespace KubeStellar.ApiWatch

open List GoMap

structure ObjectID where
  apiVersion : String
  kind : String
  name : String
deriving DecidableEq

variable {K L : Type} [DecidableEq K] [DecidableEq L]

def ensureMap (set : Option (MapSet L)) : MapSet L := set.getD ∅

variable (m : GoMap K (MapSet L))

def Relates (k : K) (l : L) : Prop := (ensureMap (m.get k)).has l = true

def NoneEmpty : Prop := ∀ k set, m.get k = some set → ∃ l, set.has l = true

def addTo (k : K) (l : L) : GoMap K (MapSet L) := m.put k ((ensureMap (m.get k)).add l)

def removeFrom (k : K) (l : L) : GoMap K (MapSet L) :=
  let set := (ensureMap (m.get k)).delete l
  if set.len = 0 then m.delete k else m.put k set

variable {m : GoMap K (MapSet L)} {k : K} {l : L} (set : MapSet L) (k' : K) (l' : L)

theorem len_eq_zero_iff : set.len = 0 ↔ ∀ l, set.has l = false := by
  have hEmpty : set.len = 0 ↔ set.isEmpty = true := by
    rw [GoMap.len, GoMap.isEmpty, length_eq_zero_iff, List.isEmpty_iff]
  rw [hEmpty, GoMap.isEmpty_iff]
  simp only [GoMap.has, Option.isSome_eq_false_iff, Option.isNone_iff_eq_none]

theorem relates_put {set : MapSet L} :
    Relates (m.put k set) k' l' ↔ if k' = k then set.has l' = true else Relates m k' l' := by
  rw [Relates, get_put]
  split <;> rfl

theorem relates_addTo : Relates (addTo m k l) k' l' ↔ Relates m k' l' ∨ k' = k ∧ l' = l := by
  rw [addTo, relates_put, GoMap.has, MapSet.add, get_put]
  split
  · rename_i hKey
    rw [hKey]
    split
    · rename_i hElt
      exact iff_of_true rfl (.inr ⟨rfl, hElt⟩)
    · rename_i hElt
      exact (or_iff_left fun h => hElt h.2).symm
  · rename_i hKey
    exact (or_iff_left fun h => hKey h.1).symm

theorem NoneEmpty.addTo (hNone : NoneEmpty m) (k : K) (l : L) : NoneEmpty (addTo m k l) := by
  intro k' set hGet
  rw [ApiWatch.addTo, get_put] at hGet
  split at hGet
  · cases hGet
    exact ⟨l, by rw [GoMap.has, MapSet.add, get_put, if_pos rfl]; rfl⟩
  · exact hNone k' set hGet

theorem has_delete (l l' : L) : (set.delete l).has l' = true ↔ set.has l' = true ∧ l' ≠ l := by
  rw [GoMap.has, get_delete]
  split
  · rename_i hElt
    exact iff_of_false (fun h => Bool.noConfusion h) fun h => h.2 hElt
  · rename_i hElt
    exact (and_iff_left hElt).symm

theorem relates_removeFrom : Relates (removeFrom m k l) k' l' ↔ Relates m k' l' ∧ ¬ (k' = k ∧ l' = l) := by
  have hSelf : Relates (removeFrom m k l) k l' ↔ ((ensureMap (m.get k)).delete l).has l' = true := by
    unfold removeFrom
    dsimp only
    split
    · rename_i hLen
      rw [Relates, get_delete, if_pos rfl, (len_eq_zero_iff _).mp hLen l']
      rfl
    · rw [relates_put, if_pos rfl]
  by_cases hKey : k' = k
  · subst hKey
    rw [hSelf, has_delete, Relates]
    exact and_congr_right fun _ => not_congr (and_iff_right rfl).symm
  · have hOther : Relates (removeFrom m k l) k' l' ↔ Relates m k' l' := by
      unfold removeFrom
      dsimp only
      split
      · rw [Relates, get_delete, if_neg hKey, Relates]
      · rw [relates_put, if_neg hKey]
    exact hOther.trans (and_iff_left fun h => hKey h.1).symm

theorem NoneEmpty.removeFrom (hNone : NoneEmpty m) (k : K) (l : L) : NoneEmpty (removeFrom m k l) := by
  intro k' set hGet
  unfold ApiWatch.removeFrom at hGet
  dsimp only at hGet
  split at hGet
  · exact hNone k' set (get_of_get_delete hGet).2
  · rename_i hLen
    refine forall_get_put hNone ?_ k' set hGet
    rw [len_eq_zero_iff, not_forall] at hLen
    obtain ⟨l', hHas⟩ := hLen
    exact ⟨l', Bool.not_eq_false _ ▸ hHas⟩

structure Definers where
  rscToDefiners : GoMap GroupVersionResource (MapSet ObjectID)
  definerToRscs : GoMap ObjectID (MapSet GroupVersionResource)

/-- An object that is seen to define what its supplier enumerates, or is gone. -/
structure Notice where
  /-- The order of the range over the resources that it defined before. -/
  ord : RangeOrder
  oid : ObjectID
  set : Bool
  enumerated : List GroupVersionResource

def Notice.enumr (notice : Notice) : List GroupVersionResource := if notice.set then notice.enumerated else []

namespace Definers

def new : Definers := ⟨∅, ∅⟩

def enumerate (oid : ObjectID) (oldRscs : MapSet GroupVersionResource)
    (acc : MapSet GroupVersionResource × GoMap GroupVersionResource (MapSet ObjectID)) (gvr : GroupVersionResource) :
    MapSet GroupVersionResource × GoMap GroupVersionResource (MapSet ObjectID) :=
  (acc.1.add gvr, if oldRscs.has gvr then acc.2 else addTo acc.2 gvr oid)

variable (rlw : Definers)

def setDefinerLocked (ord : RangeOrder) (oid : ObjectID) (enumr : List GroupVersionResource) : Definers :=
  let oldRscs := ensureMap (rlw.definerToRscs.get oid)
  let (newRscs, rscToDefiners) := enumr.foldl (enumerate oid oldRscs) (∅, rlw.rscToDefiners)
  { rscToDefiners := ((ord.visit oldRscs).map Prod.fst).foldl
      (fun rscToDefiners oldRsc => if newRscs.has oldRsc then rscToDefiners else removeFrom rscToDefiners oldRsc oid)
      rscToDefiners
    definerToRscs := rlw.definerToRscs.put oid newRscs }

def notify (notice : Notice) : Definers := rlw.setDefinerLocked notice.ord notice.oid notice.enumr

/-- The last part of an invalidation, which has no object or no supplier if it is not about a definer. It panics if
the supplier does not know the kind of the object. -/
def invalidateWithDefinerLocked : Option Notice → Option Definers
  | none => some rlw
  | some notice =>
    if notice.oid.apiVersion = "" then none else if notice.oid.kind = "" then none else some (rlw.notify notice)

variable (notices : List Notice)

def run : Definers := Run.run notify new notices

theorem invalidateWithDefinerLocked_eq_some {rlw rlw' : Definers} {notice : Option Notice}
    (hSome : rlw.invalidateWithDefinerLocked notice = some rlw') : rlw' = notice.elim rlw rlw.notify := by
  cases notice with
  | none => exact (Option.some.inj hSome).symm
  | some notice =>
    rw [invalidateWithDefinerLocked] at hSome
    split at hSome
    · cases hSome
    · split at hSome
      · cases hSome
      · exact (Option.some.inj hSome).symm

theorem invalidations_run {invalidations : List (Option Notice)} {rlw rlw' : Definers}
    (hSome : invalidations.foldlM invalidateWithDefinerLocked rlw = some rlw') :
    rlw' = Run.run notify rlw (invalidations.filterMap id) := by
  induction invalidations generalizing rlw with
  | nil => exact (Option.some.inj hSome).symm
  | cons first invalidations ih =>
    obtain ⟨middle, hFirst, hRest⟩ := Option.bind_eq_some_iff.mp (foldlM_cons (m := Option) ▸ hSome)
    rw [ih hRest, invalidateWithDefinerLocked_eq_some hFirst]
    cases first <;> rfl

variable (oid : ObjectID) (oldRscs : MapSet GroupVersionResource) (enumr : List GroupVersionResource)
  (acc : MapSet GroupVersionResource × GoMap GroupVersionResource (MapSet ObjectID))

theorem enumerated_newRscs : (enumr.foldl (enumerate oid oldRscs) acc).1 = acc.1.addAll enumr := by
  induction enumr generalizing acc with
  | nil => rfl
  | cons first enumr ih => exact ih (enumerate oid oldRscs acc first)

theorem has_newRscs (rscToDefiners : GoMap GroupVersionResource (MapSet ObjectID)) (gvr : GroupVersionResource) :
    (enumr.foldl (enumerate oid oldRscs) (∅, rscToDefiners)).1.has gvr = true ↔ gvr ∈ enumr := by
  rw [enumerated_newRscs, MapSet.has_addAll_empty_iff]

theorem relates_enumerate (first gvr : GroupVersionResource) (definer : ObjectID) :
    Relates (enumerate oid oldRscs acc first).2 gvr definer ↔
      Relates acc.2 gvr definer ∨ definer = oid ∧ gvr = first ∧ oldRscs.has gvr = false := by
  rw [enumerate]
  split
  · rename_i hOld
    refine (or_iff_left ?_).symm
    rintro ⟨-, rfl, hNew⟩
    exact Bool.noConfusion (hOld.symm.trans hNew)
  · rename_i hNew
    rw [relates_addTo]
    refine or_congr_right ⟨fun h => ⟨h.2, h.1, ?_⟩, fun h => ⟨h.2.1, h.1⟩⟩
    rw [h.1]
    exact Bool.eq_false_iff.mpr hNew

theorem relates_enumerated (gvr : GroupVersionResource) (definer : ObjectID) :
    Relates (enumr.foldl (enumerate oid oldRscs) acc).2 gvr definer ↔
      Relates acc.2 gvr definer ∨ definer = oid ∧ gvr ∈ enumr ∧ oldRscs.has gvr = false := by
  induction enumr generalizing acc with
  | nil => exact (or_iff_left fun h => not_mem_nil h.2.1).symm
  | cons first enumr ih =>
    rw [foldl_cons, ih, relates_enumerate, mem_cons]
    tauto

theorem noneEmpty_enumerated (hNone : NoneEmpty acc.2) : NoneEmpty (enumr.foldl (enumerate oid oldRscs) acc).2 := by
  refine List.foldlRecOn (motive := NoneEmpty ∘ Prod.snd) enumr _ hNone fun acc hNone first _ => ?_
  rw [Function.comp_apply, enumerate]
  split
  · exact hNone
  · exact NoneEmpty.addTo hNone first oid

variable (newRscs : MapSet GroupVersionResource) (gone : List GroupVersionResource)
  (rscToDefiners : GoMap GroupVersionResource (MapSet ObjectID))

theorem relates_removed (gvr : GroupVersionResource) (definer : ObjectID) :
    Relates (gone.foldl (fun rscToDefiners oldRsc =>
        if newRscs.has oldRsc then rscToDefiners else removeFrom rscToDefiners oldRsc oid) rscToDefiners) gvr definer ↔
      Relates rscToDefiners gvr definer ∧ ¬ (definer = oid ∧ gvr ∈ gone ∧ newRscs.has gvr = false) := by
  induction gone generalizing rscToDefiners with
  | nil => exact (and_iff_left fun h => not_mem_nil h.2.1).symm
  | cons first gone ih =>
    rw [foldl_cons, ih, mem_cons]
    split
    · rename_i hNew
      have hFirst : gvr = first → newRscs.has gvr ≠ false := by
        rintro rfl hNot
        exact Bool.noConfusion (hNew.symm.trans hNot)
      tauto
    · rename_i hGone
      have hFirst : gvr = first → newRscs.has gvr = false := by
        rintro rfl
        exact Bool.eq_false_iff.mpr hGone
      rw [relates_removeFrom]
      tauto

theorem noneEmpty_removed (hNone : NoneEmpty rscToDefiners) : NoneEmpty (gone.foldl (fun rscToDefiners oldRsc =>
      if newRscs.has oldRsc then rscToDefiners else removeFrom rscToDefiners oldRsc oid) rscToDefiners) := by
  refine List.foldlRecOn gone _ hNone fun rscToDefiners hNone first _ => ?_
  split
  · exact hNone
  · exact hNone.removeFrom first oid

structure Consistent (rlw : Definers) : Prop where
  converse : ∀ gvr oid, Relates rlw.rscToDefiners gvr oid ↔ Relates rlw.definerToRscs oid gvr
  noneEmpty : NoneEmpty rlw.rscToDefiners

variable {rlw : Definers} (hCons : Consistent rlw) (notice : Notice)

theorem relates_definerToRscs_notify (rlw : Definers) (oid : ObjectID) (gvr : GroupVersionResource) :
    Relates (rlw.notify notice).definerToRscs oid gvr ↔
      if oid = notice.oid then gvr ∈ notice.enumr else Relates rlw.definerToRscs oid gvr := by
  refine (relates_put oid gvr).trans ?_
  split
  · exact has_newRscs _ _ _ _ gvr
  · rfl

include hCons in
theorem relates_rscToDefiners_notify (gvr : GroupVersionResource) (oid : ObjectID) :
    Relates (rlw.notify notice).rscToDefiners gvr oid ↔
      if oid = notice.oid then gvr ∈ notice.enumr else Relates rlw.rscToDefiners gvr oid := by
  refine (relates_removed _ _ _ _ gvr oid).trans ?_
  rw [relates_enumerated, RangeOrder.mem_visit_keys_iff]
  split
  · rename_i hSelf
    -- What the object is removed from is read from the other map, so the two must agree before.
    have hOld := hCons.converse gvr notice.oid
    rw [hSelf, ← Bool.not_eq_true, ← Bool.not_eq_true, has_newRscs, hOld]
    tauto
  · rename_i hOther
    rw [or_iff_left fun h => hOther h.1, and_iff_left fun h => hOther h.1]

include hCons in
theorem Consistent.notify : Consistent (rlw.notify notice) where
  converse gvr oid := by
    rw [relates_rscToDefiners_notify hCons, relates_definerToRscs_notify]
    split
    · rfl
    · exact hCons.converse gvr oid
  noneEmpty := noneEmpty_removed _ _ _ _ (noneEmpty_enumerated _ _ _ _ hCons.noneEmpty)

def latest (oid : ObjectID) : List GroupVersionResource :=
  (notices.reverse.find? fun notice => notice.oid = oid).elim [] Notice.enumr

theorem latest_append (notice : Notice) (oid : ObjectID) :
    latest (notices ++ [notice]) oid = if oid = notice.oid then notice.enumr else latest notices oid := by
  rw [latest, reverse_append, reverse_singleton, singleton_append, List.find?_cons]
  by_cases hSelf : notice.oid = oid
  · rw [decide_eq_true hSelf, if_pos hSelf.symm]
    rfl
  · rw [decide_eq_false hSelf, if_neg (Ne.symm hSelf)]
    rfl

/-- How the two maps relate to the notices so far. -/
structure Tracked (notices : List Notice) (rlw : Definers) : Prop extends Consistent rlw where
  defines_iff : ∀ gvr oid, Relates rlw.rscToDefiners gvr oid ↔ gvr ∈ latest notices oid

/-- After any notices, the two maps agree and relate each definer to what it enumerated last. -/
theorem tracked_run (notices : List Notice) : Tracked notices (run notices) := by
  induction notices using List.reverseRecOn with
  | nil =>
    refine ⟨⟨fun gvr oid => Iff.rfl, fun k set hGet => ?_⟩, fun gvr oid => ?_⟩
    · cases (get_empty k).symm.trans hGet
    · exact iff_of_false Bool.false_ne_true not_mem_nil
  | append_singleton notices notice ih =>
    have hRun : run (notices ++ [notice]) = (run notices).notify notice := foldl_append
    rw [hRun]
    refine ⟨ih.toConsistent.notify notice, fun gvr oid => ?_⟩
    rw [relates_rscToDefiners_notify ih.toConsistent, latest_append]
    split
    · rfl
    · exact ih.defines_iff gvr oid

end Definers

end KubeStellar.ApiWatch
