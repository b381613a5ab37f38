import KubeStellar.Containers.Differencers
import KubeStellar.Library.Modulo

/-! # Differencers over a sequence of values

`setDifferenceByMapAndEnum`, `mapDifferenceByMapAndEnum` and `sliceDifferencer` remember the last value. A value is
the list of what is visited in it, in which an element or a key can occur more than once.
-/

namespace KubeStellar

open List GoMap

variable {E : Type} [DecidableEq E] (ord : RangeOrder)

abbrev SetValue (E : Type) := RangeOrder × List E

namespace SetDifference

def receive (current : MapSet E) (next : SetValue E) : MapSet E × List (SetWrite E) :=
  setUpdateToMatch next.1 current next.2

variable (values : List (SetValue E))

def current : MapSet E := (emitAll receive ∅ values).1

def previous {A B : Type*} (values : List (A × List B)) : List B := (values.getLast?.map Prod.snd).getD []

theorem nodup_setUpdateStep (sets : MapSet E × MapSet E) (target : List E) :
    (emitAll setUpdateStep sets target).2.Nodup := by
  induction target generalizing sets with
  | nil => exact nodup_nil
  | cons newElt target ih =>
    refine nodup_append.mpr ⟨?_, ih _, ?_⟩
    · rw [setUpdateStep]
      split
      · exact nodup_nil
      · exact nodup_singleton _
    · rintro w hNow _ hLater rfl
      obtain ⟨e, -, hNone, rfl⟩ := (mem_setUpdateStep_iff _ _ _).mp hLater
      have hEq : e = newElt := by
        rw [setUpdateStep] at hNow
        split at hNow
        · cases hNow
        · exact SetWrite.add.inj (mem_singleton.mp hNow)
      rw [setUpdateStep, hEq, MapSet.add, get_put, if_pos rfl] at hNone
      cases hNone

theorem nodup_setUpdateToMatch (current : MapSet E) (target : List E) :
    (setUpdateToMatch ord current target).2.Nodup := by
  refine nodup_append.mpr ⟨nodup_setUpdateStep _ _, ?_, ?_⟩
  · have hGoners := ord.visit_nodup (emitAll setUpdateStep (current, current) target).1.2
    have hRemoved := hGoners.map (f := SetWrite.remove) fun _ _ hEq => SetWrite.remove.inj hEq
    rwa [map_map] at hRemoved
  · rintro w hAdd _ hRemove rfl
    obtain ⟨e, -, -, rfl⟩ := (mem_setUpdateStep_iff _ _ _).mp hAdd
    obtain ⟨oldElt, -, hEq⟩ := mem_map.mp hRemove
    cases hEq

theorem setUpdateToMatch_exact {current : MapSet E} (target : List E) {before : E → Prop}
    (hCurrent : ∀ e, current.get e = some () ↔ before e) :
    SetWrite.Exact before (· ∈ target) (setUpdateToMatch ord current target).2 := by
  have hNone : ∀ e, current.get e = none ↔ ¬ before e := by
    intro e
    rw [← hCurrent, ← Option.not_isSome_iff_eq_none, Option.isSome_iff_exists]
    exact not_congr ⟨fun ⟨⟨⟩, hGet⟩ => hGet, fun hGet => ⟨(), hGet⟩⟩
  refine ⟨nodup_setUpdateToMatch ord current target, fun e => ?_, fun e => ?_⟩
  · rw [mem_setUpdateToMatch_iff, ← hNone]
    constructor
    · rintro (⟨_, hMem, hGet, hEq⟩ | ⟨_, _, _, hEq⟩) <;> cases hEq
      exact ⟨hGet, hMem⟩
    · exact fun hBoth => .inl ⟨e, hBoth.2, hBoth.1, rfl⟩
  · rw [mem_setUpdateToMatch_iff, ← hCurrent]
    constructor
    · rintro (⟨_, _, _, hEq⟩ | ⟨_, hMem, hGet, hEq⟩) <;> cases hEq
      exact ⟨hGet, hMem⟩
    · exact fun hBoth => .inr ⟨e, hBoth.2, hBoth.1, rfl⟩

theorem get_current (e : E) : (current values).get e = some () ↔ e ∈ previous values := by
  rcases values.eq_nil_or_concat with rfl | ⟨values, next, rfl⟩
  · simp [current, previous, emitAll]
  · rw [current, concat_eq_append, emitAll_append, previous, List.getLast?_append]
    simp only [emitAll, receive, get_setUpdateToMatch]
    simp

end SetDifference

variable {K V : Type} [DecidableEq K] (m : GoMap K V) (ws : List (MapWrite K V)) (value : List (K × V))

abbrev MapValue (K V : Type) := RangeOrder × List (K × V)

namespace MapDifference

/-- The map that is remembered tells the receiver of its changes. -/
def receive (current : GoMap K V) (next : MapValue K V) : GoMap K V × List (MapChange K V) :=
  let goners := next.2.foldl (fun goners tup => goners.delete tup.1) current
  emitAll MapMap.write current
    (next.2.map (fun tup => .put tup.1 tup.2) ++ (next.1.visit goners).map fun oldTup => .delete oldTup.1)

/-- The map that a value is: of the pairs with a key, the last one counts. -/
def content (value : List (K × V)) : K → Option V := (GoMap.putAll ∅ value).get

variable (values : List (MapValue K V))

def current : GoMap K V := (emitAll receive ∅ values).1

open MapWrite

theorem emitAll_write_get : (emitAll MapMap.write m ws).1.get = replay m.get ws :=
  emitAll_view GoMap.get on MapMap.write_content m ws

theorem emitAll_write_accounts : (emitAll MapMap.write m ws).1.get =
      replay m.get ((emitAll MapMap.write m ws).2.map MapChange.asMapWrite) := by
  rw [replay, foldl_map]
  refine emitAll_accounts GoMap.get (fun f (change : MapChange K V) => on f change.asMapWrite) (fun m w => ?_) m ws
  rw [MapMap.write_accounts, replay, foldl_map]

theorem replay_puts : replay m.get (value.map fun tup => .put tup.1 tup.2) = (m.putAll value).get := by
  induction value generalizing m with
  | nil => rfl
  | cons tup value ih =>
    rw [map_cons, replay, foldl_cons, ← get_write]
    exact ih (m.put tup.1 tup.2)

theorem get_putAll_eq_content (k : K) :
    (m.putAll value).get k = if k ∈ value.map Prod.fst then content value k else m.get k := by
  rw [content, get_putAll, get_putAll]
  cases hFind : value.reverse.find? fun e => e.1 = k with
  | none =>
    have hNone : k ∉ value.map Prod.fst := by
      intro hKey
      obtain ⟨e, hMem, rfl⟩ := mem_map.mp hKey
      simpa using List.find?_eq_none.mp hFind e (mem_reverse.mpr hMem)
    rw [if_neg hNone]
    rfl
  | some e =>
    have hMem : k ∈ value.map Prod.fst := by
      have hKey : e.1 = k := by simpa using List.find?_some hFind
      exact hKey ▸ mem_map_of_mem (mem_reverse.mp (mem_of_find?_eq_some hFind))
    rw [if_pos hMem]
    rfl

theorem content_eq_none {value : List (K × V)} {k : K} (hKey : k ∉ value.map Prod.fst) : content value k = none := by
  have hGet := get_putAll_eq_content ∅ value k
  rwa [if_neg hKey] at hGet

theorem get_receive (current : GoMap K V) (next : MapValue K V) : (receive current next).1.get = content next.2 := by
  obtain ⟨ord, value⟩ := next
  rw [receive, emitAll_write_get, replay_append, replay_puts]
  funext k
  refine replay_eq_of_agree (fun w hMem hKey => ?_) fun hNone => ?_
  · -- a key that is deleted is none of the value
    obtain ⟨⟨k', v'⟩, hVisit, rfl⟩ := mem_map.mp hMem
    cases hKey
    rw [ord.mem_visit_iff, get_foldl_delete] at hVisit
    split at hVisit
    · cases hVisit
    · next hGone => exact (content_eq_none hGone).symm
  · rw [get_putAll_eq_content]
    split
    · rfl
    · next hGone =>
      rw [content_eq_none hGone]
      by_contra hLeft
      obtain ⟨v, hGet⟩ := Option.ne_none_iff_exists'.mp hLeft
      refine hNone (.delete k) (mem_map.mpr ⟨(k, v), ?_, rfl⟩) rfl
      rw [ord.mem_visit_iff, get_foldl_delete, if_neg hGone, hGet]

theorem get_current : (current values).get = content (SetDifference.previous values) := by
  rcases values.eq_nil_or_concat with rfl | ⟨values, next, rfl⟩
  · rfl
  · rw [current, concat_eq_append, emitAll_append, SetDifference.previous, List.getLast?_append]
    exact get_receive _ next

theorem replay_receive (next : MapValue K V) :
    replay (content (SetDifference.previous values))
      ((receive (current values) next).2.map MapChange.asMapWrite) = content next.2 := by
  rw [← get_current, ← get_receive (current values) next, receive, ← emitAll_write_accounts]

end MapDifference

variable {E : Type}

namespace SliceDifference

def current (isEqual : E → E → Bool) (initial : List E) (values : List (List E)) : List E :=
  (emitAll (receive isEqual) initial values).1

variable {isEqual : E → E → Bool} (hEquiv : IsEquivalence isEqual)

def asSet (slice : List E) (q : Modulo isEqual hEquiv) : Option Unit :=
  if q ∈ slice.map (Modulo.mk hEquiv) then some () else none

open Modulo

theorem sliceContainsParametric_iff (slice : List E) (seek : E) :
    sliceContainsParametric isEqual slice seek = true ↔ mk hEquiv seek ∈ slice.map (mk hEquiv) := by
  rw [sliceContainsParametric, any_eq_true, mem_map]
  exact exists_congr fun elt => and_congr_right fun _ => (mk_eq_iff hEquiv elt seek).symm

theorem mem_receive_iff (current newWhole : List E) (q : Modulo isEqual hEquiv) :
    (.add q ∈ (receive isEqual current newWhole).2.map (SetWrite.mapElt (mk hEquiv)) ↔
      q ∈ newWhole.map (mk hEquiv) ∧ q ∉ current.map (mk hEquiv)) ∧
    (.remove q ∈ (receive isEqual current newWhole).2.map (SetWrite.mapElt (mk hEquiv)) ↔
      q ∈ current.map (mk hEquiv) ∧ q ∉ newWhole.map (mk hEquiv)) := by
  have hNot : ∀ (slice : List E) (seek : E), (!sliceContainsParametric isEqual slice seek) = true ↔
      mk hEquiv seek ∉ slice.map (mk hEquiv) := by
    intro slice seek
    rw [← sliceContainsParametric_iff, Bool.not_eq_true', Bool.not_eq_true]
  simp only [receive, map_append, mem_append, map_map, mem_map, mem_filter, hNot,
    Function.comp_apply, SetWrite.mapElt, SetWrite.add.injEq, SetWrite.remove.injEq, reduceCtorEq, and_false,
    exists_false, false_or, or_false]
  constructor <;>
  · constructor
    · rintro ⟨e, ⟨hMem, hOther⟩, rfl⟩
      exact ⟨⟨e, hMem, rfl⟩, hOther⟩
    · rintro ⟨⟨e, hMem, rfl⟩, hOther⟩
      exact ⟨e, ⟨hMem, hOther⟩, rfl⟩

theorem replay_receive (current newWhole : List E) :
    SetWrite.replay (asSet hEquiv current) ((receive isEqual current newWhole).2.map (SetWrite.mapElt (mk hEquiv))) =
      asSet hEquiv newWhole := by
  have hTold := mem_receive_iff hEquiv current newWhole
  funext q
  refine SetWrite.replay_eq_target (fun q hMem => ((hTold _).1.mp hMem).1) (fun q hMem => ((hTold _).2.mp hMem).2)
    (fun q hTarget hNone => (hTold q).1.mpr ⟨hTarget, fun hMem => ?_⟩)
    (fun q hTarget hSome => (hTold q).2.mpr ⟨?_, hTarget⟩) q
  · rw [asSet, if_pos hMem] at hNone
    cases hNone
  · by_contra hMem
    exact hSome (if_neg hMem)

theorem current_eq (initial : List E) (values : List (List E)) :
    current isEqual initial values = values.getLast?.getD initial := by
  rcases values.eq_nil_or_concat with rfl | ⟨values, next, rfl⟩
  · rfl
  · rw [current, concat_eq_append, emitAll_append, List.getLast?_append]
    rfl

end SliceDifference

/-- After any sequence of values, the next one is told exactly by the set differencer, and what the differencers of maps
and of slices tell of it makes it out of the last one. -/
theorem differencers_exact {E K V F : Type} [DecidableEq E] [DecidableEq K] {isEqual : F → F → Bool}
    (hEquiv : IsEquivalence isEqual) :
    (∀ (values : List (SetValue E)) (next : SetValue E),
      SetWrite.Exact (· ∈ SetDifference.previous values) (· ∈ next.2)
        (SetDifference.receive (SetDifference.current values) next).2) ∧
    (∀ (values : List (MapValue K V)) (next : MapValue K V),
      MapWrite.replay (MapDifference.content (SetDifference.previous values))
        ((MapDifference.receive (MapDifference.current values) next).2.map MapChange.asMapWrite) =
          MapDifference.content next.2) ∧
    ∀ (initial : List F) (values : List (List F)) (next : List F),
      SetWrite.replay (SliceDifference.asSet hEquiv (values.getLast?.getD initial))
        ((SliceDifference.receive isEqual (SliceDifference.current isEqual initial values) next).2.map
          (SetWrite.mapElt (Modulo.mk hEquiv))) = SliceDifference.asSet hEquiv next := by
  refine ⟨fun values next => ?_, MapDifference.replay_receive, fun initial values next => ?_⟩
  · exact SetDifference.setUpdateToMatch_exact next.1 next.2 (SetDifference.get_current values)
  · rw [SliceDifference.current_eq]
    exact SliceDifference.replay_receive hEquiv _ next

def sameParity (a b : Nat) : Bool := a % 2 == b % 2

theorem sameParity_equivalence : IsEquivalence sameParity where
  refl a := by simp [sameParity]
  symm hEq := by simp_all [sameParity]
  trans hEq hEq' := by simp_all [sameParity]

theorem differencers_exact_sameParity : IsEquivalence sameParity ∧
    SetWrite.replay (SliceDifference.asSet sameParity_equivalence [1])
      ((SliceDifference.receive sameParity [1] [2, 4]).2.map (SetWrite.mapElt (Modulo.mk sameParity_equivalence))) =
        SliceDifference.asSet sameParity_equivalence [2, 4] :=
  ⟨sameParity_equivalence, (differencers_exact (E := Nat) (K := Nat) (V := Nat) sameParity_equivalence).2.2
    [1] [] [2, 4]⟩

end KubeStellar
