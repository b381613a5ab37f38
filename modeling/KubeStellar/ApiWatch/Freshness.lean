import KubeStellar.ApiWatch.Resources
import Mathlib.Data.List.DropRight

/-! # How old the listed API resources are

Re-querying is documented to be delayed after an invalidation. The memory cache is emptied at the invalidation,
though, and filled by the first List after it, from which the List at the end of the delay is then served.
-/

namespace KubeStellar.ApiWatch

open List Option

structure Fetched (D : Type) where
  fetchedAt : Nat
  data : D

namespace Event

variable {D : Type} {before after : List (Event (Fetched D))}

def time : Event (Fetched D) → Option Nat
  | .invalidate now => some now
  | .listData served => some served.fetchedAt
  | .relist now => some now
  | .listVersion | .watch _ | .stop _ => none

def read : Event (Fetched D) → Option (Fetched D)
  | .listData served => some served
  | _ => none

variable {event : Event (Fetched D)}

theorem read_eq_some_iff {served : Fetched D} : event.read = some served ↔ event = .listData served := by
  cases event <;> simp [read]

theorem time_of_read {served : Fetched D} (hRead : event.read = some served) :
    event.time = some served.fetchedAt := by
  rw [read_eq_some_iff.mp hRead]
  rfl

def Chronological (events : List (Event (Fetched D))) : Prop := (events.filterMap time).Pairwise (· ≤ ·)

theorem Chronological.le (hOrder : Chronological (before ++ after))
    {event event' : Event (Fetched D)} (hMem : event ∈ before) (hMem' : event' ∈ after) {t t' : Nat}
    (hTime : event.time = some t) (hTime' : event'.time = some t') : t ≤ t' := by
  rw [Chronological, filterMap_append] at hOrder
  exact (pairwise_append.mp hOrder).2.2 t (mem_filterMap.mpr ⟨event, hMem, hTime⟩) t'
    (mem_filterMap.mpr ⟨event', hMem', hTime'⟩)

theorem Chronological.list_at_once {now : Nat} (hOrder : Chronological (before ++ [.relist now])) (data : D) :
    Chronological (before ++ [.relist now, .listVersion, .listData ⟨now, data⟩]) := by
  rw [Chronological, filterMap_append] at hOrder ⊢
  obtain ⟨hBefore, -, hNow⟩ := pairwise_append.mp hOrder
  refine pairwise_append.mpr ⟨hBefore, ?_, fun t hMem t' hMem' => hNow t hMem t' ?_⟩
  · exact pairwise_pair.mpr le_rfl
  · have hTwice : t' ∈ [now, now] := hMem'
    have hOnce : t' ∈ [now] := by simpa using hTwice
    exact hOnce

theorem Chronological.of_append (hOrder : Chronological (before ++ after)) :
    Chronological before ∧ Chronological after := by
  rw [Chronological, filterMap_append] at hOrder
  exact ⟨(pairwise_append.mp hOrder).1, (pairwise_append.mp hOrder).2.1⟩

end Event

namespace ResourcesListWatcher

variable {D : Type} {events : List (Event (Fetched D))} (rlw : ResourcesListWatcher (Fetched D))

theorem step_of_not_invalidates {event : Event (Fetched D)} (hNot : event.invalidates = false) :
    (rlw.step event).cache = rlw.cache.or event.read ∧ (rlw.step event).relistAfter = rlw.relistAfter := by
  cases event with
  | invalidate now => cases hNot
  | listVersion => exact ⟨or_none.symm, rfl⟩
  | listData served =>
    rw [step, listData]
    cases hCache : rlw.cache with
    | none => exact ⟨rfl, rfl⟩
    | some data => exact ⟨hCache, rfl⟩
  | watch opts =>
    rcases rlw.step_watch opts with hSame | hOpened
    · rw [hSame]
      exact ⟨or_none.symm, rfl⟩
    · rw [hOpened]
      exact ⟨or_none.symm, rfl⟩
  | relist now =>
    rcases rlw.relist_cases now with hSame | hCancelled
    · rw [step, hSame]
      exact ⟨or_none.symm, rfl⟩
    · rw [step, hCancelled]
      exact ⟨or_none.symm, rfl⟩
  | stop watch => exact ⟨or_none.symm, rfl⟩

theorem run_of_not_invalidates (hNot : ∀ event ∈ events, event.invalidates = false) :
    (rlw.run events).cache = rlw.cache.or (events.findSome? Event.read) ∧
      (rlw.run events).relistAfter = rlw.relistAfter := by
  induction events generalizing rlw with
  | nil => exact ⟨or_none.symm, rfl⟩
  | cons event events ih =>
    obtain ⟨hCache, hAfter⟩ := rlw.step_of_not_invalidates (hNot event mem_cons_self)
    obtain ⟨hCaches, hAfters⟩ := ih (rlw.step event) fun event' hMem => hNot event' (mem_cons_of_mem _ hMem)
    refine ⟨hCaches.trans ?_, hAfters.trans hAfter⟩
    rw [hCache, Option.or_assoc, List.findSome?_cons]
    cases event.read <;> rfl

theorem listData_snd (served : Fetched D) : (rlw.listData served).2 = rlw.cache.getD served := by
  rw [listData]
  cases rlw.cache <;> rfl

theorem run_append (events events' : List (Event (Fetched D))) :
    rlw.run (events ++ events') = (rlw.run events).run events' :=
  foldl_append

def FreshFrom (time : Nat) (rlw : ResourcesListWatcher (Fetched D)) : Prop :=
  ∀ data, rlw.cache = some data → time ≤ data.fetchedAt

variable {rlw} {time : Nat}

theorem FreshFrom.step (hFresh : FreshFrom time rlw) {event : Event (Fetched D)}
    (hLater : ∀ t, event.time = some t → time ≤ t) : FreshFrom time (rlw.step event) := by
  intro data hData
  cases hInv : event.invalidates with
  | true =>
    cases event with
    | invalidate now => cases hData
    | _ => cases hInv
  | false =>
    rw [(rlw.step_of_not_invalidates hInv).1, or_eq_some_iff] at hData
    rcases hData with hOld | ⟨-, hRead⟩
    · exact hFresh data hOld
    · exact hLater data.fetchedAt (Event.time_of_read hRead)

theorem FreshFrom.run (hFresh : FreshFrom time rlw)
    (hLater : ∀ event ∈ events, ∀ t, event.time = some t → time ≤ t) : FreshFrom time (rlw.run events) := by
  induction events generalizing rlw with
  | nil => exact hFresh
  | cons event events ih =>
    refine ih (hFresh.step (hLater event mem_cons_self)) fun event' hMem => ?_
    exact hLater event' (mem_cons_of_mem _ hMem)

def sinceInvalidation (events : List (Event (Fetched D))) : List (Event (Fetched D)) :=
  events.rtakeWhile fun event => !event.invalidates

theorem not_invalidates_of_since {event : Event (Fetched D)}
    (hMem : event ∈ sinceInvalidation events) : event.invalidates = false := by
  simpa using mem_rtakeWhile_imp hMem

theorem sinceInvalidation_split (events : List (Event (Fetched D))) :
    sinceInvalidation events = events ∨ ∃ init now, events = init ++ .invalidate now :: sinceInvalidation events := by
  induction events using List.reverseRecOn with
  | nil => exact .inl (rtakeWhile_nil _)
  | append_singleton events event ih =>
    cases hInv : event.invalidates with
    | true =>
      cases event with
      | invalidate now =>
        refine .inr ⟨events, now, ?_⟩
        rw [sinceInvalidation, rtakeWhile_concat_neg _ _ _ (by simp [Event.invalidates])]
      | _ => cases hInv
    | false =>
      rw [sinceInvalidation, rtakeWhile_concat_pos _ _ _ (by simp [hInv])]
      rcases ih with hAll | ⟨init, now, hSplit⟩
      · exact .inl (congrArg (· ++ [event]) hAll)
      · exact .inr ⟨init, now, (congrArg (· ++ [event]) hSplit).trans (append_assoc _ _ _)⟩

theorem first_read_le (hOrder : Event.Chronological events) {first served : Fetched D}
    (hFirst : events.findSome? Event.read = some first) (hMem : .listData served ∈ events) :
    first.fetchedAt ≤ served.fetchedAt := by
  induction events with
  | nil => cases hMem
  | cons event events ih =>
    rw [List.findSome?_cons] at hFirst
    have hRest := (@Event.Chronological.of_append D [event] events hOrder).2
    cases hRead : event.read with
    | none =>
      rw [hRead] at hFirst
      refine ih hRest hFirst ((mem_cons.mp hMem).resolve_left ?_)
      rintro rfl
      cases hRead
    | some read =>
      rw [hRead] at hFirst
      cases hFirst
      rcases mem_cons.mp hMem with rfl | hLater
      · cases hRead
        exact le_rfl
      · exact @Event.Chronological.le D [event] events hOrder _ _ mem_cons_self hLater _ _
          (Event.time_of_read hRead) rfl

section Delay

def Cancels (rlw : ResourcesListWatcher (Fetched D)) (now : Nat) : Prop := rlw.needRelist = true ∧ rlw.relistAfter ≤ now

variable (clusterName : String) {before earlier since : List (Event (Fetched D))} {invalidated now : Nat}

theorem state_since_invalidation (hBefore : before = earlier ++ .invalidate invalidated :: since)
    (hOrder : Event.Chronological before) :
    ((new clusterName).run before).cache = (sinceInvalidation since).findSome? Event.read ∧
      invalidated + relistDelay ≤ ((new clusterName).run before).relistAfter := by
  have hSplit : ∃ init last, before = init ++ .invalidate last :: sinceInvalidation since ∧ invalidated ≤ last := by
    rcases sinceInvalidation_split since with hAll | ⟨init, last, hSince⟩
    · exact ⟨earlier, invalidated, by rw [hAll, hBefore], le_rfl⟩
    · refine ⟨earlier ++ .invalidate invalidated :: init, last, ?_, ?_⟩
      · rw [append_assoc, cons_append, ← hSince, hBefore]
      · rw [hBefore, hSince, append_cons] at hOrder
        exact hOrder.le (mem_append_right _ mem_cons_self) (mem_append_right _ mem_cons_self) rfl rfl
  obtain ⟨init, last, hInit, hLe⟩ := hSplit
  have hRun : (new clusterName).run before =
      ((((new clusterName).run init).invalidate last).run (sinceInvalidation since)) := by
    rw [hInit, run_append]
    rfl
  obtain ⟨hCache, hAfter⟩ := (((new clusterName).run init).invalidate last).run_of_not_invalidates
    fun event hMem => not_invalidates_of_since hMem
  rw [hRun, hCache, hAfter]
  exact ⟨none_or, Nat.add_le_add_right hLe relistDelay⟩

variable (hBefore : before = earlier ++ .invalidate invalidated :: since)
  (hOrder : Event.Chronological (before ++ [.relist now]))

include hBefore hOrder

theorem chronological_since : Event.Chronological (sinceInvalidation since) := by
  obtain ⟨front, hFront⟩ := rtakeWhile_suffix (fun event : Event (Fetched D) => !event.invalidates) since
  have hAll := hOrder.of_append.1
  rw [hBefore, append_cons, ← hFront] at hAll
  exact hAll.of_append.2.of_append.2

theorem list_at_once {first : Fetched D} (hFirst : (sinceInvalidation since).findSome? Event.read = some first)
    (served : Fetched D) :
    (((new clusterName).run (before ++ [.relist now, .listVersion])).listData served).2 = first := by
  have hCache := (state_since_invalidation clusterName hBefore hOrder.of_append.1).1
  have hKept : ((new clusterName).run (before ++ [.relist now, .listVersion])).cache = some first := by
    rw [run_append, (run_of_not_invalidates _ (by simp [Event.invalidates])).1, hCache, hFirst]
    rfl
  rw [listData_snd, hKept]
  rfl

theorem freshFrom_of_reads (hReads : ∀ served, .listData served ∈ sinceInvalidation since →
    invalidated + relistDelay ≤ served.fetchedAt) :
    FreshFrom (invalidated + relistDelay) ((new clusterName).run before) := by
  intro data hData
  rw [(state_since_invalidation clusterName hBefore hOrder.of_append.1).1] at hData
  obtain ⟨event, hMem, hRead⟩ := exists_of_findSome?_eq_some hData
  exact hReads data (Event.read_eq_some_iff.mp hRead ▸ hMem)

end Delay

/-- A List that starts after the watches have been cancelled for an invalidation returns data that was fetched after the
delay if and only if nothing was fetched before, since the last invalidation. -/
theorem listed_after_delay_iff (clusterName : String) (before earlier since : List (Event (Fetched D)))
    (invalidated now : Nat) (hBefore : before = earlier ++ .invalidate invalidated :: since)
    (hOrder : Event.Chronological (before ++ [.relist now])) (hCancels : Cancels ((new clusterName).run before) now) :
    (∀ after during served,
        Event.Chronological (before ++ .relist now :: (after ++ .listVersion :: (during ++ [.listData served]))) →
          invalidated + relistDelay ≤ (((new clusterName).run
            (before ++ .relist now :: (after ++ .listVersion :: during))).listData served).2.fetchedAt) ↔
      ∀ served, .listData served ∈ sinceInvalidation since → invalidated + relistDelay ≤ served.fetchedAt := by
  constructor
  · intro hFresh served hMem
    obtain ⟨first, hFirst⟩ := isSome_iff_exists.mp
      (List.findSome?_isSome_iff.mpr ⟨_, hMem, rfl⟩ : ((sinceInvalidation since).findSome? Event.read).isSome = true)
    have hServed := hFresh [] [] ⟨now, first.data⟩ (hOrder.list_at_once first.data)
    rw [show before ++ .relist now :: ([] ++ .listVersion :: []) = before ++ [.relist now, .listVersion] from rfl,
      list_at_once clusterName hBefore hOrder hFirst] at hServed
    exact hServed.trans (first_read_le (chronological_since hBefore hOrder) hFirst hMem)
  · intro hReads after during served hLater
    have hDue : invalidated + relistDelay ≤ now :=
      (state_since_invalidation clusterName hBefore hOrder.of_append.1).2.trans hCancels.2
    -- from the pass of the loop on, nothing is fetched before the delay is over
    have hTimes : ∀ event ∈ .relist now :: (after ++ .listVersion :: (during ++ [.listData served])), ∀ t,
        event.time = some t → invalidated + relistDelay ≤ t := by
      intro event hMem t hTime
      refine hDue.trans ?_
      rcases mem_cons.mp hMem with rfl | hAfter
      · exact le_of_eq (Option.some.inj hTime)
      · rw [append_cons] at hLater
        exact hLater.le (mem_append_right _ mem_cons_self) hAfter rfl hTime
    have hFresh : FreshFrom (invalidated + relistDelay)
        (((new clusterName).run before).run (.relist now :: (after ++ .listVersion :: during))) := by
      refine (freshFrom_of_reads clusterName hBefore hOrder hReads).run fun event hMem => hTimes event ?_
      simp only [mem_cons, mem_append] at hMem ⊢
      tauto
    rw [listData_snd, run_append]
    cases hData : (((new clusterName).run before).run (.relist now :: (after ++ .listVersion :: during))).cache with
    | none => exact hTimes (.listData served) (by simp) _ rfl
    | some data => exact hFresh data hData

/-- One List, and an invalidation long after it. -/
def invalidatedOnce : List (Event (Fetched Unit)) := [.listVersion, .listData ⟨0, ()⟩, .invalidate 100]

theorem listed_after_delay_iff_undisturbed : Cancels ((new "c").run invalidatedOnce) 120 ∧ ∀ after during served,
      Event.Chronological (invalidatedOnce ++ .relist 120 ::
        (after ++ .listVersion :: (during ++ [.listData served]))) →
        100 + relistDelay ≤ (((new "c").run
          (invalidatedOnce ++ .relist 120 :: (after ++ .listVersion :: during))).listData served).2.fetchedAt := by
  have hCancels : Cancels ((new "c").run invalidatedOnce) 120 := ⟨rfl, le_rfl⟩
  have hOrder : Event.Chronological (invalidatedOnce ++ [.relist 120]) := by
    have hTimes : [0, 100, 120].Pairwise (· ≤ ·) := by decide
    exact hTimes
  refine ⟨hCancels, (listed_after_delay_iff "c" invalidatedOnce [.listVersion, .listData ⟨0, ()⟩] [] 100 120 rfl hOrder
    hCancels).mpr fun served hMem => ?_⟩
  rw [sinceInvalidation, rtakeWhile_nil] at hMem
  cases hMem

/-- The watch times out in the meantime and the resources are listed before the delay is over. -/
theorem list_after_delay_served_early :
    Cancels ((new "c").run (invalidatedOnce ++ [.listVersion, .listData ⟨105, ()⟩])) 120 ∧
      (((new "c" : ResourcesListWatcher (Fetched Unit)).run (invalidatedOnce ++
        [.listVersion, .listData ⟨105, ()⟩, .relist 120, .listVersion])).listData ⟨121, ()⟩).2.fetchedAt = 105 ∧
      105 < 100 + relistDelay :=
  ⟨⟨rfl, le_rfl⟩, rfl, by decide⟩

end ResourcesListWatcher

end KubeStellar.ApiWatch
