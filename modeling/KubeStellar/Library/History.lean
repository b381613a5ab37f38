import Mathlib.Order.Lattice
import Mathlib.Data.List.Pairwise

/-! # Histories of versioned writes

A history is a sequence of writes and deletions of keyed objects, each at a version of its own, in increasing order. An
object that is live carries the version of its last write.
-/

namespace History

open List

structure Event (Ver K V : Type) where
  version : Ver
  key : K
  value : Option V

abbrev Store (Ver K V : Type) := K → Option (Ver × V)

variable {Ver K V : Type}

def Event.written (event : Event Ver K V) : Option (Ver × V) := event.value.map (Prod.mk event.version)

variable {version : Ver} {value : V} [DecidableEq K] {events : List (Event Ver K V)} (store : Store Ver K V)

def Store.apply (store : Store Ver K V) (event : Event Ver K V) : Store Ver K V :=
  fun key => if key = event.key then event.written else store key

def Store.replay (store : Store Ver K V) (events : List (Event Ver K V)) : Store Ver K V := events.foldl apply store

theorem Store.replay_append (events events' : List (Event Ver K V)) :
    store.replay (events ++ events') = (store.replay events).replay events' := foldl_append

theorem Store.replay_congr {store store' : Store Ver K V} {key : K} (hSame : store key = store' key)
    (events : List (Event Ver K V)) : store.replay events key = store'.replay events key := by
  induction events generalizing store store' with
  | nil => exact hSame
  | cons event events ih =>
    refine @ih (store.apply event) (store'.apply event) ?_
    unfold Store.apply
    split
    · rfl
    · exact hSame

theorem Store.replay_of_untouched {key : K}
    (hUntouched : ∀ event ∈ events, event.key ≠ key) : store.replay events key = store key := by
  induction events generalizing store with
  | nil => rfl
  | cons event events ih =>
    refine (ih (store.apply event) fun other hMem => hUntouched other (mem_cons_of_mem _ hMem)).trans ?_
    exact if_neg (hUntouched event mem_cons_self).symm

theorem Store.replay_of_touched (store' : Store Ver K V) {key : K}
    (hTouched : ∃ event ∈ events, event.key = key) : store.replay events key = store'.replay events key := by
  obtain ⟨event, hMem, rfl⟩ := hTouched
  obtain ⟨before, after, rfl⟩ := append_of_mem hMem
  rw [replay_append, replay_append]
  refine @replay_congr _ _ _ _ ((store.replay before).apply event) ((store'.replay before).apply event) _ ?_ after
  rw [apply, apply, if_pos rfl, if_pos rfl]

theorem Store.replay_filter {key : K} (events : List (Event Ver K V)) (test : K → Bool)
    (hTest : test key = true) : store.replay (events.filter fun event => test event.key) key =
    store.replay events key := by
  induction events generalizing store with
  | nil => rfl
  | cons event events ih =>
    rw [filter_cons]
    split
    · exact ih (store.apply event)
    · rename_i hDropped
      refine (ih store).trans (replay_congr ?_ events)
      exact (if_neg fun hEq : key = event.key => hDropped (hEq ▸ hTest)).symm

theorem Store.mem_or_of_replay {store : Store Ver K V} {key : K}
    (hReplay : store.replay events key = some (version, value)) :
    ⟨version, key, some value⟩ ∈ events ∨ store key = some (version, value) := by
  induction events generalizing store with
  | nil => exact .inr hReplay
  | cons event events ih =>
    rcases @ih (store.apply event) hReplay with hMem | hApplied
    · exact .inl (mem_cons_of_mem _ hMem)
    · unfold Store.apply at hApplied
      split at hApplied
      · rename_i hKey
        obtain ⟨version', key', value'⟩ := event
        cases value' with
        | none => cases hApplied
        | some value' =>
          obtain ⟨rfl, rfl⟩ := Prod.mk.inj (Option.some.inj hApplied)
          exact .inl (hKey ▸ mem_cons_self)
      · exact .inr hApplied

end History

structure History (Ver K V : Type) [LinearOrder Ver] where
  events : List (History.Event Ver K V)
  increasing : events.Pairwise fun event event' => event.version < event'.version

namespace History

open List

variable {Ver K V : Type} [LinearOrder Ver]

def between (history : History Ver K V) (low high : Ver) : List (Event Ver K V) :=
  history.events.filter fun event => low < event.version ∧ event.version ≤ high

def upTo (history : History Ver K V) (high : Ver) : List (Event Ver K V) :=
  history.events.filter fun event => event.version ≤ high

variable {low high : Ver} (history : History Ver K V) {event : Event Ver K V}

theorem mem_between_iff :
    event ∈ history.between low high ↔ event ∈ history.events ∧ low < event.version ∧ event.version ≤ high := by
  simp [between, mem_filter]

theorem upTo_eq_append (hLe : low ≤ high) : history.upTo high = history.upTo low ++ history.between low high := by
  obtain ⟨events, hIncr⟩ := history
  unfold upTo between
  induction events with
  | nil => rfl
  | cons event events ih =>
    rw [pairwise_cons] at hIncr
    obtain ⟨hFirst, hIncr⟩ := hIncr
    by_cases hLow : event.version ≤ low
    · rw [filter_cons_of_pos (by simpa using hLow.trans hLe), filter_cons_of_pos (by simpa using hLow),
        filter_cons_of_neg (by simp [not_lt.mpr hLow]), ih hIncr, cons_append]
    · -- nothing after the first event above `low` is at or below it
      have hAbove : ∀ event' ∈ event :: events, ¬ event'.version ≤ low := by
        intro event' hMem
        rcases mem_cons.mp hMem with rfl | hMem
        · exact hLow
        · exact not_le.mpr ((not_le.mp hLow).trans (hFirst event' hMem))
      have hNone : (event :: events).filter (fun event => event.version ≤ low) = [] :=
        filter_eq_nil_iff.mpr fun event' hMem => by simpa using hAbove event' hMem
      rw [hNone, nil_append]
      refine filter_congr fun event' hMem => ?_
      simp [not_le.mp (hAbove event' hMem)]

variable [DecidableEq K]

def live (history : History Ver K V) (version : Ver) : Store Ver K V :=
  Store.replay (fun _ => none) (history.upTo version)

theorem live_eq_replay (hLe : low ≤ high) :
    history.live high = (history.live low).replay (history.between low high) := by
  rw [live, history.upTo_eq_append hLe, Store.replay_append]
  rfl

theorem live_of_untouched {key : K} (hLow : low ≤ version) (hHigh : version ≤ high)
    (hUntouched : ∀ event ∈ history.between low high, event.key ≠ key) :
    history.live version key = history.live low key := by
  rw [history.live_eq_replay hLow]
  refine Store.replay_of_untouched _ fun event hMem => hUntouched event ?_
  rw [mem_between_iff] at hMem ⊢
  exact ⟨hMem.1, hMem.2.1, hMem.2.2.trans hHigh⟩

variable {written : Ver}

theorem exists_event_of_live {key : K} (hLive : history.live version key = some (written, value)) :
    ⟨written, key, some value⟩ ∈ history.events ∧ written ≤ version := by
  rcases Store.mem_or_of_replay hLive with hMem | hNone
  · obtain ⟨hMem, hLe⟩ := mem_filter.mp hMem
    exact ⟨hMem, of_decide_eq_true hLe⟩
  · cases hNone

theorem version_le_of_live {key : K}
    (hLive : history.live version key = some (written, value)) (hMem : event ∈ history.events)
    (hKey : event.key = key) (hLe : event.version ≤ version) : event.version ≤ written := by
  by_contra hLater
  have hWritten := (history.exists_event_of_live hLive).2
  -- touched after `written`, the object does not come from a write at `written`
  have hTouched : ∃ event ∈ history.between written version, event.key = key :=
    ⟨event, history.mem_between_iff.mpr ⟨hMem, not_le.mp hLater, hLe⟩, hKey⟩
  rw [history.live_eq_replay hWritten, Store.replay_of_touched _ (fun _ => none) hTouched] at hLive
  rcases Store.mem_or_of_replay hLive with hMem' | hNone
  · exact lt_irrefl _ (history.mem_between_iff.mp hMem').2.1
  · cases hNone

end History