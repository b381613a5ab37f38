import KubeStellar.Library.History
import KubeStellar.MailboxWatch.ListerWatcher
import Mathlib.Data.Int.Order.Basic

/-! # A list from which a watch can resume

The lists of the clusters are read one after the other, so what List returns is not the state at any one version:
items that are too new are dropped, and objects deleted since the first list are missing. Later events make up for
both.
-/

namespace KubeStellar.MailboxWatch

open List Option

open Strconv

abbrev Objects (N V : Type) := History Int (String × N) V

/-- What a consumer keeps of the items of a list. -/
def storeOf {N V : Type} [DecidableEq N] (items : List (Object N V)) : History.Store Int (String × N) V := fun key =>
  (items.find? fun item => item.cluster = key.1 ∧ item.name = key.2).bind fun item =>
    (parseInt item.resourceVersion).map fun itemRV => (itemRV, item.content)

variable {N V : Type} [DecidableEq N]

structure Exact (objects : Objects N V) (clusterName : String) (sublist : ObjectList N V) (rv : Int) : Prop where
  sound : ∀ item ∈ sublist.items, item.cluster = clusterName ∧
    ∃ itemRV, parseInt item.resourceVersion = some itemRV ∧
      objects.live rv (clusterName, item.name) = some (itemRV, item.content)
  complete : ∀ name, (objects.live rv (clusterName, name)).isSome → ∃ item ∈ sublist.items, item.name = name

structure Snapshots (objects : Objects N V) (clw : CrossClusterListerWatcher) (ord : RangeOrder)
    (answer : String → Option (ObjectList N V)) : Prop where
  exact : ∀ clusterName ∈ clw.listed ord, ∀ sublist rv, clw.accept (answer clusterName) = some (sublist, rv) →
    Exact objects clusterName sublist rv
  first_le : ∀ read ∈ clw.reads ord answer, clw.listRV ord answer ≤ read.2

variable {clusterName : String} {rv : Int} {name : N}

def Read (clw : CrossClusterListerWatcher) (ord : RangeOrder) (answer : String → Option (ObjectList N V))
    (clusterName : String) (rv : Int) : Prop :=
  clusterName ∈ clw.listed ord ∧ ∃ sublist, clw.accept (answer clusterName) = some (sublist, rv)

variable {objects : Objects N V} {clw : CrossClusterListerWatcher} {ord : RangeOrder}
  {answer : String → Option (ObjectList N V)}

open CrossClusterListerWatcher

omit [DecidableEq N] in
theorem parseInt_of_accept {sublist : ObjectList N V} (hAccept : clw.accept (answer clusterName) = some (sublist, rv)) :
    parseInt sublist.resourceVersion = some rv := by
  unfold accept at hAccept
  split at hAccept
  · cases hAccept
  · split at hAccept
    · cases hAccept
    · obtain ⟨rv', hParse, hEq⟩ := map_eq_some_iff.mp hAccept
      cases hEq
      exact hParse

omit [DecidableEq N] in
theorem mem_reads_iff {read : ObjectList N V × Int} :
    read ∈ clw.reads ord answer ↔ ∃ clusterName ∈ clw.listed ord, clw.accept (answer clusterName) = some read :=
  mem_filterMap

omit [DecidableEq N] in
theorem inInt64_listRV : InInt64 (clw.listRV ord answer) := by
  unfold listRV
  cases hHead : (clw.reads ord answer).head? with
  | none => exact show InInt64 1 by decide
  | some read =>
    obtain ⟨clusterName, -, hAccept⟩ := mem_reads_iff.mp (mem_of_head? hHead)
    exact inInt64_of_parseInt (parseInt_of_accept hAccept)

variable (hSnap : Snapshots objects clw ord answer) {item : Object N V}

include hSnap

theorem Snapshots.notTooNew {read : ObjectList N V × Int}
    (hRead : read ∈ clw.reads ord answer) (hItem : item ∈ read.1.items) :
    item.notTooNew read.2 = true := by
  obtain ⟨clusterName, hListed, hAccept⟩ := mem_reads_iff.mp hRead
  obtain ⟨-, itemRV, hParse, hLive⟩ := (hSnap.exact clusterName hListed read.1 read.2 hAccept).sound item hItem
  rw [Object.notTooNew, hParse]
  exact decide_eq_true (objects.exists_event_of_live hLive).2

theorem Snapshots.mem_items_iff (item : Object N V) : item ∈ (clw.list ord answer).2.items ↔
      ∃ read ∈ clw.reads ord answer, item ∈ read.1.items ∧ item.notTooNew (clw.listRV ord answer) = true := by
  have hNotTooNew := @hSnap.notTooNew
  rw [list_items]
  unfold listRV
  cases hReads : clw.reads ord answer with
  | nil => simp [taken]
  | cons first later =>
    rw [taken, mem_append, mem_flatMap, List.head?_cons, map_some, getD_some, exists_mem_cons_iff]
    have hFirst : item ∈ first.1.items → item.notTooNew first.2 = true :=
      fun hItem => hNotTooNew (hReads ▸ mem_cons_self) hItem
    simp only [mem_filter]
    exact or_congr_left ⟨fun hItem => ⟨hItem, hFirst hItem⟩, And.left⟩

theorem Snapshots.item_live (hItem : item ∈ (clw.list ord answer).2.items) :
    (∃ itemRV, parseInt item.resourceVersion = some itemRV ∧
      objects.live (clw.listRV ord answer) (item.cluster, item.name) = some (itemRV, item.content)) ∧
      ∃ rv, Read clw ord answer item.cluster rv ∧
        ∀ event ∈ objects.between (clw.listRV ord answer) rv, event.key ≠ (item.cluster, item.name) := by
  obtain ⟨read, hRead, hMem, hOld⟩ := (hSnap.mem_items_iff item).mp hItem
  have hFirst := hSnap.first_le read hRead
  obtain ⟨clusterName, hListed, hAccept⟩ := mem_reads_iff.mp hRead
  obtain ⟨rfl, itemRV, hParse, hLive⟩ := (hSnap.exact clusterName hListed read.1 read.2 hAccept).sound item hMem
  rw [Object.notTooNew, hParse] at hOld
  have hOld : itemRV ≤ clw.listRV ord answer := of_decide_eq_true hOld
  -- written at or before the version of the list, the object has no event from there to the version of its reading
  have hUntouched : ∀ event ∈ objects.between (clw.listRV ord answer) read.2,
      event.key ≠ (item.cluster, item.name) := by
    intro event hBetween hKey
    obtain ⟨hEvent, hLow, hHigh⟩ := objects.mem_between_iff.mp hBetween
    exact absurd (objects.version_le_of_live hLive hEvent hKey hHigh) (not_le.mpr (lt_of_le_of_lt hOld hLow))
  refine ⟨⟨itemRV, hParse, ?_⟩, read.2, ⟨hListed, read.1, hAccept⟩, hUntouched⟩
  rw [← objects.live_of_untouched hFirst le_rfl hUntouched, hLive]

theorem Snapshots.exists_item (hRead : Read clw ord answer clusterName rv)
    (hLive : (objects.live (clw.listRV ord answer) (clusterName, name)).isSome)
    (hUntouched : ∀ event ∈ objects.between (clw.listRV ord answer) rv, event.key ≠ (clusterName, name)) :
    ∃ item ∈ (clw.list ord answer).2.items, item.cluster = clusterName ∧ item.name = name := by
  obtain ⟨hListed, sublist, hAccept⟩ := hRead
  have hMem : (sublist, rv) ∈ clw.reads ord answer := mem_reads_iff.mpr ⟨clusterName, hListed, hAccept⟩
  have hExact := hSnap.exact clusterName hListed sublist rv hAccept
  have hSame := objects.live_of_untouched (hSnap.first_le _ hMem) le_rfl hUntouched
  obtain ⟨item, hItem, rfl⟩ := hExact.complete name (hSame.symm ▸ hLive)
  obtain ⟨rfl, itemRV, hParse, hLive⟩ := hExact.sound item hItem
  refine ⟨item, (hSnap.mem_items_iff item).mpr ⟨_, hMem, hItem, ?_⟩, rfl, rfl⟩
  rw [Object.notTooNew, hParse]
  exact decide_eq_true (objects.exists_event_of_live (hSame ▸ hLive)).2

theorem Snapshots.storeOf_item (hItem : item ∈ (clw.list ord answer).2.items) :
    storeOf (clw.list ord answer).2.items (item.cluster, item.name) =
      objects.live (clw.listRV ord answer) (item.cluster, item.name) := by
  unfold storeOf
  cases hFind : (clw.list ord answer).2.items.find? fun other =>
      other.cluster = item.cluster ∧ other.name = item.name with
  | none => exact absurd (List.find?_eq_none.mp hFind item hItem) (by simp)
  | some other =>
    have hBoth := List.find?_some hFind
    rw [decide_eq_true_eq] at hBoth
    obtain ⟨hCluster, hName⟩ := hBoth
    obtain ⟨⟨itemRV, hParse, hLive⟩, -⟩ := hSnap.item_live (mem_of_find?_eq_some hFind)
    rw [bind_some, hParse, map_some, ← hCluster, ← hName, hLive]

omit hSnap

theorem storeOf_eq_none {items : List (Object N V)}
    (hNone : ∀ item ∈ items, item.cluster = clusterName → item.name ≠ name) :
    storeOf items (clusterName, name) = none := by
  have hFind : (items.find? fun item => item.cluster = clusterName ∧ item.name = name) = none := by
    refine List.find?_eq_none.mpr fun item hItem hBoth => ?_
    obtain ⟨hCluster, hName⟩ := of_decide_eq_true hBoth
    exact hNone item hItem hCluster hName
  rw [storeOf, hFind, bind_none]

theorem Snapshots.storeOf_eq_live (hSnap : Snapshots objects clw ord answer)
    (hRead : Read clw ord answer clusterName rv)
    (hUntouched : ∀ event ∈ objects.between (clw.listRV ord answer) rv, event.key ≠ (clusterName, name)) :
    storeOf (clw.list ord answer).2.items (clusterName, name) =
      objects.live (clw.listRV ord answer) (clusterName, name) := by
  by_cases hItem : ∃ item ∈ (clw.list ord answer).2.items, item.cluster = clusterName ∧ item.name = name
  · obtain ⟨item, hItem, rfl, rfl⟩ := hItem
    exact hSnap.storeOf_item hItem
  · rw [storeOf_eq_none fun item hMem hCluster hName => hItem ⟨item, hMem, hCluster, hName⟩]
    cases hLive : objects.live (clw.listRV ord answer) (clusterName, name) with
    | none => rfl
    | some live => exact absurd (hSnap.exists_item hRead (hLive ▸ rfl) hUntouched) hItem

theorem mem_listed_iff :
    clusterName ∈ clw.listed ord ↔ clw.perCluster.has clusterName = true ∧
      (clusterName = "" → clw.clusterListFirst ≠ "") := by
  rw [listed, mem_append, mem_filter, RangeOrder.mem_visit_keys_iff]
  by_cases hFirst : clusterName = clw.clusterListFirst
  · subst hFirst
    by_cases hHas : clw.perCluster.has clw.clusterListFirst = true <;> by_cases hEmpty : clw.clusterListFirst = "" <;>
      simp [hHas, hEmpty]
  · have hNot : clusterName ∉ if clw.clusterListFirst ≠ "" ∧ clw.perCluster.has clw.clusterListFirst then
        [clw.clusterListFirst] else [] := by
      split <;> simp [hFirst]
    simp only [hNot, false_or, decide_eq_true_eq]
    exact and_congr_right fun _ => ⟨fun _ hEmpty hEmpty' => hFirst (hEmpty.trans hEmpty'.symm), fun _ => hFirst⟩

/-- The events that the watches of the included clusters report, in the order of their versions. -/
def watched (objects : Objects N V) (clw : CrossClusterListerWatcher) (low high : Int) :
    List (History.Event Int (String × N) V) :=
  (objects.between low high).filter fun event => clw.perCluster.has event.key.1

theorem snapshots_of_reads {readAt : String → Int} (hReads : ∀ clusterName ∈ clw.listed ord, ∃ sublist,
      clw.accept (answer clusterName) = some (sublist, readAt clusterName) ∧
        Exact objects clusterName sublist (readAt clusterName))
    (hFirst : ∀ first ∈ (clw.listed ord).head?, ∀ clusterName ∈ clw.listed ord, readAt first ≤ readAt clusterName) :
    Snapshots objects clw ord answer where
  exact clusterName hListed sublist rv hAccept := by
    obtain ⟨sublist', hAccept', hExact⟩ := hReads clusterName hListed
    obtain ⟨rfl, rfl⟩ := Prod.mk.inj (Option.mem_unique hAccept hAccept')
    exact hExact
  first_le read hRead := by
    obtain ⟨clusterName, hListed, hAccept⟩ := mem_reads_iff.mp hRead
    obtain ⟨sublist, hAccept', -⟩ := hReads clusterName hListed
    obtain ⟨first, rest, hOrder⟩ := exists_cons_of_ne_nil (ne_nil_of_mem hListed)
    obtain ⟨firstList, hAcceptFirst, -⟩ := hReads first (hOrder ▸ mem_cons_self)
    have hRV : clw.listRV ord answer = readAt first := by
      simp [listRV, reads, hOrder, hAcceptFirst]
    rw [hRV, Option.mem_unique hAccept hAccept']
    exact hFirst first (hOrder ▸ rfl) clusterName hListed

/-- Replaying, on the items that List returns, the events of the included clusters after its version gives what is live,
from the largest version on that was read. -/
theorem list_then_watch_is_live (objects : Objects N V) (clw : CrossClusterListerWatcher) (ord : RangeOrder)
    (answer : String → Option (ObjectList N V)) (readAt : String → Int)
    (hReads : ∀ clusterName ∈ clw.listed ord, ∃ sublist,
      clw.accept (answer clusterName) = some (sublist, readAt clusterName) ∧
        Exact objects clusterName sublist (readAt clusterName))
    (hFirst : ∀ first ∈ (clw.listed ord).head?, ∀ clusterName ∈ clw.listed ord, readAt first ≤ readAt clusterName) :
    ∃ listRV, parseInt (clw.list ord answer).2.resourceVersion = some listRV ∧
      ∀ version, (∀ clusterName ∈ clw.listed ord, readAt clusterName ≤ version) → ∀ clusterName name, clusterName ≠ "" →
        (storeOf (clw.list ord answer).2.items).replay (watched objects clw listRV version) (clusterName, name) =
          if clw.perCluster.has clusterName then objects.live version (clusterName, name) else none := by
  have hSnapshots := snapshots_of_reads hReads hFirst
  refine ⟨clw.listRV ord answer, by rw [list_resourceVersion, parseInt_formatInt inInt64_listRV],
    fun version hVersion clusterName name hNamed => ?_⟩
  split
  · rename_i hHas
    have hListed : clusterName ∈ clw.listed ord := mem_listed_iff.mpr ⟨hHas, fun hEmpty => absurd hEmpty hNamed⟩
    obtain ⟨sublist, hAccept, -⟩ := hReads clusterName hListed
    have hRead : Read clw ord answer clusterName (readAt clusterName) := ⟨hListed, sublist, hAccept⟩
    have hLow := hSnapshots.first_le _ (mem_reads_iff.mpr ⟨clusterName, hListed, hAccept⟩)
    have hHigh := hVersion clusterName hListed
    refine (History.Store.replay_filter _ _ (fun key : String × N => clw.perCluster.has key.1) hHas).trans ?_
    rw [objects.live_eq_replay (hLow.trans hHigh)]
    by_cases hTouched : ∃ event ∈ objects.between (clw.listRV ord answer) version, event.key = (clusterName, name)
    · exact History.Store.replay_of_touched _ _ hTouched
    · refine History.Store.replay_congr (hSnapshots.storeOf_eq_live hRead fun event hBetween hKey =>
        hTouched ⟨event, ?_, hKey⟩) _
      obtain ⟨hEvent, hAfter, hUpTo⟩ := objects.mem_between_iff.mp hBetween
      exact objects.mem_between_iff.mpr ⟨hEvent, hAfter, hUpTo.trans hHigh⟩
  · rename_i hHas
    have hNone : storeOf (clw.list ord answer).2.items (clusterName, name) = none := by
      refine storeOf_eq_none fun item hItem hCluster _ => hHas ?_
      obtain ⟨-, rv, ⟨hListed, -⟩, -⟩ := hSnapshots.item_live hItem
      exact hCluster ▸ (mem_listed_iff.mp hListed).1
    rw [History.Store.replay_of_untouched _ fun event hMem hKey => ?_, hNone]
    have hIncluded : clw.perCluster.has event.key.1 = true := (mem_filter.mp hMem).2
    rw [hKey] at hIncluded
    exact hHas hIncluded

/-- An object is created in one cluster; in another one, an object is created and deleted, and then one more is
created. -/
def threeObjects : Objects Nat Nat where
  events := [⟨1, ("a", 0), some 10⟩, ⟨2, ("b", 0), some 20⟩, ⟨3, ("b", 0), none⟩, ⟨4, ("b", 1), some 30⟩]
  increasing := by decide

def twoClusters : CrossClusterListerWatcher :=
  ⟨⟨"", "v1", "ConfigMapList"⟩, (∅ : MapSet String).addAll ["a", "b"], "a", 2⟩

/-- The second cluster is read after its object was deleted and another one was created. -/
def twoAnswers (clusterName : String) : Option (ObjectList Nat Nat) :=
  if clusterName = "a" then some ⟨⟨"", "v1", "ConfigMapList"⟩, "2", [⟨"a", 0, "1", 10⟩]⟩
  else some ⟨⟨"", "v1", "ConfigMapList"⟩, "4", [⟨"b", 1, "4", 30⟩]⟩

def twoReadings (clusterName : String) : Int := if clusterName = "a" then 2 else 4

theorem exact_first : Exact threeObjects "a" ⟨⟨"", "v1", "ConfigMapList"⟩, "2", [⟨"a", 0, "1", 10⟩]⟩ 2 where
  sound item hItem := by
    obtain rfl := mem_singleton.mp hItem
    exact ⟨rfl, 1, by decide, by decide⟩
  complete name hLive := by
    obtain ⟨live, hLive⟩ := isSome_iff_exists.mp hLive
    have hEvent := (threeObjects.exists_event_of_live hLive).1
    have hName : name = 0 := by
      simp [threeObjects] at hEvent
      exact hEvent.2.1
    exact ⟨_, mem_singleton.mpr rfl, hName.symm⟩

theorem exact_second : Exact threeObjects "b" ⟨⟨"", "v1", "ConfigMapList"⟩, "4", [⟨"b", 1, "4", 30⟩]⟩ 4 where
  sound item hItem := by
    obtain rfl := mem_singleton.mp hItem
    exact ⟨rfl, 4, by decide, by decide⟩
  complete name hLive := by
    obtain ⟨live, hLive⟩ := isSome_iff_exists.mp hLive
    have hEvent := (threeObjects.exists_event_of_live hLive).1
    have hName : name = 0 ∨ name = 1 := by
      simp [threeObjects] at hEvent
      exact hEvent.imp (fun h => h.2.1) fun h => h.2.1
    rcases hName with rfl | rfl
    · exact absurd hLive (by rw [show threeObjects.live 4 ("b", 0) = none by decide]; simp)
    · exact ⟨_, mem_singleton.mpr rfl, rfl⟩

theorem twoClusters_reads : ∀ clusterName ∈ twoClusters.listed .insertion, ∃ sublist,
    twoClusters.accept (twoAnswers clusterName) = some (sublist, twoReadings clusterName) ∧
      Exact threeObjects clusterName sublist (twoReadings clusterName) := by
  intro clusterName hMem
  rcases mem_cons.mp hMem with rfl | hMem
  · exact ⟨_, rfl, exact_first⟩
  · obtain rfl := mem_singleton.mp hMem
    exact ⟨_, rfl, exact_second⟩

theorem list_then_watch_is_live_two : (twoClusters.list .insertion twoAnswers).2.items.map Object.name = [0] ∧
      ∃ listRV, parseInt (twoClusters.list .insertion twoAnswers).2.resourceVersion = some listRV ∧
        ∀ version, (∀ clusterName ∈ twoClusters.listed .insertion, twoReadings clusterName ≤ version) →
          ∀ clusterName name, clusterName ≠ "" → (storeOf (twoClusters.list .insertion twoAnswers).2.items).replay
                (watched threeObjects twoClusters listRV version) (clusterName, name) =
              if twoClusters.perCluster.has clusterName then threeObjects.live version (clusterName, name) else none :=
  ⟨by decide, list_then_watch_is_live threeObjects twoClusters .insertion twoAnswers twoReadings twoClusters_reads
    (by decide)⟩

end KubeStellar.MailboxWatch
