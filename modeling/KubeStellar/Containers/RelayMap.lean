import KubeStellar.Library.ChangeStream
import Mathlib.Logic.Function.Basic

/-! # Relay maps

`pkg/placement/relay-map.go`: a map that tells its receivers of its writes, and a receiver that is added of what is
there, if that is asked for. Where receivers are deduplicated, one that is there is not added again.
-/

namespace KubeStellar

/-- What is fixed when the map is made, and the zero value of Go for its values. -/
structure RelayMapConfig (O I : Type) where
  dedupReceivers : Bool
  transform : O → I
  zero : O

/-- Beside the fields of `relayMap`, the maps that the receivers accumulate from the calls on them. -/
structure RelayMap (R K O I : Type) where
  theMap : GoMap K O
  receivers : List R
  accumulated : R → K → Option I

namespace RelayMap

open List Function

inductive Call (R K O I : Type) where
  | put (key : K) (outerVal : O)
  | delete (key : K)
  | remove (key : K)
  | maybeRelease (key : K) (shouldRelease : I → Bool)
  | addReceiver (receiver : R) (notifyCurrent : Bool) (ord : RangeOrder)

variable {R K O I : Type} [DecidableEq R] [DecidableEq K]

/-- The receiver is called with the writes. -/
def tell (ws : List (MapWrite K I)) (accumulated : R → K → Option I) (receiver : R) : R → K → Option I :=
  update accumulated receiver (MapWrite.replay (accumulated receiver) ws)

variable (cfg : RelayMapConfig O I) (rm : RelayMap R K O I)

def tellAll (w : MapWrite K O) : RelayMap R K O I :=
  { rm with
    theMap := rm.theMap.write w
    accumulated := rm.receivers.foldl (tell [w.mapVal fun _ => cfg.transform]) rm.accumulated }

def maybeRelease (key : K) (shouldRelease : I → Bool) : RelayMap R K O I :=
  if shouldRelease (cfg.transform ((rm.theMap.get key).getD cfg.zero)) then rm.tellAll cfg (.delete key) else rm

def addReceiver (receiver : R) (notifyCurrent : Bool) (ord : RangeOrder) : RelayMap R K O I :=
  if cfg.dedupReceivers = true ∧ receiver ∈ rm.receivers then rm
  else
    { rm with
      receivers := rm.receivers ++ [receiver]
      accumulated :=
        if notifyCurrent then
          tell ((ord.visit rm.theMap).map fun e => .put e.1 (cfg.transform e.2)) rm.accumulated receiver
        else rm.accumulated }

def step : Call R K O I → RelayMap R K O I
  | .put key outerVal => rm.tellAll cfg (.put key outerVal)
  | .delete key => rm.tellAll cfg (.delete key)
  | .remove key => rm.maybeRelease cfg key fun _ => true
  | .maybeRelease key shouldRelease => rm.maybeRelease cfg key shouldRelease
  | .addReceiver receiver notifyCurrent ord => rm.addReceiver cfg receiver notifyCurrent ord

def content (k : K) : Option I := (rm.theMap.get k).map cfg.transform

def run (calls : List (Call R K O I)) : RelayMap R K O I := calls.foldl (step cfg) ⟨∅, [], fun _ _ => none⟩

variable {cfg rm} {receiver : R} (w : MapWrite K O)

theorem accumulated_tellAll (receiver : R) (w : MapWrite K O) : (rm.tellAll cfg w).accumulated receiver =
    if receiver ∈ rm.receivers then MapWrite.on (rm.accumulated receiver) (w.mapVal fun _ => cfg.transform)
    else rm.accumulated receiver := by
  rw [tellAll]
  generalize rm.accumulated = accumulated
  induction rm.receivers generalizing accumulated with
  | nil => rfl
  | cons first rest ih =>
    refine (ih _).trans ?_
    rw [tell]
    by_cases hFirst : receiver = first
    · rw [hFirst, update_self, if_pos mem_cons_self]
      split
      · exact MapWrite.on_eq_self (if_pos rfl)
      · rfl
    · simp only [update_of_ne hFirst, mem_cons, hFirst, false_or]

theorem content_tellAll :
    (rm.tellAll cfg w).content cfg = MapWrite.on (rm.content cfg) (w.mapVal fun _ => cfg.transform) := by
  funext k
  rw [content, tellAll, GoMap.get_write, MapWrite.on, MapWrite.on, MapWrite.key_mapVal, MapWrite.after_mapVal]
  split <;> rfl

/-- What a receiver has accumulated is part of the map; it is nothing if the receiver was not added. -/
structure Follows (cfg : RelayMapConfig O I) (receiver : R) (rm : RelayMap R K O I) : Prop where
  part : ∀ k, rm.accumulated receiver k = none ∨ rm.accumulated receiver k = rm.content cfg k
  unheard : receiver ∉ rm.receivers → rm.accumulated receiver = fun _ => none

variable (hFollows : Follows cfg receiver rm)

include hFollows

omit [DecidableEq R] in
theorem Follows.replay_visit (ord : RangeOrder) : MapWrite.replay (rm.accumulated receiver)
    ((ord.visit rm.theMap).map fun e => .put e.1 (cfg.transform e.2)) = rm.content cfg := by
  funext k
  refine MapWrite.replay_eq_of_agree ?_ fun hNone => ?_
  · rintro w hMem rfl
    obtain ⟨⟨k, v⟩, hVisited, rfl⟩ := mem_map.mp hMem
    rw [content, MapWrite.key, (ord.mem_visit_iff rm.theMap k v).mp hVisited]
    rfl
  · rcases hFollows.part k with hAcc | hAcc
    · rw [hAcc, content, eq_comm, Option.map_eq_none_iff, Option.eq_none_iff_forall_not_mem]
      intro v hGet
      exact hNone _ (mem_map_of_mem ((ord.mem_visit_iff rm.theMap k v).mpr hGet)) rfl
    · exact hAcc

/-- An invariant, that a receiver stays registered, and that one which holds all of the content still does. -/
structure Kept (cfg : RelayMapConfig O I) (receiver : R) (rm rm' : RelayMap R K O I) : Prop where
  follows : Follows cfg receiver rm'
  registered : receiver ∈ rm.receivers → receiver ∈ rm'.receivers
  current : receiver ∈ rm.receivers → rm.accumulated receiver = rm.content cfg →
    rm'.accumulated receiver = rm'.content cfg

theorem Follows.tellAll : Kept cfg receiver rm (rm.tellAll cfg w) := by
  refine ⟨⟨fun k => ?_, fun hNot => ?_⟩, id, fun hMem hSame => ?_⟩
  · rw [content_tellAll, accumulated_tellAll]
    split
    · rw [MapWrite.on, MapWrite.on]
      split
      · exact .inr rfl
      · exact hFollows.part k
    · next hNot => exact .inl (congrFun (hFollows.unheard hNot) k)
  · rw [accumulated_tellAll]
    exact (if_neg hNot).trans (hFollows.unheard hNot)
  · rw [content_tellAll, accumulated_tellAll, if_pos hMem, hSame]

theorem Follows.addReceiver (added : R) (notifyCurrent : Bool) (ord : RangeOrder) :
    Kept cfg receiver rm (rm.addReceiver cfg added notifyCurrent ord) := by
  rw [RelayMap.addReceiver]
  split
  · exact ⟨hFollows, id, fun _ hSame => hSame⟩
  · by_cases hTold : notifyCurrent = true ∧ receiver = added
    · obtain ⟨rfl, rfl⟩ := hTold
      have hAll := (update_self receiver _ rm.accumulated).trans (hFollows.replay_visit ord)
      exact ⟨⟨fun k => .inr (congrFun hAll k), fun hNot => absurd mem_concat_self hNot⟩,
        fun _ => mem_concat_self, fun _ _ => hAll⟩
    · have hSame : (if notifyCurrent then tell ((ord.visit rm.theMap).map fun e => .put e.1 (cfg.transform e.2))
          rm.accumulated added else rm.accumulated) receiver = rm.accumulated receiver := by
        split
        · next hNotify => exact update_of_ne (fun hEq => hTold ⟨hNotify, hEq⟩) _ _
        · rfl
      refine ⟨⟨fun k => ?_, fun hNot => ?_⟩, mem_append_left _, fun _ hCurrent => hSame.trans hCurrent⟩
      · exact (hFollows.part k).imp (congrFun hSame k).trans (congrFun hSame k).trans
      · exact hSame.trans (hFollows.unheard fun hMem => hNot (mem_append_left _ hMem))

theorem Follows.step (call : Call R K O I) : Kept cfg receiver rm (rm.step cfg call) := by
  have hReleased : ∀ key shouldRelease, Kept cfg receiver rm (rm.maybeRelease cfg key shouldRelease) := by
    intro key shouldRelease
    rw [maybeRelease]
    split
    · exact hFollows.tellAll _
    · exact ⟨hFollows, id, fun _ hSame => hSame⟩
  cases call with
  | put key outerVal => exact hFollows.tellAll _
  | delete key => exact hFollows.tellAll _
  | remove key => exact hReleased key fun _ => true
  | maybeRelease key shouldRelease => exact hReleased key shouldRelease
  | addReceiver added notifyCurrent ord => exact hFollows.addReceiver added notifyCurrent ord

theorem Follows.run (calls : List (Call R K O I)) : Kept cfg receiver rm (calls.foldl (RelayMap.step cfg) rm) := by
  induction calls generalizing rm with
  | nil => exact ⟨hFollows, id, fun _ hSame => hSame⟩
  | cons call calls ih =>
    have hStep := hFollows.step call
    have hRest := ih hStep.follows
    exact ⟨hRest.follows, fun hMem => hRest.registered (hStep.registered hMem),
      fun hMem hSame => hRest.current (hStep.registered hMem) (hStep.current hMem hSame)⟩

omit hFollows

/-- After a registration that asks for the current content a receiver holds that content for good, unless the
registration was dropped and the receiver lacked something at that time. -/
theorem receivers_track_iff (cfg : RelayMapConfig O I) (receiver : R) (calls : List (Call R K O I)) :
    (∀ before ord between after, calls = before ++ .addReceiver receiver true ord :: (between ++ after) →
      (run cfg (before ++ .addReceiver receiver true ord :: between)).accumulated receiver =
        (run cfg (before ++ .addReceiver receiver true ord :: between)).content cfg) ↔
    ∀ before ord after, calls = before ++ .addReceiver receiver true ord :: after →
      cfg.dedupReceivers = true → receiver ∈ (run cfg before).receivers →
        (run cfg before).accumulated receiver = (run cfg before).content cfg := by
  have hFollows : ∀ before : List (Call R K O I), Follows cfg receiver (run cfg before) := fun before =>
    (Follows.run ⟨fun _ => .inl rfl, fun _ => rfl⟩ before).follows
  have hRun : ∀ (before : List (Call R K O I)) call between, run cfg (before ++ call :: between) =
      between.foldl (step cfg) ((run cfg before).step cfg call) := fun before call between => foldl_append
  constructor
  · intro hTracks before ord after hCalls hDedup hMem
    have hAdded := hTracks before ord [] after hCalls
    rw [hRun, foldl_nil, step, addReceiver, if_pos ⟨hDedup, hMem⟩] at hAdded
    exact hAdded
  · intro hCovered before ord between after hCalls
    rw [hRun]
    have hAdded : receiver ∈ ((run cfg before).step cfg (.addReceiver receiver true ord)).receivers ∧
        ((run cfg before).step cfg (.addReceiver receiver true ord)).accumulated receiver =
          ((run cfg before).step cfg (.addReceiver receiver true ord)).content cfg := by
      rw [step, addReceiver]
      split
      · next hDropped => exact ⟨hDropped.2, hCovered before ord _ hCalls hDropped.1 hDropped.2⟩
      · exact ⟨mem_concat_self, (update_self receiver _ _).trans ((hFollows before).replay_visit ord)⟩
    exact (((hFollows before).step _).follows.run between).current hAdded.1 hAdded.2

/-- A receiver that was added without notice of the content is not told of it when it asks for that later. -/
theorem late_notice_dropped : let cfg : RelayMapConfig Nat Nat := ⟨true, id, 0⟩
    let calls : List (Call Nat Nat Nat Nat) :=
      [.put 1 5, .addReceiver 7 false .insertion, .addReceiver 7 true .insertion]
    (run cfg calls).accumulated 7 1 = none ∧ (run cfg calls).content cfg 1 = some 5 := by
  decide

end RelayMap

end KubeStellar
