import KubeStellar.Library.GoMap
import Mathlib.Logic.Equiv.Defs

/-! # Change streams

A component is told of changes to its inputs and tells others of the changes to its output. A stream of
writes is judged by the content that its replay makes; the content of a map is a function to `Option`. The elements of
a set may be compared by a function.
-/

inductive MapWrite (K V : Type) where
  | put (key : K) (val : V)
  | delete (key : K)

inductive SetWrite (E : Type) where
  | add (elt : E)
  | remove (elt : E)

namespace MapWrite

open List

variable {K L V W : Type}

def key : MapWrite K V → K
  | put key _ => key
  | delete key => key

def after : MapWrite K V → Option V
  | put _ val => some val
  | delete _ => none

def mapKey (f : K → L) : MapWrite K V → MapWrite L V
  | put key val => put (f key) val
  | delete key => delete (f key)

variable (f : K → V → W)

def mapVal : MapWrite K V → MapWrite K W
  | put key val => put key (f key val)
  | delete key => delete key

@[simp] theorem key_mapKey (f : K → L) (w : MapWrite K V) : (w.mapKey f).key = f w.key := by
  cases w <;> rfl

@[simp] theorem after_mapKey (f : K → L) (w : MapWrite K V) : (w.mapKey f).after = w.after := by
  cases w <;> rfl

@[simp] theorem key_mapVal (w : MapWrite K V) : (w.mapVal f).key = w.key := by
  cases w <;> rfl

@[simp] theorem after_mapVal (w : MapWrite K V) : (w.mapVal f).after = w.after.map (f w.key) := by
  cases w <;> rfl

variable [DecidableEq K] {f : K → Option V} {ws : List (MapWrite K V)} {w : MapWrite K V} {R : V → W → Prop}
  {g : K → Option W}

def on (f : K → Option V) (w : MapWrite K V) : K → Option V := fun k => if k = w.key then w.after else f k

theorem on_eq_self (hSame : f w.key = w.after) : on f w = f := by
  funext k
  rw [on]
  by_cases hKey : k = w.key
  · rw [if_pos hKey, hKey, hSame]
  · rw [if_neg hKey]

def replay (f : K → Option V) (ws : List (MapWrite K V)) : K → Option V := ws.foldl on f

theorem replay_append (f : K → Option V) (ws us : List (MapWrite K V)) :
    replay f (ws ++ us) = replay (replay f ws) us :=
  foldl_append

theorem replay_eq_of_agree {k : K} {final : Option V}
    (hAgree : ∀ w ∈ ws, w.key = k → w.after = final) (hRest : (∀ w ∈ ws, w.key ≠ k) → f k = final) :
    replay f ws k = final := by
  induction ws generalizing f with
  | nil => exact hRest fun w hMem => absurd hMem not_mem_nil
  | cons w ws ih =>
    refine ih (fun u hMem => hAgree u (mem_cons_of_mem _ hMem)) fun hNone => ?_
    by_cases hKey : k = w.key
    · rw [on, if_pos hKey]
      exact hAgree w mem_cons_self hKey.symm
    · rw [on, if_neg hKey]
      refine hRest fun u hMem => ?_
      rcases mem_cons.mp hMem with rfl | hMem
      · exact fun h => hKey h.symm
      · exact hNone u hMem

theorem replay_of_forall_ne {k : K} (hNe : ∀ w ∈ ws, w.key ≠ k) : replay f ws k = f k :=
  replay_eq_of_agree (fun w hMem hKey => absurd hKey (hNe w hMem)) fun _ => rfl

theorem replay_mapKey_pair [DecidableEq L] (f : K × L → Option V) (ws : List (MapWrite L V)) (a : K)
    (key : K × L) : replay f (ws.map (mapKey (a, ·))) key =
      if key.1 = a then replay (fun b => f (a, b)) ws key.2 else f key := by
  induction ws generalizing f with
  | nil =>
    by_cases hEq : key.1 = a
    · rw [if_pos hEq, ← hEq]
      rfl
    · rw [if_neg hEq]
      rfl
  | cons w ws ih =>
    refine (ih (on f (w.mapKey (a, ·)))).trans ?_
    by_cases hEq : key.1 = a
    · rw [if_pos hEq, if_pos hEq]
      refine congrFun (congrArg₂ replay (funext fun b => ?_) rfl) key.2
      simp [on]
    · rw [if_neg hEq, if_neg hEq, on, if_neg]
      rw [key_mapKey]
      exact fun h => hEq (congrArg Prod.fst h)

theorem replay_mapVal (f : K → Option V) (value : K → V → W) (ws : List (MapWrite K V)) :
    replay (fun k => (f k).map (value k)) (ws.map (mapVal value)) = fun k => (replay f ws k).map (value k) := by
  induction ws generalizing f with
  | nil => rfl
  | cons w ws ih =>
    have hOn : on (fun k => (f k).map (value k)) (w.mapVal value) = fun k => (on f w k).map (value k) := by
      funext k
      rw [on, on, key_mapVal, after_mapVal]
      split
      · next hKey => rw [hKey]
      · rfl
    rw [map_cons, replay, foldl_cons, hOn]
    exact ih (on f w)

variable (hRel : ∀ k, Option.Rel R (f k) (g k))

include hRel

theorem rel_on {u : MapWrite K W} (hKey : u.key = w.key) (hAfter : Option.Rel R w.after u.after) :
    ∀ k, Option.Rel R (on f w k) (on g u k) := by
  intro k
  rw [on, on, hKey]
  by_cases hEq : k = w.key
  · rwa [if_pos hEq, if_pos hEq]
  · rw [if_neg hEq, if_neg hEq]
    exact hRel k

theorem rel_replay_mapVal {value : K → V → W} (hValue : ∀ w ∈ ws, ∀ v, w.after = some v → R v (value w.key v)) :
    ∀ k, Option.Rel R (replay f ws k) (replay g (ws.map (mapVal value)) k) := by
  induction ws generalizing f g with
  | nil => exact hRel
  | cons w ws ih =>
    refine ih (rel_on hRel (key_mapVal value w) ?_) fun u hMem => hValue u (mem_cons_of_mem _ hMem)
    rw [after_mapVal]
    cases hAfter : w.after with
    | none => exact Option.Rel.none
    | some v => exact Option.Rel.some (hValue w mem_cons_self v hAfter)

end MapWrite

theorem MapWrite.replay_filterMap_eq_foldl.{u} {K V : Type} {I : Type u} [DecidableEq K]
    (part : I → Option (MapWrite K V))
    (f : K → Option V) (inputs : List I) :
    replay f (inputs.filterMap part) = inputs.foldl (fun f input => ((part input).map (on f)).getD f) f := by
  induction inputs generalizing f with
  | nil => rfl
  | cons input inputs ih =>
    rw [List.filterMap_cons, List.foldl_cons]
    cases part input with
    | none => exact ih f
    | some w => exact ih (on f w)

namespace SetWrite

open List

variable {E F : Type}

/-- A set as a map to `Unit`. -/
def asMapWrite : SetWrite E → MapWrite E Unit
  | add elt => .put elt ()
  | remove elt => .delete elt

def elt : SetWrite E → E
  | add elt => elt
  | remove elt => elt

def mapElt (f : E → F) : SetWrite E → SetWrite F
  | add elt => add (f elt)
  | remove elt => remove (f elt)

@[simp] theorem key_asMapWrite (w : SetWrite E) : w.asMapWrite.key = w.elt := by
  cases w <;> rfl

theorem asMapWrite_mapElt (f : E → F) (w : SetWrite E) : (w.mapElt f).asMapWrite = w.asMapWrite.mapKey f := by
  cases w <;> rfl

variable [DecidableEq E]

def replay (f : E → Option Unit) (ws : List (SetWrite E)) : E → Option Unit :=
  MapWrite.replay f (ws.map asMapWrite)

theorem replay_eq_target {f : E → Option Unit} {ws : List (SetWrite E)} {target : E → Prop} [DecidablePred target]
    (hAdd : ∀ e, add e ∈ ws → target e) (hRemove : ∀ e, remove e ∈ ws → ¬ target e)
    (hAdded : ∀ e, target e → f e = none → add e ∈ ws)
    (hRemoved : ∀ e, ¬ target e → f e ≠ none → remove e ∈ ws) (e : E) :
    replay f ws e = if target e then some () else none := by
  have hNone : (∀ u ∈ ws.map asMapWrite, u.key ≠ e) → f e = if target e then some () else none := by
    intro hNe
    by_cases hTarget : target e
    · rw [if_pos hTarget]
      cases hGet : f e with
      | none => exact absurd rfl (hNe _ (mem_map_of_mem (hAdded e hTarget hGet)))
      | some _ => rfl
    · rw [if_neg hTarget]
      by_contra hGet
      exact hNe _ (mem_map_of_mem (hRemoved e hTarget hGet)) rfl
  refine MapWrite.replay_eq_of_agree ?_ hNone
  intro u hMap hKey
  obtain ⟨w, hMem, rfl⟩ := mem_map.mp hMap
  cases w with
  | add elt =>
    cases hKey
    exact (if_pos (hAdd elt hMem)).symm
  | remove elt =>
    cases hKey
    exact (if_neg (hRemove elt hMem)).symm

theorem replay_mapElt_pair {K L : Type} [DecidableEq K] [DecidableEq L] (f : K × L → Option Unit)
    (ws : List (SetWrite L)) (a : K) (key : K × L) : replay f (ws.map (mapElt (a, ·))) key =
      if key.1 = a then replay (fun b => f (a, b)) ws key.2 else f key := by
  rw [replay, map_map, show asMapWrite ∘ mapElt (a, ·) = MapWrite.mapKey (a, ·) ∘ asMapWrite from
    funext fun w => asMapWrite_mapElt (a, ·) w, ← map_map]
  exact MapWrite.replay_mapKey_pair f _ a key

end SetWrite

namespace SetWrite

open List

variable {E : Type}

structure Exact (before after : E → Prop) (told : List (SetWrite E)) : Prop where
  nodup : told.Nodup
  add_iff : ∀ e, add e ∈ told ↔ ¬ before e ∧ after e
  remove_iff : ∀ e, remove e ∈ told ↔ before e ∧ ¬ after e

variable {before between after : E → Prop} {told later : List (SetWrite E)}

/-- A change of one element at most. -/
theorem Exact.of_others {before after : E → Bool} (e : E) (hOthers : ∀ e', e' ≠ e → before e' = after e') :
    Exact (before · = true) (after · = true)
      (bif before e then bif after e then [] else [remove e] else bif after e then [add e] else []) := by
  refine ⟨by cases before e <;> cases after e <;> simp, fun e' => ?_, fun e' => ?_⟩
  all_goals
    by_cases hEq : e' = e
    · subst hEq
      cases before e' <;> cases after e' <;> simp
    · rw [hOthers e' hEq]
      cases before e <;> cases after e <;> simp [hEq]

theorem Exact.congr {before' after' : E → Prop} (hExact : Exact before after told)
    (hBefore : ∀ e, before' e ↔ before e) (hAfter : ∀ e, after' e ↔ after e) : Exact before' after' told where
  nodup := hExact.nodup
  add_iff e := by rw [hExact.add_iff, hBefore, hAfter]
  remove_iff e := by rw [hExact.remove_iff, hBefore, hAfter]

theorem Exact.exists_iff (hExact : Exact before after told) (e : E) :
    (∃ w ∈ told, w.elt = e) ↔ ¬ (before e ↔ after e) := by
  constructor
  · rintro ⟨w, hMem, rfl⟩
    cases w with
    | add e =>
      have hAdd := (hExact.add_iff e).mp hMem
      exact fun hSame => hAdd.1 (hSame.mpr hAdd.2)
    | remove e =>
      have hRemove := (hExact.remove_iff e).mp hMem
      exact fun hSame => hRemove.2 (hSame.mp hRemove.1)
  · intro hChanged
    by_cases hBefore : before e
    · exact ⟨_, (hExact.remove_iff e).mpr ⟨hBefore, fun hAfter => hChanged (iff_of_true hBefore hAfter)⟩, rfl⟩
    · refine ⟨_, (hExact.add_iff e).mpr ⟨hBefore, ?_⟩, rfl⟩
      by_contra hAfter
      exact hChanged (iff_of_false hBefore hAfter)

theorem Exact.append (hTold : Exact before between told) (hLater : Exact between after later)
    (hApart : ∀ w ∈ told, ∀ w' ∈ later, w.elt ≠ w'.elt) : Exact before after (told ++ later) := by
  have hKept : ∀ e, (∃ w ∈ told, w.elt = e) → (between e ↔ after e) := by
    rintro e ⟨w, hMem, rfl⟩
    by_contra hChanged
    obtain ⟨w', hMem', hElt⟩ := (hLater.exists_iff w.elt).mpr hChanged
    exact hApart w hMem w' hMem' hElt.symm
  have hStill : ∀ e, (¬ ∃ w ∈ told, w.elt = e) → (before e ↔ between e) := by
    intro e hNone
    rw [hTold.exists_iff] at hNone
    exact not_not.mp hNone
  refine ⟨nodup_append.mpr ⟨hTold.nodup, hLater.nodup, ?_⟩, fun e => ?_, fun e => ?_⟩
  · rintro w hMem w' hMem' rfl
    exact hApart w hMem w hMem' rfl
  · rw [mem_append, hTold.add_iff, hLater.add_iff]
    by_cases hSome : ∃ w ∈ told, w.elt = e
    · rw [← hKept e hSome]
      exact or_iff_left fun hBoth => hBoth.1 hBoth.2
    · rw [hStill e hSome]
      exact or_iff_right fun hBoth => hBoth.1 hBoth.2
  · rw [mem_append, hTold.remove_iff, hLater.remove_iff]
    by_cases hSome : ∃ w ∈ told, w.elt = e
    · rw [← hKept e hSome]
      exact or_iff_left fun hBoth => hBoth.2 hBoth.1
    · rw [hStill e hSome]
      exact or_iff_right fun hBoth => hBoth.2 hBoth.1

theorem Exact.replay_eq_some_iff [DecidableEq E] (hExact : Exact before after told) {f : E → Option Unit}
    (hBefore : ∀ e, f e = some () ↔ before e) (e : E) : replay f told e = some () ↔ after e := by
  classical
  have hTarget : replay f told e = if after e then some () else none := by
    refine replay_eq_target (fun e hMem => ((hExact.add_iff e).mp hMem).2)
      (fun e hMem => ((hExact.remove_iff e).mp hMem).2) (fun e hAfter hNone => ?_) (fun e hAfter hSome => ?_) e
    · refine (hExact.add_iff e).mpr ⟨fun hHad => ?_, hAfter⟩
      cases hNone.symm.trans ((hBefore e).mpr hHad)
    · obtain ⟨⟨⟩, hGet⟩ := Option.ne_none_iff_exists'.mp hSome
      exact (hExact.remove_iff e).mpr ⟨(hBefore e).mp hGet, hAfter⟩
  rw [hTarget]
  split <;> simp [*]

end SetWrite

def GoMap.write {K V : Type} [DecidableEq K] (m : GoMap K V) : MapWrite K V → GoMap K V
  | .put key val => m.put key val
  | .delete key => m.delete key

theorem GoMap.get_write {K V : Type} [DecidableEq K] (m : GoMap K V) (w : MapWrite K V) :
    (m.write w).get = MapWrite.on m.get w := by
  funext k
  cases w with
  | put key val => exact GoMap.get_put m key k val
  | delete key => exact GoMap.get_delete m key k

namespace FactoredMap

variable {A B V : Type} [DecidableEq A] [DecidableEq B] (m : FactoredMap A B V)

/-- The content of a factored map under its whole keys. -/
def content (key : A × B) : Option V := m.get key.1 key.2

def write : MapWrite (A × B) V → FactoredMap A B V
  | .put key val => m.put key.1 key.2 val
  | .delete key => m.delete key.1 key.2

theorem content_write (w : MapWrite (A × B) V) : (m.write w).content = MapWrite.on m.content w := by
  funext key
  cases w with
  | put key' val => exact (get_put m key'.1 key.1 key'.2 key.2 val).trans (by simp [MapWrite.on, MapWrite.key,
      MapWrite.after, content, Prod.ext_iff])
  | delete key' => exact (get_delete m key'.1 key.1 key'.2 key.2).trans (by simp [MapWrite.on, MapWrite.key,
      MapWrite.after, content, Prod.ext_iff])

end FactoredMap

universe u v w

variable {S : Type u} {I : Type v} {O : Type w} {F : Type u} (step : S → I → S × List O)

def emitAll (s : S) : List I → S × List O
  | [] => (s, [])
  | input :: inputs =>
    let now := step s input
    let later := emitAll now.1 inputs
    (later.1, now.2 ++ later.2)

variable {step} (view : S → F)

theorem emitAll_append (s : S) (inputs inputs' : List I) : emitAll step s (inputs ++ inputs') =
    ((emitAll step (emitAll step s inputs).1 inputs').1,
      (emitAll step s inputs).2 ++ (emitAll step (emitAll step s inputs).1 inputs').2) := by
  induction inputs generalizing s with
  | nil => rfl
  | cons input inputs ih => rw [List.cons_append, emitAll, ih, emitAll, List.append_assoc]

theorem emitAll_accounts (apply : F → O → F)
    (hStep : ∀ s input, view (step s input).1 = (step s input).2.foldl apply (view s)) (s : S)
    (inputs : List I) : view (emitAll step s inputs).1 = (emitAll step s inputs).2.foldl apply (view s) := by
  induction inputs generalizing s with
  | nil => rfl
  | cons input inputs ih =>
    rw [emitAll, ih (step s input).1, hStep s input, List.foldl_append]

theorem emitAll_view (apply : F → I → F)
    (hStep : ∀ s input, view (step s input).1 = apply (view s) input) (s : S) (inputs : List I) :
    view (emitAll step s inputs).1 = inputs.foldl apply (view s) := by
  induction inputs generalizing s with
  | nil => rfl
  | cons input inputs ih => rw [emitAll, ih (step s input).1, hStep s input, List.foldl_cons]

theorem emitAll_simulates {T J P : Type} {abstract : T → J → T × List P} (R : S → T → Prop) (asInput : I → J)
    (asTold : O → P)
    (hStep : ∀ s t input, R s t → R (step s input).1 (abstract t (asInput input)).1 ∧
      (step s input).2.map asTold = (abstract t (asInput input)).2) {s : S} {t : T} (hRel : R s t) (inputs : List I) :
    R (emitAll step s inputs).1 (emitAll abstract t (inputs.map asInput)).1 ∧
      (emitAll step s inputs).2.map asTold = (emitAll abstract t (inputs.map asInput)).2 := by
  induction inputs generalizing s t with
  | nil => exact ⟨hRel, rfl⟩
  | cons input inputs ih =>
    obtain ⟨hNow, hTold⟩ := hStep s t input hRel
    obtain ⟨hLater, hToldLater⟩ := ih hNow
    refine ⟨hLater, ?_⟩
    rw [List.map_cons, emitAll, emitAll, List.map_append, hTold, hToldLater]

namespace SetWrite

variable {E T U : Type}

def isAdd : SetWrite E → Bool
  | add _ => true
  | remove _ => false

@[simp] theorem isAdd_mapElt (f : T → E) (w : SetWrite T) : (w.mapElt f).isAdd = w.isAdd := by
  cases w <;> rfl

@[simp] theorem elt_mapElt (f : T → E) (w : SetWrite T) : (w.mapElt f).elt = f w.elt := by
  cases w <;> rfl

def onUpTo (same : T → T → Bool) (w : SetWrite T) (f : T → Bool) (t : T) : Bool := if same t w.elt then w.isAdd else f t

/-- What is in a set after some writes to the empty set. -/
def heldBy (same : T → T → Bool) (ws : List (SetWrite T)) : T → Bool :=
  ws.foldl (fun f w => w.onUpTo same f) fun _ => false

/-- Each change is told once, as an addition or as a removal of an element that is the same. -/
structure ExactUpTo (same : E → E → Bool) (before after : E → Bool) (told : List (SetWrite E)) : Prop where
  distinct : told.Pairwise fun w w' => same w.elt w'.elt = false
  told_iff : ∀ e isAdd, (∃ w ∈ told, same e w.elt = true ∧ w.isAdd = isAdd) ↔ before e = !isAdd ∧ after e = isAdd

theorem ExactUpTo.extrapolate (same : E → E → Bool) (sameT : T → T → Bool) (sameU : U → U → Bool) (part : E ≃ T × U)
    (hSame : ∀ e e', same e e' = (sameT (part e).1 (part e').1 && sameU (part e).2 (part e').2)) {L : T → Bool}
    {R : T → U → Bool} {w : SetWrite T} {us : List U} (hLeft : ∀ t, sameT t w.elt = true → L t = L w.elt)
    (hRight : ∀ t u, sameT t w.elt = true → (R t u = true ↔ ∃ u' ∈ us, sameU u u' = true))
    (hDist : us.Pairwise fun u u' => sameU u u' = false) :
    ExactUpTo same (fun e => L (part e).1 && R (part e).1 (part e).2)
      (fun e => w.onUpTo sameT L (part e).1 && R (part e).1 (part e).2)
      (if L w.elt = w.isAdd then [] else us.map fun u => w.mapElt fun t => part.symm (t, u)) := by
  refine ⟨?_, fun e isAdd => ?_⟩
  · split
    · exact List.Pairwise.nil
    · refine List.pairwise_map.mpr (hDist.imp fun {u u'} hNe => ?_)
      simp [hSame, hNe]
  · rw [onUpTo]
    by_cases hRel : sameT (part e).1 w.elt = true
    · rw [if_pos hRel, hLeft _ hRel]
      split
      · next hNoChange =>
        -- nothing is told, and the element is where it was
        rw [hNoChange]
        refine iff_of_false (fun ⟨_, hMem, _⟩ => by cases hMem) fun hBoth => ?_
        simp [hBoth.2] at hBoth
      · next hChange =>
        have hTold : (∃ v ∈ us.map fun u => w.mapElt fun t => part.symm (t, u), same e v.elt = true ∧ v.isAdd = isAdd) ↔
            R (part e).1 (part e).2 = true ∧ w.isAdd = isAdd := by
          rw [hRight _ (part e).2 hRel]
          constructor
          · rintro ⟨_, hMem, hEq, rfl⟩
            obtain ⟨u, hVisited, rfl⟩ := List.mem_map.mp hMem
            rw [hSame, elt_mapElt, Equiv.apply_symm_apply, Bool.and_eq_true] at hEq
            exact ⟨⟨u, hVisited, hEq.2⟩, (isAdd_mapElt _ w).symm⟩
          · rintro ⟨⟨u, hMem, hEq⟩, rfl⟩
            exact ⟨_, List.mem_map_of_mem hMem, by simp [hSame, hRel, hEq], isAdd_mapElt _ w⟩
        rw [hTold]
        revert hChange
        cases L w.elt <;> cases w.isAdd <;> cases R (part e).1 (part e).2 <;> cases isAdd <;> simp
    · rw [if_neg hRel]
      refine iff_of_false ?_ fun hBoth => by simp [hBoth.2] at hBoth
      rintro ⟨_, hMem, hEq, -⟩
      split at hMem
      · cases hMem
      · obtain ⟨u, -, rfl⟩ := List.mem_map.mp hMem
        rw [hSame, elt_mapElt, Equiv.apply_symm_apply, Bool.and_eq_true] at hEq
        exact hRel hEq.1

end SetWrite