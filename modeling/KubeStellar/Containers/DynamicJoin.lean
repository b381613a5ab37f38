import KubeStellar.Containers.MapFactored

/-! # Dynamic joins

The equijoins of `pkg/placement/join-dynamic-12vwith13.go` and `join-dynamic-12with13.go`: each keeps its two inputs,
indexed by the common column, and tells how the join changes when one of them does.
-/

namespace KubeStellar

open List MapWrite FactoredMap

/-- `Visit1to2` on the index of a relation or of a factored map. -/
def visit1to2 {A B V : Type} [DecidableEq A] (ord : RangeOrder) (m : FactoredMap A B V) (a : A) : List (B × V) :=
  ord.visit ((m.index a).getD ∅)

theorem mem_visit1to2_iff {A B V : Type} [DecidableEq A] [DecidableEq B] (ord : RangeOrder) (m : FactoredMap A B V)
    (a : A) (b : B) (v : V) : (b, v) ∈ visit1to2 ord m a ↔ m.get a b = some v := by
  rw [visit1to2, ord.mem_visit_iff, FactoredMap.get]
  cases m.index a <;> simp

/-- The observers are told of a call that changes the relation. -/
def relation2WithObservers {R T O : Type} (write : R → SetWrite T → R × Bool) (inner : R)
    (observer : SetWrite T → List O)
    (w : SetWrite T) : R × List O :=
  ((write inner w).1, if (write inner w).2 then observer w else [])

/-- The calls tell whether they change the relation. -/
def writeTuple {A B : Type} [DecidableEq A] [DecidableEq B] (m : FactoredMap A B Unit) :
    SetWrite (A × B) → FactoredMap A B Unit × Bool
  | .add tup => if (m.get tup.1 tup.2).isSome then (m, false) else (m.put tup.1 tup.2 (), true)
  | .remove tup => if (m.get tup.1 tup.2).isSome then (m.delete tup.1 tup.2, true) else (m, false)

theorem writeTuple_cases {A B : Type} [DecidableEq A] [DecidableEq B] (inner : FactoredMap A B Unit)
    (w : SetWrite (A × B)) :
    (inner.content w.elt = w.asMapWrite.after ∧ writeTuple inner w = (inner, false)) ∨
      (inner.content w.elt ≠ w.asMapWrite.after ∧ writeTuple inner w = (inner.write w.asMapWrite, true)) := by
  cases w with
  | add tup =>
    rw [writeTuple]
    split
    · rename_i hSome
      exact .inl ⟨(Option.isSome_iff_exists.mp hSome).choose_spec, rfl⟩
    · rename_i hNone
      refine .inr ⟨fun hSame => hNone ?_, rfl⟩
      exact Option.isSome_iff_exists.mpr ⟨(), hSame⟩
  | remove tup =>
    rw [writeTuple]
    split
    · rename_i hSome
      exact .inr ⟨Option.isSome_iff_ne_none.mp hSome, rfl⟩
    · rename_i hNone
      exact .inl ⟨Option.not_isSome_iff_eq_none.mp hNone, rfl⟩

theorem relation2WithObservers_cases {A B O : Type} [DecidableEq A] [DecidableEq B] (inner : FactoredMap A B Unit)
    (observer : SetWrite (A × B) → List O) (w : SetWrite (A × B)) :
    (inner.content w.elt = w.asMapWrite.after ∧ relation2WithObservers writeTuple inner observer w = (inner, [])) ∨
    (inner.content w.elt ≠ w.asMapWrite.after ∧
      relation2WithObservers writeTuple inner observer w = (inner.write w.asMapWrite, observer w)) := by
  rw [relation2WithObservers]
  rcases writeTuple_cases inner w with ⟨hSame, hEq⟩ | ⟨hChange, hEq⟩
  · exact .inl ⟨hSame, by rw [hEq]; rfl⟩
  · exact .inr ⟨hChange, by rw [hEq]; rfl⟩

theorem relation2WithObservers_map {R T O P : Type} (write : R → SetWrite T → R × Bool) (inner : R)
    (observer : SetWrite T → List O) (f : O → P) (w : SetWrite T) :
    relation2WithObservers write inner (fun w => (observer w).map f) w =
      ((relation2WithObservers write inner observer w).1, (relation2WithObservers write inner observer w).2.map f) := by
  simp only [relation2WithObservers]
  split <;> rfl

theorem content_writeTuple {A B : Type} [DecidableEq A] [DecidableEq B] (inner : FactoredMap A B Unit)
    (w : SetWrite (A × B)) : (writeTuple inner w).1.content = on inner.content w.asMapWrite := by
  rcases writeTuple_cases inner w with ⟨hSame, hEq⟩ | ⟨_, hEq⟩
  · rw [hEq]
    exact (on_eq_self (by rw [SetWrite.key_asMapWrite, hSame])).symm
  · rw [hEq]
    exact content_write inner w.asMapWrite

variable {X Y Z V : Type} [DecidableEq X] [DecidableEq Y] [DecidableEq Z]

structure DynamicJoin12VWith13 (X Y Z V : Type) where
  xyvReln : FactoredMap X Y V
  xzReln : FactoredMap X Z Unit

namespace DynamicJoin12VWith13

variable (ord : RangeOrder) (dj : DynamicJoin12VWith13 X Y Z V) (w : MapWrite (X × Y) V)

def left : MapWrite (X × Y) V → DynamicJoin12VWith13 X Y Z V × List (MapWrite (X × Y × Z) V)
  | .put xy val =>
    ({ dj with xyvReln := dj.xyvReln.put xy.1 xy.2 val },
      (visit1to2 ord dj.xzReln xy.1).map fun z => .put (xy.1, xy.2, z.1) val)
  | .delete xy =>
    if (dj.xyvReln.get xy.1 xy.2).isSome then
      ({ dj with xyvReln := dj.xyvReln.delete xy.1 xy.2 },
        (visit1to2 ord dj.xzReln xy.1).map fun z => .delete (xy.1, xy.2, z.1))
    else (dj, [])

def extrapolate1v : SetWrite (X × Z) → List (MapWrite (X × Y × Z) V)
  | .add xz => (visit1to2 ord dj.xyvReln xz.1).map fun inner => .put (xz.1, inner.1, xz.2) inner.2
  | .remove xz => (visit1to2 ord dj.xyvReln xz.1).map fun inner => .delete (xz.1, inner.1, xz.2)

def right (w : SetWrite (X × Z)) : DynamicJoin12VWith13 X Y Z V × List (MapWrite (X × Y × Z) V) :=
  let told := relation2WithObservers writeTuple dj.xzReln (dj.extrapolate1v ord) w
  ({ dj with xzReln := told.1 }, told.2)

def join (tup : X × Y × Z) : Option V :=
  (dj.xzReln.get tup.1 tup.2.2).bind fun _ => dj.xyvReln.get tup.1 tup.2.1

omit [DecidableEq Z] in
theorem left_xzReln : (dj.left ord w).1.xzReln = dj.xzReln := by
  cases w with
  | put xy val => rfl
  | delete xy =>
    rw [left]
    split <;> rfl

omit [DecidableEq Z] in
theorem left_content : (dj.left ord w).1.xyvReln.content = on dj.xyvReln.content w := by
  cases w with
  | put xy val => exact content_write dj.xyvReln (.put xy val)
  | delete xy =>
    rw [left]
    split
    · exact content_write dj.xyvReln (.delete xy)
    · rename_i hNone
      exact (on_eq_self (Option.not_isSome_iff_eq_none.mp hNone)).symm

variable {ord dj} {u : MapWrite (X × Y × Z) V}

theorem mem_left {w : MapWrite (X × Y) V} (hMem : u ∈ (dj.left ord w).2) :
    ∃ z, dj.xzReln.get w.key.1 z = some () ∧ u.key = (w.key.1, w.key.2, z) ∧ u.after = w.after := by
  cases w with
  | put xy val =>
    obtain ⟨⟨z, _⟩, hVisit, rfl⟩ := mem_map.mp hMem
    exact ⟨z, (mem_visit1to2_iff ord _ _ _ _).mp hVisit, rfl, rfl⟩
  | delete xy =>
    rw [left] at hMem
    split at hMem
    · obtain ⟨⟨z, _⟩, hVisit, rfl⟩ := mem_map.mp hMem
      exact ⟨z, (mem_visit1to2_iff ord _ _ _ _).mp hVisit, rfl, rfl⟩
    · cases hMem

theorem exists_mem_left {w : MapWrite (X × Y) V} {z : Z} (hRight : dj.xzReln.get w.key.1 z = some ())
    (hChange : dj.xyvReln.content w.key ≠ w.after) :
    ∃ u ∈ (dj.left ord w).2, u.key = (w.key.1, w.key.2, z) := by
  have hVisit := (mem_visit1to2_iff ord _ _ _ _).mpr hRight
  cases w with
  | put xy val => exact ⟨_, mem_map_of_mem hVisit, rfl⟩
  | delete xy =>
    have hSome : (dj.xyvReln.get xy.1 xy.2).isSome = true := Option.isSome_iff_ne_none.mpr hChange
    rw [left, if_pos hSome]
    exact ⟨_, mem_map_of_mem hVisit, rfl⟩

variable (ord dj)

theorem left_accounts : (dj.left ord w).1.join = replay dj.join (dj.left ord w).2 := by
  have hJoin : ∀ tup, (dj.left ord w).1.join tup =
      (dj.xzReln.get tup.1 tup.2.2).bind fun _ => on dj.xyvReln.content w (tup.1, tup.2.1) := by
    intro tup
    rw [← left_content ord dj w, ← left_xzReln ord dj w]
    rfl
  funext tup
  obtain ⟨x, y, z⟩ := tup
  symm
  rw [hJoin]
  refine replay_eq_of_agree ?_ ?_
  · intro u hMem hKey
    obtain ⟨z', hRight, hTup, hAfter⟩ := mem_left hMem
    rw [hKey, Prod.mk.injEq, Prod.mk.injEq] at hTup
    obtain ⟨rfl, rfl, rfl⟩ := hTup
    rw [hRight, hAfter, Option.bind_some, on, if_pos rfl]
  · intro hNone
    show (dj.xzReln.get x z).bind _ = _
    cases hRight : dj.xzReln.get x z with
    | none => rfl
    | some _ =>
      rw [Option.bind_some, Option.bind_some, on]
      by_cases hKey : (x, y) = w.key
      · -- nothing was told, so nothing changed
        by_contra hChange
        rw [if_pos hKey] at hChange
        obtain ⟨u, hMem, hTup⟩ := @exists_mem_left _ _ _ _ _ _ _ ord dj w z (by rw [← hKey, hRight])
          (by rw [← hKey]; exact hChange)
        exact hNone u hMem (by rw [hTup, ← hKey])
      · rw [if_neg hKey]
        rfl

omit [DecidableEq Y] in
theorem right_content (w : SetWrite (X × Z)) :
    (dj.right ord w).1.xzReln.content = on dj.xzReln.content w.asMapWrite :=
  content_writeTuple dj.xzReln w

theorem join_right (w : SetWrite (X × Z)) (tup : X × Y × Z) : (dj.right ord w).1.join tup =
    (on dj.xzReln.content w.asMapWrite (tup.1, tup.2.2)).bind fun _ => dj.xyvReln.get tup.1 tup.2.1 := by
  rw [← right_content ord dj w]
  rfl

variable {ord dj} {w : SetWrite (X × Z)}

theorem mem_right (hMem : u ∈ (dj.right ord w).2) :
    (u.key.1, u.key.2.2) = w.elt ∧ u.after = (dj.right ord w).1.join u.key := by
  rcases relation2WithObservers_cases dj.xzReln (dj.extrapolate1v ord) w with ⟨_, hEq⟩ | ⟨_, hEq⟩
  · rw [right, hEq] at hMem
    cases hMem
  · rw [right, hEq] at hMem
    rw [join_right]
    cases w <;> obtain ⟨⟨y, val⟩, hVisit, rfl⟩ := mem_map.mp hMem <;> rw [mem_visit1to2_iff] at hVisit <;>
      simp [MapWrite.key, MapWrite.after, MapWrite.on, SetWrite.asMapWrite, SetWrite.elt, hVisit]

omit [DecidableEq Y] in
theorem after_of_mem_right_add {xz : X × Z} (hMem : u ∈ (dj.right ord (.add xz)).2) : ∃ val, u.after = some val := by
  rcases relation2WithObservers_cases dj.xzReln (dj.extrapolate1v ord) (.add xz) with ⟨_, hEq⟩ | ⟨_, hEq⟩
  · rw [right, hEq] at hMem
    cases hMem
  · rw [right, hEq] at hMem
    obtain ⟨inner, _, rfl⟩ := mem_map.mp hMem
    exact ⟨inner.2, rfl⟩

theorem exists_mem_right {y : Y} {val : V} (hLeft : dj.xyvReln.get w.elt.1 y = some val)
    (hChange : dj.xzReln.content w.elt ≠ w.asMapWrite.after) :
    ∃ u ∈ (dj.right ord w).2, u.key = (w.elt.1, y, w.elt.2) := by
  have hVisit := (mem_visit1to2_iff ord _ _ _ _).mpr hLeft
  rcases relation2WithObservers_cases dj.xzReln (dj.extrapolate1v ord) w with ⟨hSame, _⟩ | ⟨_, hEq⟩
  · exact absurd hSame hChange
  · rw [right, hEq]
    cases w <;> exact ⟨_, mem_map_of_mem hVisit, rfl⟩

variable (ord dj)

theorem right_accounts (w : SetWrite (X × Z)) : (dj.right ord w).1.join = replay dj.join (dj.right ord w).2 := by
  funext tup
  symm
  refine replay_eq_of_agree (fun u hMem hKey => hKey ▸ (mem_right hMem).2) ?_
  intro hNone
  obtain ⟨x, y, z⟩ := tup
  rw [join_right, on, SetWrite.key_asMapWrite]
  by_cases hElt : (x, z) = w.elt
  · rw [if_pos hElt]
    cases hLeft : dj.xyvReln.get x y with
    | none => simp [join, hLeft]
    | some val =>
      by_contra hChange
      obtain ⟨u, hMem, hTup⟩ := @exists_mem_right _ _ _ _ _ _ _ ord dj w y val (by rw [← hElt, hLeft]) fun hSame =>
        hChange (by rw [join, hLeft, ← hSame, ← hElt]; rfl)
      exact hNone u hMem (by rw [hTup, ← hElt])
  · rw [if_neg hElt]
    rfl

end DynamicJoin12VWith13

structure DynamicJoin12With13 (X Y Z : Type) where
  xyReln : FactoredMap X Y Unit
  xzReln : FactoredMap X Z Unit

def tripleReverse23 (tup : X × Z × Y) : X × Y × Z := (tup.1, tup.2.2, tup.2.1)

def extrapolateFwd1 (visit1to2 : X → List Z) (w : SetWrite (X × Y)) : List (SetWrite (X × Y × Z)) :=
  (visit1to2 w.elt.1).map fun z => w.mapElt fun xy => (xy.1, xy.2, z)

namespace DynamicJoin12With13

variable (ord : RangeOrder) (dj : DynamicJoin12With13 X Y Z)

def seconds {A B : Type} [DecidableEq A] (ord : RangeOrder) (m : FactoredMap A B Unit) (a : A) : List B :=
  (visit1to2 ord m a).map Prod.fst

variable (w : SetWrite (X × Y))

def left : DynamicJoin12With13 X Y Z × List (SetWrite (X × Y × Z)) :=
  let told := relation2WithObservers writeTuple dj.xyReln (extrapolateFwd1 (seconds ord dj.xzReln)) w
  ({ dj with xyReln := told.1 }, told.2)

def right (w : SetWrite (X × Z)) : DynamicJoin12With13 X Y Z × List (SetWrite (X × Y × Z)) :=
  let told := relation2WithObservers writeTuple dj.xzReln
    (fun w => (extrapolateFwd1 (seconds ord dj.xyReln) w).map (SetWrite.mapElt tripleReverse23)) w
  ({ dj with xzReln := told.1 }, told.2)

omit [DecidableEq Z] in
theorem left_content : (dj.left ord w).1.xyReln.content = on dj.xyReln.content w.asMapWrite :=
  content_writeTuple dj.xyReln w

omit [DecidableEq Y] in
theorem right_content (w : SetWrite (X × Z)) :
    (dj.right ord w).1.xzReln.content = on dj.xzReln.content w.asMapWrite :=
  content_writeTuple dj.xzReln w

def keyed : DynamicJoin12VWith13 X Y Z Unit := ⟨dj.xyReln, dj.xzReln⟩

theorem left_accounts : (dj.left ord w).1.keyed.join = SetWrite.replay dj.keyed.join (dj.left ord w).2 := by
  rcases relation2WithObservers_cases dj.xyReln (extrapolateFwd1 (seconds ord dj.xzReln)) w with
    ⟨_, hEq⟩ | ⟨hChange, hEq⟩
  · rw [left, hEq]
    rfl
  · have hLeft : dj.keyed.left ord w.asMapWrite =
        ((dj.left ord w).1.keyed, (dj.left ord w).2.map SetWrite.asMapWrite) := by
      rw [left, hEq]
      cases w with
      | add xy =>
        simp only [SetWrite.asMapWrite, DynamicJoin12VWith13.left, extrapolateFwd1, seconds, map_map]
        rfl
      | remove xy =>
        have hSome : (dj.keyed.xyvReln.get xy.1 xy.2).isSome = true := Option.isSome_iff_ne_none.mpr hChange
        simp only [SetWrite.asMapWrite, DynamicJoin12VWith13.left, extrapolateFwd1, seconds, map_map, if_pos hSome]
        rfl
    have hAccounts := DynamicJoin12VWith13.left_accounts ord dj.keyed w.asMapWrite
    rwa [hLeft] at hAccounts

theorem right_accounts (w : SetWrite (X × Z)) :
    (dj.right ord w).1.keyed.join = SetWrite.replay dj.keyed.join (dj.right ord w).2 := by
  have hTold : dj.keyed.extrapolate1v ord = fun w => ((extrapolateFwd1 (seconds ord dj.xyReln) w).map
      (SetWrite.mapElt tripleReverse23)).map SetWrite.asMapWrite := by
    funext w
    cases w <;> simp only [extrapolateFwd1, seconds, map_map] <;> rfl
  have hRight : dj.keyed.right ord w = ((dj.right ord w).1.keyed, (dj.right ord w).2.map SetWrite.asMapWrite) := by
    rw [DynamicJoin12VWith13.right, hTold, relation2WithObservers_map]
    rfl
  have hAccounts := DynamicJoin12VWith13.right_accounts ord dj.keyed w
  rwa [hRight] at hAccounts

end DynamicJoin12With13

end KubeStellar

namespace KubeStellar.DynamicJoin12VWith13

open Option

variable {X Y Z V : Type} [DecidableEq X] [DecidableEq Y] [DecidableEq Z]

abbrev Input (X Y Z V : Type) := RangeOrder × (MapWrite (X × Y) V ⊕ SetWrite (X × Z))

namespace Input

def left? (input : Input X Y Z V) : Option (MapWrite (X × Y) V) := input.2.getLeft?

def right? (input : Input X Y Z V) : Option (MapWrite (X × Z) Unit) := input.2.getRight?.map SetWrite.asMapWrite

end Input

def start : DynamicJoin12VWith13 X Y Z V := ⟨∅, ∅⟩

variable (dj : DynamicJoin12VWith13 X Y Z V) (input : Input X Y Z V)

def step : DynamicJoin12VWith13 X Y Z V × List (MapWrite (X × Y × Z) V) :=
  match input.2 with
  | .inl w => dj.left input.1 w
  | .inr w => dj.right input.1 w

variable (inputs : List (Input X Y Z V))

def leftInput : X × Y → Option V :=
  MapWrite.replay (fun _ => none) (inputs.filterMap Input.left?)

def rightInput : X × Z → Option Unit :=
  MapWrite.replay (fun _ => none) (inputs.filterMap Input.right?)

theorem step_accounts : (dj.step input).1.join = MapWrite.replay dj.join (dj.step input).2 := by
  obtain ⟨ord, w | w⟩ := input
  · exact left_accounts ord dj w
  · exact right_accounts ord dj w

theorem step_xyvReln : (dj.step input).1.xyvReln.content =
      (input.left?.map (MapWrite.on dj.xyvReln.content)).getD dj.xyvReln.content := by
  obtain ⟨ord, w | w⟩ := input
  · exact left_content ord dj w
  · rfl

theorem step_xzReln :
    (dj.step input).1.xzReln.content = (input.right?.map (MapWrite.on dj.xzReln.content)).getD dj.xzReln.content := by
  obtain ⟨ord, w | w⟩ := input
  · exact congrArg FactoredMap.content (left_xzReln ord dj w)
  · exact right_content ord dj w

theorem emitAll_xyvReln : (emitAll step start inputs).1.xyvReln.content = leftInput inputs :=
  (emitAll_view (fun dj : DynamicJoin12VWith13 X Y Z V => dj.xyvReln.content)
    (fun f input => (input.left?.map (MapWrite.on f)).getD f) step_xyvReln start inputs).trans
    (MapWrite.replay_filterMap_eq_foldl Input.left? _ inputs).symm

theorem emitAll_xzReln : (emitAll step start inputs).1.xzReln.content = rightInput inputs :=
  (emitAll_view (fun dj : DynamicJoin12VWith13 X Y Z V => dj.xzReln.content)
    (fun f input => (input.right?.map (MapWrite.on f)).getD f) step_xzReln start inputs).trans
    (MapWrite.replay_filterMap_eq_foldl Input.right? _ inputs).symm

/-- After every call, the receiver has been told exactly the join of the two inputs. -/
theorem replay_emitAll_eq_some_iff (inputs : List (Input X Y Z V)) (x : X) (y : Y) (z : Z) (v : V) :
    MapWrite.replay (fun _ => none) (emitAll step start inputs).2 (x, y, z) = some v ↔
      leftInput inputs (x, y) = some v ∧ rightInput inputs (x, z) = some () := by
  have hTold : (emitAll step start inputs).1.join = MapWrite.replay (fun _ => none) (emitAll step start inputs).2 :=
    emitAll_accounts join MapWrite.on step_accounts start inputs
  rw [← hTold, ← emitAll_xyvReln, ← emitAll_xzReln]
  constructor
  · intro hJoin
    obtain ⟨⟨⟩, hRight, hLeft⟩ := bind_eq_some_iff.mp hJoin
    exact ⟨hLeft, hRight⟩
  · rintro ⟨hLeft, hRight⟩
    exact bind_eq_some_iff.mpr ⟨(), hRight, hLeft⟩

end KubeStellar.DynamicJoin12VWith13
