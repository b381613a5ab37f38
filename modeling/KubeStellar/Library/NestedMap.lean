import KubeStellar.Library.ChangeStream
import Mathlib.Data.Set.Card

/-! # Maps of maps, at any depth

A map can be kept as a map of inner maps, at any depth. An inner map that becomes empty is taken out. The inner maps
can also live in records that are never given up, where an empty one stays.
-/

theorem GoMap.len_eq_ncard {K V : Type} [DecidableEq K] (m : GoMap K V) : m.len = {k | m.get k ≠ none}.ncard := by
  have hKeys : {k | m.get k ≠ none} = (m.keys.toFinset : Set K) := by
    ext k
    simp only [Set.mem_ofPred_eq, List.coe_toFinset, mem_keys_iff, ← Option.isSome_iff_ne_none,
      Option.isSome_iff_exists]
  rw [hKeys, Set.ncard_coe_finset, List.toFinset_card_of_nodup (l := m.keys) m.nodup, keys, List.length_map, len]

class MutableMap (M : Type) (K V : outParam Type) [DecidableEq K] where
  empty : M
  get : M → K → Option V
  put : M → K → V → M
  delete : M → K → M
  isEmpty : M → Bool
  get_empty : ∀ k, get empty k = none
  get_put : ∀ m k v k', get (put m k v) k' = if k' = k then some v else get m k'
  get_delete : ∀ m k k', get (delete m k) k' = if k' = k then none else get m k'
  isEmpty_iff : ∀ m, isEmpty m = true ↔ ∀ k, get m k = none

instance {K V : Type} [DecidableEq K] : MutableMap (GoMap K V) K V where
  empty := ∅
  get := GoMap.get
  put := GoMap.put
  delete := GoMap.delete
  isEmpty := GoMap.isEmpty
  get_empty := GoMap.get_empty
  get_put m k v k' := GoMap.get_put m k k' v
  get_delete := GoMap.get_delete
  isEmpty_iff := GoMap.isEmpty_iff

theorem MutableMap.isEmpty_put {M K V : Type} [DecidableEq K] [MutableMap M K V] (m : M) (k : K) (v : V) :
    isEmpty (put m k v) = false := by
  rw [← Bool.not_eq_true, isEmpty_iff]
  intro hNone
  have hSelf := hNone k
  rw [get_put, if_pos rfl] at hSelf
  cases hSelf

structure NestedMap (A M : Type) {B V : Type} [DecidableEq B] [MutableMap M B V] where
  outer : GoMap A M
  inner_nonempty : ∀ e ∈ outer.entries, MutableMap.isEmpty e.2 = false

namespace NestedMap

open Option GoMap

variable {A B V M : Type} [DecidableEq A] [DecidableEq B] [MutableMap M B V] (m : NestedMap A M) {inner : M} {a : A}
  (m : NestedMap A M)

def index (a : A) : Option M := m.outer.get a

def get (k : A × B) : Option V := (m.index k.1).bind fun inner => MutableMap.get inner k.2

theorem nonempty_put {m : GoMap A M} (hNonempty : ∀ e ∈ m.entries, MutableMap.isEmpty e.2 = false)
    (hInner : MutableMap.isEmpty inner = false) : ∀ e ∈ (m.put a inner).entries, MutableMap.isEmpty e.2 = false := by
  rintro ⟨a', inner'⟩ hMem
  rcases (mem_put_iff _ _ _ _ _).mp hMem with ⟨_, rfl⟩ | ⟨_, hMem⟩
  · exact hInner
  · exact hNonempty _ hMem

def put (k : A × B) (v : V) : NestedMap A M where
  outer := m.outer.put k.1 (MutableMap.put ((m.index k.1).getD MutableMap.empty) k.2 v)
  inner_nonempty := nonempty_put m.inner_nonempty (MutableMap.isEmpty_put _ _ _)

def delete (k : A × B) : NestedMap A M :=
  match m.index k.1 with
  | none => m
  | some inner =>
    if (MutableMap.get inner k.2).isNone then m
    else if h : MutableMap.isEmpty (MutableMap.delete inner k.2) = true then
      ⟨m.outer.delete k.1, fun e hMem => m.inner_nonempty e (List.mem_of_mem_filter hMem)⟩
    else ⟨m.outer.put k.1 (MutableMap.delete inner k.2), nonempty_put m.inner_nonempty (Bool.not_eq_true _ ▸ h)⟩

theorem index_nonempty {m : NestedMap A M} (hIndex : m.index a = some inner) : ∃ b, MutableMap.get inner b ≠ none := by
  have hNonempty := m.inner_nonempty _ ((get_eq_some_iff _ _ _).mp hIndex)
  by_contra hNone
  push Not at hNone
  rw [(MutableMap.isEmpty_iff inner).mpr hNone] at hNonempty
  cases hNonempty

theorem index_ne_none_iff (a : A) : m.index a ≠ none ↔ ∃ b, m.get (a, b) ≠ none := by
  cases hIndex : m.index a with
  | none => simp [get, hIndex]
  | some inner => simpa [get, hIndex] using index_nonempty hIndex

theorem get_put (k : A × B) (v : V) (k' : A × B) : (m.put k v).get k' = if k' = k then some v else m.get k' := by
  obtain ⟨a, b⟩ := k
  obtain ⟨a', b'⟩ := k'
  simp only [get, index, put, GoMap.get_put, Prod.mk.injEq]
  by_cases hA : a' = a
  · subst hA
    simp only [if_true, Option.bind_some, MutableMap.get_put, true_and]
    cases m.outer.get a' with
    | none => simp [MutableMap.get_empty]
    | some inner => rfl
  · simp only [hA, if_false, false_and]

theorem get_of_index {m : NestedMap A M} (hIndex : m.index a = some inner) (b : B) :
    m.get (a, b) = MutableMap.get inner b := by
  rw [get, hIndex, Option.bind_some]

theorem get_delete (k k' : A × B) : (m.delete k).get k' = if k' = k then none else m.get k' := by
  obtain ⟨a, b⟩ := k
  -- nothing under the key: nothing is done
  have hSame : m.get (a, b) = none → m.get k' = if k' = (a, b) then none else m.get k' := by
    intro hNone
    split
    · rename_i hKey
      rw [hKey, hNone]
    · rfl
  rw [delete]
  split
  · rename_i hIndex
    exact hSame (by simp only [get, hIndex, bind_none])
  · rename_i inner hIndex
    split
    · rename_i hAbsent
      exact hSame ((get_of_index hIndex b).trans (isNone_iff_eq_none.mp hAbsent))
    · obtain ⟨a', b'⟩ := k'
      have hInner : (if (a', b') = (a, b) then none else m.get (a', b')) =
          if a' = a then MutableMap.get (MutableMap.delete inner b) b' else m.get (a', b') := by
        by_cases hA : a' = a
        · subst hA
          rw [if_pos rfl, MutableMap.get_delete, get_of_index hIndex]
          simp only [Prod.mk.injEq, true_and]
        · simp only [Prod.mk.injEq, hA, false_and, if_false]
      rw [hInner]
      split
      · rename_i hEmpty
        simp only [get, index, GoMap.get_delete, (MutableMap.isEmpty_iff _).mp hEmpty]
        split <;> rfl
      · simp only [get, index, GoMap.get_put]
        split <;> rfl

theorem isEmpty_iff : m.outer.isEmpty = true ↔ ∀ k, m.get k = none := by
  rw [GoMap.isEmpty_iff]
  constructor
  · intro hNone k
    rw [get, index, hNone k.1, bind_none]
  · intro hNone a
    by_contra hIndex
    obtain ⟨b, hGet⟩ := (index_ne_none_iff m a).mp hIndex
    exact hGet (hNone (a, b))

instance : MutableMap (NestedMap A M) (A × B) V where
  empty := ⟨∅, fun _ hMem => absurd hMem List.not_mem_nil⟩
  get := get
  put := put
  delete := delete
  isEmpty m := m.outer.isEmpty
  get_empty _ := rfl
  get_put := get_put
  get_delete := get_delete
  isEmpty_iff := isEmpty_iff

end NestedMap

structure RecordField (R M : Type) where
  read : R → M
  write : R → M → R
  read_write : ∀ r m, read (write r m) = m

structure RecordMap (A R : Type) where
  records : GoMap A R
  present : MapSet A

namespace RecordMap

open Option GoMap

variable {A B V M R : Type} [DecidableEq A] [DecidableEq B] [MutableMap M B V] (field : RecordField R M) (newRecord : R)

/-- What a record holds under a key, whether the key is present or not. -/
def content (records : GoMap A R) (k : A × B) : Option V :=
  (records.get k.1).bind fun r => MutableMap.get (field.read r) k.2

variable (s : RecordMap A R)

def get (k : A × B) : Option V :=
  if s.present.has k.1 then content field s.records k else none

def put (k : A × B) (v : V) : RecordMap A R :=
  let r := (s.records.get k.1).getD newRecord
  ⟨s.records.put k.1 (field.write r (MutableMap.put (field.read r) k.2 v)),
    if s.present.has k.1 then s.present else s.present.add k.1⟩

/-- A record stays when its map becomes empty. -/
def delete (k : A × B) : RecordMap A R :=
  if !s.present.has k.1 then s
  else match s.records.get k.1 with
    | none => s
    | some r =>
      if (MutableMap.get (field.read r) k.2).isNone then s
      else ⟨s.records.put k.1 (field.write r (MutableMap.delete (field.read r) k.2)),
        if MutableMap.isEmpty (MutableMap.delete (field.read r) k.2) then s.present.delete k.1 else s.present⟩

def write : MapWrite (A × B) V → RecordMap A R
  | .put k v => s.put field newRecord k v
  | .delete k => s.delete field k

def Tidy : Prop :=
  ∀ a, s.present.has a = true ↔ ∃ b, content field s.records (a, b) ≠ none

variable {field newRecord} {s : RecordMap A R}

theorem get_of_tidy (hTidy : s.Tidy field) (k : A × B) : s.get field k = content field s.records k := by
  rw [get]
  split
  · rfl
  · rename_i hAbsent
    by_contra hContent
    exact hAbsent ((hTidy k.1).mpr ⟨k.2, fun hNone => hContent hNone.symm⟩)

theorem Tidy.present_iff (hTidy : s.Tidy field) (a : A) :
    s.present.has a = true ↔ ∃ r, s.records.get a = some r ∧ MutableMap.isEmpty (field.read r) = false := by
  rw [hTidy a]
  cases hRecord : s.records.get a with
  | none => simp [content, hRecord]
  | some r => simp [content, hRecord, ← Bool.not_eq_true, MutableMap.isEmpty_iff]

theorem content_write_record (records : GoMap A R) (a : A) (r : R) (m : M) (k : A × B) :
    content field (records.put a (field.write r m)) k =
      if k.1 = a then MutableMap.get m k.2 else content field records k := by
  rw [content, GoMap.get_put]
  split
  · rw [Option.bind_some, field.read_write]
  · rfl

variable (hNew : ∀ b, MutableMap.get (field.read newRecord) b = none)

include hNew

theorem content_eq_getD (records : GoMap A R) (k : A × B) :
    content field records k = MutableMap.get (field.read ((records.get k.1).getD newRecord)) k.2 := by
  rw [content]
  cases records.get k.1 with
  | none => exact (hNew k.2).symm
  | some r => rfl

theorem content_put (s : RecordMap A R) (k : A × B) (v : V) :
    content field (s.put field newRecord k v).records = MapWrite.on (content field s.records) (.put k v) := by
  funext k'
  rw [put, content_write_record, MutableMap.get_put]
  obtain ⟨a, b⟩ := k
  obtain ⟨a', b'⟩ := k'
  simp only [MapWrite.on, MapWrite.key, MapWrite.after, Prod.mk.injEq]
  by_cases hA : a' = a
  · subst hA
    simp only [if_true, true_and, content_eq_getD hNew]
  · simp only [hA, if_false, false_and]

theorem tidy_put (hTidy : s.Tidy field) (k : A × B) (v : V) : (s.put field newRecord k v).Tidy field := by
  intro a
  have hHas : (s.put field newRecord k v).present.has a = true ↔ a = k.1 ∨ s.present.has a = true := by
    rw [put]
    split
    · rename_i hPresent
      refine ⟨.inr, ?_⟩
      rintro (rfl | hHas)
      · exact hPresent
      · exact hHas
    · rw [MapSet.has_iff_get, MapSet.add, GoMap.get_put, MapSet.has_iff_get]
      by_cases hA : a = k.1 <;> simp [hA]
  rw [hHas, content_put hNew, hTidy a]
  by_cases hA : a = k.1
  · subst hA
    refine iff_of_true (.inl rfl) ⟨k.2, ?_⟩
    simp [MapWrite.on, MapWrite.key, MapWrite.after]
  · have hOn : ∀ b, MapWrite.on (content field s.records) (.put k v) (a, b) = content field s.records (a, b) :=
      fun b => if_neg fun hKey => hA (congrArg Prod.fst hKey)
    simp only [hA, false_or, hOn]

omit hNew

theorem delete_cases (hTidy : s.Tidy field) (k : A × B) :
    (s.delete field k = s ∧ content field s.records k = none) ∨ ∃ r, s.records.get k.1 = some r ∧
      s.present.has k.1 = true ∧ s.delete field k =
        ⟨s.records.put k.1 (field.write r (MutableMap.delete (field.read r) k.2)),
        if MutableMap.isEmpty (MutableMap.delete (field.read r) k.2) then s.present.delete k.1 else s.present⟩ := by
  rw [delete]
  by_cases hPresent : s.present.has k.1 = true
  · rw [if_neg (by simp [hPresent])]
    cases hRecord : s.records.get k.1 with
    | none => exact .inl ⟨rfl, by rw [content, hRecord, bind_none]⟩
    | some r =>
      dsimp only
      split
      · rename_i hNone
        refine .inl ⟨rfl, ?_⟩
        rw [content, hRecord, Option.bind_some]
        exact isNone_iff_eq_none.mp hNone
      · exact .inr ⟨r, rfl, hPresent, rfl⟩
  · rw [if_pos (by simpa using hPresent)]
    refine .inl ⟨rfl, ?_⟩
    by_contra hContent
    exact hPresent ((hTidy k.1).mpr ⟨k.2, hContent⟩)

theorem content_delete (hTidy : s.Tidy field) (k : A × B) :
    content field (s.delete field k).records = MapWrite.on (content field s.records) (.delete k) := by
  rcases delete_cases hTidy k with ⟨hSame, hNone⟩ | ⟨r, hRecord, -, hDelete⟩
  · rw [hSame]
    exact (MapWrite.on_eq_self hNone).symm
  · funext k'
    rw [hDelete, content_write_record, MutableMap.get_delete]
    obtain ⟨a, b⟩ := k
    obtain ⟨a', b'⟩ := k'
    simp only [MapWrite.on, MapWrite.key, MapWrite.after, Prod.mk.injEq]
    by_cases hA : a' = a
    · subst hA
      have hContent : content field s.records (a', b') = MutableMap.get (field.read r) b' := by
        rw [content, hRecord, Option.bind_some]
      simp only [if_true, true_and, hContent]
    · simp only [hA, if_false, false_and]

theorem tidy_delete (hTidy : s.Tidy field) (k : A × B) : (s.delete field k).Tidy field := by
  rcases delete_cases hTidy k with ⟨hSame, -⟩ | ⟨r, hRecord, hPresent, hDelete⟩
  · rw [hSame]
    exact hTidy
  · intro a
    rw [hDelete]
    simp only [content_write_record]
    by_cases hA : a = k.1
    · subst hA
      simp only [if_true]
      split
      · rename_i hEmpty
        refine iff_of_false ?_ ?_
        · simp [GoMap.has]
        · rintro ⟨b, hGet⟩
          exact hGet ((MutableMap.isEmpty_iff _).mp hEmpty b)
      · rename_i hEmpty
        rw [MutableMap.isEmpty_iff] at hEmpty
        exact iff_of_true hPresent (not_forall.mp hEmpty)
    · simp only [hA, if_false]
      rw [← hTidy a]
      split
      · simp [GoMap.has, hA]
      · rfl

theorem write_spec (hNew : ∀ b, MutableMap.get (field.read newRecord) b = none)
    (hTidy : s.Tidy field) (w : MapWrite (A × B) V) :
    content field (s.write field newRecord w).records = MapWrite.on (content field s.records) w ∧
      (s.write field newRecord w).Tidy field := by
  cases w with
  | put k v => exact ⟨content_put hNew s k v, tidy_put hNew hTidy k v⟩
  | delete k => exact ⟨content_delete hTidy k, tidy_delete hTidy k⟩

variable {B' V' M' : Type} [DecidableEq B'] [MutableMap M' B' V'] {other : RecordField R M'}

theorem content_other_write (hOther : ∀ r m, other.read (field.write r m) = other.read r)
    (hNew : ∀ b, MutableMap.get (other.read newRecord) b = none) (s : RecordMap A R) (w : MapWrite (A × B) V) :
    content other (s.write field newRecord w).records = content other s.records := by
  funext k
  cases w with
  | put k' v =>
    rw [content_eq_getD hNew, content_eq_getD hNew, write, put]
    simp only [GoMap.get_put]
    by_cases hA : k.1 = k'.1
    · rw [if_pos hA, getD_some, hOther, hA]
    · rw [if_neg hA]
  | delete k' =>
    rw [write, delete]
    split
    · rfl
    · split
      · rfl
      · rename_i r hRecord
        split
        · rfl
        · rw [content, content, GoMap.get_put]
          by_cases hA : k.1 = k'.1
          · rw [if_pos hA, hA, hRecord, Option.bind_some, Option.bind_some, hOther]
          · rw [if_neg hA]

end RecordMap
