import Mathlib.Data.List.Nodup
import Mathlib.Data.List.Perm.Basic

/-! # Finite maps with an unspecified iteration order

A `GoMap` is the content of a builtin `map[K]V`: one entry per key. Every `range` over a map takes its order from a
`RangeOrder`, about which only the permutation law is known. A `FactoredMap` is a map in two levels, whose outer keys
are exactly those under which there is something.
-/

structure GoMap (K V : Type) where
  entries : List (K × V)
  nodup : (entries.map Prod.fst).Nodup

namespace GoMap

open List

variable {K V W : Type}

def empty : GoMap K V := ⟨[], nodup_nil⟩

instance : EmptyCollection (GoMap K V) := ⟨empty⟩

instance : Inhabited (GoMap K V) := ⟨empty⟩

variable (m : GoMap K V)

def keys : List K := m.entries.map Prod.fst

def isEmpty : Bool := m.entries.isEmpty

def len : Nat := m.entries.length

variable [DecidableEq K] (m : GoMap K V)

def get (k : K) : Option V :=
  (m.entries.find? (fun e => e.1 = k)).map Prod.snd

def has (k : K) : Bool := (m.get k).isSome

theorem get_eq_some_iff (k : K) (v : V) : m.get k = some v ↔ (k, v) ∈ m.entries := by
  obtain ⟨entries, hNodup⟩ := m
  simp only [get]
  induction entries with
  | nil => simp
  | cons e rest ih =>
    rw [map_cons, nodup_cons] at hNodup
    have ih := ih hNodup.2
    by_cases hKey : e.1 = k
    · rw [List.find?_cons_of_pos (by simpa using hKey)]
      constructor
      · intro h
        have hv : e.2 = v := by simpa using h
        exact mem_cons.mpr (.inl (by rw [← hKey, ← hv]))
      · intro h
        rcases mem_cons.mp h with h | h
        · simp [← h]
        · exact absurd (mem_map.mpr ⟨(k, v), h, rfl⟩) (hKey ▸ hNodup.1)
    · rw [List.find?_cons_of_neg (by simpa using hKey), ih, mem_cons]
      constructor
      · exact .inr
      · rintro (h | h)
        · exact absurd (by rw [← h]) hKey
        · exact h

theorem get_eq_none_iff (k : K) : m.get k = none ↔ ∀ v, (k, v) ∉ m.entries := by
  constructor
  · intro h v hv
    rw [← get_eq_some_iff, h] at hv
    cases hv
  · intro h
    cases hGet : m.get k with
    | none => rfl
    | some v => exact absurd ((get_eq_some_iff m k v).mp hGet) (h v)

theorem mem_keys_iff (k : K) : k ∈ m.keys ↔ ∃ v, m.get k = some v := by
  simp only [keys, mem_map, Prod.exists, get_eq_some_iff]
  constructor
  · rintro ⟨a, v, h, rfl⟩
    exact ⟨v, h⟩
  · rintro ⟨v, h⟩
    exact ⟨k, v, h, rfl⟩

@[simp] theorem get_empty (k : K) : (∅ : GoMap K V).get k = none := rfl

theorem isEmpty_iff : m.isEmpty = true ↔ ∀ k, m.get k = none := by
  rw [isEmpty, List.isEmpty_iff]
  constructor
  · intro h k
    rw [get_eq_none_iff, h]
    simp
  · intro h
    apply eq_nil_iff_forall_not_mem.mpr
    rintro ⟨k, v⟩ hMem
    exact (get_eq_none_iff m k).mp (h k) v hMem

/-- Assignment `m[k] = v`: an existing entry is replaced where it stands. -/
def put (k : K) (v : V) : GoMap K V :=
  if h : k ∈ m.keys then
    ⟨m.entries.map (fun e => if e.1 = k then (k, v) else e), by
      have hKeys : (m.entries.map (fun e => if e.1 = k then (k, v) else e)).map Prod.fst =
          m.entries.map Prod.fst := by
        rw [map_map]
        apply map_congr_left
        intro e _
        by_cases hKey : e.1 = k <;> simp [hKey]
      rw [hKeys]
      exact m.nodup⟩
  else
    ⟨m.entries ++ [(k, v)], by
      rw [map_append, nodup_append]
      refine ⟨m.nodup, by simp, ?_⟩
      intro a ha b hb hab
      have hbk : b = k := by simpa using hb
      exact h (hbk ▸ hab ▸ ha)⟩

theorem mem_put_iff (k k' : K) (v v' : V) :
    (k', v') ∈ (m.put k v).entries ↔ (k' = k ∧ v' = v) ∨ (k' ≠ k ∧ (k', v') ∈ m.entries) := by
  unfold put
  split
  · rename_i hMem
    simp only [mem_map]
    constructor
    · rintro ⟨e, he, hEq⟩
      by_cases hKey : e.1 = k
      · rw [if_pos hKey] at hEq
        cases hEq
        exact .inl ⟨rfl, rfl⟩
      · rw [if_neg hKey] at hEq
        subst hEq
        exact .inr ⟨hKey, he⟩
    · rintro (⟨rfl, rfl⟩ | ⟨hNe, he⟩)
      · obtain ⟨e, he, hKey⟩ := mem_map.mp hMem
        exact ⟨e, he, if_pos hKey⟩
      · exact ⟨(k', v'), he, if_neg hNe⟩
  · rename_i hMem
    simp only [mem_append, mem_singleton, Prod.mk.injEq]
    constructor
    · rintro (he | h)
      · refine .inr ⟨?_, he⟩
        rintro rfl
        exact hMem (mem_map.mpr ⟨_, he, rfl⟩)
      · exact .inl h
    · rintro (h | ⟨_, he⟩)
      · exact .inr h
      · exact .inl he

@[simp] theorem get_put (k k' : K) (v : V) : (m.put k v).get k' = if k' = k then some v else m.get k' := by
  apply Option.ext
  intro v'
  rw [get_eq_some_iff, mem_put_iff]
  by_cases hKey : k' = k
  · simp [hKey, eq_comm]
  · simp [hKey, get_eq_some_iff]

/-- `delete(m, k)`. -/
def delete (k : K) : GoMap K V :=
  ⟨m.entries.filter (fun e => e.1 ≠ k), by
    apply List.Nodup.sublist _ m.nodup
    exact List.Sublist.map _ filter_sublist⟩

@[simp] theorem get_delete (k k' : K) : (m.delete k).get k' = if k' = k then none else m.get k' := by
  apply Option.ext
  intro v
  rw [get_eq_some_iff]
  by_cases hKey : k' = k
  · simp [delete, hKey]
  · simp [delete, hKey, get_eq_some_iff]

variable {m : GoMap K V} {k : K}

theorem forall_get_put {P : K → V → Prop} {v : V} (hAll : ∀ k v, m.get k = some v → P k v) (hNew : P k v) (k' : K)
    (v' : V) (hGet : (m.put k v).get k' = some v') : P k' v' := by
  rw [get_put] at hGet
  split at hGet
  · cases hGet
    exact Eq.symm ‹_› ▸ hNew
  · exact hAll k' v' hGet

theorem get_of_get_delete {k' : K} {v : V} (hGet : (m.delete k).get k' = some v) : k' ≠ k ∧ m.get k' = some v := by
  rw [get_delete] at hGet
  split at hGet
  · cases hGet
  · exact ⟨‹_›, hGet⟩

theorem delete_of_not_has (hHas : m.has k = false) : m.delete k = m := by
  obtain ⟨entries, hNodup⟩ := m
  have hEntries : entries.filter (fun e => e.1 ≠ k) = entries := by
    refine filter_eq_self.mpr fun e hMem => ?_
    by_contra hKey
    have hGet := (get_eq_some_iff ⟨entries, hNodup⟩ e.1 e.2).mpr hMem
    rw [has, ← (by simpa using hKey : e.1 = k), hGet] at hHas
    cases hHas
  simp only [delete, hEntries]

/-- The assignments `m[k] = v` for the pairs of a list, in order. -/
def putAll (m : GoMap K V) (l : List (K × V)) : GoMap K V := l.foldl (fun m e => m.put e.1 e.2) m

theorem get_putAll_of_not_mem (m : GoMap K V) (l : List (K × V)) (k : K) (h : ∀ v, (k, v) ∉ l) :
    (m.putAll l).get k = m.get k := by
  induction l generalizing m with
  | nil => rfl
  | cons e rest ih =>
    have hHead : k ≠ e.1 := by
      rintro rfl
      exact h e.2 mem_cons_self
    calc
      (m.putAll (e :: rest)).get k = (m.put e.1 e.2).get k := ih _ fun v hv => h v (mem_cons_of_mem _ hv)
      _ = m.get k := by rw [get_put, if_neg hHead]

theorem get_putAll_of_mem (m : GoMap K V) (l : List (K × V)) (k : K) (h : ∃ v, (k, v) ∈ l) :
    ∃ v, (k, v) ∈ l ∧ (m.putAll l).get k = some v := by
  induction l generalizing m with
  | nil => simp at h
  | cons e rest ih =>
    by_cases hRest : ∃ v, (k, v) ∈ rest
    · obtain ⟨v, hv, hGet⟩ := ih (m.put e.1 e.2) hRest
      exact ⟨v, mem_cons_of_mem _ hv, hGet⟩
    · obtain ⟨v, hv⟩ := h
      have he : e = (k, v) := by
        rcases mem_cons.mp hv with h | h
        · exact h.symm
        · exact absurd ⟨v, h⟩ hRest
      subst he
      refine ⟨v, mem_cons_self, ?_⟩
      have hKeep := get_putAll_of_not_mem (m.put k v) rest k fun v' hv' => hRest ⟨v', hv'⟩
      exact hKeep.trans (by simp)

theorem eq_of_get_putAll_reverse (m m' : GoMap K V) (l : List (K × V)) (hNodup : (l.map Prod.snd).Nodup)
    (k : K) (v : V) (hForth : (m.putAll l).get k = some v) (hBack : (m'.putAll l.reverse).get k = some v) (v' : V)
    (hMem : (k, v') ∈ l) : v' = v := by
  induction l generalizing m with
  | nil => cases hMem
  | cons e rest ih =>
    rw [map_cons, nodup_cons] at hNodup
    have hSnoc : (m'.putAll (e :: rest).reverse) = (m'.putAll rest.reverse).put e.1 e.2 := by
      simp [putAll, foldl_append]
    rw [hSnoc, get_put] at hBack
    by_cases hKey : k = e.1
    · -- the first pair is the last one in the other order, so nothing after it has its key
      rw [if_pos hKey] at hBack
      have hValue : e.2 = v := by simpa using hBack
      have hAlone : ∀ w, (k, w) ∉ rest := by
        intro w hRest
        obtain ⟨u, hu, hGet⟩ := get_putAll_of_mem (m.put e.1 e.2) rest k ⟨w, hRest⟩
        rw [show (m.putAll (e :: rest)).get k = ((m.put e.1 e.2).putAll rest).get k from rfl, hGet] at hForth
        cases hForth
        exact hNodup.1 (mem_map.mpr ⟨(k, v), hu, hValue.symm⟩)
      rcases mem_cons.mp hMem with h | h
      · rw [← hValue, ← h]
      · exact absurd h (hAlone v')
    · rw [if_neg hKey] at hBack
      have hRest : (k, v') ∈ rest := by
        rcases mem_cons.mp hMem with h | h
        · exact absurd (congrArg Prod.fst h) hKey
        · exact h
      exact ih (m.put e.1 e.2) hNodup.2 hForth hBack hRest

theorem get_putAll_empty_iff (l : List (K × V))
    (hAgree : ∀ k v v', (k, v) ∈ l → (k, v') ∈ l → v = v') (k : K) (v : V) :
    (putAll ∅ l).get k = some v ↔ (k, v) ∈ l := by
  constructor
  · intro h
    by_cases hMem : ∃ v, (k, v) ∈ l
    · obtain ⟨v', hv', hGet⟩ := get_putAll_of_mem ∅ l k hMem
      rw [h] at hGet
      cases hGet
      exact hv'
    · rw [get_putAll_of_not_mem ∅ l k fun v hv => hMem ⟨v, hv⟩, get_empty] at h
      cases h
  · intro h
    obtain ⟨v', hv', hGet⟩ := get_putAll_of_mem ∅ l k ⟨v, h⟩
    rw [hGet, hAgree k v v' h hv']

def ofList (l : List (K × V)) : GoMap K V := putAll ∅ l

theorem get_putAll (m : GoMap K V) (l : List (K × V)) (k : K) :
    (m.putAll l).get k = ((l.reverse.find? fun e => e.1 = k).map Prod.snd).or (m.get k) := by
  induction l generalizing m with
  | nil => rfl
  | cons e rest ih =>
    calc
      (m.putAll (e :: rest)).get k = ((m.put e.1 e.2).putAll rest).get k := rfl
      _ = ((rest.reverse.find? fun e => e.1 = k).map Prod.snd).or ((m.put e.1 e.2).get k) := ih _
      _ = (((e :: rest).reverse.find? fun e => e.1 = k).map Prod.snd).or (m.get k) := by
        rw [reverse_cons, List.find?_append, get_put]
        cases rest.reverse.find? fun e => e.1 = k with
        | some e' => rfl
        | none =>
          by_cases hKey : e.1 = k
          · simp [hKey]
          · simp [hKey, Ne.symm hKey]

theorem get_ofList_singleton (k k' : K) (v : V) : (ofList [(k, v)]).get k' = if k' = k then some v else none :=
  get_put ∅ k k' v

theorem get_putAll_entries (m m' : GoMap K V) (k : K) : (m.putAll m'.entries).get k = (m'.get k).or (m.get k) := by
  cases hGet : m'.get k with
  | none => exact get_putAll_of_not_mem m m'.entries k ((get_eq_none_iff m' k).mp hGet)
  | some v =>
    obtain ⟨v', hMem, hPut⟩ := get_putAll_of_mem m m'.entries k ⟨v, (get_eq_some_iff m' k v).mp hGet⟩
    rw [hPut, ← (get_eq_some_iff m' k v').mpr hMem, hGet, Option.some_or]

def filterKeys (m : GoMap K V) (test : K → Bool) : GoMap K V :=
  ⟨m.entries.filter fun e => test e.1, (m.nodup.sublist ((filter_sublist).map Prod.fst))⟩

theorem get_filterKeys (m : GoMap K V) (test : K → Bool) (k : K) :
    (m.filterKeys test).get k = if test k then m.get k else none := by
  refine Option.ext fun v => ?_
  rw [get_eq_some_iff, filterKeys, mem_filter]
  split
  · rename_i hTest
    rw [get_eq_some_iff]
    exact and_iff_left hTest
  · rename_i hTest
    exact iff_of_false (fun h => hTest h.2) (fun h => Option.some_ne_none _ h.symm)

omit [DecidableEq K] in
theorem filterKeys_true (m : GoMap K V) : (m.filterKeys fun _ => true) = m := by
  obtain ⟨entries, hNodup⟩ := m
  simp [filterKeys]

/-- `m[k]` with the zero value for an absent key. -/
def getD (m : GoMap K V) (k : K) (zero : V) : V := (m.get k).getD zero

def mapVal (f : K → V → W) (m : GoMap K V) : GoMap K W :=
  ⟨m.entries.map fun e => (e.1, f e.1 e.2), by
    rw [map_map]
    exact m.nodup⟩

@[simp] theorem get_mapVal (f : K → V → W) (m : GoMap K V) (k : K) : (m.mapVal f).get k = (m.get k).map (f k) := by
  apply Option.ext
  intro w
  rw [get_eq_some_iff, Option.map_eq_some_iff]
  simp only [mapVal, mem_map, Prod.mk.injEq, Prod.exists, get_eq_some_iff]
  constructor
  · rintro ⟨a, v, h, rfl, rfl⟩
    exact ⟨v, h, rfl⟩
  · rintro ⟨v, h, rfl⟩
    exact ⟨k, v, h, rfl, rfl⟩

def under {L : Type} (m : GoMap (K × L) V) (k : K) : GoMap L V :=
  ⟨m.entries.filterMap fun e => if e.1.1 = k then some (e.1.2, e.2) else none, by
    have hKeys : (m.entries.filterMap fun e => if e.1.1 = k then some (e.1.2, e.2) else none).map Prod.fst =
        (m.entries.map Prod.fst).filterMap fun key => if key.1 = k then some key.2 else none := by
      rw [map_filterMap, filterMap_map]
      refine filterMap_congr fun e _ => ?_
      by_cases hKey : e.1.1 = k <;> simp [hKey]
    rw [hKeys]
    refine List.Nodup.filterMap ?_ m.nodup
    intro key key' l hKey hKey'
    obtain ⟨hFst, hSnd⟩ := Option.ite_none_right_eq_some.mp hKey
    obtain ⟨hFst', hSnd'⟩ := Option.ite_none_right_eq_some.mp hKey'
    exact Prod.ext (hFst.trans hFst'.symm) (Option.some.inj (hSnd.trans hSnd'.symm))⟩

theorem get_under {L : Type} [DecidableEq L] (m : GoMap (K × L) V) (k : K) (l : L) :
    (m.under k).get l = m.get (k, l) := by
  refine Option.ext fun v => ?_
  rw [get_eq_some_iff, get_eq_some_iff, under, mem_filterMap]
  constructor
  · rintro ⟨e, hMem, hEntry⟩
    obtain ⟨rfl, hPair⟩ := Option.ite_none_right_eq_some.mp hEntry
    obtain ⟨rfl, rfl⟩ := Prod.mk.inj (Option.some.inj hPair)
    exact hMem
  · intro hMem
    exact ⟨((k, l), v), hMem, if_pos rfl⟩

def same [DecidableEq V] (m m' : GoMap K V) : Bool :=
  m.len == m'.len && m.entries.all fun e => m'.get e.1 == some e.2

theorem same_self [DecidableEq V] (m : GoMap K V) : m.same m = true := by
  simp only [same, beq_self_eq_true, Bool.true_and, all_eq_true, beq_iff_eq]
  exact fun e hMem => (get_eq_some_iff m e.1 e.2).mpr hMem

theorem entries_eq_filterMap (m : GoMap K V) : m.entries = m.keys.filterMap fun k => (m.get k).map (Prod.mk k) := by
  rw [keys, filterMap_map]
  calc
    m.entries = m.entries.filterMap some := filterMap_some.symm
    _ = m.entries.filterMap ((fun k => (m.get k).map (Prod.mk k)) ∘ Prod.fst) := by
      refine filterMap_congr fun e hMem => ?_
      rw [Function.comp_apply, (get_eq_some_iff m e.1 e.2).mpr hMem]
      rfl

variable {m' : GoMap K V}

theorem eq_of_keys_get (hKeys : m.keys = m'.keys) (hGet : ∀ k, m.get k = m'.get k) : m = m' := by
  have hEntries : m.entries = m'.entries := by
    rw [entries_eq_filterMap m, entries_eq_filterMap m', hKeys]
    exact filterMap_congr fun k _ => by rw [hGet]
  cases m
  cases m'
  cases hEntries
  rfl

omit [DecidableEq K] in
theorem entries_nodup (m : GoMap K V) : m.entries.Nodup := m.nodup.of_map Prod.fst

theorem entries_perm_of_get (hGet : ∀ k, m.get k = m'.get k) : m.entries.Perm m'.entries := by
  refine (perm_ext_iff_of_nodup m.entries_nodup m'.entries_nodup).mpr fun e => ?_
  rw [← get_eq_some_iff, ← get_eq_some_iff, hGet]

theorem flatMap_perm_delete (m : GoMap K V) (k : K) (f : V → List W) :
    (m.entries.flatMap fun e => f e.2).Perm ((m.get k).elim [] f ++ (m.delete k).entries.flatMap fun e => f e.2) := by
  cases hGet : m.get k with
  | none => rw [delete_of_not_has (by rw [has, hGet]; rfl)]; exact List.Perm.refl _
  | some v =>
    have hSplit : m.entries.Perm ((k, v) :: (m.delete k).entries) := by
      have hNot : (k, v) ∉ (m.delete k).entries := fun hMem => by simp [delete] at hMem
      refine (perm_ext_iff_of_nodup m.entries_nodup (nodup_cons.mpr ⟨hNot, entries_nodup _⟩)).mpr fun e => ?_
      rw [mem_cons, ← get_eq_some_iff, ← get_eq_some_iff, get_delete]
      by_cases hKey : e.1 = k
      · rw [hKey, hGet, if_pos rfl, Option.some.injEq]
        simp [Prod.ext_iff, hKey, eq_comm]
      · rw [if_neg hKey]
        exact (or_iff_right fun hEq => hKey (congrArg Prod.fst hEq)).symm
    exact hSplit.flatMap_right _

theorem keys_put_of_mem (hMem : k ∈ m.keys) (v : V) : (m.put k v).keys = m.keys := by
  rw [put, dif_pos hMem, keys, map_map]
  refine map_congr_left fun e _ => ?_
  by_cases hKey : e.1 = k <;> simp [hKey]

variable {l : List (K × V)}

theorem keys_putAll_of_mem (hMem : ∀ e ∈ l, e.1 ∈ m.keys) : (m.putAll l).keys = m.keys := by
  induction l generalizing m with
  | nil => rfl
  | cons e rest ih =>
    have hPut := keys_put_of_mem (hMem e mem_cons_self) e.2
    refine (ih fun e' hMem' => ?_).trans hPut
    rw [hPut]
    exact hMem e' (mem_cons_of_mem _ hMem')

theorem putAll_eq_self (hThere : ∀ e ∈ l, m.get e.1 = some e.2) : m.putAll l = m := by
  refine eq_of_keys_get (keys_putAll_of_mem fun e hMem => (mem_keys_iff m e.1).mpr ⟨e.2, hThere e hMem⟩) fun k => ?_
  by_cases hMem : ∃ v, (k, v) ∈ l
  · obtain ⟨v, hv, hGet⟩ := get_putAll_of_mem m l k hMem
    exact hGet.trans (hThere (k, v) hv).symm
  · exact get_putAll_of_not_mem m l k fun v hv => hMem ⟨v, hv⟩

end GoMap

abbrev MapSet (K : Type) := GoMap K Unit

namespace MapSet

variable [DecidableEq K] (s : MapSet K)

def add (s : MapSet K) (k : K) : MapSet K := s.put k ()

def addAll (s : MapSet K) (l : List K) : MapSet K := l.foldl add s

theorem has_iff_get (k : K) : s.has k = true ↔ s.get k = some () := by
  rw [GoMap.has, Option.isSome_iff_exists]
  constructor
  · rintro ⟨_, hGet⟩
    exact hGet
  · intro hGet
    exact ⟨(), hGet⟩

theorem has_addAll_iff (l : List K) (k : K) : (s.addAll l).has k = true ↔ k ∈ l ∨ s.has k = true := by
  induction l generalizing s with
  | nil => simp [addAll]
  | cons a rest ih =>
    rw [show s.addAll (a :: rest) = (s.add a).addAll rest from rfl, ih, List.mem_cons]
    by_cases hKey : k = a <;> simp [GoMap.has, add, hKey]

theorem has_addAll_empty_iff (l : List K) (k : K) : (addAll ∅ l).has k = true ↔ k ∈ l :=
  (has_addAll_iff ∅ l k).trans (or_iff_left Bool.false_ne_true)

end MapSet

/-- The order in which a `range` statement visits a map: any permutation of its entries. -/
structure RangeOrder where
  visit : {K V : Type} → GoMap K V → List (K × V)
  perm : ∀ {K V : Type} (m : GoMap K V), (visit m).Perm m.entries

namespace RangeOrder

open List

def insertion : RangeOrder := ⟨fun m => m.entries, fun _ => List.Perm.refl _⟩

def reversed : RangeOrder := ⟨fun m => m.entries.reverse, fun _ => reverse_perm _⟩

variable (ord : RangeOrder)

theorem mem_visit_iff [DecidableEq K] (m : GoMap K V) (k : K) (v : V) : (k, v) ∈ ord.visit m ↔ m.get k = some v := by
  rw [GoMap.get_eq_some_iff]
  exact (ord.perm m).mem_iff

theorem mem_visit_keys_iff [DecidableEq K] (m : GoMap K V) (k : K) :
    k ∈ (ord.visit m).map Prod.fst ↔ m.has k = true := by
  rw [mem_map, GoMap.has, Option.isSome_iff_exists]
  constructor
  · rintro ⟨e, hVisit, rfl⟩
    exact ⟨e.2, (ord.mem_visit_iff m e.1 e.2).mp hVisit⟩
  · rintro ⟨v, hGet⟩
    exact ⟨(k, v), (ord.mem_visit_iff m k v).mpr hGet, rfl⟩

theorem visit_nodup (m : GoMap K V) : ((ord.visit m).map Prod.fst).Nodup :=
  ((ord.perm m).map Prod.fst).nodup_iff.mpr m.nodup

theorem visit_values_keys [DecidableEq K] (m : GoMap K V) (keyOf : V → K)
    (hKeys : ∀ k v, m.get k = some v → keyOf v = k) :
    ((ord.visit m).map Prod.snd).map keyOf = (ord.visit m).map Prod.fst := by
  rw [map_map]
  exact map_congr_left fun e hMem => hKeys e.1 e.2 ((ord.mem_visit_iff m e.1 e.2).mp hMem)

theorem visit_values_nodup [DecidableEq K] (m : GoMap K V) (keyOf : V → K)
    (hKeys : ∀ k v, m.get k = some v → keyOf v = k) : ((ord.visit m).map Prod.snd).Nodup := by
  refine List.Nodup.of_map keyOf ?_
  rw [ord.visit_values_keys m keyOf hKeys]
  exact ord.visit_nodup m

theorem exists_mem_visit_map_iff [DecidableEq K] (m : GoMap K V) (f : K → V → W) (P : W → Prop) :
    (∃ w ∈ (ord.visit m).map (fun e => f e.1 e.2), P w) ↔ ∃ k v, m.get k = some v ∧ P (f k v) := by
  constructor
  · rintro ⟨w, hMem, hP⟩
    obtain ⟨e, hVisit, rfl⟩ := mem_map.mp hMem
    exact ⟨e.1, e.2, (ord.mem_visit_iff m e.1 e.2).mp hVisit, hP⟩
  · rintro ⟨k, v, hGet, hP⟩
    exact ⟨f k v, mem_map.mpr ⟨(k, v), (ord.mem_visit_iff m k v).mpr hGet, rfl⟩, hP⟩

theorem find?_visit [DecidableEq K] (m : GoMap K V) (k : K) :
    (ord.visit m).find? (fun e => e.1 = k) = (m.get k).map fun v => (k, v) := by
  cases hFind : (ord.visit m).find? (fun e => e.1 = k) with
  | none =>
    cases hGet : m.get k with
    | none => rfl
    | some v =>
      have hKeys := List.find?_eq_none.mp hFind (k, v) ((ord.mem_visit_iff m k v).mpr hGet)
      simp at hKeys
  | some e =>
    obtain rfl : e.1 = k := by simpa using List.find?_some hFind
    rw [(ord.mem_visit_iff m e.1 e.2).mp (mem_of_find?_eq_some hFind)]
    rfl

theorem find?_visit_map [DecidableEq K] (m : GoMap K V) (f : K × V → W) (keyOf : W → K)
    (hKey : ∀ e, keyOf (f e) = e.1) (k : K) :
    ((ord.visit m).map f).find? (fun w => keyOf w = k) = (m.get k).map fun v => f (k, v) := by
  rw [List.find?_map]
  simp only [Function.comp_def, hKey]
  rw [find?_visit, Option.map_map]
  rfl

end RangeOrder

structure FactoredMap (A B V : Type) where
  outer : GoMap A (GoMap B V)
  inner_nonempty : ∀ e ∈ outer.entries, e.2.isEmpty = false

namespace FactoredMap

open Option GoMap

variable {A B V : Type}

instance : EmptyCollection (FactoredMap A B V) := ⟨⟨∅, fun _ h => absurd h List.not_mem_nil⟩⟩

theorem put_isEmpty [DecidableEq B] (inner : GoMap B V) (b : B) (v : V) : (inner.put b v).isEmpty = false := by
  rw [← Bool.not_eq_true, GoMap.isEmpty_iff]
  intro h
  have hHead := h b
  rw [GoMap.get_put, if_pos rfl] at hHead
  cases hHead

variable [DecidableEq A]

def index (m : FactoredMap A B V) (a : A) : Option (GoMap B V) := m.outer.get a

@[simp] theorem index_empty (a : A) : (∅ : FactoredMap A B V).index a = none := rfl

variable {m : FactoredMap A B V} {a : A} {inner : GoMap B V}

theorem inner_isEmpty (hIndex : m.index a = some inner) : inner.isEmpty = false :=
  m.inner_nonempty _ ((get_eq_some_iff _ _ _).mp hIndex)

variable [DecidableEq B]

def get (m : FactoredMap A B V) (a : A) (b : B) : Option V := (m.index a).bind fun inner => inner.get b

def put (m : FactoredMap A B V) (a : A) (b : B) (v : V) : FactoredMap A B V where
  outer := m.outer.put a (((m.index a).getD ∅).put b v)
  inner_nonempty := by
    rintro ⟨a', inner⟩ hMem
    rcases (mem_put_iff _ _ _ _ _).mp hMem with ⟨_, hInner⟩ | ⟨_, hMem⟩
    · rw [hInner]
      exact put_isEmpty _ b v
    · exact m.inner_nonempty _ hMem

def delete (m : FactoredMap A B V) (a : A) (b : B) : FactoredMap A B V :=
  match m.index a with
  | none => m
  | some inner =>
    if !inner.has b then m
    else if h : (inner.delete b).isEmpty then
      ⟨m.outer.delete a, fun e hMem => m.inner_nonempty e (List.mem_of_mem_filter hMem)⟩
    else
      ⟨m.outer.put a (inner.delete b), by
        rintro ⟨a', inner'⟩ hMem
        rcases (mem_put_iff _ _ _ _ _).mp hMem with ⟨_, hInner⟩ | ⟨_, hMem⟩
        · rw [hInner]
          exact Bool.not_eq_true _ ▸ h
        · exact m.inner_nonempty _ hMem⟩

@[simp] theorem get_empty (a : A) (b : B) : (∅ : FactoredMap A B V).get a b = none := rfl

theorem index_eq_none_iff (m : FactoredMap A B V) (a : A) : m.index a = none ↔ ∀ b, m.get a b = none := by
  constructor
  · intro h b
    rw [get, h, bind_none]
  · intro h
    cases hIndex : m.index a with
    | none => rfl
    | some inner =>
      have hEmpty : inner.isEmpty = true := by
        rw [GoMap.isEmpty_iff]
        intro b
        have hGet := h b
        rwa [get, hIndex, Option.bind_some] at hGet
      rw [inner_isEmpty hIndex] at hEmpty
      cases hEmpty

theorem index_put (m : FactoredMap A B V) (a a' : A) (b : B) (v : V) :
    (m.put a b v).index a' = if a' = a then some (((m.index a).getD ∅).put b v) else m.index a' :=
  GoMap.get_put _ _ _ _

@[simp] theorem get_put (m : FactoredMap A B V) (a a' : A) (b b' : B) (v : V) :
    (m.put a b v).get a' b' = if a' = a ∧ b' = b then some v else m.get a' b' := by
  rw [get, index_put]
  by_cases hA : a' = a
  · rw [if_pos hA, Option.bind_some, GoMap.get_put, hA]
    by_cases hB : b' = b
    · rw [if_pos hB, if_pos ⟨rfl, hB⟩]
    · rw [if_neg hB, if_neg fun h => hB h.2, get]
      cases m.index a <;> rfl
  · rw [if_neg hA, if_neg fun h => hA h.1, get]

variable {a' : A}

theorem index_delete_of_ne (m : FactoredMap A B V) (b : B) (hNe : a' ≠ a) : (m.delete a b).index a' = m.index a' := by
  unfold delete
  split
  · rfl
  · split
    · rfl
    · split
      · exact (GoMap.get_delete _ _ _).trans (if_neg hNe)
      · exact (GoMap.get_put _ _ _ _).trans (if_neg hNe)

theorem index_delete_self (hIndex : m.index a = some inner) (b : B) : (m.delete a b).index a =
      if (inner.delete b).isEmpty = true then none else some (inner.delete b) := by
  unfold delete
  rw [hIndex]
  dsimp only
  split
  · rename_i hHas
    have hSame : inner.delete b = inner := GoMap.delete_of_not_has (by simpa using hHas)
    rw [hSame, inner_isEmpty hIndex, hIndex]
    rfl
  · split
    · exact (GoMap.get_delete _ _ _).trans (if_pos rfl)
    · exact (GoMap.get_put _ _ _ _).trans (if_pos rfl)

theorem delete_of_index_eq_none (hIndex : m.index a = none) (b : B) : m.delete a b = m := by
  rw [delete, hIndex]

@[simp] theorem get_delete (m : FactoredMap A B V) (a a' : A) (b b' : B) :
    (m.delete a b).get a' b' = if a' = a ∧ b' = b then none else m.get a' b' := by
  by_cases hA : a' = a
  · subst hA
    simp only [true_and]
    cases hIndex : m.index a' with
    | none =>
      rw [delete_of_index_eq_none hIndex, (index_eq_none_iff m a').mp hIndex b']
      split <;> rfl
    | some inner =>
      have hGet : m.get a' b' = inner.get b' := by rw [get, hIndex, Option.bind_some]
      rw [hGet, ← GoMap.get_delete, get, index_delete_self hIndex]
      split
      · rename_i hEmpty
        rw [(GoMap.isEmpty_iff _).mp hEmpty b', bind_none]
      · rw [Option.bind_some]
  · rw [get, index_delete_of_ne m b hA, if_neg fun h => hA h.1, get]

theorem index_delete_of_none {b : B} (hIndex : m.index a' = none) : (m.delete a b).index a' = none := by
  rw [index_eq_none_iff] at hIndex ⊢
  intro b'
  rw [get_delete, hIndex b', ite_self]

end FactoredMap
