import Mathlib.Data.List.Induction
import Mathlib.Data.List.Infix
import Mathlib.Data.List.Nodup
import Mathlib.Data.List.Perm.Basic

/-! # Maps of maps along a path

A map from keys to nodes, where a node has a value or not and a map below it. Putting a value makes the nodes on the
way. A node is reached when it and the nodes above it have values.
-/

inductive Trie (K V : Type) where
  | nil
  | node (key : K) (val : Option V) (below rest : Trie K V)

namespace Trie

open List

variable {K V : Type}

def keys : Trie K V → List K
  | nil => []
  | node key _ _ rest => key :: rest.keys

def Distinct : Trie K V → Prop
  | nil => True
  | node key _ below rest => key ∉ rest.keys ∧ below.Distinct ∧ rest.Distinct

def reached : Trie K V → List (List K × V)
  | nil => []
  | node _ none _ rest => rest.reached
  | node key (some val) below rest =>
    ([key], val) :: below.reached.map (fun e => (key :: e.1, e.2)) ++ rest.reached

variable [DecidableEq K]

def find (k : K) : Trie K V → Option (Option V × Trie K V)
  | nil => none
  | node key val below rest => if key = k then some (val, below) else rest.find k

def alter (k : K) (f : Option V × Trie K V → Option V × Trie K V) : Trie K V → Trie K V
  | nil =>
    let made := f (none, nil)
    node k made.1 made.2 nil
  | node key val below rest =>
    if key = k then
      let changed := f (val, below)
      node key changed.1 changed.2 rest
    else node key val below (rest.alter k f)

def get : Trie K V → List K → Option V
  | _, [] => none
  | t, [k] => (t.find k).bind Prod.fst
  | t, k :: next :: path => (t.find k).bind fun n => n.2.get (next :: path)

def insert : List K → V → Trie K V → Trie K V
  | [], _, t => t
  | [k], v, t => t.alter k fun n => (some v, n.2)
  | k :: next :: path, v, t => t.alter k fun n => (n.1, n.2.insert (next :: path) v)

variable {t : Trie K V}

theorem find_alter (t : Trie K V) (k k' : K) (f : Option V × Trie K V → Option V × Trie K V) :
    (t.alter k f).find k' = if k' = k then some (f ((t.find k).getD (none, nil))) else t.find k' := by
  induction t with
  | nil => simp [alter, find, eq_comm]
  | node key val below rest _ ih =>
    by_cases hKey : key = k
    · subst hKey
      by_cases hSame : key = k'
      · simp [alter, find, hSame]
      · simp [alter, find, hSame, Ne.symm hSame]
    · by_cases hSame : key = k'
      · subst hSame
        simp [alter, find, hKey]
      · simp [alter, find, hKey, hSame, ih]

theorem find_ne_none_iff (t : Trie K V) (k : K) : t.find k ≠ none ↔ k ∈ t.keys := by
  induction t with
  | nil => simp [find, keys]
  | node key val below rest _ ih =>
    by_cases hKey : key = k
    · simp [find, keys, hKey]
    · simp [find, keys, hKey, Ne.symm hKey, ih]

theorem mem_keys_alter (t : Trie K V) (k k' : K) (f : Option V × Trie K V → Option V × Trie K V) :
    k' ∈ (t.alter k f).keys ↔ k' = k ∨ k' ∈ t.keys := by
  rw [← find_ne_none_iff, ← find_ne_none_iff, find_alter]
  by_cases hKey : k' = k <;> simp [hKey]

theorem Distinct.alter (hDist : t.Distinct) (k : K) {f : Option V × Trie K V → Option V × Trie K V}
    (hBelow : ∀ n, n.2.Distinct → (f n).2.Distinct) : (t.alter k f).Distinct := by
  induction t with
  | nil => exact ⟨not_mem_nil, hBelow _ trivial, trivial⟩
  | node key val below rest _ ih =>
    obtain ⟨hKey, hDown, hRest⟩ := hDist
    rw [Trie.alter]
    split
    · exact ⟨hKey, hBelow _ hDown, hRest⟩
    · rename_i hNe
      refine ⟨fun hMem => ?_, hDown, ih hRest⟩
      rcases (mem_keys_alter rest k key f).mp hMem with hSame | hMem
      · exact hNe hSame
      · exact hKey hMem

variable {path : List K}

@[simp] theorem get_nil (path : List K) : (nil : Trie K V).get path = none := by
  cases path with
  | nil => rfl
  | cons k path => cases path <;> rfl

theorem Distinct.insert (hDist : t.Distinct) (path : List K) (v : V) : (t.insert path v).Distinct := by
  induction path generalizing t with
  | nil => exact hDist
  | cons k path ih =>
    cases path with
    | nil => exact hDist.alter k fun n hBelow => hBelow
    | cons next path => exact hDist.alter k fun n hBelow => ih hBelow

theorem get_insert (t : Trie K V) (hPath : path ≠ []) (path' : List K) (v : V) :
    (t.insert path v).get path' = if path' = path then some v else t.get path' := by
  induction path generalizing t path' with
  | nil => exact absurd rfl hPath
  | cons k path ih =>
    cases path' with
    | nil => simp [get]
    | cons k' path' =>
      by_cases hKey : k' = k
      · subst hKey
        cases path with
        | nil =>
          cases path' with
          | nil => simp [insert, get, find_alter]
          | cons next' path' => cases hFind : t.find k' <;> simp [insert, get, find_alter, hFind]
        | cons next path =>
          have ih := ih ((t.find k').getD (none, nil)).2 (cons_ne_nil next path)
          cases path' with
          | nil => cases hFind : t.find k' <;> simp [insert, get, find_alter, hFind]
          | cons next' path' =>
            simp only [insert, get, find_alter, if_true, Option.bind_some, ih, List.cons.injEq, true_and]
            cases t.find k' <;> simp
      · have hNe : k' :: path' ≠ k :: path := fun hSame => hKey (List.cons.inj hSame).1
        rw [if_neg hNe]
        cases path <;> cases path' <;> simp [insert, get, find_alter, hKey]

variable {k key : K} {val : Option V} {below rest : Trie K V} {v : V}

def Reaches (t : Trie K V) (path : List K) (v : V) : Prop :=
  t.get path = some v ∧ ∀ q, q <+: path → q ≠ [] → t.get q ≠ none

omit [DecidableEq K] in
theorem exists_cons_of_mem_reached {e : List K × V} (hMem : e ∈ t.reached) :
    ∃ k path, e.1 = k :: path ∧ k ∈ t.keys := by
  induction t generalizing e with
  | nil => cases hMem
  | node key val below rest _ ih =>
    have hRest : e ∈ rest.reached → ∃ k path, e.1 = k :: path ∧ k ∈ (node key val below rest).keys := by
      intro hMem
      obtain ⟨k, path, hCons, hKeys⟩ := ih hMem
      exact ⟨k, path, hCons, mem_cons_of_mem _ hKeys⟩
    cases val with
    | none => exact hRest hMem
    | some val =>
      rcases mem_append.mp hMem with hHere | hMem
      · rcases mem_cons.mp hHere with rfl | hBelow
        · exact ⟨key, [], rfl, mem_cons_self⟩
        · obtain ⟨e', -, rfl⟩ := mem_map.mp hBelow
          exact ⟨key, e'.1, rfl, mem_cons_self⟩
      · exact hRest hMem

theorem get_node (key : K) (val : Option V) (below rest : Trie K V) (k : K) (path : List K) :
    (node key val below rest).get (k :: path) =
      if key = k then if path = [] then val else below.get path else rest.get (k :: path) := by
  by_cases hKey : key = k
  · cases path <;> simp [get, find, hKey]
  · cases path <;> simp [get, find, hKey]

theorem mem_keys_of_get (hGet : t.get (k :: path) ≠ none) : k ∈ t.keys := by
  rw [← find_ne_none_iff]
  intro hFind
  cases path <;> simp [get, hFind] at hGet

theorem reaches_node_self_iff : (node key val below rest).Reaches (key :: path) v ↔
      path = [] ∧ val = some v ∨ val ≠ none ∧ below.Reaches path v := by
  simp only [Reaches, get_node, if_true]
  constructor
  · rintro ⟨hGet, hAbove⟩
    have hVal : val ≠ none := by simpa [get_node] using hAbove [key] (by simp) (cons_ne_nil _ _)
    by_cases hPath : path = []
    · rw [if_pos hPath] at hGet
      exact .inl ⟨hPath, hGet⟩
    · rw [if_neg hPath] at hGet
      refine .inr ⟨hVal, hGet, fun q hq hNe => ?_⟩
      simpa [get_node, hNe] using hAbove (key :: q) ((prefix_cons_inj key).mpr hq) (cons_ne_nil _ _)
  · have hStart : ∀ q : List K, q <+: key :: path → q ≠ [] → ∃ q', q = key :: q' ∧ q' <+: path := by
      intro q hq hNe
      cases q with
      | nil => exact absurd rfl hNe
      | cons k q =>
        obtain ⟨rfl, hTail⟩ := cons_prefix_cons.mp hq
        exact ⟨q, rfl, hTail⟩
    rintro (⟨rfl, hVal⟩ | ⟨hVal, hGet, hAbove⟩)
    · refine ⟨hVal, fun q hq hNe => ?_⟩
      obtain ⟨q, rfl, hTail⟩ := hStart q hq hNe
      simp [get_node, prefix_nil.mp hTail, hVal]
    · have hPath : path ≠ [] := by
        rintro rfl
        cases hGet
      refine ⟨by rw [if_neg hPath, hGet], fun q hq hNe => ?_⟩
      obtain ⟨q, rfl, hTail⟩ := hStart q hq hNe
      by_cases hEmpty : q = []
      · simpa [get_node, hEmpty] using hVal
      · simpa [get_node, hEmpty] using hAbove q hTail hEmpty

theorem reaches_node_iff_of_ne (hNe : key ≠ k) :
    (node key val below rest).Reaches (k :: path) v ↔ rest.Reaches (k :: path) v := by
  simp only [Reaches, get_node, if_neg hNe]
  refine and_congr_right fun _ => forall_congr' fun q => ?_
  cases q with
  | nil => simp
  | cons k' q =>
    refine imp_congr_right fun hq => ?_
    rw [get_node, if_neg ((cons_prefix_cons.mp hq).1 ▸ hNe)]

theorem mem_reached_iff (hDist : t.Distinct) (path : List K) (v : V) : (path, v) ∈ t.reached ↔ t.Reaches path v := by
  induction t generalizing path v with
  | nil => simp [reached, Reaches]
  | node key val below rest ihBelow ihRest =>
    obtain ⟨hKey, hBelow, hRest⟩ := hDist
    cases path with
    | nil =>
      refine iff_of_false (fun hMem => ?_) fun hReaches => ?_
      · obtain ⟨k, path, hCons, -⟩ := exists_cons_of_mem_reached hMem
        cases hCons
      · cases hReaches.1
    | cons k path =>
      have hNone : key = k → ¬ rest.Reaches (k :: path) v := by
        rintro rfl hReaches
        exact hKey (mem_keys_of_get (hReaches.1 ▸ Option.some_ne_none v))
      by_cases hSame : key = k
      · subst hSame
        rw [reaches_node_self_iff]
        cases val with
        | none => simp [reached, ihRest hRest, hNone rfl]
        | some val =>
          simp only [reached, cons_append, mem_cons, mem_append, ihRest hRest, hNone rfl, or_false,
            mem_map, Prod.mk.injEq, List.cons.injEq, true_and, Prod.exists, Option.some.injEq, ne_eq,
            reduceCtorEq, not_false_eq_true, eq_comm (a := v)]
          refine or_congr_right ⟨?_, fun hReaches => ⟨path, v, (ihBelow hBelow path v).mpr hReaches, rfl, rfl⟩⟩
          rintro ⟨path, v, hMem, rfl, rfl⟩
          exact (ihBelow hBelow path v).mp hMem
      · rw [reaches_node_iff_of_ne hSame, ← ihRest hRest]
        cases val <;> simp [reached, hSame, Ne.symm hSame]

omit [DecidableEq K] in
theorem nodup_reached (hDist : t.Distinct) : (t.reached.map Prod.fst).Nodup := by
  induction t with
  | nil => exact nodup_nil
  | node key val below rest ihBelow ihRest =>
    obtain ⟨hKey, hBelow, hRest⟩ := hDist
    cases val with
    | none => exact ihRest hRest
    | some val =>
      have hHere : (([key], val) :: below.reached.map fun e => (key :: e.1, e.2)).map Prod.fst =
          [key] :: (below.reached.map Prod.fst).map (key :: ·) := by simp
      rw [reached, map_append, hHere]
      refine nodup_append.mpr ⟨nodup_cons.mpr ⟨fun hMem => ?_, ?_⟩, ihRest hRest, ?_⟩
      · obtain ⟨path, hPath, hCons⟩ := mem_map.mp hMem
        obtain ⟨e, hMem, rfl⟩ := mem_map.mp hPath
        obtain ⟨k, path, hNonempty, -⟩ := exists_cons_of_mem_reached hMem
        rw [hNonempty] at hCons
        cases hCons
      · exact (ihBelow hBelow).map fun path path' hSame => (List.cons.inj hSame).2
      · rintro path hMem path' hMem' rfl
        obtain ⟨e, hReached, rfl⟩ := mem_map.mp hMem'
        obtain ⟨k, path, hCons, hKeys⟩ := exists_cons_of_mem_reached hReached
        rw [hCons] at hMem
        simp only [mem_cons, List.cons.injEq, mem_map] at hMem
        rcases hMem with ⟨rfl, -⟩ | ⟨_, -, rfl, -⟩ <;> exact hKey hKeys

variable {l : List (List K × V)}

def ofList (l : List (List K × V)) : Trie K V := l.foldl (fun t e => t.insert e.1 e.2) nil

theorem ofList_append (l : List (List K × V)) (e : List K × V) : ofList (l ++ [e]) = (ofList l).insert e.1 e.2 :=
  foldl_append

theorem distinct_ofList (l : List (List K × V)) : (ofList l).Distinct :=
  List.foldlRecOn l _ trivial fun _ hDist e _ => hDist.insert e.1 e.2

theorem get_ofList_iff (hPaths : ∀ e ∈ l, e.1 ≠ []) (hNodup : (l.map Prod.fst).Nodup) (path : List K) (v : V) :
    (ofList l).get path = some v ↔ (path, v) ∈ l := by
  induction l using List.reverseRecOn with
  | nil => simp [ofList]
  | append_singleton l e ih =>
    have hLast : e.1 ≠ [] := hPaths e (by simp)
    rw [map_append, nodup_append] at hNodup
    obtain ⟨hNodup, -, hFresh⟩ := hNodup
    rw [ofList_append, get_insert _ hLast, mem_append, mem_singleton]
    have ih := ih (fun e hMem => hPaths e (mem_append_left _ hMem)) hNodup
    by_cases hPath : path = e.1
    · have hNone : (path, v) ∉ l := fun hMem => hFresh path (mem_map_of_mem hMem) e.1 (by simp) hPath
      rw [if_pos hPath, or_iff_right hNone, Option.some.injEq, Prod.ext_iff]
      exact ⟨fun h => ⟨hPath, h.symm⟩, fun h => h.2.symm⟩
    · rw [if_neg hPath, ih]
      exact (or_iff_left fun hSame => hPath (congrArg Prod.fst hSame)).symm

def upheld (paths : List (List K)) (path : List K) : Bool := path.inits.all fun q => q = [] ∨ q ∈ paths

theorem upheld_iff (paths : List (List K)) (path : List K) :
    upheld paths path = true ↔ ∀ q, q <+: path → q ≠ [] → q ∈ paths := by
  simp only [upheld, all_eq_true, mem_inits, decide_eq_true_eq, or_iff_not_imp_left, ne_eq]

theorem reached_ofList_perm (hPaths : ∀ e ∈ l, e.1 ≠ []) (hNodup : (l.map Prod.fst).Nodup) :
    (ofList l).reached.Perm (l.filter fun e => upheld (l.map Prod.fst) e.1) := by
  have hThere : ∀ q, (ofList l).get q ≠ none ↔ q ∈ l.map Prod.fst := by
    intro q
    rw [Option.ne_none_iff_exists']
    simp only [get_ofList_iff hPaths hNodup, mem_map, Prod.exists, exists_and_right, exists_eq_right]
  refine (perm_ext_iff_of_nodup ((nodup_reached (distinct_ofList l)).of_map _) ?_).mpr fun e => ?_
  · exact (hNodup.of_map _).filter _
  · obtain ⟨path, v⟩ := e
    rw [mem_filter, upheld_iff, mem_reached_iff (distinct_ofList l), Reaches, get_ofList_iff hPaths hNodup]
    simp only [hThere]

end Trie
