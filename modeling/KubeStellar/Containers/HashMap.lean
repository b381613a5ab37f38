import KubeStellar.Containers.HashDomain
import KubeStellar.Containers.Operations
import Mathlib.Data.List.Pairwise

/-! # Hash maps and hash sets

`pkg/placement/map-hash.go` and `set-hash.go`: a map on any hash domain, whose entries are spread over buckets by the
hash of their keys, and the set of the keys of such a map.
-/

namespace KubeStellar

open List Option Function

variable {E : Type} {p : E → Bool} {before after : List E} {found : Option E}

theorem find?_eq_none_of_false {l : List E} (hFalse : ∀ e ∈ l, p e = false) : l.find? p = none :=
  List.find?_eq_none.mpr fun e hMem => Bool.eq_false_iff.mp (hFalse e hMem)

theorem find?_split (hRest : ∀ e ∈ before ++ after, p e = false) (hFound : ∀ e ∈ found, p e = true) :
    (before ++ found.toList ++ after).find? p = found := by
  rw [forall_mem_append] at hRest
  rw [List.find?_append, List.find?_append, find?_eq_none_of_false hRest.1, find?_eq_none_of_false hRest.2,
    none_or, or_none]
  cases found with
  | none => rfl
  | some e => rw [toList_some, List.find?_cons, hFound e rfl]

theorem find?_split_of_false (hFound : ∀ e ∈ found, p e = false) :
    (before ++ found.toList ++ after).find? p = (before ++ after).find? p := by
  have hNone : found.toList.find? p = none := find?_eq_none_of_false fun e hMem => hFound e (mem_toList.mp hMem)
  rw [List.find?_append, List.find?_append, hNone, or_none, List.find?_append]

theorem modify_split (e : E) (f : E → E) :
    (before ++ (some e).toList ++ after).modify before.length f = before ++ (some (f e)).toList ++ after := by
  induction before with
  | nil => rfl
  | cons e' before ih => exact congrArg (List.cons e') ih

variable {K V : Type}

def numHashBuckets : Nat := 8

def HashDomain.bucketNum (domain : HashDomain K) (key : K) : Fin numHashBuckets :=
  ⟨(domain.hash key % 8).toNat, UInt64.lt_iff_toNat_lt.mp (UInt64.mod_lt (domain.hash key) (by decide))⟩

structure HashMap (domain : HashDomain K) (V : Type) where
  buckets : Fin numHashBuckets → List (K × V)
  placed : ∀ num, ∀ key ∈ (buckets num).map Prod.fst, domain.bucketNum key = num
  distinct : ∀ num, ((buckets num).map Prod.fst).Pairwise fun earlier later => domain.equal later earlier = false

namespace HashMap

variable {domain : HashDomain K}

def empty : HashMap domain V := ⟨fun _ => [], fun _ => forall_mem_nil _, fun _ => List.Pairwise.nil⟩

variable (hm : HashMap domain V)

def isEmpty : Bool := (List.finRange numHashBuckets).all fun num => !decide (0 < (hm.buckets num).length)

def len : Nat :=
  (List.finRange numHashBuckets).foldl (fun ans num => ans + (hm.buckets num).length) 0

def visit : List (K × V) := (List.finRange numHashBuckets).flatMap hm.buckets

variable (key : K)

def seek : Fin numHashBuckets × Nat × Bool :=
  let bucket := hm.buckets (domain.bucketNum key)
  match bucket.findIdx? fun pair => domain.equal key pair.1 with
  | some indexInBucket => (domain.bucketNum key, indexInBucket, true)
  | none => (domain.bucketNum key, bucket.length, false)

def get : Option V :=
  if (hm.seek key).2.2 then ((hm.buckets (hm.seek key).1)[(hm.seek key).2.1]?).map Prod.snd else none

theorem seek_cases :
    (∃ before e after, hm.buckets (domain.bucketNum key) = before ++ e :: after ∧ domain.equal key e.1 = true ∧
      (∀ e' ∈ before, domain.equal key e'.1 = false) ∧ hm.seek key = (domain.bucketNum key, before.length, true)) ∨
    ((∀ e ∈ hm.buckets (domain.bucketNum key), domain.equal key e.1 = false) ∧
      hm.seek key = (domain.bucketNum key, (hm.buckets (domain.bucketNum key)).length, false)) := by
  cases hFind : (hm.buckets (domain.bucketNum key)).find? fun pair => domain.equal key pair.1 with
  | some e =>
    obtain ⟨hEqual, before, after, hBucket, hBefore⟩ := List.find?_eq_some_iff_append.mp hFind
    have hBefore : ∀ e' ∈ before, domain.equal key e'.1 = false := fun e' hMem => Bool.not_eq_true' _ ▸ hBefore e' hMem
    have hIdx : (before ++ e :: after).findIdx? (fun pair => domain.equal key pair.1) = some before.length := by
      rw [List.findIdx?_append, List.findIdx?_eq_none_iff.mpr hBefore, List.findIdx?_cons, if_pos hEqual]
      simp
    exact .inl ⟨before, e, after, hBucket, hEqual, hBefore, by simp only [seek, hBucket, hIdx]⟩
  | none =>
    have hNone : ∀ e ∈ hm.buckets (domain.bucketNum key), domain.equal key e.1 = false :=
      fun e hMem => Bool.not_eq_true _ ▸ List.find?_eq_none.mp hFind e hMem
    exact .inr ⟨hNone, by simp only [seek, List.findIdx?_eq_none_iff.mpr hNone]⟩

theorem get_eq : hm.get key =
    ((hm.buckets (domain.bucketNum key)).find? fun pair => domain.equal key pair.1).map Prod.snd := by
  rcases hm.seek_cases key with ⟨before, e, after, hBucket, hEqual, hBefore, hSeek⟩ | ⟨hNone, hSeek⟩
  · have hFind : (before ++ e :: after).find? (fun pair => domain.equal key pair.1) = some e :=
      List.find?_eq_some_iff_append.mpr ⟨hEqual, before, after, rfl, fun e' hMem => by rw [hBefore e' hMem]; rfl⟩
    simp [get, hSeek, hBucket, hFind]
  · have hFind : (hm.buckets (domain.bucketNum key)).find? (fun pair => domain.equal key pair.1) = none :=
      find?_eq_none_of_false hNone
    simp [get, hSeek, hFind]

variable (num : Fin numHashBuckets) (bucket : List (K × V))

def setBucket
    (hPlaced : ∀ key ∈ bucket.map Prod.fst, domain.bucketNum key = num)
    (hDist : (bucket.map Prod.fst).Pairwise fun earlier later => domain.equal later earlier = false) :
    HashMap domain V where
  buckets := Function.update hm.buckets num bucket
  placed := (forall_update_iff hm.buckets fun num bucket => ∀ key ∈ bucket.map Prod.fst,
    domain.bucketNum key = num).mpr ⟨hPlaced, fun num _ => hm.placed num⟩
  distinct := (forall_update_iff hm.buckets fun _ bucket => (bucket.map Prod.fst).Pairwise fun earlier later =>
    domain.equal later earlier = false).mpr ⟨hDist, fun num _ => hm.distinct num⟩

def setValues (hKeys : bucket.map Prod.fst = (hm.buckets num).map Prod.fst) : HashMap domain V :=
  hm.setBucket num bucket (hKeys ▸ hm.placed num) (hKeys ▸ hm.distinct num)

theorem map_fst_modify (index : Nat) (f : V → V) :
    (bucket.modify index fun pair => (pair.1, f pair.2)).map Prod.fst = bucket.map Prod.fst := by
  induction bucket generalizing index with
  | nil => simp
  | cons e bucket ih => cases index <;> simp [ih]

theorem seek_num : (hm.seek key).1 = domain.bucketNum key := by
  rw [seek]
  split <;> rfl

theorem equal_of_not_found {hm : HashMap domain V} {key : K} (hFound : ¬ (hm.seek key).2.2 = true) (e : K × V)
    (hMem : e ∈ hm.buckets (hm.seek key).1) : domain.equal key e.1 = false := by
  rcases hm.seek_cases key with ⟨before, e', after, _, _, _, hSeek⟩ | ⟨hNone, _⟩
  · exact absurd (by rw [hSeek]) hFound
  · exact hNone e (hm.seek_num key ▸ hMem)

def append (val : V) (hFound : ¬ (hm.seek key).2.2 = true) : HashMap domain V :=
  hm.setBucket (hm.seek key).1 (hm.buckets (hm.seek key).1 ++ [(key, val)])
    (by
      rw [map_append, forall_mem_append]
      exact ⟨hm.placed _, by simp [seek_num]⟩)
    (by
      rw [map_append, pairwise_append]
      refine ⟨hm.distinct _, pairwise_singleton _ _, fun key' hMem key'' hLast => ?_⟩
      obtain ⟨e, hEntry, rfl⟩ := List.mem_map.mp hMem
      rw [mem_singleton.mp hLast]
      exact equal_of_not_found hFound e hEntry)

variable (indexInBucket : Nat)

def updateAt (f : V → V) : HashMap domain V :=
  hm.setValues num ((hm.buckets num).modify indexInBucket fun pair => (pair.1, f pair.2)) (map_fst_modify _ _ f)

def eraseAt : HashMap domain V :=
  have hSublist :
      (((hm.buckets num).take indexInBucket ++ (hm.buckets num).drop (indexInBucket + 1)).map Prod.fst).Sublist
      ((hm.buckets num).map Prod.fst) := by
    rw [← eraseIdx_eq_take_drop_succ]
    exact (eraseIdx_sublist _ _).map Prod.fst
  hm.setBucket num ((hm.buckets num).take indexInBucket ++ (hm.buckets num).drop (indexInBucket + 1))
    (fun key hMem => hm.placed num key (hSublist.subset hMem)) ((hm.distinct num).sublist hSublist)

theorem append_buckets (val : V) (hFound : ¬ (hm.seek key).2.2 = true) :
    (hm.append key val hFound).buckets =
      Function.update hm.buckets (hm.seek key).1 (hm.buckets (hm.seek key).1 ++ [(key, val)]) := rfl

theorem updateAt_buckets (f : V → V) :
    (hm.updateAt num indexInBucket f).buckets = Function.update hm.buckets num
      ((hm.buckets num).modify indexInBucket fun pair => (pair.1, f pair.2)) := rfl

theorem eraseAt_buckets :
    (hm.eraseAt num indexInBucket).buckets = Function.update hm.buckets num
      ((hm.buckets num).take indexInBucket ++ (hm.buckets num).drop (indexInBucket + 1)) := rfl

def put (val : V) : HashMap domain V × List (MapChange K V) :=
  if hFound : (hm.seek key).2.2 = true then
    (hm.updateAt (hm.seek key).1 (hm.seek key).2.1 fun _ => val,
      ((hm.buckets (hm.seek key).1)[(hm.seek key).2.1]?).toList.map fun old => .update key old.2 val)
  else (hm.append key val hFound, [.create key val])

def delete : HashMap domain V × List (MapChange K V) :=
  if (hm.seek key).2.2 then
    (hm.eraseAt (hm.seek key).1 (hm.seek key).2.1,
      ((hm.buckets (hm.seek key).1)[(hm.seek key).2.1]?).toList.map fun old => .deleteWithFinal key old.2)
  else (hm, [])

def modify (f : V → V) : HashMap domain V :=
  if (hm.seek key).2.2 then hm.updateAt (hm.seek key).1 (hm.seek key).2.1 f else hm

end HashMap

variable {domain : HashDomain K}

namespace HashDomain.Lawful

variable (hLawful : domain.Lawful) {k k' : K}

include hLawful

theorem equal_congr (hEq : domain.equal k k' = true) (e : K) : domain.equal k e = domain.equal k' e :=
  Bool.eq_iff_iff.mpr ⟨fun hEqual => hLawful.equiv.trans (hLawful.equiv.symm hEq) hEqual,
    fun hEqual => hLawful.equiv.trans hEq hEqual⟩

theorem bucketNum_eq (hEq : domain.equal k k' = true) : domain.bucketNum k = domain.bucketNum k' := by
  simp only [bucketNum, hLawful.hash_eq k k' hEq]

theorem get_congr (hm : HashMap domain V) (hEq : domain.equal k k' = true) : hm.get k = hm.get k' := by
  simp only [HashMap.get_eq, hLawful.bucketNum_eq hEq, hLawful.equal_congr hEq]

end HashDomain.Lawful

structure HashMap.Changes (hm hm' : HashMap domain V) (key : K) (old new : Option (K × V)) : Prop where
  split : ∃ before after, hm.buckets (domain.bucketNum key) = before ++ old.toList ++ after ∧
    hm'.buckets = Function.update hm.buckets (domain.bucketNum key) (before ++ new.toList ++ after) ∧
    ∀ e ∈ before ++ after, domain.equal key e.1 = false
  old_equal : ∀ e ∈ old, domain.equal key e.1 = true
  new_equal : ∀ e ∈ new, domain.equal key e.1 = true

namespace HashMap.Changes

variable {hm hm' : HashMap domain V} {key : K} {old new : Option (K × V)} (hChanges : hm.Changes hm' key old new)

include hChanges

theorem get_old : hm.get key = old.map Prod.snd := by
  obtain ⟨before, after, hBucket, _, hRest⟩ := hChanges.split
  rw [get_eq, hBucket, find?_split hRest hChanges.old_equal]

theorem get_new : hm'.get key = new.map Prod.snd := by
  obtain ⟨before, after, _, hBuckets, hRest⟩ := hChanges.split
  rw [get_eq, hBuckets, update_self, find?_split hRest hChanges.new_equal]

theorem get_of_not_equal (hLawful : domain.Lawful) {k : K} (hNe : ¬ domain.equal k key = true) :
    hm'.get k = hm.get k := by
  obtain ⟨before, after, hBucket, hBuckets, _⟩ := hChanges.split
  -- the entry of the key is not the one that is sought
  have hOther : ∀ {found : Option (K × V)}, (∀ e ∈ found, domain.equal key e.1 = true) →
      ∀ e ∈ found, domain.equal k e.1 = false := fun hEqual e hMem => Bool.eq_false_iff.mpr fun hSought =>
    hNe (hLawful.equiv.trans hSought (hLawful.equiv.symm (hEqual e hMem)))
  rw [get_eq, get_eq, hBuckets]
  by_cases hNum : domain.bucketNum k = domain.bucketNum key
  · rw [hNum, update_self, hBucket, find?_split_of_false (hOther hChanges.old_equal),
      find?_split_of_false (hOther hChanges.new_equal)]
  · rw [update_of_ne hNum]

end HashMap.Changes

namespace HashMap

variable (hLawful : domain.Lawful) (hm : HashMap domain V) (key : K) (val : V)

include hLawful

theorem found_changes (hFound : (hm.seek key).2.2 = true) : ∃ before old after,
    hm.buckets (domain.bucketNum key) = before ++ (some old).toList ++ after ∧
    hm.seek key = (domain.bucketNum key, before.length, true) ∧ ∀ (hm' : HashMap domain V) (new : Option (K × V)),
      hm'.buckets = Function.update hm.buckets (domain.bucketNum key) (before ++ new.toList ++ after) →
        (∀ e ∈ new, e.1 = old.1) → hm.Changes hm' key (some old) new := by
  rcases hm.seek_cases key with ⟨before, old, after, hBucket, hEqual, hBefore, hSeek⟩ | ⟨_, hSeek⟩
  · have hSplit : hm.buckets (domain.bucketNum key) = before ++ (some old).toList ++ after := by simp [hBucket]
    refine ⟨before, old, after, hSplit, hSeek, fun hm' new hNew hKeys =>
      ⟨⟨before, after, hSplit, hNew, ?_⟩, fun _ hMem => ?_, fun e hMem => ?_⟩⟩
    · refine forall_mem_append.mpr ⟨hBefore, fun e' hMem => Bool.eq_false_iff.mpr fun hEqual' => ?_⟩
      -- an entry after the one of the key has another key
      have hDist := hm.distinct (domain.bucketNum key)
      rw [hBucket, map_append, map_cons, pairwise_append, pairwise_cons] at hDist
      have hNe := hDist.2.1.1 e'.1 (List.mem_map_of_mem hMem)
      rw [hLawful.equiv.trans (hLawful.equiv.symm hEqual') hEqual] at hNe
      cases hNe
    · cases hMem
      exact hEqual
    · rw [hKeys e hMem]
      exact hEqual
  · rw [hSeek] at hFound
    cases hFound

theorem updateAt_changes (hFound : (hm.seek key).2.2 = true) (f : V → V) :
    ∃ old, hm.Changes (hm.updateAt (hm.seek key).1 (hm.seek key).2.1 f) key (some old) (some (old.1, f old.2)) ∧
      (hm.buckets (hm.seek key).1)[(hm.seek key).2.1]? = some old := by
  obtain ⟨before, old, after, hBucket, hSeek, hChanges⟩ := hm.found_changes hLawful key hFound
  rw [hSeek]
  refine ⟨old, hChanges _ _ ?_ fun _ hMem => ?_, by simp [hBucket]⟩
  · rw [updateAt_buckets, hBucket, modify_split]
  · cases hMem
    rfl

theorem eraseAt_changes (hFound : (hm.seek key).2.2 = true) :
    ∃ old, hm.Changes (hm.eraseAt (hm.seek key).1 (hm.seek key).2.1) key (some old) none ∧
      (hm.buckets (hm.seek key).1)[(hm.seek key).2.1]? = some old := by
  obtain ⟨before, old, after, hBucket, hSeek, hChanges⟩ := hm.found_changes hLawful key hFound
  rw [hSeek]
  refine ⟨old, hChanges _ _ ?_ (by simp), by simp [hBucket]⟩
  rw [eraseAt_buckets, hBucket]
  simp

omit hLawful in
theorem changes_of_not_found (hFound : ¬ (hm.seek key).2.2 = true) : hm.Changes hm key none none := by
  refine ⟨⟨hm.buckets (domain.bucketNum key), [], by simp, by simp, ?_⟩, by simp, by simp⟩
  rw [append_nil, ← hm.seek_num key]
  exact equal_of_not_found hFound

theorem append_changes (hFound : ¬ (hm.seek key).2.2 = true) :
    hm.Changes (hm.append key val hFound) key none (some (key, val)) := by
  refine ⟨⟨hm.buckets (domain.bucketNum key), [], by simp, ?_, ?_⟩, by simp, fun _ hMem => ?_⟩
  · rw [append_buckets, seek_num]
    simp
  · rw [append_nil, ← hm.seek_num key]
    exact equal_of_not_found hFound
  · cases hMem
    exact hLawful.equiv.refl key

theorem put_changes : ∃ old k, hm.Changes (hm.put key val).1 key old (some (k, val)) ∧
    (hm.put key val).2 = [old.elim (.create key val) fun old => .update key old.2 val] := by
  by_cases hFound : (hm.seek key).2.2 = true
  · obtain ⟨old, hChanges, hOld⟩ := hm.updateAt_changes hLawful key hFound fun _ => val
    exact ⟨some old, old.1, by rwa [put, dif_pos hFound], by rw [put, dif_pos hFound, hOld]; rfl⟩
  · exact ⟨none, key, by rw [put, dif_neg hFound]; exact hm.append_changes hLawful key val hFound,
      by rw [put, dif_neg hFound]; rfl⟩

theorem delete_changes : ∃ old, hm.Changes (hm.delete key).1 key old none ∧
    (hm.delete key).2 = old.toList.map fun old => .deleteWithFinal key old.2 := by
  by_cases hFound : (hm.seek key).2.2 = true
  · obtain ⟨old, hChanges, hOld⟩ := hm.eraseAt_changes hLawful key hFound
    exact ⟨some old, by rwa [delete, if_pos hFound], by rw [delete, if_pos hFound, hOld]⟩
  · exact ⟨none, by rw [delete, if_neg hFound]; exact hm.changes_of_not_found key hFound,
      by rw [delete, if_neg hFound]; rfl⟩

theorem modify_changes (f : V → V) : ∃ old, hm.Changes (hm.modify key f) key old (old.map fun e => (e.1, f e.2)) := by
  by_cases hFound : (hm.seek key).2.2 = true
  · obtain ⟨old, hChanges, _⟩ := hm.updateAt_changes hLawful key hFound f
    exact ⟨some old, by rwa [modify, if_pos hFound]⟩
  · exact ⟨none, by rw [modify, if_neg hFound]; exact hm.changes_of_not_found key hFound⟩

omit hLawful in
theorem mem_visit_iff (e : K × V) : e ∈ hm.visit ↔ e ∈ hm.buckets (domain.bucketNum e.1) := by
  rw [visit, mem_flatMap]
  refine ⟨fun ⟨num, _, hMem⟩ => ?_, fun hMem => ⟨_, mem_finRange _, hMem⟩⟩
  rwa [hm.placed num e.1 (List.mem_map_of_mem hMem)]

theorem visit_distinct : hm.visit.Pairwise fun e e' => ¬ domain.equal e.1 e'.1 = true := by
  refine pairwise_flatMap.mpr ⟨fun num _ => ?_, (nodup_finRange _).imp fun {num num'} hNe => ?_⟩
  · refine (pairwise_map.mp (hm.distinct num)).imp fun hDist hEqual => ?_
    rw [hLawful.equiv.symm hEqual] at hDist
    cases hDist
  · intro e hMem e' hMem' hEqual
    refine hNe ?_
    rw [← hm.placed num e.1 (List.mem_map_of_mem hMem), ← hm.placed num' e'.1 (List.mem_map_of_mem hMem')]
    exact hLawful.bucketNum_eq hEqual

theorem eq_of_mem_visit {e e' : K × V} (hMem : e ∈ hm.visit) (hMem' : e' ∈ hm.visit)
    (hEqual : domain.equal e.1 e'.1 = true) : e = e' := by
  have : Std.Symm fun e e' : K × V => ¬ domain.equal e.1 e'.1 = true :=
    ⟨fun _ _ hNe hEqual => hNe (hLawful.equiv.symm hEqual)⟩
  by_contra hNe
  exact (hm.visit_distinct hLawful).forall hMem hMem' hNe hEqual

theorem equal_and_mem_of_find? {e : K × V}
    (hFind : (hm.buckets (domain.bucketNum key)).find? (fun pair => domain.equal key pair.1) = some e) :
    domain.equal key e.1 = true ∧ e ∈ hm.visit := by
  have hEqual : domain.equal key e.1 = true := (List.find?_eq_some_iff_append.mp hFind).1
  refine ⟨hEqual, ?_⟩
  rw [mem_visit_iff, ← hLawful.bucketNum_eq hEqual]
  exact mem_of_find?_eq_some hFind

theorem get_eq_some_iff : hm.get key = some val ↔ ∃ key', domain.equal key' key = true ∧ (key', val) ∈ hm.visit := by
  rw [get_eq, map_eq_some_iff]
  constructor
  · rintro ⟨e, hFind, rfl⟩
    obtain ⟨hEqual, hVisited⟩ := hm.equal_and_mem_of_find? hLawful key hFind
    exact ⟨e.1, hLawful.equiv.symm hEqual, hVisited⟩
  · rintro ⟨key', hEqual, hMem⟩
    have hBucket := (hm.mem_visit_iff (key', val)).mp hMem
    rw [hLawful.bucketNum_eq hEqual] at hBucket
    have hSome : ((hm.buckets (domain.bucketNum key)).find? fun pair => domain.equal key pair.1).isSome = true :=
      List.find?_isSome.mpr ⟨(key', val), hBucket, hLawful.equiv.symm hEqual⟩
    obtain ⟨e, hFind⟩ := isSome_iff_exists.mp hSome
    -- the entry that is found has an equal key, so it is the one that is visited
    obtain ⟨hEqual', hVisited⟩ := hm.equal_and_mem_of_find? hLawful key hFind
    rw [← hm.eq_of_mem_visit hLawful hMem hVisited (hLawful.equiv.trans hEqual hEqual')] at hFind
    exact ⟨(key', val), hFind, rfl⟩

end HashMap

def hashMapOps (domain : HashDomain K) (V : Type) : MapOps K V (HashMap domain V) where
  empty := HashMap.empty
  isEmpty := HashMap.isEmpty
  len := HashMap.len
  get := HashMap.get
  visit := HashMap.visit
  put := HashMap.put
  delete := HashMap.delete
  modify := HashMap.modify

theorem hashMapOps_lawful (hLawful : domain.Lawful) (V : Type) :
    (hashMapOps domain V).Lawful (boolSetoid domain.equal hLawful.equiv) where
  visit_empty := flatMap_eq_nil_iff.mpr fun _ _ => rfl
  visit_distinct hm := hm.visit_distinct hLawful
  get_eq_some_iff hm key val := hm.get_eq_some_iff hLawful key val
  len_eq hm := by
    simp only [hashMapOps, HashMap.len, HashMap.visit, length_flatMap]
    rw [sum_eq_foldl, foldl_map]
  isEmpty_eq hm := by
    rw [Bool.eq_iff_iff, List.isEmpty_iff]
    refine List.all_eq_true.trans (Iff.trans ?_ flatMap_eq_nil_iff.symm)
    simp
  get_put_of_rel hm key val k hRel := by
    obtain ⟨old, k', hChanges, _⟩ := hm.put_changes hLawful key val
    exact (hLawful.get_congr _ hRel).trans hChanges.get_new
  get_put_of_not_rel hm key val k hRel := by
    obtain ⟨old, k', hChanges, _⟩ := hm.put_changes hLawful key val
    exact hChanges.get_of_not_equal hLawful hRel
  get_delete_of_rel hm key k hRel := by
    obtain ⟨old, hChanges, _⟩ := hm.delete_changes hLawful key
    exact (hLawful.get_congr _ hRel).trans hChanges.get_new
  get_delete_of_not_rel hm key k hRel := by
    obtain ⟨old, hChanges, _⟩ := hm.delete_changes hLawful key
    exact hChanges.get_of_not_equal hLawful hRel
  get_modify_of_rel hm key f k hRel := by
    obtain ⟨old, hChanges⟩ := hm.modify_changes hLawful key f
    simp only [hashMapOps, hLawful.get_congr _ hRel, hChanges.get_new, hChanges.get_old, Option.map_map]
    rfl
  get_modify_of_not_rel hm key f k hRel := by
    obtain ⟨old, hChanges⟩ := hm.modify_changes hLawful key f
    exact hChanges.get_of_not_equal hLawful hRel
  put_told_none hm key val hGet := by
    obtain ⟨old, k', hChanges, hTold⟩ := hm.put_changes hLawful key val
    rw [map_eq_none_iff.mp (hChanges.get_old.symm.trans hGet)] at hTold
    exact hTold
  put_told_some hm key val oldVal hGet := by
    obtain ⟨old, k', hChanges, hTold⟩ := hm.put_changes hLawful key val
    obtain ⟨e, rfl, rfl⟩ := map_eq_some_iff.mp (hChanges.get_old.symm.trans hGet)
    exact hTold
  delete_told_none hm key hGet := by
    obtain ⟨old, hChanges, hTold⟩ := hm.delete_changes hLawful key
    rw [map_eq_none_iff.mp (hChanges.get_old.symm.trans hGet)] at hTold
    exact hTold
  delete_told_some hm key oldVal hGet := by
    obtain ⟨old, hChanges, hTold⟩ := hm.delete_changes hLawful key
    obtain ⟨e, rfl, rfl⟩ := map_eq_some_iff.mp (hChanges.get_old.symm.trans hGet)
    exact hTold

variable {domain : HashDomain E}

def hashSetOps (domain : HashDomain E) : SetOps E (HashMap domain Unit) := setByMapToEmpty (hashMapOps domain Unit)

def newHashSet (domain : HashDomain E) (elts : List E) : HashMap domain Unit :=
  elts.foldl (fun ans elt => ((hashSetOps domain).add ans elt).1) (hashSetOps domain).empty

theorem hashSetOps_lawful (hLawful : domain.Lawful) :
    (hashSetOps domain).Lawful (boolSetoid domain.equal hLawful.equiv) :=
  setByMapToEmpty_lawful (hashMapOps_lawful hLawful Unit)

theorem represents_adds (hLawful : domain.Lawful) {s : HashMap domain Unit}
    {g : MapSet (Modulo domain.equal hLawful.equiv)} (hRep : (hashSetOps domain).Represents s g) (elts : List E) :
    (hashSetOps domain).Represents (elts.foldl (fun ans elt => ((hashSetOps domain).add ans elt).1) s)
      (g.addAll (elts.map (Modulo.mk hLawful.equiv))) := by
  induction elts generalizing s g with
  | nil => exact hRep
  | cons elt elts ih => exact ih ((hashSetOps_lawful hLawful).represents_write hRep (.add elt)).1

/-- Maps and sets on a lawful hash domain are finite maps and sets on its classes, whatever collides; and the ways to
make hash domains keep them lawful. -/
theorem hashContainers_refine {E F G V : Type} {first : HashDomain E} {second : HashDomain F} {third : HashDomain G}
    (hFirst : first.Lawful) (hSecond : second.Lawful) (hThird : third.Lawful) :
    (∀ ws : List (MapWrite E V), (hashMapOps first V).Refines (emitAll (hashMapOps first V).write HashMap.empty ws).1
        (emitAll MapMap.write ∅ (ws.map (MapWrite.mapKey (Modulo.mk hFirst.equiv)))).1 ∧
      (emitAll (hashMapOps first V).write HashMap.empty ws).2.map (MapChange.mapKey (Modulo.mk hFirst.equiv)) =
        (emitAll MapMap.write ∅ (ws.map (MapWrite.mapKey (Modulo.mk hFirst.equiv)))).2) ∧
    (∀ (elts : List E) (ws : List (SetWrite E)),
      (hashSetOps first).Refines (emitAll (hashSetOps first).write (newHashSet first elts) ws).1
        (emitAll finiteSetWrite (MapSet.addAll ∅ (elts.map (Modulo.mk hFirst.equiv)))
          (ws.map (SetWrite.mapElt (Modulo.mk hFirst.equiv)))).1 ∧
      (emitAll (hashSetOps first).write (newHashSet first elts) ws).2 =
        (emitAll finiteSetWrite (MapSet.addAll ∅ (elts.map (Modulo.mk hFirst.equiv)))
          (ws.map (SetWrite.mapElt (Modulo.mk hFirst.equiv)))).2) ∧
    (pairHashDomain first second).Lawful ∧ (tripleHashDomain first second third).Lawful ∧
    (sliceHashDomain first).Lawful ∧ (∀ transform : F → E, (transformHashDomain transform first).Lawful) ∧
    ∀ stringHash : String → HashValue, (hashUpsyncSet stringHash).Lawful ∧ (hashSinglePlacement stringHash).Lawful := by
  refine ⟨fun ws => ?_, fun elts ws => ?_, pairHashDomain_lawful hFirst hSecond,
    tripleHashDomain_lawful hFirst hSecond hThird, sliceHashDomain_lawful hFirst,
    fun transform => transformHashDomain_lawful transform hFirst,
    fun stringHash => ⟨hashUpsyncSet_lawful stringHash, hashSinglePlacement_lawful stringHash⟩⟩
  · obtain ⟨hRep, hTold⟩ := (hashMapOps_lawful hFirst V).represents_writes ws
    exact ⟨(hashMapOps_lawful hFirst V).refines hRep, hTold⟩
  · have hNew := represents_adds hFirst (hashSetOps_lawful hFirst).represents_empty elts
    obtain ⟨hRep, hTold⟩ := (hashSetOps_lawful hFirst).represents_writes hNew ws
    exact ⟨(hashSetOps_lawful hFirst).refines hRep, hTold⟩

/-- With one hash for all strings. -/
theorem hashContainers_refine_colliding : (emitAll (hashMapOps (hashDomainString fun _ => 7) Nat).write HashMap.empty
      [.put "a" 1, .put "b" 2, .put "a" 3, .delete "b", .delete "c"]).2 =
      [.create "a" 1, .create "b" 2, .update "a" 1 3, .deleteWithFinal "b" 2] ∧
    (hashMapOps (hashDomainString fun _ => 7) Nat).Refines
      (emitAll (hashMapOps (hashDomainString fun _ => 7) Nat).write HashMap.empty
        [.put "a" 1, .put "b" 2, .put "a" 3, .delete "b", .delete "c"]).1
      (emitAll MapMap.write ∅ ([.put "a" 1, .put "b" 2, .put "a" 3, .delete "b", .delete "c"].map
        (MapWrite.mapKey (Modulo.mk (hashDomainString_lawful fun _ => 7).equiv)))).1 :=
  ⟨rfl, ((hashContainers_refine (hashDomainString_lawful fun _ => 7) (hashDomainString_lawful fun _ => 7)
    (hashDomainString_lawful fun _ => 7)).1 [.put "a" 1, .put "b" 2, .put "a" 3, .delete "b", .delete "c"]).1⟩

end KubeStellar
