import Mathlib.Data.List.Nodup
import Mathlib.Data.List.Perm.Basic

/-!
# Python dictionaries

Association lists in insertion order, no key twice.

* `Dict` — with `get?`, `set`, `update`, `ofPairs` and the order that `sort_keys` gives.
* `Dict.Same` — `==` of Python, which does not see the order; `Dict.filter` — the items whose keys are kept.

## Results

* `get?_set`, `get?_ofPairs`, `get?_update` — lookups; a later assignment wins.
* `get?_sorted` — sorting keeps every lookup; `mem_items` — the items are the lookups.
* `ofPairs_items` — the items assigned one after the other give the dictionary back.
-/

namespace VKernels.PyDict

open List
open Prod (fst)

structure Dict (κ ν : Type) where
  items : List (κ × ν)
  nodup : (items.map fst).Nodup

namespace Dict

variable {κ ν : Type}

def empty : Dict κ ν := ⟨[], List.nodup_nil⟩

def keys (d : Dict κ ν) : List κ := d.items.map fst

@[ext] lemma ext_items {d e : Dict κ ν} (h : d.items = e.items) : d = e := by
  obtain ⟨_, hd⟩ := d
  obtain ⟨_, he⟩ := e
  obtain rfl := h
  rfl

variable [DecidableEq κ]

/-- `d.get(k)`. -/
def get? (d : Dict κ ν) (k : κ) : Option ν := d.items.lookup k

/-- The value of a key replaced in its place, or a new key at the end. -/
def setItems (k : κ) (v : ν) : List (κ × ν) → List (κ × ν)
  | [] => [(k, v)]
  | item :: items => if item.1 = k then (k, v) :: items else item :: setItems k v items

lemma keys_setItems (k : κ) (v : ν) (items : List (κ × ν)) : (setItems k v items).map fst =
    if k ∈ items.map fst then items.map fst else items.map fst ++ [k] := by
  induction items with
  | nil => rfl
  | cons item items ih =>
    by_cases h : item.1 = k
    · simp [setItems, h]
    · have h' : k ≠ item.1 := Ne.symm h
      rw [setItems, if_neg h, map_cons, ih]
      by_cases hmem : k ∈ items.map fst
      · simp [hmem]
      · simp [hmem, h']

/-- `d[k] = v`. -/
def set (d : Dict κ ν) (k : κ) (v : ν) : Dict κ ν where
  items := setItems k v d.items
  nodup := by
    rw [keys_setItems]
    split
    · exact d.nodup
    · rename_i hk
      exact List.nodup_append.mpr ⟨d.nodup, List.nodup_singleton k, fun a ha b hb heq =>
        hk (List.mem_singleton.mp hb ▸ heq ▸ ha)⟩

/-- Assignments one after the other. -/
def setAll (d : Dict κ ν) (pairs : List (κ × ν)) : Dict κ ν := pairs.foldl (fun d p => d.set p.1 p.2) d

def ofPairs (pairs : List (κ × ν)) : Dict κ ν := setAll empty pairs

/-- `d.update(e)`. -/
def update (d e : Dict κ ν) : Dict κ ν := setAll d e.items

/-- `d == e`. -/
def Same (d e : Dict κ ν) : Prop := ∀ k, d.get? k = e.get? k

lemma lookup_cons_eq [BEq κ] [LawfulBEq κ] (p : κ × ν) (items : List (κ × ν)) (k : κ) :
    (p :: items).lookup k = if k = p.1 then some p.2 else items.lookup k := by
  rw [lookup_cons]
  by_cases hk : k = p.1
  · simp [hk]
  · have hbeq : (k == p.1) = false := beq_eq_false_iff_ne.mpr hk
    simp [hk, hbeq]

@[simp] lemma get?_empty (k : κ) : (empty : Dict κ ν).get? k = none := rfl

@[simp] lemma get?_set (d : Dict κ ν) (k k' : κ) (v : ν) :
    (d.set k v).get? k' = if k' = k then some v else d.get? k' := by
  have hitems : ∀ items : List (κ × ν),
      (setItems k v items).lookup k' = if k' = k then some v else items.lookup k' := by
    intro items
    induction items with
    | nil => rw [setItems, lookup_cons_eq]
    | cons item items ih =>
      by_cases h : item.1 = k
      · rw [setItems, if_pos h, lookup_cons_eq, lookup_cons_eq, h]
        by_cases hk : k' = k
        · simp [hk]
        · simp [hk]
      · rw [setItems, if_neg h, lookup_cons_eq, lookup_cons_eq, ih]
        by_cases hk : k' = k
        · simp [hk, Ne.symm h]
        · simp [hk]
  exact hitems d.items

lemma get?_setAll (d : Dict κ ν) (pairs : List (κ × ν)) (k : κ) :
    (d.setAll pairs).get? k = (pairs.reverse.lookup k).or (d.get? k) := by
  induction pairs generalizing d with
  | nil => rfl
  | cons p pairs ih =>
    show ((d.set p.1 p.2).setAll pairs).get? k = _
    rw [ih, get?_set, reverse_cons, lookup_append, lookup_cons_eq]
    by_cases hk : k = p.1
    · simp [hk]
    · simp [hk]

lemma get?_ofPairs (pairs : List (κ × ν)) (k : κ) : (ofPairs pairs).get? k = pairs.reverse.lookup k := by
  rw [ofPairs, get?_setAll, get?_empty, Option.or_none]

variable {v : ν}

lemma mem_of_get?_ofPairs {pairs : List (κ × ν)} {k : κ} (h : (ofPairs pairs).get? k = some v) : (k, v) ∈ pairs := by
  rw [get?_ofPairs] at h
  obtain ⟨_, _, hreverse, -⟩ := lookup_eq_some_iff.mp h
  exact mem_reverse.mp (by simp [hreverse])

lemma notMem_of_get?_ofPairs {pairs : List (κ × ν)} {k : κ} (h : (ofPairs pairs).get? k = none) (v : ν) :
    (k, v) ∉ pairs := by
  rw [get?_ofPairs] at h
  intro hmem
  have hne := lookup_eq_none_iff.mp h _ (mem_reverse.mpr hmem)
  simp at hne

lemma mem_items {d : Dict κ ν} {k : κ} : (k, v) ∈ d.items ↔ d.get? k = some v := by
  obtain ⟨items, hnodup⟩ := d
  unfold get?
  induction items with
  | nil => simp
  | cons item items ih =>
    rw [map_cons, nodup_cons] at hnodup
    rw [mem_cons, ih hnodup.2, lookup_cons_eq]
    by_cases hk : k = item.1
    · subst hk
      have hnone : items.lookup item.1 = none := by
        rw [lookup_eq_none_iff]
        intro p hp
        rw [bne_iff_ne]
        intro heq
        exact hnodup.1 (heq ▸ mem_map_of_mem hp)
      simp [hnone, Prod.ext_iff, eq_comm]
    · have hne : (k, v) ≠ item := fun heq => hk (heq ▸ rfl)
      simp [hne, hk]

lemma mem_keys {d : Dict κ ν} {k : κ} : k ∈ d.keys ↔ ∃ v, d.get? k = some v := by
  unfold keys
  rw [mem_map]
  constructor
  · rintro ⟨⟨k, v⟩, hmem, rfl⟩
    exact ⟨v, mem_items.mp hmem⟩
  · rintro ⟨v, hv⟩
    exact ⟨(k, v), mem_items.mpr hv, rfl⟩

lemma get?_of_perm {d e : Dict κ ν} (h : d.items.Perm e.items) (k : κ) : d.get? k = e.get? k := by
  apply Option.ext
  intro v
  rw [← mem_items, ← mem_items, h.mem_iff]

lemma get?_update (d e : Dict κ ν) (k : κ) : (d.update e).get? k = (e.get? k).or (d.get? k) := by
  have hreverse : (⟨e.items.reverse, by simpa using e.nodup⟩ : Dict κ ν).get? k = e.get? k :=
    get?_of_perm (reverse_perm e.items) k
  rw [update, get?_setAll, ← hreverse]
  rfl

lemma setItems_new {k : κ} {items : List (κ × ν)} (h : k ∉ items.map fst) :
    setItems k v items = items ++ [(k, v)] := by
  induction items with
  | nil => rfl
  | cons item items ih =>
    rw [map_cons, mem_cons, not_or] at h
    rw [setItems, if_neg (Ne.symm h.1), ih h.2, cons_append]

@[simp] lemma set_set (d : Dict κ ν) (k : κ) (v v' : ν) : (d.set k v).set k v' = d.set k v' := by
  have hitems : ∀ items : List (κ × ν), setItems k v' (setItems k v items) = setItems k v' items := by
    intro items
    induction items with
    | nil => simp [setItems]
    | cons item items ih =>
      by_cases h : item.1 = k
      · simp [setItems, h]
      · simp [setItems, h, ih]
  exact ext_items (hitems d.items)

/-- Assignments of new keys go to the end. -/
lemma setAll_items {d : Dict κ ν} {pairs : List (κ × ν)} (h : ((d.items ++ pairs).map fst).Nodup) :
    (d.setAll pairs).items = d.items ++ pairs := by
  induction pairs generalizing d with
  | nil => simp [setAll]
  | cons p pairs ih =>
    have hnew : p.1 ∉ d.items.map fst := by
      rw [map_append, map_cons] at h
      exact fun hmem => (nodup_append.mp h).2.2 p.1 hmem p.1 mem_cons_self rfl
    have hset : (d.set p.1 p.2).items = d.items ++ [p] := setItems_new hnew
    have hitems : (d.set p.1 p.2).items ++ pairs = d.items ++ p :: pairs := by
      rw [hset, append_assoc, singleton_append]
    show ((d.set p.1 p.2).setAll pairs).items = _
    rw [ih (by rwa [hitems]), hitems]

@[simp] lemma ofPairs_items (d : Dict κ ν) : ofPairs d.items = d :=
  ext_items (setAll_items (by simpa [empty] using d.nodup))

def filter (d : Dict κ ν) (keep : κ → Bool) : Dict κ ν where
  items := d.items.filter fun item => keep item.1
  nodup := d.nodup.sublist (List.filter_sublist.map fst)

@[simp] lemma get?_filter (d : Dict κ ν) (keep : κ → Bool) (k : κ) :
    (d.filter keep).get? k = if keep k then d.get? k else none := by
  apply Option.ext
  intro v
  rw [← mem_items, filter, mem_filter]
  by_cases hk : keep k = true
  · simp [hk, mem_items]
  · simp [hk]

/-- `sort_keys=True`. -/
def sorted (le : κ → κ → Bool) (d : Dict κ ν) : Dict κ ν where
  items := d.items.mergeSort fun a b => le a.1 b.1
  nodup := ((List.mergeSort_perm d.items _).map fst).nodup_iff.mpr d.nodup

@[simp] lemma get?_sorted (le : κ → κ → Bool) (d : Dict κ ν) (k : κ) : (d.sorted le).get? k = d.get? k :=
  get?_of_perm (mergeSort_perm d.items _) k

lemma same_iff_keys {d e : Dict κ ν} : d.Same e ↔ ∀ k ∈ d.keys ++ e.keys, d.get? k = e.get? k := by
  constructor
  · intro h k _
    exact h k
  · intro h k
    by_cases hk : k ∈ d.keys ++ e.keys
    · exact h k hk
    · rw [mem_append, not_or, mem_keys, mem_keys] at hk
      rw [Option.eq_none_iff_forall_ne_some.mpr fun v hv => hk.1 ⟨v, hv⟩,
        Option.eq_none_iff_forall_ne_some.mpr fun v hv => hk.2 ⟨v, hv⟩]

instance [DecidableEq ν] (d e : Dict κ ν) : Decidable (d.Same e) := decidable_of_iff _ same_iff_keys.symm

end Dict

end VKernels.PyDict
