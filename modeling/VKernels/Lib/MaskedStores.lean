import VKernels.Lib.Blocks
import VKernels.Lib.LocalActions

/-!
# Masked stores

The stores of a launch, as a list of locations and values.

* `storeIf` — one masked store.
* `flatMap_once` — of the parts of a loop, one concerns a location.
* `assign_agree` — a location holds the value that every store to it has.
* `assign_once` — a location that is stored to once holds the value, whatever the order of the stores.
-/

namespace VKernels.MaskedStores

open LocalActions (assign assign_frame)
open List

variable {I L V : Type}

def storeIf (mask : Prop) [Decidable mask] (loc : L) (v : V) : List (L × V) := if mask then [(loc, v)] else []

lemma flatMap_once {α : Type} {l : List I} {i : I} {f : I → List α} (hl : l.Nodup) (hi : i ∈ l)
    (hother : ∀ j ∈ l, j ≠ i → f j = []) : l.flatMap f = f i := by
  induction l with
  | nil => cases hi
  | cons j l ih =>
    obtain ⟨hj, hl⟩ := nodup_cons.mp hl
    rw [flatMap_cons]
    by_cases h : j = i
    · subst h
      have hrest : l.flatMap f = [] := by
        rw [flatMap_eq_nil_iff]
        intro k hk
        exact hother k (mem_cons_of_mem j hk) fun h => hj (h ▸ hk)
      rw [hrest, append_nil]
    · have hil : i ∈ l := (mem_cons.mp hi).resolve_left fun hij => h hij.symm
      rw [hother j mem_cons_self h, nil_append]
      exact ih hl hil fun k hk => hother k (mem_cons_of_mem j hk)

section

variable [DecidableEq L]

def storesTo (stores : List (L × V)) (loc : L) : List (L × V) := stores.filter fun st => decide (st.1 = loc)

lemma storesTo_flatMap (l : List I) (f : I → List (L × V)) (loc : L) :
    storesTo (l.flatMap f) loc = l.flatMap fun i => storesTo (f i) loc := filter_flatMap

lemma storesTo_storeIf (mask : Prop) [Decidable mask] (loc loc' : L) (v : V) :
    storesTo (storeIf mask loc v) loc' = if mask ∧ loc = loc' then [(loc, v)] else [] := by
  unfold storesTo storeIf
  by_cases hmask : mask
  · by_cases hloc : loc = loc'
    · rw [if_pos hmask, if_pos ⟨hmask, hloc⟩, filter_cons_of_pos (by simpa using hloc), filter_nil]
    · rw [if_pos hmask, if_neg fun h => hloc h.2, filter_cons_of_neg (by simpa using hloc), filter_nil]
  · rw [if_neg hmask, if_neg fun h => hmask h.1, filter_nil]

variable {stores' : List (L × V)} {loc : L} {v : V}

lemma assign_once {stores : List (L × V)} (hperm : stores'.Perm stores)
    (h : storesTo stores loc = [(loc, v)]) (m : L → V) : assign stores' m loc = v := by
  have h' : storesTo stores' loc = [(loc, v)] := by
    apply perm_singleton.mp
    rw [← h]
    exact hperm.filter _
  clear h hperm
  induction stores' generalizing m with
  | nil => cases h'
  | cons st rest ih =>
    simp only [assign]
    by_cases hst : st.1 = loc
    · -- the one store: no other follows
      rw [storesTo, filter_cons_of_pos (by simpa using hst)] at h'
      obtain ⟨rfl, hrest⟩ := cons_eq_cons.mp h'
      have hnone : loc ∉ rest.map Prod.fst := by
        intro hmem
        obtain ⟨st', hst', heq⟩ := mem_map.mp hmem
        have hin : st' ∈ rest.filter fun st => decide (st.1 = loc) := mem_filter.mpr ⟨hst', by simpa using heq⟩
        rw [hrest] at hin
        cases hin
      rw [assign_frame hnone, Function.update_self]
    · rw [storesTo, filter_cons_of_neg (by simpa using hst)] at h'
      exact ih _ h'

lemma assign_never {stores : List (L × V)} (hperm : stores'.Perm stores)
    (h : storesTo stores loc = []) (m : L → V) : assign stores' m loc = m loc := by
  apply assign_frame
  intro hmem
  obtain ⟨st, hst, hloc⟩ := mem_map.mp hmem
  have hin : st ∈ storesTo stores loc := mem_filter.mpr ⟨hperm.mem_iff.mp hst, by simpa using hloc⟩
  rw [h] at hin
  cases hin

lemma assign_agree {stores : List (L × V)} (hmem : (loc, v) ∈ stores)
    (hall : ∀ v', (loc, v') ∈ stores → v' = v) (m : L → V) : assign stores m loc = v := by
  induction stores generalizing m with
  | nil => cases hmem
  | cons st rest ih =>
    by_cases hrest : ∃ v', (loc, v') ∈ rest
    · obtain ⟨v', hv'⟩ := hrest
      have heq := hall v' (mem_cons_of_mem st hv')
      subst heq
      exact ih hv' (fun w hw => hall w (mem_cons_of_mem st hw)) _
    · -- the last store to the location
      have hst : (loc, v) = st := (mem_cons.mp hmem).resolve_right fun h => hrest ⟨v, h⟩
      have hframe : loc ∉ rest.map Prod.fst := by
        intro h
        obtain ⟨⟨_, v'⟩, hv', rfl⟩ := mem_map.mp h
        exact hrest ⟨v', hv'⟩
      subst hst
      show assign rest (Function.update m loc v) loc = v
      rw [assign_frame hframe, Function.update_self]

/-- **Rows of stores**: place `j` of row `r` is stored to with one value. -/
theorem assign_grid {stores : List (L × V)} {n w : ℕ} (place : ℕ → L) (f : ℕ → ℕ → V)
    (hstores : ∀ i v, (place i, v) ∈ stores ↔ ∃ r < n, ∃ j < w, i = r * w + j ∧ v = f r j) {r j : ℕ} (hr : r < n)
    (hj : j < w) (m : L → V) : assign stores m (place (r * w + j)) = f r j := by
  refine assign_agree ((hstores _ _).mpr ⟨r, hr, j, hj, rfl, rfl⟩) (fun v hv => ?_) m
  obtain ⟨r', -, j', hj', heq, rfl⟩ := (hstores _ _).mp hv
  obtain ⟨rfl, rfl⟩ := Blocks.place_inj hj hj' heq
  rfl

lemma assign_nodup {stores : List (L × V)} (hperm : stores'.Perm stores) (hnodup : (stores.map Prod.fst).Nodup)
    (hmem : (loc, v) ∈ stores) (m : L → V) : assign stores' m loc = v := by
  have hnodup' : (stores'.map Prod.fst).Nodup := ((hperm.map Prod.fst).nodup_iff).mpr hnodup
  have hmem' : (loc, v) ∈ stores' := hperm.mem_iff.mpr hmem
  clear hperm hnodup hmem
  induction stores' generalizing m with
  | nil => cases hmem'
  | cons st stores' ih =>
    obtain ⟨hfirst, hnodup'⟩ := nodup_cons.mp hnodup'
    show assign stores' (Function.update m st.1 st.2) loc = v
    rcases mem_cons.mp hmem' with rfl | hrest
    · rw [assign_frame hfirst, Function.update_self]
    · exact ih _ hnodup' hrest

lemma assign_values (l : List L) (f : L → V) (m : L → V) (loc : L) :
    assign (l.map fun i => (i, f i)) m loc = if loc ∈ l then f loc else m loc := by
  induction l generalizing m with
  | nil => simp [assign]
  | cons i l ih =>
    show assign (l.map fun i => (i, f i)) (Function.update m i (f i)) loc = _
    rw [ih]
    by_cases hrest : loc ∈ l
    · simp [hrest]
    · by_cases heq : loc = i
      · subst heq
        simp
      · simp [hrest, heq]

end

end VKernels.MaskedStores
