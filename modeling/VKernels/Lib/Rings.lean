import Mathlib.Data.Finset.Card

/-!
# Rings

Cycles through all of the numbers below `n`, and the edges on which a colouring changes.

* `crossings` — the members whose successor has another colour.
* `Lists`, `after`, `before` — the ring of a list of the members: to the next place of the list and back.

## Results

* `IsRing.card_colours_le` — a ring with two colours crosses at least once for every colour.
* `isRing_after`, `before_after` — the ring of a list, and its inverse.
* `crossings_card_of_sorted` — where the list is sorted by colour the ring crosses no more often than that.
-/

namespace VKernels.Rings

open Finset

/-- `next` is one cycle through the numbers below `n`. -/
structure IsRing (n : ℕ) (next : ℕ → ℕ) : Prop where
  lt : ∀ r < n, next r < n
  reach : ∀ r < n, ∀ s < n, ∃ i, next^[i] r = s

section

variable {n : ℕ} {next : ℕ → ℕ}

lemma IsRing.iterate_lt (h : IsRing n next) {r : ℕ} (hr : r < n) (i : ℕ) : next^[i] r < n := by
  induction i with
  | zero => exact hr
  | succ i ih =>
    rw [Function.iterate_succ_apply']
    exact h.lt _ ih

end

/-! ## Crossings -/

section

variable {C : Type} [DecidableEq C] {n : ℕ} {next : ℕ → ℕ} {colour : ℕ → C}

def crossings (n : ℕ) (next : ℕ → ℕ) (colour : ℕ → C) : Finset ℕ :=
  (range n).filter fun r => colour (next r) ≠ colour r

lemma mem_crossings {r : ℕ} : r ∈ crossings n next colour ↔ r < n ∧ colour (next r) ≠ colour r := by
  rw [crossings, mem_filter, mem_range]

lemma IsRing.exists_crossing (h : IsRing n next) {r : ℕ} (hr : r < n) :
    ∀ {i : ℕ}, colour (next^[i] r) ≠ colour r → ∃ s ∈ crossings n next colour, colour s = colour r
  | 0, hne => absurd rfl hne
  | i + 1, hne => by
    by_cases hstay : colour (next^[i] r) = colour r
    · refine ⟨next^[i] r, mem_crossings.mpr ⟨h.iterate_lt hr i, ?_⟩, hstay⟩
      rw [← Function.iterate_succ_apply' next i r, hstay]
      exact hne
    · exact h.exists_crossing hr hstay

lemma IsRing.card_colours_le (h : IsRing n next) {a b : ℕ} (ha : a < n) (hb : b < n) (hab : colour a ≠ colour b) :
    ((range n).image colour).card ≤ (crossings n next colour).card := by
  refine le_trans (card_le_card ?_) (card_image_le (f := colour))
  intro c hc
  obtain ⟨r, hr, rfl⟩ := mem_image.mp hc
  have hr := mem_range.mp hr
  -- one of the two colours is another one
  obtain ⟨s, hs, hne⟩ : ∃ s < n, colour s ≠ colour r := by
    by_cases har : colour a = colour r
    · exact ⟨b, hb, fun hbr => hab (har.trans hbr.symm)⟩
    · exact ⟨a, ha, har⟩
  obtain ⟨i, rfl⟩ := h.reach r hr s hs
  obtain ⟨t, ht, htr⟩ := h.exists_crossing hr hne
  exact mem_image.mpr ⟨t, ht, htr⟩

end

/-! ## The ring of a list -/

/-- The list has every number below `n`, each once. -/
structure Lists (order : List ℕ) (n : ℕ) : Prop where
  nodup : order.Nodup
  mem_iff : ∀ r, r ∈ order ↔ r < n

/-- `order[i % order.size()]`. -/
def place (order : List ℕ) (i : ℕ) : ℕ := order.getD (i % order.length) 0

def after (order : List ℕ) (r : ℕ) : ℕ := place order (order.idxOf r + 1)

def before (order : List ℕ) (r : ℕ) : ℕ := place order (order.idxOf r + order.length - 1)

section

variable {order : List ℕ} {n : ℕ}

lemma Lists.length_eq (h : Lists order n) : order.length = n := by
  have hperm : order.Perm (List.range n) :=
    (List.perm_ext_iff_of_nodup h.nodup List.nodup_range).mpr fun r => (h.mem_iff r).trans List.mem_range.symm
  rw [hperm.length_eq, List.length_range]

lemma place_of_lt {i : ℕ} (hi : i < order.length) : place order i = order[i] := by
  rw [place, Nat.mod_eq_of_lt hi, List.getD_eq_getElem?_getD, List.getElem?_eq_getElem hi, Option.getD_some]

lemma place_mod (i : ℕ) : place order (i % order.length) = place order i := by
  unfold place
  rw [Nat.mod_mod]

lemma place_idxOf {r : ℕ} (hr : r ∈ order) : place order (order.idxOf r) = r := by
  rw [place_of_lt (List.idxOf_lt_length_of_mem hr)]
  exact List.getElem_idxOf _

section

variable (h : Lists order n)
include h

lemma Lists.place_lt (hn : 0 < n) (i : ℕ) : place order i < n := by
  have hlen : i % order.length < order.length := Nat.mod_lt _ (by rw [h.length_eq]; exact hn)
  rw [← place_mod, place_of_lt hlen]
  exact (h.mem_iff _).mp (List.getElem_mem hlen)

lemma Lists.idxOf_place (hn : 0 < n) (i : ℕ) : order.idxOf (place order i) = i % order.length := by
  have hlen : i % order.length < order.length := Nat.mod_lt _ (by rw [h.length_eq]; exact hn)
  rw [← place_mod, place_of_lt]
  exact h.nodup.idxOf_getElem _ hlen

lemma Lists.after_place (hn : 0 < n) (i : ℕ) : after order (place order i) = place order (i + 1) := by
  unfold after
  rw [h.idxOf_place hn, ← place_mod, Nat.mod_add_mod, place_mod]

lemma Lists.iterate_after (hn : 0 < n) (i j : ℕ) : (after order)^[j] (place order i) = place order (i + j) := by
  induction j with
  | zero => rfl
  | succ j ih => rw [Function.iterate_succ_apply', ih, h.after_place hn, Nat.add_assoc]

lemma isRing_after : IsRing n (after order) := by
  refine ⟨fun r hr => h.place_lt (Nat.zero_lt_of_lt hr) _, fun r hr s hs => ?_⟩
  have hn : 0 < n := Nat.zero_lt_of_lt hr
  have hr' := (h.mem_iff r).mpr hr
  have hs' := (h.mem_iff s).mpr hs
  have hlt : order.idxOf r < order.length := List.idxOf_lt_length_of_mem hr'
  refine ⟨order.length - order.idxOf r + order.idxOf s, ?_⟩
  -- on to the end of the list, and from its start to `s`
  have hround : order.idxOf r + (order.length - order.idxOf r + order.idxOf s) = order.length + order.idxOf s := by
    omega
  calc (after order)^[order.length - order.idxOf r + order.idxOf s] r
      = (after order)^[order.length - order.idxOf r + order.idxOf s] (place order (order.idxOf r)) := by
        rw [place_idxOf hr']
    _ = place order (order.length + order.idxOf s) := by rw [h.iterate_after hn, hround]
    _ = place order (order.idxOf s) := by rw [← place_mod, Nat.add_mod_left, place_mod]
    _ = s := place_idxOf hs'

lemma before_after {r : ℕ} (hr : r < n) : before order (after order r) = r := by
  have hn : 0 < n := Nat.zero_lt_of_lt hr
  have hlen := h.length_eq
  unfold before
  rw [after, h.idxOf_place hn, Nat.add_sub_assoc (by omega), ← place_mod, Nat.mod_add_mod, place_mod,
    show order.idxOf r + 1 + (order.length - 1) = order.length + order.idxOf r by omega, ← place_mod,
    Nat.add_mod_left, place_mod]
  exact place_idxOf ((h.mem_iff r).mpr hr)

lemma after_before {r : ℕ} (hr : r < n) : after order (before order r) = r := by
  have hn : 0 < n := Nat.zero_lt_of_lt hr
  have hlen := h.length_eq
  rw [before, h.after_place hn, show order.idxOf r + order.length - 1 + 1 = order.length + order.idxOf r by omega,
    ← place_mod, Nat.add_mod_left, place_mod]
  exact place_idxOf ((h.mem_iff r).mpr hr)

end

variable {C : Type} [LinearOrder C] {colour : ℕ → C}

lemma colour_mono (hsorted : order.Pairwise fun a b => colour a ≤ colour b) {i j : ℕ} (hij : i ≤ j)
    (hj : j < order.length) : colour (place order i) ≤ colour (place order j) := by
  rw [place_of_lt (hij.trans_lt hj), place_of_lt hj]
  rcases hij.lt_or_eq with hlt | rfl
  · exact List.pairwise_iff_getElem.mp hsorted i j _ hj hlt
  · exact le_rfl

/-- A colour is left at its last place only. -/
lemma crossings_injOn (h : Lists order n) (hsorted : order.Pairwise fun a b => colour a ≤ colour b) :
    Set.InjOn colour (crossings n (after order) colour) := by
  have hlast : ∀ r ∈ crossings n (after order) colour, ∀ s ∈ crossings n (after order) colour,
      colour r = colour s → order.idxOf s ≤ order.idxOf r := by
    intro r hr s hs heq
    obtain ⟨hr, hcross⟩ := mem_crossings.mp hr
    obtain ⟨hs, -⟩ := mem_crossings.mp hs
    have hr' := place_idxOf ((h.mem_iff r).mpr hr)
    have hs' := place_idxOf ((h.mem_iff s).mpr hs)
    have hlt : order.idxOf s < order.length := List.idxOf_lt_length_of_mem ((h.mem_iff s).mpr hs)
    by_contra hle
    -- the place after `r` lies between two of one colour
    have hlow := colour_mono hsorted (Nat.le_succ (order.idxOf r)) (show order.idxOf r + 1 < order.length by omega)
    have hhigh := colour_mono hsorted (show order.idxOf r + 1 ≤ order.idxOf s by omega) hlt
    rw [hr'] at hlow
    rw [hs', ← heq] at hhigh
    exact hcross (le_antisymm hhigh hlow)
  intro r hr s hs heq
  have hidx : order.idxOf r = order.idxOf s := le_antisymm (hlast s hs r hr heq.symm) (hlast r hr s hs heq)
  rw [← place_idxOf ((h.mem_iff r).mpr (mem_crossings.mp hr).1), hidx]
  exact place_idxOf ((h.mem_iff s).mpr (mem_crossings.mp hs).1)

lemma crossings_card_of_sorted (h : Lists order n) (hsorted : order.Pairwise fun a b => colour a ≤ colour b)
    {a b : ℕ} (ha : a < n) (hb : b < n) (hab : colour a ≠ colour b) :
    (crossings n (after order) colour).card = ((range n).image colour).card := by
  refine le_antisymm ?_ ((isRing_after h).card_colours_le ha hb hab)
  refine card_le_card_of_injOn colour (fun r hr => ?_) (crossings_injOn h hsorted)
  exact mem_coe.mpr (mem_image_of_mem colour (mem_range.mpr (mem_crossings.mp hr).1))

end

end VKernels.Rings
