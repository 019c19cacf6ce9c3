import VKernels.Lib.Blocks
import Mathlib.Data.Fin.Basic
import Mathlib.Data.List.Basic

/-!
# Ping-pong series

A stream written in series of `R` values into two slots by turns.

* `push` — one value more; a full series makes the other slot the one in use.
* `sinceCompleted`, `lastCompleted` — the stream after its last full series, and that series.

## Results

* `Holds.push` — the slot in use holds the first, the other slot the second.
-/

namespace VKernels

open List

/-- Two slots of `R` cells. -/
@[ext]
structure PingPong (R : ℕ) (α : Type) where
  slot : Fin 2
  len : Fin R
  cell : Fin 2 → Fin R → α

namespace PingPong

variable {R : ℕ} {α : Type}

lemma other_ne : ∀ slot : Fin 2, 1 - slot ≠ slot := by decide

lemma other_other : ∀ slot : Fin 2, 1 - (1 - slot) = slot := by decide

/-- The cells with a value at the place in turn. -/
def put (s : PingPong R α) (x : α) : Fin 2 → Fin R → α :=
  Function.update s.cell s.slot (Function.update (s.cell s.slot) s.len x)

def push (s : PingPong R α) (x : α) : PingPong R α :=
  if h : s.len + 1 < R then ⟨s.slot, ⟨s.len + 1, h⟩, s.put x⟩
  else ⟨1 - s.slot, ⟨0, Nat.zero_lt_of_lt s.len.isLt⟩, s.put x⟩

section

variable (s : PingPong R α) (x : α)

lemma put_here : s.put x s.slot s.len = x := by simp [put]

lemma put_before {j : Fin R} (h : j < s.len) : s.put x s.slot j = s.cell s.slot j := by
  simp [put, Function.update_of_ne (Fin.ne_of_lt h)]

lemma put_other (j : Fin R) : s.put x (1 - s.slot) j = s.cell (1 - s.slot) j := by
  rw [put, Function.update_of_ne (other_ne s.slot)]

end

/-! ## The stream -/

def sinceCompleted (R : ℕ) (xs : List α) : List α := xs.drop (xs.length / R * R)

def lastCompleted (R : ℕ) (xs : List α) : List α := (xs.drop ((xs.length / R - 1) * R)).take R

lemma length_sinceCompleted (R : ℕ) (xs : List α) : (sinceCompleted R xs).length = xs.length % R := by
  have hdiv := Nat.div_add_mod' xs.length R
  rw [sinceCompleted, length_drop]
  omega

lemma getElem?_sinceCompleted (R : ℕ) (xs : List α) (j : ℕ) :
    (sinceCompleted R xs)[j]? = xs[xs.length / R * R + j]? := getElem?_drop

lemma getElem?_lastCompleted {R : ℕ} (xs : List α) {j : ℕ} (h : j < R) :
    (lastCompleted R xs)[j]? = xs[(xs.length / R - 1) * R + j]? := by
  rw [lastCompleted, getElem?_take_of_lt h, getElem?_drop]

/-- The slot in use holds what has come since the last full series, the other slot that series. -/
structure Holds (s : PingPong R α) (xs : List α) : Prop where
  len : (s.len : ℕ) = xs.length % R
  current : ∀ j : Fin R, j < s.len → (sinceCompleted R xs)[(j : ℕ)]? = some (s.cell s.slot j)
  last : R ≤ xs.length → ∀ j : Fin R, (lastCompleted R xs)[(j : ℕ)]? = some (s.cell (1 - s.slot) j)

lemma Holds.nil {s : PingPong R α} (h : (s.len : ℕ) = 0) : Holds s [] where
  len := by rw [h]; rfl
  current j hj := absurd (Fin.lt_def.mp hj) (by omega)
  last hR := absurd (Nat.zero_lt_of_lt s.len.isLt) (Nat.not_lt.mpr hR)

section

variable {s : PingPong R α} {xs : List α} (h : Holds s xs) (x : α)
include h

/-- The place in turn is the next place of the stream. -/
lemma Holds.length_eq : xs.length = xs.length / R * R + s.len := by
  rw [h.len, Nat.mul_comm]
  exact (Nat.div_add_mod xs.length R).symm

/-- With the new value, the cells up to the place in turn hold the stream from the last full series on. -/
lemma Holds.filled {j : Fin R} (hj : j ≤ s.len) : (xs ++ [x])[xs.length / R * R + j]? = some (s.put x s.slot j) := by
  have hlen := h.length_eq
  rcases lt_or_eq_of_le (Fin.le_def.mp hj) with hlt | heq
  · have hold := h.current j hlt
    rw [getElem?_sinceCompleted] at hold
    rw [put_before s x hlt, getElem?_append_left (by omega), hold]
  · rw [Fin.ext heq, put_here, ← hlen, getElem?_concat_length]

lemma Holds.push_full (hfull : ¬ s.len + 1 < R) : Holds (s.push x) (xs ++ [x]) := by
  have hR : 0 < R := Nat.zero_lt_of_lt s.len.isLt
  have hlen := h.length_eq
  have hlength : (xs ++ [x]).length = (xs.length / R + 1) * R := by
    rw [length_append, length_singleton, Nat.add_one_mul]
    omega
  have hdiv : (xs ++ [x]).length / R = xs.length / R + 1 := by rw [hlength, Nat.mul_div_cancel _ hR]
  have hpush : s.push x = ⟨1 - s.slot, ⟨0, hR⟩, s.put x⟩ := by rw [push, dif_neg hfull]
  rw [hpush]
  refine ⟨?_, fun j hj => absurd (Fin.lt_def.mp hj) (Nat.not_lt_zero _), fun _ j => ?_⟩
  · rw [hlength, Nat.mul_mod_left]
  · rw [getElem?_lastCompleted _ j.isLt, hdiv, Nat.add_sub_cancel, h.filled x (Fin.le_def.mpr (by omega)), other_other]

lemma Holds.push_room (hroom : s.len + 1 < R) : Holds (s.push x) (xs ++ [x]) := by
  have hR : 0 < R := Nat.zero_lt_of_lt s.len.isLt
  have hlen := h.length_eq
  have hlength : (xs ++ [x]).length = xs.length / R * R + (s.len + 1) := by
    rw [length_append, length_singleton]
    omega
  have hdiv : (xs ++ [x]).length / R = xs.length / R := by
    rw [hlength, Blocks.block_div _ hroom]
  have hpush : s.push x = ⟨s.slot, ⟨s.len + 1, hroom⟩, s.put x⟩ := by rw [push, dif_pos]
  rw [hpush]
  refine ⟨?_, fun j hj => ?_, fun hfull j => ?_⟩
  · rw [hlength, Blocks.block_mod _ hroom]
  · rw [getElem?_sinceCompleted, hdiv]
    exact h.filled x (Nat.lt_succ_iff.mp hj)
  · have hold : R ≤ xs.length := by
      rw [length_append, length_singleton] at hfull
      by_contra hlt
      have : xs.length / R = 0 := Nat.div_eq_of_lt (by omega)
      rw [this] at hlength
      simp only [length_append, length_singleton] at hlength
      omega
    have hone : 1 ≤ xs.length / R := (Nat.one_le_div_iff hR).mpr hold
    have hback : (xs.length / R - 1) * R + R = xs.length / R * R := by
      rw [← Nat.add_one_mul, Nat.sub_add_cancel hone]
    have hcell := h.last hold j
    rw [getElem?_lastCompleted _ j.isLt] at hcell
    rw [getElem?_lastCompleted _ j.isLt, hdiv, getElem?_append_left (by omega), hcell]
    exact congrArg some (put_other s x j).symm

lemma Holds.push : Holds (s.push x) (xs ++ [x]) := by
  by_cases hroom : s.len + 1 < R
  · exact h.push_room x hroom
  · exact h.push_full x hroom

end

end PingPong

end VKernels
