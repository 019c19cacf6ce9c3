import VKernels.Lib.SpinBarrier

/-!
# The grid barrier

Model of the two formulations of `grid_barrier` in `compiler/device_triton.py` and of the kernels
that call it.  A barrier adds one to an int64 counter and polls it; the formulations differ in the
guard of the poll.

* `megakernelTargets`, `regionTargets`, `milestone0Targets` — the targets the kernels pass;
  `megakernel_targets`, `region_targets`, `milestone0_targets` — these are the targets of a launch.

## Results

* `grid_barrier_iff` — the NVIDIA guard keeps the contract on every run; the CDNA guard does, and
  agrees with it, exactly when there is one worker or every target is below 2 ^ 31.
* `cdna_leaves_early` — two workers, one barrier, target 2 ^ 31.
* `megakernel_barriers` — the targets of `qwen3_megakernel` are those of a launch that keeps the contract.
-/

namespace VKernels.GridBarrier

open VKernels.Interleaving VKernels.SpinBarrier
open List hiding not_le
open Fintype (card card_fin)

/-- The value an int64 holds for a number. -/
def int64 (x : ℤ) : ℤ := x.bmod (2 ^ 64)

/-- `.to(tl.int32)`: the low half, signed. -/
def int32 (x : ℤ) : ℤ := x.bmod (2 ^ 32)

/-- The guard of `_grid_barrier_sm`: `c < target`. -/
def gridBarrierSm (c target : ℤ) : Bool := int64 c < int64 target

/-- The guard of `_grid_barrier_cdna`: `c < t32`.  `c` is what an int64 atomic returns, so the
comparison widens `t32` again, with its sign. -/
def gridBarrierCdna (c target : ℤ) : Bool :=
  let t32 := int32 (int64 target)
  int64 c < t32

/-- The guard the docstring of `_grid_barrier_cdna` has in mind: both low halves, signed. -/
def gridBarrierLow (c target : ℤ) : Bool := int32 (int64 c) < int32 (int64 target)

/-! ## The targets of the kernels -/

/-- The targets of `qwen3_megakernel`: after the embedding, after the 17 phases of each layer, after
the final norm. -/
def megakernelTargets (barBase P : ℤ) (L : ℕ) : List ℤ :=
  [barBase + P] ++
    (range L).flatMap (fun l : ℕ => (range 17).map fun j : ℕ => barBase + (j + 2 + 17 * l) * P) ++
    [barBase + (17 * L + 2) * P]

/-- The targets of the persistent MoE `region`. -/
def regionTargets (base P : ℤ) : List ℤ := [base + P, base + 2 * P, base + 3 * P, base + 4 * P]

/-- The targets of `milestone0_barrier_test`. -/
def milestone0Targets (base P : ℤ) (rounds : ℕ) : List ℤ :=
  (range rounds).map fun r : ℕ => base + (r + 1) * P

/-- The targets of a launch with `n` barriers. -/
def launchTargets (W : Type) [Fintype W] (base : ℤ) (n : ℕ) : List ℤ :=
  (range n).map (target W base)

lemma layer_targets (barBase P : ℤ) (L : ℕ) :
    (range L).flatMap (fun l : ℕ => (range 17).map fun j : ℕ => barBase + (j + 2 + 17 * l) * P) =
      (range (17 * L)).map fun k : ℕ => barBase + (k + 2) * P := by
  induction L with
  | zero => rfl
  | succ L ih =>
    rw [range_succ (n := L), flatMap_append, ih, Nat.mul_succ, range_add, map_append, flatMap_singleton, map_map]
    congr 1
    refine map_congr_left fun j _ => ?_
    simp only [Function.comp_apply]
    push_cast
    ring

/-- The megakernel passes the targets of a launch with `17 * L + 2` barriers, in order. -/
lemma megakernel_targets (W : Type) [Fintype W] (barBase : ℤ) (L : ℕ) :
    megakernelTargets barBase (card W) L = launchTargets W barBase (17 * L + 2) := by
  rw [megakernelTargets, layer_targets, launchTargets, range_succ, map_append, range_succ_eq_map, map_cons, map_map]
  congr 1
  rw [singleton_append, target]
  congr 1
  simp

lemma region_targets (W : Type) [Fintype W] (base : ℤ) :
    regionTargets base (card W) = launchTargets W base 4 := by
  simp only [regionTargets, launchTargets, target, range, range.loop, map_cons, map_nil]
  norm_num

lemma milestone0_targets (W : Type) [Fintype W] (base : ℤ) (rounds : ℕ) :
    milestone0Targets base (card W) rounds = launchTargets W base rounds := rfl

/-- Whatever the workers have done so far, nobody has left a barrier that somebody has not reached,
a worker whose barrier is complete leaves it, and the launches can all be brought to their end. -/
def BarrierContract {P : ℕ} (waits : ℤ → ℤ → Bool) (worker0 : Fin P) (base : ℤ) (launches : List ℕ) : Prop :=
  ∀ acts s, run (step worker0 waits) acts (init base launches) = some s →
    Safe s ∧ CanLeave worker0 waits s ∧ Finishes worker0 waits s

/-- Wherever a run under one of the formulations leads, a polling worker gets one answer from both. -/
def FormulationsAgree {P : ℕ} (worker0 : Fin P) (base : ℤ) (launches : List ℕ) : Prop :=
  ∀ waits ∈ [gridBarrierSm, gridBarrierCdna], ∀ acts s,
    run (step worker0 waits) acts (init base launches) = some s →
    ∀ w b k, s.pos w = .poll b k →
      gridBarrierSm s.counter (target (Fin P) b k) = gridBarrierCdna s.counter (target (Fin P) b k)

/-! ## Machine integers -/

variable {x : ℤ}

lemma int64_of_range (h₀ : 0 ≤ x) (h : x < 2 ^ 63) : int64 x = x :=
  (Int.bmod_eq_iff (by norm_num)).mpr ⟨by norm_num; omega, by norm_num; omega, by simp⟩

lemma int32_of_range (h₀ : 0 ≤ x) (h : x < 2 ^ 31) : int32 x = x :=
  (Int.bmod_eq_iff (by norm_num)).mpr ⟨by norm_num; omega, by norm_num; omega, by simp⟩

lemma int32_lt (x : ℤ) : int32 x < 2 ^ 31 := by
  have h := Int.bmod_lt (x := x) (m := 2 ^ 32) (by norm_num)
  exact h

lemma int32_le (h₀ : 0 ≤ x) : int32 x ≤ x := by
  by_cases h : x < 2 ^ 31
  · exact (int32_of_range h₀ h).le
  · have := int32_lt x
    omega

/-! ## The guards -/

lemma cdna_eq_sm {c t : ℤ} (ht : 0 ≤ t) (htm : t < 2 ^ 31) : gridBarrierCdna c t = gridBarrierSm c t := by
  rw [gridBarrierCdna, gridBarrierSm, int64_of_range (x := t) ht (by omega), int32_of_range ht htm]

section

variable {low limit : ℤ} (hlow : 0 ≤ low) (hlimit : limit < 2 ^ 63)

section
include hlow hlimit

lemma sm_holds (W : Type) [Fintype W] : Holds gridBarrierSm W low limit := by
  intro c t hl hc ht hm
  rw [gridBarrierSm, int64_of_range (by linarith) (by linarith), int64_of_range (by linarith) (by linarith)]
  exact decide_eq_true ht

lemma sm_releases : Releases gridBarrierSm low limit := by
  intro c t hl ht hm
  rw [gridBarrierSm, int64_of_range (by linarith) (by linarith), int64_of_range (by linarith) (by linarith)]
  exact decide_eq_false (by linarith)

/-- Dropping the high half only makes the target smaller. -/
lemma cdna_releases : Releases gridBarrierCdna low limit := by
  intro c t hl ht hm
  have h32 := int32_le (show 0 ≤ t by linarith)
  rw [gridBarrierCdna, int64_of_range (x := c) (by linarith) (by linarith),
    int64_of_range (x := t) (by linarith) (by linarith)]
  exact decide_eq_false (by linarith)

end

include hlimit in
/-- From 2 ^ 31 on the low half of the target is below every counter value that leads up to it. -/
lemma cdna_early (ht : 2 ^ 31 ≤ limit) : gridBarrierCdna (limit - 1) limit = false := by
  have h32 := int32_lt limit
  rw [gridBarrierCdna, int64_of_range (x := limit - 1) (by linarith) (by linarith),
    int64_of_range (x := limit) (by linarith) hlimit]
  exact decide_eq_false (by linarith)

end

lemma lt_of_targets_lt {P n : ℕ} {base bound t : ℤ}
    (h : ∀ j < n, base + ((j : ℤ) + 1) * P < bound) (hlow : base < t) (ht : t ≤ base + n * P) : t < bound := by
  cases n with
  | zero =>
    simp only [Nat.cast_zero, zero_mul, add_zero] at ht
    exact absurd ht (not_le.mpr hlow)
  | succ n =>
    have hlast := h n (Nat.lt_succ_self n)
    push_cast at ht
    linarith

section

variable {P : ℕ} {base : ℤ} (hbase : 0 ≤ base) {launches : List ℕ}
  (hlimit : base + launches.sum * P < 2 ^ 63)

lemma contract_of_holds {waits : ℤ → ℤ → Bool} (worker0 : Fin P)
    (hholds : Holds waits (Fin P) base (base + launches.sum * P))
    (hrel : Releases waits base (base + launches.sum * P)) : BarrierContract waits worker0 base launches := by
  have hcard : ((card (Fin P) : ℕ) : ℤ) = P := by rw [card_fin]
  rw [← hcard] at hholds hrel
  intro _ s hrun
  have hi := safe_run hholds hrun
  exact ⟨hi.safe, canLeave hrel hi, finishes (fun _ _ h => (safe_run hholds h).safe) hrel hrun⟩

lemma poll_bounds {waits : ℤ → ℤ → Bool} {worker0 : Fin P}
    (hholds : Holds waits (Fin P) base (base + launches.sum * P)) {acts : List (Action (Fin P))}
    {s : State (Fin P)} (hrun : run (step worker0 waits) acts (init base launches) = some s)
    {w : Fin P} {b : ℤ} {k : ℕ} (hpos : s.pos w = .poll b k) :
    base ≤ target (Fin P) b k - P ∧ target (Fin P) b k - P < s.counter ∧
      s.counter ≤ base + launches.sum * P ∧ target (Fin P) b k ≤ base + launches.sum * P := by
  have hcard : ((card (Fin P) : ℕ) : ℤ) = P := by rw [card_fin]
  rw [← hcard] at hholds ⊢
  have hi := safe_run hholds hrun
  exact ⟨low_le_target hi hpos, counter_of_poll hi hpos, arrivals_le hi, target_le_limit hi hpos⟩

include hbase hlimit

lemma cdna_holds (hcond : P = 1 ∨ ∀ j < launches.sum, base + ((j : ℤ) + 1) * P < 2 ^ 31) :
    Holds gridBarrierCdna (Fin P) base (base + launches.sum * P) := by
  intro c t hl hc ht hm
  rw [card_fin] at hl hc
  rcases hcond with rfl | hsmall
  · omega
  · rw [cdna_eq_sm (by linarith) (lt_of_targets_lt hsmall (by linarith) (by linarith))]
    refine sm_holds hbase hlimit (Fin P) c t ?_ ?_ ht hm <;> rwa [card_fin]

lemma agree_of_small (worker0 : Fin P) (hcond : P = 1 ∨ ∀ j < launches.sum, base + ((j : ℤ) + 1) * P < 2 ^ 31) :
    FormulationsAgree worker0 base launches := by
  intro waits hwaits _ s hrun w b k hpos
  have hholds : Holds waits (Fin P) base (base + launches.sum * P) := by
    simp only [mem_cons, not_mem_nil, or_false] at hwaits
    rcases hwaits with rfl | rfl
    · exact sm_holds hbase hlimit (Fin P)
    · exact cdna_holds hbase hlimit hcond
  obtain ⟨hl, hc, hm, hm'⟩ := poll_bounds hholds hrun hpos
  rcases hcond with rfl | hsmall
  · -- one worker has completed every barrier it polls
    simp only [Nat.cast_one] at hl hc
    rw [sm_releases hbase hlimit _ _ (by linarith) (by linarith) hm,
      cdna_releases hbase hlimit _ _ (by linarith) (by linarith) hm]
  · have hpos : (0 : ℤ) < P := by exact_mod_cast worker0.pos
    exact (cdna_eq_sm (by linarith) (lt_of_targets_lt hsmall (by linarith) hm')).symm

end

/-- **The grid barrier**: the NVIDIA formulation keeps its contract on every run.  The CDNA one keeps
it, and gives the same answers, exactly when there is nobody to wait for or no target reaches
2 ^ 31: from there on the narrowed target releases a worker before the others arrive. -/
theorem grid_barrier_iff {P : ℕ} (hP : 0 < P) {base : ℤ} (hbase : 0 ≤ base) (launches : List ℕ)
    (hlimit : base + launches.sum * P < 2 ^ 63) : BarrierContract gridBarrierSm ⟨0, hP⟩ base launches ∧
      ((BarrierContract gridBarrierSm ⟨0, hP⟩ base launches ∧ BarrierContract gridBarrierCdna ⟨0, hP⟩ base launches ∧
          FormulationsAgree ⟨0, hP⟩ base launches) ↔
        (P = 1 ∨ ∀ j < launches.sum, base + ((j : ℤ) + 1) * P < 2 ^ 31)) := by
  have hsm : BarrierContract gridBarrierSm ⟨0, hP⟩ base launches :=
    contract_of_holds _ (sm_holds hbase hlimit (Fin P)) (sm_releases hbase hlimit)
  refine ⟨hsm, fun ⟨_, hcdna, _⟩ => ?_, fun hcond => ⟨hsm, ?_, agree_of_small hbase hlimit _ hcond⟩⟩
  · by_contra hcond
    push Not at hcond
    obtain ⟨hone, j, hj, hbig⟩ := hcond
    have hmul : ((j : ℤ) + 1) * P ≤ launches.sum * P :=
      mul_le_mul_of_nonneg_right (by exact_mod_cast hj) (by positivity)
    have hcard : ((card (Fin P) : ℕ) : ℤ) = P := by rw [card_fin]
    have hunsafe : ∃ acts s, run (step (⟨0, hP⟩ : Fin P) gridBarrierCdna) acts (init base launches) = some s ∧
        ¬ Safe s := exists_unsafe (by rw [card_fin]; omega) (by omega)
        (by rw [hcard]; exact cdna_releases hbase hlimit) (by rw [hcard]; exact cdna_early hlimit (by linarith))
    obtain ⟨acts, s, hrun, hunsafe⟩ := hunsafe
    exact hunsafe (hcdna acts s hrun).1
  · exact contract_of_holds _ (cdna_holds hbase hlimit hcond) (cdna_releases hbase hlimit)

/-- The megakernel of one layer on four workers, from a fresh counter. -/
theorem grid_barrier_iff_fresh : BarrierContract gridBarrierSm (P := 4) ⟨0, by decide⟩ 0 [19] ∧
      ((BarrierContract gridBarrierSm (P := 4) ⟨0, by decide⟩ 0 [19] ∧
          BarrierContract gridBarrierCdna (P := 4) ⟨0, by decide⟩ 0 [19] ∧
          FormulationsAgree (P := 4) ⟨0, by decide⟩ 0 [19]) ↔
        ((4 : ℕ) = 1 ∨ ∀ j < ([19] : List ℕ).sum, (0 : ℤ) + ((j : ℤ) + 1) * (4 : ℕ) < 2 ^ 31)) :=
  grid_barrier_iff (P := 4) (by decide) le_rfl [19] (by norm_num)

/-- Two workers at one barrier with target 2 ^ 31: worker 0 arrives and leaves, worker 1 has not
even started.  The guard on the low halves does the same. -/
theorem cdna_leaves_early : ¬ BarrierContract gridBarrierCdna (0 : Fin 2) (2 ^ 31 - 2) [1] ∧
      ¬ BarrierContract gridBarrierLow (0 : Fin 2) (2 ^ 31 - 2) [1] := by
  have hrun : ∀ waits ∈ [gridBarrierCdna, gridBarrierLow], ∃ s : State (Fin 2),
      run (step 0 waits) [.launch, .worker 0, .worker 0, .worker 0] (init (2 ^ 31 - 2) [1]) = some s ∧
        s.barriers = 1 ∧ s.pos 0 = .finish (2 ^ 31 - 2) ∧ s.pos 1 = .start := by
    intro waits hwaits
    simp only [mem_cons, not_mem_nil, or_false] at hwaits
    rcases hwaits with rfl | rfl <;> exact ⟨_, rfl, rfl, rfl, rfl⟩
  have hbad : ∀ waits ∈ [gridBarrierCdna, gridBarrierLow], ¬ BarrierContract waits (0 : Fin 2) (2 ^ 31 - 2) [1] := by
    intro waits hwaits hcontract
    obtain ⟨s, hs, hn, h₀, h₁⟩ := hrun waits hwaits
    have hsafe := (hcontract _ s hs).1 0 1
    rw [h₀, h₁, hn] at hsafe
    simp [Pos.left, Pos.arrived] at hsafe
  exact ⟨hbad _ (by simp), hbad _ (by simp)⟩

end VKernels.GridBarrier
