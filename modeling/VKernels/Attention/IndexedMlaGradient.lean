import VKernels.Attention.IndexedMlaForward
import VKernels.Lib.SoftmaxGradient

/-!
# Gathered-key attention: the gradients

* `probAt`, `dsAt` — the softmax weights and the gradients of the scores; `hasDerivAt_loss`: the loss along a parameter.
* `laneDq_eq`, … — what a program of the backward kernel computes.
* `added_splits` — the additions of all programs to all splits.
-/

namespace VKernels.IndexedMla

open Finset SplitSoftmax WorkerTasks AtomicAdds SoftmaxGradient
open Grouping (blocksFor le_blocksFor)
open LaneLaunch (rows_apart)
open Wavefront (sum_bounded)
open Blocks (range_blocks flatMap_blocks)
open Real (exp log)
open List.Perm (refl)
open Function (update)

/-! ## The loss along a parameter -/

section

variable (s : Shape) (x : Data ℝ) (dO : ℕ → ℝ) (i : ℕ × ℕ × ℕ)

/-- The softmax weight of a valid column. -/
noncomputable def probAt (j : ℕ) : ℝ := weight (columns s x i) (score s x i) j

noncomputable def dsAt (j : ℕ) : ℝ :=
  probAt s x i j * ((∑ r ∈ range s.R, dO (s.qOff i r) * latent s x i j r) -
    ∑ r ∈ range s.R, dO (s.qOff i r) * attention exp (score s x i) (latent s x i) (columns s x i) r)

lemma exponential_exp : Exponential exp := ⟨Real.exp_add, Real.exp_pos⟩

variable {s x dO}

lemma columns_congr {y : Data ℝ} (h : y.indices = x.indices) : columns s y i = columns s x i := by
  refine filter_congr fun j _ => ?_
  simp [ValidIndex, index, h]

lemma hasDerivAt_loss {X : ℝ → Data ℝ} {t₀ : ℝ} (hX : X t₀ = x) (hindices : ∀ t, (X t).indices = x.indices)
    {score' : ℕ × ℕ × ℕ → ℕ → ℝ} {latent' : ℕ × ℕ × ℕ → ℕ → ℕ → ℝ}
    (hscore : ∀ i ∈ s.queries, ∀ j ∈ columns s x i, HasDerivAt (fun t => score s (X t) i j) (score' i j) t₀)
    (hlatent : ∀ i ∈ s.queries, ∀ j ∈ columns s x i, ∀ r ∈ range s.R,
      HasDerivAt (fun t => latent s (X t) i j r) (latent' i j r) t₀) : HasDerivAt (fun t => loss exp s (X t) dO)
      (∑ i ∈ s.queries, ∑ j ∈ columns s x i,
        (dsAt s x dO i j * score' i j + probAt s x i j * ∑ r ∈ range s.R, dO (s.qOff i r) * latent' i j r)) t₀ := by
  subst hX
  have hloss (t : ℝ) : loss exp s (X t) dO = ∑ i ∈ s.queries, ∑ r ∈ range s.R, dO (s.qOff i r) *
      attention exp (score s (X t) i) (latent s (X t) i) (columns s (X t₀) i) r := by
    refine sum_congr rfl fun i _ => sum_congr rfl fun r _ => ?_
    rw [reference_eq_attention exponential_exp, columns_congr i (hindices t)]
  simp only [hloss]
  exact HasDerivAt.fun_sum fun i hi => hasDerivAt_contracted _ (hscore i hi) (hlatent i hi)

/-- A parameter that the latent does not read moves the scores alone. -/
lemma hasDerivAt_loss_scores {X : ℝ → Data ℝ} {t₀ : ℝ} (hX : X t₀ = x) (hindices : ∀ t, (X t).indices = x.indices)
    (hlatent : ∀ t, latent s (X t) = latent s x) {score' : ℕ × ℕ × ℕ → ℕ → ℝ}
    (hscore : ∀ i j, HasDerivAt (fun t => score s (X t) i j) (score' i j) t₀) :
    HasDerivAt (fun t => loss exp s (X t) dO)
      (∑ i ∈ s.queries, ∑ j ∈ columns s x i, dsAt s x dO i j * score' i j) t₀ := by
  have hconst (i : ℕ × ℕ × ℕ) (j r : ℕ) : HasDerivAt (fun t => latent s (X t) i j r) 0 t₀ := by
    simp only [hlatent]
    exact hasDerivAt_const _ _
  refine (hasDerivAt_loss hX hindices (fun i _ j _ => hscore i j) fun i _ j _ r _ => hconst i j r).congr_deriv ?_
  simp

end

/-! ## What the programs compute -/

section

variable {s : Shape} {x : Data ℝ} (hfits : x.Fits) {w : Lanes s}

section

variable {dO : ℕ → ℝ} {fresh f : Forward ℝ} (hf : Forward.Returned exp log s x w fresh f) {b q h : ℕ}
include hfits

omit hfits in
lemma sum_blocks_columns {F G : ℕ → ℝ} (hin : ∀ j ∈ columns s x (b, q, h), F j = G j)
    (hout : ∀ j, j ∉ columns s x (b, q, h) → F j = 0) :
    ∑ t ∈ range (blocksFor w.BN s.K), ∑ n ∈ range w.BN, F (t * w.BN + n) = ∑ j ∈ columns s x (b, q, h), G j := by
  rw [TileLoops.sum_blocks, ← sum_congr rfl hin]
  refine (sum_subset (fun j hj => ?_) fun j _ hj => hout j hj).symm
  exact mem_range.mpr ((mem_columns.mp hj).1.trans_le (le_blocksFor w.BN_pos s.K))

include hf

lemma laneProb_eq (hi : (b, q, h) ∈ s.queries) {col : ℕ} (hcol : col ∈ columns s x (b, q, h)) :
    laneProb exp s x w f.lse b q h col = probAt s x (b, q, h) col := by
  have hh : h < s.H := by
    simp only [Shape.queries, mem_product, mem_range] at hi
    exact hi.2.2
  obtain ⟨l, hl, hexp⟩ := laneLse_eq (w := w) exponential_exp hfits (fun y hy => Real.exp_log hy) hh ⟨col, hcol⟩
  have hload : loadLse s f.lse b q h = some l := by
    rw [loadLse, if_pos hh, hf.lse_at hi, hl]
  rw [laneProb, if_pos ⟨(laneValid_iff hfits).mpr hcol, hh⟩, hload, laneScaled_eq hfits hh hcol]
  show exp (_ - l) = _
  rw [Real.exp_sub, hexp]
  rfl

omit hf in
lemma laneProb_out {lse : ℕ → Option ℝ} {col : ℕ} (h' : ℕ) (hcol : col ∉ columns s x (b, q, h)) :
    laneProb exp s x w lse b q h' col = 0 :=
  if_neg fun hin => hcol ((laneValid_iff hfits).mp hin.1)

lemma laneDs_eq (hi : (b, q, h) ∈ s.queries) {col : ℕ} (hcol : col ∈ columns s x (b, q, h)) :
    laneDs exp s x w dO f.out32 f.lse b q h col = dsAt s x dO (b, q, h) col := by
  have hh : h < s.H := by
    simp only [Shape.queries, mem_product, mem_range] at hi
    exact hi.2.2
  have hdelta : laneDelta s w dO f.out32 b q h = ∑ r ∈ range s.R, dO (s.qOff (b, q, h) r) *
      attention exp (score s x (b, q, h)) (latent s x (b, q, h)) (columns s x (b, q, h)) r := by
    refine sum_padded w.R_le (fun r hr => ?_) fun r hr => ?_
    · rw [laneRow_eq hh hr, laneRow_eq hh hr, (hf.out_at exponential_exp hfits hi hr).2,
        reference_eq_attention exponential_exp, mul_comm]
    · rw [laneRow_out hr, zero_mul]
  rw [laneDs, laneProb_eq hfits hf hi hcol, laneRow_dot hfits hh hcol, hdelta, dsAt]

omit hf in
lemma laneDs_out {out : ℕ → ℝ} {lse : ℕ → Option ℝ} {col : ℕ} (h' : ℕ) (hcol : col ∉ columns s x (b, q, h)) :
    laneDs exp s x w dO out lse b q h' col = 0 := by
  rw [laneDs, laneProb_out hfits h' hcol, zero_mul]

omit hfits hf in
lemma laneProb_head {lse : ℕ → Option ℝ} {col : ℕ} (hh : s.H ≤ h) : laneProb exp s x w lse b q h col = 0 :=
  if_neg fun hin => by omega

lemma laneDq_eq (hi : (b, q, h) ∈ s.queries) {r : ℕ} (hr : r < s.R) : laneDq exp s x w dO f.out32 f.lse b q h r =
      ∑ j ∈ columns s x (b, q, h), dsAt s x dO (b, q, h) j * latent s x (b, q, h) j r * x.scale := by
  rw [laneDq, ← sum_mul, ← sum_mul]
  congr 1
  refine sum_blocks_columns (F := fun col => laneDs exp s x w dO f.out32 f.lse b q h col * laneKv s x b q col r)
    (fun j hj => ?_) fun j hj => ?_
  · rw [laneDs_eq hfits hf hi hj, laneKv_eq hfits hj hr]
  · rw [laneDs_out hfits h hj, zero_mul]

lemma laneDqr_eq (hi : (b, q, h) ∈ s.queries) {p : ℕ} (hp : p < s.P) :
    laneDqr exp s x w dO f.out32 f.lse b q h p = ∑ j ∈ columns s x (b, q, h),
        dsAt s x dO (b, q, h) j * x.kr (s.krOff b (safe s x (b, q, h) j) p) * x.scale := by
  rw [laneDqr, ← sum_mul, ← sum_mul]
  congr 1
  refine sum_blocks_columns (F := fun col => laneDs exp s x w dO f.out32 f.lse b q h col * laneKr s x b q col p)
    (fun j hj => ?_) fun j hj => ?_
  · rw [laneDs_eq hfits hf hi hj, laneKr_eq hfits hj hp]
  · rw [laneDs_out hfits h hj, zero_mul]

lemma sum_ds_heads (hb : b < s.B) (hq : q < s.S) {col : ℕ} (hcol : col ∈ columns s x (b, q, 0)) (g : ℕ → ℝ) :
    ∑ h ∈ range w.BH, laneDs exp s x w dO f.out32 f.lse b q h col * g h =
      ∑ h ∈ range s.H, dsAt s x dO (b, q, h) col * g h := by
  refine sum_padded w.H_le (fun h hh => ?_) fun h hh => ?_
  · have hi : (b, q, h) ∈ s.queries := by simp [Shape.queries, hb, hq, hh]
    rw [laneDs_eq hfits hf hi hcol]
  · rw [laneDs, laneProb_head hh, zero_mul, zero_mul]

lemma sum_prob_heads (hb : b < s.B) (hq : q < s.S) {col : ℕ} (hcol : col ∈ columns s x (b, q, 0)) (g : ℕ → ℝ) :
    ∑ h ∈ range w.BH, laneProb exp s x w f.lse b q h col * g h =
      ∑ h ∈ range s.H, probAt s x (b, q, h) col * g h := by
  refine sum_padded w.H_le (fun h hh => ?_) fun h hh => ?_
  · have hi : (b, q, h) ∈ s.queries := by simp [Shape.queries, hb, hq, hh]
    rw [laneProb_eq hfits hf hi hcol]
  · rw [laneProb_head hh, zero_mul]

end

/-! ## Split accumulators -/

section

/-- An element of the keys' latent, by batch and position. -/
lemma keyOff_lt {b t r width : ℕ} (hb : b < s.B) (ht : t < s.S) (hr : r < width) :
    (b * s.S + t) * width + r < s.B * s.S * width :=
  Blocks.block_lt (Blocks.block_lt hb ht) hr

lemma sum_splits {splits q off o size : ℕ} (hsplits : 0 < splits) (hoff : off < size) (ho : o < size) (v : ℝ) :
    (∑ k ∈ range splits, if q % splits * size + off = k * size + o then v else 0) = if off = o then v else 0 := by
  have hiff (k : ℕ) : q % splits * size + off = k * size + o ↔ k = q % splits ∧ off = o := by
    constructor
    · intro h
      have hk := rows_apart hoff ho h
      rw [hk] at h
      exact ⟨hk.symm, add_left_cancel h⟩
    · rintro ⟨rfl, rfl⟩
      rfl
  simp only [hiff]
  by_cases heq : off = o
  · simp [heq, Nat.mod_lt q hsplits]
  · simp [heq]

include hfits

lemma added_splits {width lanes splits o : ℕ} (hwidth : width ≤ lanes) (hsplits : 0 < splits)
    (ho : o < s.B * s.S * width) (val : ℕ → ℕ → ℕ → ℕ → ℝ) :
    ∑ k ∈ range splits, added (programs s fun b q => (List.range (blocksFor w.BN s.K)).flatMap fun t =>
        (List.range w.BN).flatMap fun n => (List.range lanes).flatMap fun r =>
          addIf (LaneValid s x b q (t * w.BN + n) ∧ r < width)
            (gradBase s q splits * width + ((b * s.S + (laneKey s x b q (t * w.BN + n)).toNat) * width + r))
            (val b q (t * w.BN + n) r)) (k * (s.B * s.S * width) + o) =
      ∑ b ∈ range s.B, ∑ q ∈ range s.S, ∑ j ∈ columns s x (b, q, 0), ∑ r ∈ range width,
        if (b * s.S + safe s x (b, q, 0) j) * width + r = o then val b q j r else 0 := by
  simp only [programs, added_range, added_addIf]
  rw [sum_comm]
  refine sum_congr rfl fun b hb => ?_
  rw [sum_comm]
  refine sum_congr rfl fun q _ => ?_
  have hprogram (k : ℕ) : ∑ t ∈ range (blocksFor w.BN s.K), ∑ n ∈ range w.BN, ∑ r ∈ range lanes,
      (if LaneValid s x b q (t * w.BN + n) ∧ r < width then
        if gradBase s q splits * width + ((b * s.S + (laneKey s x b q (t * w.BN + n)).toNat) * width + r) =
            k * (s.B * s.S * width) + o then val b q (t * w.BN + n) r else 0
      else 0) =
      ∑ j ∈ columns s x (b, q, 0), ∑ r ∈ range width,
        if q % splits * (s.B * s.S * width) + ((b * s.S + safe s x (b, q, 0) j) * width + r) =
          k * (s.B * s.S * width) + o then val b q j r else 0 := by
    refine sum_blocks_columns (F := fun col => ∑ r ∈ range lanes, if LaneValid s x b q col ∧ r < width then
        if gradBase s q splits * width + ((b * s.S + (laneKey s x b q col).toNat) * width + r) =
            k * (s.B * s.S * width) + o then val b q col r else 0
      else 0) (fun j hj => ?_) fun j hj => ?_
    · have hvalid := (laneValid_iff (h := 0) hfits).mpr hj
      have hbase : gradBase s q splits * width = q % splits * (s.B * s.S * width) := by
        rw [gradBase]
        ring
      refine sum_padded hwidth (fun r hr => ?_) fun r hr => ?_
      · rw [if_pos ⟨hvalid, hr⟩, laneKey_toNat (h := 0) hfits hj, hbase]
      · exact if_neg fun hin => by omega
    · have hinvalid : ¬LaneValid s x b q j := fun hin => hj ((laneValid_iff hfits).mp hin)
      refine sum_eq_zero fun r _ => ?_
      exact if_neg fun hin => hinvalid hin.1
  simp only [hprogram]
  rw [sum_comm]
  refine sum_congr rfl fun j hj => ?_
  rw [sum_comm]
  refine sum_congr rfl fun r hr => ?_
  exact sum_splits hsplits (keyOff_lt (mem_range.mp hb) (safe_lt (mem_columns.mp hj).2) (mem_range.mp hr)) ho _

end

end

/-! ## One coordinate -/

section

variable {s : Shape} {x : Data ℝ} {dO : ℕ → ℝ}

lemma hasDerivAt_dot {n : ℕ} (f g : ℕ → ℝ) (off : ℕ → ℕ) (o : ℕ) :
    HasDerivAt (fun t => ∑ r ∈ range n, update f o t (off r) * g r)
      (∑ r ∈ range n, (if off r = o then 1 else 0) * g r) (f o) :=
  HasDerivAt.fun_sum fun r _ => (hasDerivAt_coordinate f o (off r)).mul_const (g r)

lemma hasDerivAt_dot_right {n : ℕ} (f g : ℕ → ℝ) (off : ℕ → ℕ) (o : ℕ) :
    HasDerivAt (fun t => ∑ r ∈ range n, g r * update f o t (off r))
      (∑ r ∈ range n, g r * if off r = o then 1 else 0) (f o) :=
  HasDerivAt.fun_sum fun r _ => (hasDerivAt_coordinate f o (off r)).const_mul (g r)

/-- The two products of a score. -/
noncomputable def latentDot (s : Shape) (x : Data ℝ) (i : ℕ × ℕ × ℕ) (j : ℕ) : ℝ :=
  ∑ r ∈ range s.R, x.q (s.qOff i r) * latent s x i j r

noncomputable def rankDot (s : Shape) (x : Data ℝ) (i : ℕ × ℕ × ℕ) (j : ℕ) : ℝ :=
  ∑ p ∈ range s.P, x.qr (s.qrOff i p) * x.kr (s.krOff i.1 (safe s x i j) p)

/-- Over all queries, an entry of one of them is read once. -/
lemma sum_query {width : ℕ} {i₀ : ℕ × ℕ × ℕ} (hi₀ : i₀ ∈ s.queries) {r₀ : ℕ} (hr₀ : r₀ < width)
    (F : ℕ × ℕ × ℕ → ℕ → ℝ) (G : ℕ × ℕ × ℕ → ℕ → ℕ → ℝ) (c : ℝ) : ∑ i ∈ s.queries, ∑ j ∈ columns s x i, F i j *
        ((∑ r ∈ range width, (if s.row i * width + r = s.row i₀ * width + r₀ then 1 else 0) * G i j r) * c) =
      ∑ j ∈ columns s x i₀, F i₀ j * G i₀ j r₀ * c := by
  rw [sum_eq_single i₀]
  · refine sum_congr rfl fun j _ => ?_
    rw [sum_eq_single r₀]
    · rw [if_pos rfl, one_mul, mul_assoc]
    · intro r _ hne
      rw [if_neg fun h => hne (add_left_cancel h), zero_mul]
    · exact fun hr => absurd (mem_range.mpr hr₀) hr
  · intro i hi hne
    refine sum_eq_zero fun j _ => ?_
    rw [sum_eq_zero, zero_mul, mul_zero]
    intro r hr
    rw [if_neg fun h => hne (element_inj hi hi₀ (mem_range.mp hr) hr₀ h).1, zero_mul]
  · exact fun hi => absurd hi₀ hi

/-- The columns of a query are those of every head. -/
lemma sum_columns (width : ℕ) (F : ℕ × ℕ × ℕ → ℕ → ℕ → ℝ) :
    ∑ i ∈ s.queries, ∑ j ∈ columns s x i, ∑ r ∈ range width, F i j r = ∑ b ∈ range s.B, ∑ q ∈ range s.S,
      ∑ j ∈ columns s x (b, q, 0), ∑ r ∈ range width, ∑ h ∈ range s.H, F (b, q, h) j r := by
  rw [Shape.queries, sum_product]
  refine sum_congr rfl fun b _ => ?_
  rw [sum_product]
  refine sum_congr rfl fun q _ => ?_
  show ∑ h ∈ range s.H, ∑ j ∈ columns s x (b, q, 0), _ = _
  rw [sum_comm]
  exact sum_congr rfl fun j _ => sum_comm

lemma hasDerivAt_q {i₀ : ℕ × ℕ × ℕ} (hi₀ : i₀ ∈ s.queries) {r₀ : ℕ} (hr₀ : r₀ < s.R) :
    HasDerivAt (fun t => loss exp s (x.setQ (s.qOff i₀ r₀) t) dO)
      (∑ j ∈ columns s x i₀, dsAt s x dO i₀ j * latent s x i₀ j r₀ * x.scale) (x.q (s.qOff i₀ r₀)) := by
  have hscore (i : ℕ × ℕ × ℕ) (j : ℕ) : HasDerivAt (fun t => score s (x.setQ (s.qOff i₀ r₀) t) i j)
        ((∑ r ∈ range s.R, (if s.qOff i r = s.qOff i₀ r₀ then 1 else 0) * latent s x i j r) * x.scale)
        (x.q (s.qOff i₀ r₀)) := by
    show HasDerivAt (fun t => ((∑ r ∈ range s.R, update x.q (s.qOff i₀ r₀) t (s.qOff i r) * latent s x i j r) +
      rankDot s x i j) * x.scale + x.gate (s.ixOff i.1 i.2.1 j)) _ _
    exact (((hasDerivAt_dot x.q _ _ _).add_const _).mul_const _).add_const _
  exact (hasDerivAt_loss_scores (X := x.setQ _) (x.setQ_self _) (fun _ => rfl) (fun _ => rfl)
    hscore).congr_deriv (sum_query hi₀ hr₀ _ (latent s x) _)

lemma hasDerivAt_qr {i₀ : ℕ × ℕ × ℕ} (hi₀ : i₀ ∈ s.queries) {p₀ : ℕ} (hp₀ : p₀ < s.P) :
    HasDerivAt (fun t => loss exp s (x.setQr (s.qrOff i₀ p₀) t) dO)
      (∑ j ∈ columns s x i₀, dsAt s x dO i₀ j * x.kr (s.krOff i₀.1 (safe s x i₀ j) p₀) * x.scale)
      (x.qr (s.qrOff i₀ p₀)) := by
  have hscore (i : ℕ × ℕ × ℕ) (j : ℕ) : HasDerivAt (fun t => score s (x.setQr (s.qrOff i₀ p₀) t) i j)
        ((∑ p ∈ range s.P, (if s.qrOff i p = s.qrOff i₀ p₀ then 1 else 0) *
          x.kr (s.krOff i.1 (safe s x i j) p)) * x.scale) (x.qr (s.qrOff i₀ p₀)) := by
    show HasDerivAt (fun t => (latentDot s x i j + ∑ p ∈ range s.P,
      update x.qr (s.qrOff i₀ p₀) t (s.qrOff i p) * x.kr (s.krOff i.1 (safe s x i j) p)) * x.scale +
        x.gate _) _ _
    exact (((hasDerivAt_dot x.qr _ _ _).const_add _).mul_const _).add_const _
  exact (hasDerivAt_loss_scores (X := x.setQr _) (x.setQr_self _) (fun _ => rfl) (fun _ => rfl)
    hscore).congr_deriv (sum_query hi₀ hp₀ _ (fun i j p => x.kr _) _)

/-- A key moves every score that reads it, and every output through its value. -/
lemma hasDerivAt_kv (o : ℕ) : HasDerivAt (fun t => loss exp s (x.setKv o t) dO)
      (∑ b ∈ range s.B, ∑ q ∈ range s.S, ∑ j ∈ columns s x (b, q, 0), ∑ r ∈ range s.R,
        if (b * s.S + safe s x (b, q, 0) j) * s.R + r = o then
          (∑ h ∈ range s.H, dsAt s x dO (b, q, h) j * x.q (s.qOff (b, q, h) r)) * x.scale +
            ∑ h ∈ range s.H, probAt s x (b, q, h) j * dO (s.qOff (b, q, h) r) else 0) (x.kv o) := by
  have hscore (i : ℕ × ℕ × ℕ) (j : ℕ) : HasDerivAt (fun t => score s (x.setKv o t) i j)
        ((∑ r ∈ range s.R, x.q (s.qOff i r) * if s.kvOff i.1 (safe s x i j) r = o then 1 else 0) * x.scale) (x.kv o) := by
    show HasDerivAt (fun t => ((∑ r ∈ range s.R, x.q (s.qOff i r) *
      update x.kv o t (s.kvOff i.1 (safe s x i j) r)) + rankDot s x i j) * x.scale +
        x.gate _) _ _
    exact (((hasDerivAt_dot_right x.kv _ _ o).add_const _).mul_const _).add_const _
  have hlatent (i : ℕ × ℕ × ℕ) (j r : ℕ) : HasDerivAt (fun t => latent s (x.setKv o t) i j r)
        (if s.kvOff i.1 (safe s x i j) r = o then 1 else 0) (x.kv o) := by
    show HasDerivAt (fun t => update x.kv o t (s.kvOff i.1 (safe s x i j) r)) _ _
    exact hasDerivAt_coordinate x.kv o _
  refine (hasDerivAt_loss (X := x.setKv o) (x.setKv_self o) (fun _ => rfl) (fun i _ j _ => hscore i j)
    fun i _ j _ r _ => hlatent i j r).congr_deriv ?_
  simp only [mul_sum, sum_mul, ← sum_add_distrib]
  rw [sum_columns]
  refine sum_congr rfl fun b _ => sum_congr rfl fun q _ => sum_congr rfl fun j _ => sum_congr rfl fun r _ => ?_
  show ∑ h ∈ range s.H, (dsAt s x dO (b, q, h) j *
      (x.q (s.qOff (b, q, h) r) * (if (b * s.S + safe s x (b, q, 0) j) * s.R + r = o then 1 else 0) * x.scale) +
        probAt s x _ j * (dO _ *
          if (b * s.S + safe s x (b, q, 0) j) * s.R + r = o then 1 else 0)) = _
  split
  · refine sum_congr rfl fun h _ => ?_
    ring
  · refine sum_eq_zero fun h _ => ?_
    ring

lemma hasDerivAt_kr (o : ℕ) : HasDerivAt (fun t => loss exp s (x.setKr o t) dO)
      (∑ b ∈ range s.B, ∑ q ∈ range s.S, ∑ j ∈ columns s x (b, q, 0), ∑ p ∈ range s.P,
        if (b * s.S + safe s x (b, q, 0) j) * s.P + p = o then
          (∑ h ∈ range s.H, dsAt s x dO (b, q, h) j * x.qr (s.qrOff (b, q, h) p)) * x.scale else 0) (x.kr o) := by
  have hscore (i : ℕ × ℕ × ℕ) (j : ℕ) : HasDerivAt (fun t => score s (x.setKr o t) i j)
        ((∑ p ∈ range s.P, x.qr (s.qrOff i p) * if s.krOff i.1 (safe s x i j) p = o then 1 else 0) * x.scale) (x.kr o) := by
    show HasDerivAt (fun t => (latentDot s x i j + ∑ p ∈ range s.P, x.qr (s.qrOff i p) *
      update x.kr o t (s.krOff i.1 (safe s x i j) p)) * x.scale + x.gate (s.ixOff i.1 i.2.1 j)) _ _
    exact (((hasDerivAt_dot_right x.kr _ _ o).const_add _).mul_const _).add_const _
  refine (hasDerivAt_loss_scores (X := x.setKr o) (x.setKr_self o) (fun _ => rfl) (fun _ => rfl) hscore).congr_deriv ?_
  simp only [mul_sum, sum_mul]
  rw [sum_columns]
  refine sum_congr rfl fun b _ => sum_congr rfl fun q _ => sum_congr rfl fun j _ => sum_congr rfl fun p _ => ?_
  show ∑ h ∈ range s.H, dsAt s x dO (b, q, h) j * (x.qr (s.qrOff (b, q, h) p) *
      (if (b * s.S + safe s x (b, q, 0) j) * s.P + p = o then 1 else 0) * x.scale) = _
  split
  · refine sum_congr rfl fun h _ => ?_
    ring
  · refine sum_eq_zero fun h _ => ?_
    ring

lemma hasDerivAt_gate {b₀ q₀ j₀ : ℕ} (hb₀ : b₀ < s.B) (hq₀ : q₀ < s.S) (hj₀ : j₀ < s.K) :
    HasDerivAt (fun t => loss exp s (x.setGate (s.ixOff b₀ q₀ j₀) t) dO)
      (if j₀ ∈ columns s x (b₀, q₀, 0) then ∑ h ∈ range s.H, dsAt s x dO (b₀, q₀, h) j₀ else 0)
      (x.gate (s.ixOff b₀ q₀ j₀)) := by
  have hscore (i : ℕ × ℕ × ℕ) (j : ℕ) : HasDerivAt (fun t => score s (x.setGate (s.ixOff b₀ q₀ j₀) t) i j)
        (if s.ixOff i.1 i.2.1 j = s.ixOff b₀ q₀ j₀ then 1 else 0) (x.gate (s.ixOff b₀ q₀ j₀)) := by
    show HasDerivAt (fun t => (latentDot s x i j + rankDot s x i j) * x.scale +
      update x.gate (s.ixOff b₀ q₀ j₀) t (s.ixOff i.1 i.2.1 j)) _ _
    exact (hasDerivAt_coordinate x.gate _ _).const_add _
  refine (hasDerivAt_loss_scores (X := x.setGate _) (x.setGate_self _) (fun _ => rfl) (fun _ => rfl)
    hscore).congr_deriv ?_
  have hiff {b q j : ℕ} (hq : q < s.S) (hj : j < s.K) :
      s.ixOff b q j = s.ixOff b₀ q₀ j₀ ↔ b = b₀ ∧ q = q₀ ∧ j = j₀ := by
    constructor
    · intro h
      have hrow := rows_apart hj hj₀ h
      have hb := rows_apart hq hq₀ hrow
      subst hb
      have hq' := add_left_cancel hrow
      subst hq'
      exact ⟨rfl, rfl, add_left_cancel h⟩
    · rintro ⟨rfl, rfl, rfl⟩
      rfl
  rw [Shape.queries, sum_product, sum_eq_single b₀]
  · rw [sum_product, sum_eq_single q₀]
    · by_cases hcol : j₀ ∈ columns s x (b₀, q₀, 0)
      · rw [if_pos hcol]
        refine sum_congr rfl fun h _ => ?_
        rw [sum_eq_single j₀]
        · simp
        · intro j hj hne
          rw [if_neg fun h => hne ((hiff hq₀ (mem_columns.mp hj).1).mp h).2.2, mul_zero]
        · exact fun hj => absurd hcol hj
      · rw [if_neg hcol]
        refine sum_eq_zero fun h _ => sum_eq_zero fun j hj => ?_
        have hne : j ≠ j₀ := fun heq => hcol (heq ▸ hj)
        rw [if_neg fun h => hne ((hiff hq₀ (mem_columns.mp hj).1).mp h).2.2, mul_zero]
    · intro q hq hne
      refine sum_eq_zero fun h _ => sum_eq_zero fun j hj => ?_
      rw [if_neg fun h => hne ((hiff (mem_range.mp hq) (mem_columns.mp hj).1).mp h).2.1, mul_zero]
    · exact fun hq => absurd (mem_range.mpr hq₀) hq
  · intro b _ hne
    refine sum_eq_zero fun qh hqh => sum_eq_zero fun j hj => ?_
    have hq := mem_range.mp (mem_product.mp hqh).1
    rw [if_neg fun h => hne ((hiff hq (mem_columns.mp hj).1).mp h).1, mul_zero]
  · exact fun hb => absurd (mem_range.mpr hb₀) hb

end

/-! ## What the backward call returns -/

section

variable {s : Shape} {x : Data ℝ} (hfits : x.Fits) {w : Lanes s} {dO : ℕ → ℝ} {fresh f : Forward ℝ}
  (hf : Forward.Returned exp log s x w fresh f)
include hfits hf

lemma laneDkv_eq {b q : ℕ} (hb : b < s.B) (hq : q < s.S) {j r : ℕ} (hj : j ∈ columns s x (b, q, 0)) (hr : r < s.R) :
    laneDkv exp s x w dO f.out32 f.lse b q j r =
      (∑ h ∈ range s.H, dsAt s x dO (b, q, h) j * x.q (s.qOff (b, q, h) r)) * x.scale +
        ∑ h ∈ range s.H, probAt s x (b, q, h) j * dO (s.qOff (b, q, h) r) := by
  rw [laneDkv, sum_ds_heads hfits hf hb hq hj, sum_prob_heads hfits hf hb hq hj]
  congr 1
  · congr 1
    exact sum_congr rfl fun h hh => by rw [laneRow_eq (mem_range.mp hh) hr]
  · exact sum_congr rfl fun h hh => by rw [laneRow_eq (mem_range.mp hh) hr]

lemma laneDkr_eq {b q : ℕ} (hb : b < s.B) (hq : q < s.S) {j p : ℕ} (hj : j ∈ columns s x (b, q, 0)) (hp : p < s.P) :
    laneDkr exp s x w dO f.out32 f.lse b q j p =
      (∑ h ∈ range s.H, dsAt s x dO (b, q, h) j * x.qr (s.qrOff (b, q, h) p)) * x.scale := by
  rw [laneDkr, sum_ds_heads hfits hf hb hq hj]
  congr 1
  refine sum_congr rfl fun h hh => ?_
  rw [laneQr, if_pos ⟨mem_range.mp hh, hp⟩]

lemma laneDg_eq {b q : ℕ} (hb : b < s.B) (hq : q < s.S) (j : ℕ) :
    ∑ h ∈ range w.BH, laneDs exp s x w dO f.out32 f.lse b q h j =
      if j ∈ columns s x (b, q, 0) then ∑ h ∈ range s.H, dsAt s x dO (b, q, h) j else 0 := by
  split
  · rename_i hj
    have hheads : ∑ h ∈ range w.BH, laneDs exp s x w dO f.out32 f.lse b q h j * 1 = _ :=
      sum_ds_heads hfits hf hb hq hj fun _ => 1
    simpa using hheads
  · exact sum_eq_zero fun h _ => laneDs_out (h := 0) hfits h ‹_›

omit hfits hf in
lemma sumSplits_eq {splits : ℕ} (hsplits : 0 < splits) (size : ℕ) (d : ℕ → ℝ) (o : ℕ) :
    sumSplits splits size d o = ∑ k ∈ range splits, d (k * size + o) := by
  unfold sumSplits
  split
  · rfl
  · obtain rfl : splits = 1 := by omega
    simp

variable {splits : ℕ} {fresh' g : Gradients ℝ} (hg : Gradients.Launched exp s x w dO f splits fresh' g)
include hg

lemma Gradients.Launched.q {o : ℕ} (ho : o < s.B * s.S * s.H * s.R) :
    HasDerivAt (fun t => loss exp s (x.setQ o t) dO) (g.dq o) (x.q o) := by
  obtain ⟨i, hi, r, hr, rfl⟩ := exists_element ho
  have hstored : g.dq (s.row i * s.R + r) = _ := tile_at w.H_le w.R_le hg.dq hi hr
  rw [hstored, laneDq_eq hfits hf hi hr]
  exact hasDerivAt_q hi hr

lemma Gradients.Launched.qr {o : ℕ} (ho : o < s.B * s.S * s.H * s.P) :
    HasDerivAt (fun t => loss exp s (x.setQr o t) dO) (g.dqr o) (x.qr o) := by
  obtain ⟨i, hi, p, hp, rfl⟩ := exists_element ho
  have hdqr := hg.dqr
  unfold backwardDqr at hdqr
  simp only [if_pos (Nat.zero_lt_of_lt hp)] at hdqr
  have hstored : g.dqr (s.row i * s.P + p) = _ := tile_at w.H_le w.P_le hdqr hi hp
  rw [hstored, laneDqr_eq hfits hf hi hp]
  exact hasDerivAt_qr hi hp

lemma Gradients.Launched.kv (hsplits : 0 < splits) {o : ℕ} (ho : o < s.B * s.S * s.R) :
    HasDerivAt (fun t => loss exp s (x.setKv o t) dO) (sumSplits splits (s.B * s.S * s.R) g.dkv o) (x.kv o) := by
  refine (hasDerivAt_kv o).congr_deriv ?_
  simp only [sumSplits_eq hsplits, hg.dkv.at, zero_add]
  refine Eq.trans ?_ (added_splits hfits w.R_le hsplits ho _).symm
  refine sum_congr rfl fun b hb => sum_congr rfl fun q hq => sum_congr rfl fun j hj => sum_congr rfl fun r hr => ?_
  rw [laneDkv_eq hfits hf (mem_range.mp hb) (mem_range.mp hq) hj (mem_range.mp hr)]

lemma Gradients.Launched.kr (hsplits : 0 < splits) {o : ℕ} (ho : o < s.B * s.S * s.P) :
    HasDerivAt (fun t => loss exp s (x.setKr o t) dO) (sumSplits splits (s.B * s.S * s.P) g.dkr o) (x.kr o) := by
  have hP : 0 < s.P := pos_of_ne_zero fun hzero => by simp [hzero] at ho
  have hdkr := hg.dkr
  unfold backwardDkr at hdkr
  simp only [if_pos hP] at hdkr
  refine (hasDerivAt_kr o).congr_deriv ?_
  simp only [sumSplits_eq hsplits, hdkr.at, zero_add]
  refine Eq.trans ?_ (added_splits hfits w.P_le hsplits ho _).symm
  refine sum_congr rfl fun b hb => sum_congr rfl fun q hq => sum_congr rfl fun j hj => sum_congr rfl fun p hp => ?_
  rw [laneDkr_eq hfits hf (mem_range.mp hb) (mem_range.mp hq) hj (mem_range.mp hp)]

lemma Gradients.Launched.gate {o : ℕ} (ho : o < s.B * s.S * s.K) :
    HasDerivAt (fun t => loss exp s (x.setGate o t) dO) (g.dg o) (x.gate o) := by
  have hkeys : (programs s (backwardDg exp s x w dO f.out32 f.lse)).map Prod.fst =
      List.range (s.B * s.S * s.K) := by
    rw [← range_blocks, ← flatMap_blocks, programs, List.map_flatMap]
    refine List.flatMap_congr fun b _ => ?_
    rw [List.map_flatMap]
    refine List.flatMap_congr fun q _ => ?_
    rw [backwardDg, blockStores_eq w.BN_pos, List.map_map]
    rfl
  have hmem : o ∈ (programs s (backwardDg exp s x w dO f.out32 f.lse)).map Prod.fst := by
    rw [hkeys]
    exact List.mem_range.mpr ho
  obtain ⟨⟨o, v⟩, hst, rfl⟩ := List.mem_map.mp hmem
  have hstored : g.dg o = v := hg.dg.at (by rw [hkeys]; exact List.nodup_range) hst
  simp only [programs, backwardDg, blockStores_eq w.BN_pos, List.mem_flatMap, List.mem_map, List.mem_range] at hst
  obtain ⟨b, hb, q, hq, j, hj, heq⟩ := hst
  obtain ⟨rfl, rfl⟩ := Prod.mk.inj heq
  rw [hstored, laneDg_eq hfits hf hb hq]
  exact hasDerivAt_gate hb hq hj

end

section

/-- One query of one head, over one key. -/
def oneShape : Shape := ⟨1, 1, 1, 1, 1, 1, Nat.one_pos, Nat.one_pos, Nat.one_pos, Nat.one_pos⟩

def oneData (V : Type) [One V] : Data V := ⟨fun _ => 1, fun _ => 1, fun _ => 1, fun _ => 1, fun _ => 0, fun _ => 1, 1⟩

lemma exists_forward (s : Shape) (x : Data ℝ) (w : Lanes s) (fresh : Forward ℝ) :
    ∃ f, Forward.Returned exp log s x w fresh f :=
  ⟨⟨_, _, _⟩, ⟨_, refl _, rfl⟩, ⟨_, refl _, rfl⟩, ⟨_, refl _, rfl⟩⟩

lemma exists_gradients (s : Shape) (x : Data ℝ) (w : Lanes s) (dO : ℕ → ℝ) (f : Forward ℝ) (splits : ℕ)
    (fresh : Gradients ℝ) : ∃ g, Gradients.Launched exp s x w dO f splits fresh g :=
  ⟨⟨_, _, _, _, _⟩, ⟨_, refl _, rfl⟩, ⟨_, refl _, rfl⟩, ⟨_, refl _, rfl⟩,
    ⟨_, refl _, rfl⟩, ⟨_, refl _, rfl⟩⟩

end

end VKernels.IndexedMla
