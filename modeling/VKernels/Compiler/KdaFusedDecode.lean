import VKernels.Compiler.RecurrentTasks
import VKernels.Lib.SplitSoftmax

/-!
# Fused KDA decode against its chain

`kda_fused_decode` does in one operator what `gdn_conv` on the packed q|k|v row, `kda_delta` on its three segments and
`rms_norm_gated` do in three, on pools of their own layout.

## Results

* `matches_step` — a step keeps them.
* `kda_fused_decode_eq_chain` — over every run, with the same outputs.
-/

namespace VKernels.Recurrent

open Finset LocalActions OwnedTasks
open SplitSoftmax (Exponential)

/-! ## The chain -/

/-- What the chain keeps: the convolution, the recurrence and the norm, each with its outputs. -/
structure Chain (V : Type) where
  conv : ConvLoc → V
  kda : KdaLoc → V
  norm : NormLoc → V

section

variable {V : Type} (s : FusedShape) (i : FusedInputs V)

def FusedShape.convShape (tile : ℕ) : ConvShape := ⟨s.B, s.Kw, 3 * s.seg, tile⟩

def FusedShape.kdaShape : KdaShape := ⟨s.B, s.H, s.K, s.K⟩

def FusedShape.normShape : NormShape := ⟨s.B, s.H, s.K⟩

/-- The packed row and the transposed taps. -/
def convInputs : ConvInputs V where
  x := i.qkvRaw
  w c j := i.taps j c

/-- The segments of the convolved row. -/
def kdaInputs (conv : ConvLoc → V) : KdaInputs V where
  q b h d := conv (.out b (s.col h 0 d))
  k b h d := conv (.out b (s.col h 1 d))
  v b h d := conv (.out b (s.col h 2 d))
  f := i.fRaw
  b := i.bRaw
  dtBias := i.dtBias
  aLog := i.aLog
  scale := i.scale
  lowerBound := i.lowerBound

variable [Field V] [LinearOrder V] (f : Functions V)

/-- One step of the three operators, the tasks of each in some order. -/
structure ChainStep (tile : ℕ) (c c' : Chain V) : Prop where
  conv : TasksInAnyOrder (s.convShape tile).tasks (bodyGdnConv f (s.convShape tile) (convInputs i)) c.conv c'.conv
  kda : TasksInAnyOrder s.kdaShape.tasks (bodyKdaDelta f s.kdaShape (kdaInputs s i c'.conv)) c.kda c'.kda
  norm : TasksInAnyOrder s.normShape.tasks
    (bodyRmsNormGated f s.normShape (fun b h v => c'.kda (.out b h v)) i.gRaw i.oNorm i.eps) c.norm c'.norm

def FusedStep (m m' : FusedLoc → V) : Prop := TasksInAnyOrder s.tasks (bodyKdaFusedDecode f s i) m m'

/-- The pools of a live row are those of the chain: windows alike, states transposed. -/
structure Matches (ids : ℕ → ℤ) (m : FusedLoc → V) (c : Chain V) : Prop where
  conv : ∀ b < s.B, ∀ slot : ℕ, ids b = slot → ∀ j < s.Kw, ∀ ch < 3 * s.seg,
    m (.conv slot j ch) = c.conv (.state b j ch)
  ssm : ∀ b < s.B, ∀ slot : ℕ, ids b = slot → ∀ h < s.H, ∀ v < s.K, ∀ k < s.K,
    m (.ssm slot h v k) = c.kda (.state b h k v)

end

variable {V : Type} [Field V] [LinearOrder V]

/-! ## A step -/

section

variable {f : Functions V} {s : FusedShape} {i : FusedInputs V} {tile : ℕ}

lemma stableSigmoid_eq (hexp : Exponential f.exp) (g : V) : stableSigmoid f g = 1 / (1 + f.exp (-g)) := by
  unfold stableSigmoid
  split
  · rfl
  · have hinv : f.exp g * f.exp (-g) = 1 := by rw [← hexp.add, add_neg_cancel, hexp.zero]
    have hne : f.exp g ≠ 0 := (hexp.pos g).ne'
    calc f.exp g / (1 + f.exp g) = f.exp g * 1 / (f.exp g * (1 + f.exp (-g))) := by
          rw [mul_one, mul_add, mul_one, hinv, add_comm]
      _ = 1 / (1 + f.exp (-g)) := mul_div_mul_left _ _ hne

variable (hexp : Exponential f.exp) (hbf : ∀ x, f.bf16 x = x) (hout : ∀ x, f.toOut x = x) (htile : 0 < tile)
  (hids : LiveDistinct s.B i.slotIds) {m m' : FusedLoc → V} {c c' : Chain V} (hmatches : Matches s i.slotIds m c)
  (hfused : FusedStep s i f m m') (hchain : ChainStep s i f tile c c') {b slot : ℕ} (hb : b < s.B)
  (hslot : i.slotIds b = slot)

section

include hbf hout htile hmatches hchain hb hslot

lemma conv_eq {h part l : ℕ} (hpart : part < 3) (hh : h < s.H) (hl : l < s.K) :
    fusedConv f s i m slot b h part l = c'.conv (.out b (s.col h part l)) := by
  have hcol := col_lt hpart hh hl
  rw [gdnConv_out hchain.conv htile hb hcol, hout]
  have hacc : convAcc (s.convShape tile) (convInputs i) c.conv b (s.col h part l) =
      ∑ j ∈ range s.Kw, i.taps j (s.col h part l) * m (.conv slot j (s.col h part l)) +
        i.taps s.Kw (s.col h part l) * f.bf16 (i.qkvRaw b (s.col h part l)) := by
    unfold convAcc
    congr 1
    · refine sum_congr rfl fun j hj => ?_
      rw [hmatches.conv b hb slot hslot j (mem_range.mp hj) _ hcol, mul_comm]
      rfl
    · rw [hbf, mul_comm]
      rfl
  rw [hacc, fusedConv, mul_one_div]

lemma state_eq {h v k : ℕ} (hh : h < s.H) (hv : v < s.K) (hk : k < s.K) :
    fusedState f s i m slot b h v k = kdaState f s.kdaShape (kdaInputs s i c'.conv) c.kda b h k v := by
  have hconv (part l : ℕ) (hpart : part < 3) (hl : l < s.K) := conv_eq hbf hout htile hmatches hchain hb hslot hpart hh hl
  have hkn (e : ℕ) (he : e < s.K) : l2norm f s.K (fusedConv f s i m slot b h 1) e =
      l2norm f s.K ((kdaInputs s i c'.conv).k b h) e := l2norm_congr (fun e he => hconv 1 e (by decide) he) he
  have hdecayed (e : ℕ) (he : e < s.K) : m (.ssm slot h v e) *
      fusedDecay f i.lowerBound (f.exp (i.aLog h)) (f.bf16 (i.fRaw b h e) + i.dtBias h e) =
        kdaDecayed f (kdaInputs s i c'.conv) c.kda b h e v := by
    rw [hmatches.ssm b hb slot hslot h hh v hv e he, fusedDecay_eq, hbf]
    rfl
  have hmem : ∑ e ∈ range s.K, m (.ssm slot h v e) *
        fusedDecay f i.lowerBound (f.exp (i.aLog h)) (f.bf16 (i.fRaw b h e) + i.dtBias h e) *
        l2norm f s.K (fusedConv f s i m slot b h 1) e =
      ∑ e ∈ range s.K, kdaDecayed f (kdaInputs s i c'.conv) c.kda b h e v *
        l2norm f s.K ((kdaInputs s i c'.conv).k b h) e :=
    sum_congr rfl fun e he => by rw [hdecayed e (mem_range.mp he), hkn e (mem_range.mp he)]
  simp only [fusedState, deltaUpdate, kdaState]
  rw [hmem, hdecayed k hk, hkn k hk, hconv 2 v (by decide) hv, hbf, mul_comm]
  rfl

include hexp

lemma out_eq {h v : ℕ} (hh : h < s.H) (hv : v < s.K) : fusedOut f s i m slot b h v = c'.norm (.out b h v) := by
  have hconv (part l : ℕ) (hpart : part < 3) (hl : l < s.K) := conv_eq hbf hout htile hmatches hchain hb hslot hpart hh hl
  have hread (r : ℕ) (hr : r < s.K) : readout s.K (fusedState f s i m slot b h)
      (fun d => l2norm f s.K (fusedConv f s i m slot b h 0) d * i.scale) r = c'.kda (.out b h r) := by
    rw [kdaDelta_out hchain.kda hb hh hr, hout]
    refine sum_congr rfl fun e he => ?_
    have he' := mem_range.mp he
    have hqn : l2norm f s.K (fusedConv f s i m slot b h 0) e = l2norm f s.K ((kdaInputs s i c'.conv).q b h) e :=
      l2norm_congr (fun e he => hconv 0 e (by decide) he) he'
    simp only [state_eq hbf hout htile hmatches hchain hb hslot hh hr he', hqn]
    rfl
  rw [rmsNormGated_out hchain.norm hb hh hv, hout, stableSigmoid_eq hexp, fusedOut]
  simp only [hread v hv, meanSquare_congr hread, hbf]
  rfl

end

include hexp hbf hout htile hids hmatches hfused hchain

/-- **A step** keeps the pools alike and gives the same outputs. -/
theorem matches_step : Matches s i.slotIds m' c' ∧
    ∀ b < s.B, 0 ≤ i.slotIds b → ∀ h < s.H, ∀ v < s.K, m' (.out b h v) = c'.norm (.out b h v) := by
  refine ⟨⟨fun b hb slot hslot j hj ch hch => ?_, fun b hb slot hslot h hh v hv k hk => ?_⟩,
    fun b hb hlive h hh v hv => ?_⟩
  · have htaps : (s.convShape tile).Km1 = s.Kw := rfl
    rw [fused_conv hids hfused hb hslot hj hch, gdnConv_state hchain.conv htile hb hch hj, fusedWindow, hbf, htaps]
    by_cases hlast : j + 1 < s.Kw
    · rw [if_pos hlast, if_pos hlast]
      exact hmatches.conv b hb slot hslot (j + 1) hlast ch hch
    · rw [if_neg hlast, if_neg hlast]
      rfl
  · rw [fused_ssm hids hfused hb hh hslot hv hk, kdaDelta_state hchain.kda hb hh hk hv]
    exact state_eq hbf hout htile hmatches hchain hb hslot hh hv hk
  · obtain ⟨_, hslot⟩ := Int.eq_ofNat_of_zero_le hlive
    rw [fused_out hids hfused hb hh hslot hv, hout, hbf]
    exact out_eq hexp hbf hout htile hmatches hchain hb hslot hh hv

end

/-- **Every run** of the fused operator keeps its pools those of the chain, and gives the outputs of the chain. -/
theorem kda_fused_decode_eq_chain {f : Functions V} (hexp : Exponential f.exp) (hbf : ∀ x, f.bf16 x = x)
    (hout : ∀ x, f.toOut x = x) {s : FusedShape} {ids : ℕ → ℤ} (hids : LiveDistinct s.B ids) {tile : ℕ} (htile : 0 < tile)
    (inputs : ℕ → FusedInputs V) (hinputs : ∀ t, (inputs t).slotIds = ids) {m : ℕ → FusedLoc → V} {c : ℕ → Chain V}
    {n : ℕ} (hfused : ∀ t < n, FusedStep s (inputs t) f (m t) (m (t + 1)))
    (hchain : ∀ t < n, ChainStep s (inputs t) f tile (c t) (c (t + 1))) (hstart : Matches s ids (m 0) (c 0)) :
    (∀ t ≤ n, Matches s ids (m t) (c t)) ∧
      ∀ t < n, ∀ b < s.B, 0 ≤ ids b → ∀ h < s.H, ∀ v < s.K, m (t + 1) (.out b h v) = (c (t + 1)).norm (.out b h v) := by
  have hstep (t : ℕ) (ht : t < n) (hmatches : Matches s ids (m t) (c t)) := matches_step hexp hbf hout htile
    (i := inputs t) (by rw [hinputs t]; exact hids) (by rw [hinputs t]; exact hmatches) (hfused t ht) (hchain t ht)
  have hruns (t : ℕ) (ht : t ≤ n) : Matches s ids (m t) (c t) := by
    induction t with
    | zero => exact hstart
    | succ t ih =>
      rw [← hinputs t]
      exact (hstep t ht (ih (by omega))).1
  refine ⟨hruns, fun t ht b hb hlive => ?_⟩
  refine (hstep t ht (hruns t (by omega))).2 b hb ?_
  rw [hinputs t]
  exact hlive

/-! ### Two rows -/

section

/-- Two live rows in opposite slots, two heads of two dimensions, three taps. -/
def swapped : FusedShape := ⟨2, 2, 2, 2, 2⟩

noncomputable def realFunctions : Functions ℝ := ⟨Real.exp, Real.log, Real.sqrt, id, id⟩

noncomputable def onesInputs : FusedInputs ℝ where
  slotIds b := 1 - b
  qkvRaw _ c := c
  fRaw _ _ d := d
  bRaw _ _ := 1
  gRaw _ _ d := d
  taps _ _ := 1
  dtBias _ _ := 1
  aLog _ := 1
  oNorm _ := 1
  scale := 1
  eps := 1
  lowerBound := none

/-- The tasks of every step one after another. -/
noncomputable def fusedRun (t : ℕ) : FusedLoc → ℝ :=
  Nat.rec (fun _ => 0) (fun _ m => runAll (swapped.tasks.map (bodyKdaFusedDecode realFunctions swapped onesInputs)) m) t

noncomputable def chainNext (c : Chain ℝ) : Chain ℝ :=
  let conv := runAll ((swapped.convShape 4).tasks.map
    (bodyGdnConv realFunctions (swapped.convShape 4) (convInputs onesInputs))) c.conv
  let kda := runAll (swapped.kdaShape.tasks.map
    (bodyKdaDelta realFunctions swapped.kdaShape (kdaInputs swapped onesInputs conv))) c.kda
  ⟨conv, kda, runAll (swapped.normShape.tasks.map (bodyRmsNormGated realFunctions swapped.normShape
    (fun b h v => kda (.out b h v)) onesInputs.gRaw onesInputs.oNorm onesInputs.eps)) c.norm⟩

noncomputable def chainRun (t : ℕ) : Chain ℝ := Nat.rec ⟨fun _ => 0, fun _ => 0, fun _ => 0⟩ (fun _ => chainNext) t

/-- Three steps. -/
theorem swapped_rows_agree : fusedRun 3 (.out 1 0 1) = (chainRun 3).norm (.out 1 0 1) ∧
    fusedRun 3 (.ssm 0 1 1 0) = (chainRun 3).kda (.state 1 1 0 1) := by
  have hexp : Exponential realFunctions.exp := ⟨Real.exp_add, Real.exp_pos⟩
  have hids : LiveDistinct swapped.B onesInputs.slotIds := by
    intro b _ _ _ _ heq
    simp only [onesInputs] at heq
    omega
  obtain ⟨hpools, houts⟩ := kda_fused_decode_eq_chain hexp (fun _ => rfl) (fun _ => rfl) hids
    (by decide : 0 < 4) (fun _ => onesInputs) (fun _ => rfl) (m := fusedRun) (c := chainRun) (n := 3)
    (fun t _ => ⟨_, List.Perm.refl _, rfl⟩)
    (fun t _ => ⟨⟨_, List.Perm.refl _, rfl⟩, ⟨_, List.Perm.refl _, rfl⟩, ⟨_, List.Perm.refl _, rfl⟩⟩)
    ⟨fun _ _ _ _ _ _ _ _ => rfl, fun _ _ _ _ _ _ _ _ _ _ => rfl⟩
  exact ⟨houts 2 (by decide) 1 (by decide) (by decide) 0 (by decide) 1 (by decide),
    (hpools 3 le_rfl).ssm 1 (by decide) 0 rfl 1 (by decide) 1 (by decide) 0 (by decide)⟩

end

end VKernels.Recurrent
