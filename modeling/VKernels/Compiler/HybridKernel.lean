import VKernels.Compiler.HybridTasks

/-!
# The hybrid megakernel

After `qwen35_hybrid_megakernel` and `HybridMegakernel` of `compiler/device_triton_hybrid.py`: the phases of one
launch, the workspace of its host, and what a run passes to the kernel.

* `Dims`, `Weights` — the constants and the read-only tensors of a launch.
* `oScores`, … — the workspace; `hybridDims` — what the host passes.
-/

namespace VKernels.Hybrid

open BarrierPhases
open LaneLaunch (nextPowerOf2)

/-! ## The kernel -/

structure Dims (R : Type) where
  C : ℕ
  F : ℕ
  V : ℕ
  SCAP : ℕ
  H : ℕ
  NKV : ℕ
  D : ℕ
  ROT : ℕ
  NKH : ℕ
  NVH : ℕ
  HK : ℕ
  HV : ℕ
  GQKV_N : ℕ
  GZ_N : ℕ
  FQ_N : ℕ
  FK_N : ℕ
  FV_N : ℕ
  EPS : R
  FSCALE : R
  GSCALE : R
  BT : ℕ
  BTR : ℕ
  O_HIDDEN_A : ℕ
  O_HIDDEN_B : ℕ
  O_RMS1 : ℕ
  O_PROJ : ℕ
  O_ZAB : ℕ
  O_POST : ℕ
  O_HEADS : ℕ
  O_ATTN : ℕ
  O_RMS2 : ℕ
  O_GU : ℕ
  O_ACT : ℕ
  O_SCORES : ℕ
  O_PROBS : ℕ

/-- The read-only tensors of a launch, flat; one class of weights holds all its layers. -/
structure Weights (V : Type) where
  ln1 : ℕ → V
  ln2 : ℕ → V
  finaln : ℕ → V
  emb : ℕ → V
  lmh : ℕ → V
  gqkvW : ℕ → V
  gqkvS : ℕ → V
  gzW : ℕ → V
  gzS : ℕ → V
  gaW : ℕ → V
  gbW : ℕ → V
  goutW : ℕ → V
  goutS : ℕ → V
  gconvW : ℕ → V
  galog : ℕ → V
  gdtb : ℕ → V
  gnormw : ℕ → V
  fqW : ℕ → V
  fqS : ℕ → V
  fkW : ℕ → V
  fkS : ℕ → V
  fvW : ℕ → V
  fvS : ℕ → V
  foW : ℕ → V
  foS : ℕ → V
  fqn : ℕ → V
  fkn : ℕ → V
  mgateW : ℕ → V
  mgateS : ℕ → V
  mupW : ℕ → V
  mupS : ℕ → V
  mdownW : ℕ → V
  mdownS : ℕ → V
  cos : ℕ → V
  sin : ℕ → V
  deriving Inhabited

/-- A pointer moved on. -/
def advance {V : Type} (p : ℕ → V) (offset : ℕ) (i : ℕ) : V := p (offset + i)

/-- `while task < 1`. -/
def once {V : Type} (t : Task Cell V) : Call Cell V := ⟨1, fun _ => t⟩

/-- `is_full`. -/
def isFull (l : ℕ) : Bool := (l + 1) % 4 == 0

/-- The index of a full-attention layer among its class. -/
def fullIndex (l : ℕ) : ℕ := (l + 1) / 4 - 1

/-- The index of a linear-attention layer among its class. -/
def linearIndex (l : ℕ) : ℕ := l - (l + 1) / 4

variable {V : Type} [Field V] [LinearOrder V] (f : Maths V)

section

variable (d : Dims V) (w : Weights V) (token pos slot : ℕ) (barBase : ℤ) (P L : ℕ)

/-- The calls of one `_h_gemv_fp8`. -/
def gemvFp8 (x : ℕ) (wt sc : ℕ → V) (y K N : ℕ) : Call Cell V := ⟨N / 16, hGemvFp8 x wt sc y K⟩

/-- `bi`: the barriers before layer `l`. -/
def layerBase (l : ℕ) : ℤ := (11 * l + 3 * (l / 4) + 1 : ℕ) * P + barBase

/-- Where the cache rows of full-attention layer `fi` begin. -/
def cacheBase (fi : ℕ) : ℕ := fi * (d.SCAP * d.NKV * d.D)

/-- The phases of full attention, barriers 2 to 9 of the layer. -/
def fullAttention (fi : ℕ) (bi : ℤ) : List (Phase Cell V) := [
  ⟨[gemvFp8 d.O_RMS1 (advance w.fqW (fi * (d.FQ_N * d.C))) (advance w.fqS (fi * (d.FQ_N / 128 * (d.C / 128))))
        d.O_PROJ d.C d.FQ_N,
      gemvFp8 d.O_RMS1 (advance w.fkW (fi * (d.FK_N * d.C))) (advance w.fkS (fi * (d.FK_N / 128 * (d.C / 128))))
        d.O_ZAB d.C d.FK_N,
      gemvFp8 d.O_RMS1 (advance w.fvW (fi * (d.FV_N * d.C))) (advance w.fvS (fi * (d.FV_N / 128 * (d.C / 128))))
        (d.O_ZAB + d.FK_N) d.C d.FV_N], some (bi + 2 * P)⟩,
  ⟨[⟨d.H + d.NKV, hQknorm f d.O_PROJ (advance w.fqn (fi * d.D)) (advance w.fkn (fi * d.D)) d.O_POST d.H d.D d.EPS⟩],
    some (bi + 3 * P)⟩,
  ⟨[⟨d.H + 2 * d.NKV, hRopeAppend d.O_POST w.cos w.sin (cacheBase d fi) (d.O_ZAB + d.FK_N) (cacheBase d fi) pos slot
      d.H d.NKV d.D d.ROT⟩], some (bi + 4 * P)⟩,
  ⟨[⟨d.H, hScores d.O_POST (cacheBase d fi) d.O_SCORES pos d.H d.NKV d.D d.SCAP d.BT d.FSCALE⟩], some (bi + 5 * P)⟩,
  ⟨[⟨d.H, hSoftmax f d.O_SCORES pos d.O_PROBS d.SCAP d.BTR⟩], some (bi + 6 * P)⟩,
  ⟨[⟨d.H, hValuesGate f d.O_PROBS (cacheBase d fi) (d.O_POST + d.H * d.D) d.O_HEADS pos d.H d.NKV d.D d.SCAP d.BT⟩],
    some (bi + 7 * P)⟩,
  ⟨[gemvFp8 d.O_HEADS (advance w.foW (fi * (d.C * (d.H * d.D))))
      (advance w.foS (fi * (d.C / 128 * (d.H * d.D / 128)))) d.O_ATTN (d.H * d.D) d.C], some (bi + 8 * P)⟩,
  ⟨[once (hAdd d.O_HIDDEN_A d.O_ATTN d.O_HIDDEN_B d.C 8192)], some (bi + 9 * P)⟩]

/-- The channels of the short convolution. -/
def Dims.channels (d : Dims V) : ℕ := 2 * d.NKH * d.HK + d.NVH * d.HV

/-- The phases of linear attention, barriers 2 to 6 of the layer. -/
def linearAttention (gi : ℕ) (bi : ℤ) : List (Phase Cell V) := [
  ⟨[gemvFp8 d.O_RMS1 (advance w.gqkvW (gi * (d.GQKV_N * d.C)))
        (advance w.gqkvS (gi * (d.GQKV_N / 128 * (d.C / 128)))) d.O_PROJ d.C d.GQKV_N,
      gemvFp8 d.O_RMS1 (advance w.gzW (gi * (d.GZ_N * d.C))) (advance w.gzS (gi * (d.GZ_N / 128 * (d.C / 128))))
        d.O_ZAB d.C d.GZ_N,
      once (hGemvBf16Small d.O_RMS1 (advance w.gaW (gi * (d.NVH * d.C))) (d.O_ZAB + d.GZ_N) d.C d.NVH),
      once (hGemvBf16Small d.O_RMS1 (advance w.gbW (gi * (d.NVH * d.C))) (d.O_ZAB + d.GZ_N + d.NVH) d.C d.NVH)],
    some (bi + 2 * P)⟩,
  ⟨[⟨d.channels / 1024, tGdnConv f (gi * (3 * d.channels)) (advance w.gconvW (gi * (d.channels * 4))) d.O_PROJ d.O_POST
      d.channels 1024 4⟩], some (bi + 3 * P)⟩,
  ⟨[⟨d.NVH, tGdnHeads f d.O_POST (d.O_POST + d.NKH * d.HK) (d.O_POST + 2 * d.NKH * d.HK) d.O_ZAB (d.O_ZAB + d.GZ_N)
      (d.O_ZAB + d.GZ_N + d.NVH) (advance w.galog (gi * d.NVH)) (advance w.gdtb (gi * d.NVH))
      (advance w.gnormw (gi * d.HV)) (gi * (d.NVH * d.HV * d.HK)) d.O_HEADS d.NVH d.NKH d.HV d.HK d.EPS d.GSCALE⟩],
    some (bi + 4 * P)⟩,
  ⟨[gemvFp8 d.O_HEADS (advance w.goutW (gi * (d.C * (d.NVH * d.HV))))
      (advance w.goutS (gi * (d.C / 128 * (d.NVH * d.HV / 128)))) d.O_ATTN (d.NVH * d.HV) d.C], some (bi + 5 * P)⟩,
  ⟨[once (hAdd d.O_HIDDEN_A d.O_ATTN d.O_HIDDEN_B d.C 8192)], some (bi + 6 * P)⟩]

/-- The phases of the MLP, from barrier `m0` of the layer on. -/
def mlp (l : ℕ) (bi : ℤ) (m0 : ℕ) : List (Phase Cell V) := [
  ⟨[once (hRms f d.O_HIDDEN_B (advance w.ln2 (l * d.C)) d.O_RMS2 d.C 8192 d.EPS)], some (bi + m0 * P)⟩,
  ⟨[gemvFp8 d.O_RMS2 (advance w.mgateW (l * (d.F * d.C))) (advance w.mgateS (l * (d.F / 128 * (d.C / 128)))) d.O_GU
        d.C d.F,
      gemvFp8 d.O_RMS2 (advance w.mupW (l * (d.F * d.C))) (advance w.mupS (l * (d.F / 128 * (d.C / 128))))
        (d.O_GU + d.F) d.C d.F], some (bi + (m0 + 1 : ℕ) * P)⟩,
  ⟨[once (hSwiglu f d.O_GU d.O_ACT d.F)], some (bi + (m0 + 2 : ℕ) * P)⟩,
  ⟨[gemvFp8 d.O_ACT (advance w.mdownW (l * (d.C * d.F))) (advance w.mdownS (l * (d.C / 128 * (d.F / 128)))) d.O_ATTN
      d.F d.C], some (bi + (m0 + 3 : ℕ) * P)⟩,
  ⟨[once (hAdd d.O_HIDDEN_B d.O_ATTN d.O_HIDDEN_A d.C 8192)], some (bi + (m0 + 4 : ℕ) * P)⟩]

/-- The phases of a layer: 14 of a full-attention layer, 11 of the others. -/
def layer (l : ℕ) : List (Phase Cell V) :=
  let bi := layerBase barBase P l
  let m0 := if isFull l then 10 else 7
  ⟨[once (hRms f d.O_HIDDEN_A (advance w.ln1 (l * d.C)) d.O_RMS1 d.C 8192 d.EPS)], some (bi + P)⟩ ::
    (if isFull l then fullAttention f d w pos slot P (fullIndex l) bi else linearAttention f d w P (linearIndex l) bi) ++
    mlp f d w P l bi m0

/-- `(KILL_AFTER < 0) or (l < KILL_AFTER)`. -/
def Executes (killAfter : ℤ) (l : ℕ) : Prop := killAfter < 0 ∨ (l : ℤ) < killAfter

instance (killAfter : ℤ) : DecidablePred (Executes killAfter) := fun _ => inferInstanceAs (Decidable (_ ∨ _))

/-- The phases after the layers: the final norm and the logits. -/
def final (killAfter : ℤ) : List (Phase Cell V) :=
  if killAfter < 0 then [
    ⟨[once (hRms f d.O_HIDDEN_A w.finaln d.O_RMS1 d.C 8192 d.EPS)],
      some (barBase + (11 * L + 3 * (L / 4) + 2 : ℕ) * P)⟩,
    ⟨[⟨d.V / 16, hGemvBf16 d.O_RMS1 w.lmh .logits 0 d.C⟩], none⟩]
  else []

/-- `qwen35_hybrid_megakernel`. -/
def hybridMegakernel (killAfter : ℤ) : List (Phase Cell V) :=
  ⟨[once (hEmbed token w.emb d.O_HIDDEN_A d.C 8192)], some (barBase + P)⟩ ::
    ((List.range L).flatMap fun l => if Executes killAfter l then layer f d w pos slot barBase P l else []) ++
    final f d w barBase P L killAfter

end

/-! ## The host -/

def C : ℕ := 5120

def F : ℕ := 17408

/-! The workspace, in elements. -/

def oHiddenA : ℕ := 0

def oHiddenB : ℕ := C

def oRms1 : ℕ := 2 * C

def oProj : ℕ := 3 * C

def oZab : ℕ := 3 * C + 12288

def oPost : ℕ := 3 * C + 12288 + 6272

def oHeads : ℕ := 3 * C + 12288 + 6272 + 20480

def oAttn : ℕ := 3 * C + 12288 + 6272 + 20480 + 12288

def oRms2 : ℕ := 3 * C + 12288 + 6272 + 20480 + 12288 + C

def oGu : ℕ := 3 * C + 12288 + 6272 + 20480 + 12288 + 2 * C

def oAct : ℕ := 3 * C + 12288 + 6272 + 20480 + 12288 + 2 * C + 2 * F

def oScores : ℕ := 3 * C + 12288 + 6272 + 20480 + 12288 + 2 * C + 2 * F + F

def oProbs : ℕ := 3 * C + 12288 + 6272 + 20480 + 12288 + 2 * C + 2 * F + F + 24 * 512

def wsTotal : ℕ := oProbs + 24 * 512

/-- The numbers that the constants of a launch are made of. -/
structure Scales (V : Type) where
  /-- `1e-6` -/
  eps : V
  /-- `256 ** -0.5` -/
  fscale : V
  /-- `128 ** -0.5` -/
  gscale : V

/-- What `run` passes for its constants. -/
def hybridDims {V : Type} (capacity : ℕ) (c : Scales V) : Dims V where
  C := C
  F := F
  V := 248320
  SCAP := capacity
  H := 24
  NKV := 4
  D := 256
  ROT := 64
  NKH := 16
  NVH := 48
  HK := 128
  HV := 128
  GQKV_N := 2 * 16 * 128 + 48 * 128
  GZ_N := 48 * 128
  FQ_N := 24 * 2 * 256
  FK_N := 4 * 256
  FV_N := 4 * 256
  EPS := c.eps
  FSCALE := c.fscale
  GSCALE := c.gscale
  BT := 64
  BTR := min 1024 (nextPowerOf2 capacity)
  O_HIDDEN_A := oHiddenA
  O_HIDDEN_B := oHiddenB
  O_RMS1 := oRms1
  O_PROJ := oProj
  O_ZAB := oZab
  O_POST := oPost
  O_HEADS := oHeads
  O_ATTN := oAttn
  O_RMS2 := oRms2
  O_GU := oGu
  O_ACT := oAct
  O_SCORES := oScores
  O_PROBS := oProbs

def numBarriers : ℕ := 754

/-- `executed`: the barriers the host counts for one run. -/
def executed (killAfter : ℤ) : ℕ :=
  if 0 ≤ killAfter then 1 + ((List.range killAfter.toNat).map fun l => if (l + 1) % 4 = 0 then 14 else 11).sum
  else numBarriers

/-- `HybridMegakernel`: what `run` reads and changes on the host. -/
structure Host where
  capacity : ℕ
  workers : ℕ
  barBase : ℤ := 0

section

variable (c : Scales V) (w : Weights V)

/-- `HybridMegakernel.run`: the phases of the launch, and the host after it. -/
def Host.run (host : Host) (killAfter : ℤ) (token : ℕ) (position : ℤ) : Except String (List (Phase Cell V) × Host) :=
  if ¬(0 ≤ position ∧ position < host.capacity) then
    .error s!"position {position} out of [0, {host.capacity})"
  else
    let pos := position.toNat
    let phases := hybridMegakernel f (hybridDims host.capacity c) w token pos pos host.barBase host.workers 64 killAfter
    .ok (phases, { host with barBase := host.barBase + executed killAfter * host.workers })

end

end VKernels.Hybrid
