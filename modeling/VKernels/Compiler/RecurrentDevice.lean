import VKernels.Compiler.RecurrentTasks

/-!
# Recurrent device bodies

The Triton bodies `_t_gdn_conv_tiled`, `_t_gdn_heads_batched`, `_t_kda_heads_batched` and `_t_kda_fused` on flat buffers,
their stores in place and in the order of the body.

* `Cell`, `Mem` — the addresses of the pools and of the output; the inputs are flat buffers of their own.
* `tGdnConvTiled`, `tGdnHeadsBatched`, `tKdaHeadsBatched`, `tKdaFused` — one task.
-/

namespace VKernels.Recurrent

open Finset LocalActions OwnedTasks
open LaneLaunch (arange tile)
open WorkerTasks (workerTasks)

/-- The buffers that the bodies write. -/
inductive DeviceBuffer where
  | state
  | conv
  | ssm
  | out
  deriving DecidableEq

abbrev Cell := DeviceBuffer × ℤ

abbrev Mem (V : Type) := Cell → V

/-- `tl.store` of the lanes. -/
def store {V : Type} (n : ℕ) (addr : ℕ → Cell) (val : ℕ → V) (m : Mem V) : Mem V := assign (storeRow n addr val) m

/-- `tl.store` of a tile of lanes. -/
def storeTile {V : Type} (rows n : ℕ) (addr : ℕ → ℕ → Cell) (val : ℕ → ℕ → V) (m : Mem V) : Mem V :=
  assign (storeRows rows n addr val) m

/-- All tasks of `P` workers, one at a time in some order. -/
def Launched {V : Type} (n : ℕ) (task : ℕ → Mem V → Mem V) (m m' : Mem V) : Prop :=
  ∃ P > 0, ∃ order : List ℕ, order.Perm (workerTasks P n) ∧ m' = order.foldl (fun m t => task t m) m

/-! ## `_t_gdn_conv_tiled` -/

structure ConvBuffers (V : Type) where
  w : ℕ → V
  x : ℕ → V

section

variable {V : Type} [Field V] (f : Functions V) (KTAPS C ELEM : ℕ) (p : ConvBuffers V)

def tGdnConvTiled (task : ℕ) (m : Mem V) : Mem V :=
  let NTILE := C / ELEM
  let b := task / NTILE
  let t := task % NTILE
  let offs (l : ℕ) : ℕ := t * ELEM + l
  let sbase : ℤ := b * ((KTAPS - 1) * C)
  let xn (l : ℕ) := p.x (b * C + offs l)
  let acc (l : ℕ) :=
    ∑ j ∈ range (KTAPS - 1), p.w (offs l * KTAPS + j) * m (.state, sbase + j * C + offs l) +
      p.w (offs l * KTAPS + (KTAPS - 1)) * xn l
  let m := store ELEM (fun l => (.out, b * C + offs l)) (fun l => f.toOut (acc l / (1 + f.exp (-acc l)))) m
  -- drop the oldest tap, append the new row
  let m := (List.range (KTAPS - 2)).foldl (fun m (j : ℕ) =>
    store ELEM (fun l => (.state, sbase + j * C + offs l)) (fun l => m (.state, sbase + (j + 1) * C + offs l)) m) m
  store ELEM (fun l => (.state, sbase + (KTAPS - 2) * C + offs l)) xn m

/-- The launch over `B` rows. -/
def gdnConvTiled (B : ℕ) : Except String (Mem V → Mem V → Prop) := do
  arange ELEM
  .ok (Launched (B * (C / ELEM)) (tGdnConvTiled f KTAPS C ELEM p))

end

/-! ## `_t_gdn_heads_batched` -/

structure DeltaBuffers (V : Type) where
  q : ℕ → V
  k : ℕ → V
  v : ℕ → V
  z : ℕ → V
  a : ℕ → V
  b : ℕ → V
  alog : ℕ → V
  dtb : ℕ → V
  normw : ℕ → V
  eps : V
  scale : V

variable {V : Type} [Field V] [LinearOrder V] (f : Functions V)

section

variable (NH NK HV HK : ℕ) (p : DeltaBuffers V)

def tGdnHeadsBatched (task : ℕ) (m : Mem V) : Mem V :=
  let GROUP := NH / NK
  let bb := task / NH
  let h := task % NH
  let kh := h / GROUP
  let q (c : ℕ) := p.q (bb * (NK * HK) + kh * HK + c)
  let k (c : ℕ) := p.k (bb * (NK * HK) + kh * HK + c)
  let v (r : ℕ) := p.v (bb * (NH * HV) + h * HV + r)
  let z (r : ℕ) := p.z (bb * (NH * HV) + h * HV + r)
  let a := p.a (bb * NH + h)
  let b := p.b (bb * NH + h)
  let A := f.exp (p.alog h)
  let xDt := a + p.dtb h
  let sp := if xDt ≤ guard V then f.log (1 + f.exp xDt) else xDt
  let beta := 1 / (1 + f.exp (-b))
  let qn (c : ℕ) := q c * (1 / f.sqrt (∑ e ∈ range HK, q e * q e + l2Eps V)) * p.scale
  let kn (c : ℕ) := k c * (1 / f.sqrt (∑ e ∈ range HK, k e * k e + l2Eps V))
  let sbase : ℤ := bb * (NH * HV * HK) + h * HV * HK
  let s (r c : ℕ) := m (.state, sbase + r * HK + c) * f.exp (-A * sp)
  let sk (r : ℕ) := ∑ c ∈ range HK, s r c * kn c
  let vd (r : ℕ) := beta * (v r - sk r)
  let s (r c : ℕ) := s r c + vd r * kn c
  let o (r : ℕ) := ∑ c ∈ range HK, s r c * qn c
  let m := storeTile HV HK (fun r c => (.state, sbase + r * HK + c)) s m
  let var := (∑ r ∈ range HV, o r * o r) / (HV : V)
  let on (r : ℕ) := o r * (1 / f.sqrt (var + p.eps)) * p.normw r
  let og (r : ℕ) := on r * (z r * (1 / (1 + f.exp (-z r))))
  store HV (fun r => (.out, bb * (NH * HV) + h * HV + r)) (fun r => f.toOut (og r)) m

def gdnHeadsBatched (B : ℕ) : Except String (Mem V → Mem V → Prop) := do
  arange HV
  arange HK
  tile HV HK
  .ok (Launched (B * NH) (tGdnHeadsBatched f NH NK HV HK p))

end

/-! ## `_t_kda_heads_batched` -/

structure KdaBuffers (V : Type) where
  q : ℕ → V
  k : ℕ → V
  v : ℕ → V
  f : ℕ → V
  b : ℕ → V
  dtb : ℕ → V
  alog : ℕ → V
  scale : V
  /-- A NaN is `none`. -/
  lowerBound : Option V

section

variable (H K W : ℕ) (p : KdaBuffers V)

/-- `_t_kda_heads_batched`; `W` is its `V`. -/
def tKdaHeadsBatched (task : ℕ) (m : Mem V) : Mem V :=
  let bb := task / H
  let h := task % H
  let q (c : ℕ) := p.q (bb * (H * K) + h * K + c)
  let k (c : ℕ) := p.k (bb * (H * K) + h * K + c)
  let v (r : ℕ) := p.v (bb * (H * W) + h * W + r)
  let ff (c : ℕ) := p.f (bb * (H * K) + h * K + c)
  let A := f.exp (p.alog h)
  let xDt (c : ℕ) := ff c + p.dtb (h * K + c)
  let g (c : ℕ) := match p.lowerBound with
    | some lowerBound => lowerBound * (1 / (1 + f.exp (-A * xDt c)))
    | none => -A * (if xDt c ≤ guard V then f.log (1 + f.exp (xDt c)) else xDt c)
  let beta := 1 / (1 + f.exp (-p.b (bb * H + h)))
  let qn (c : ℕ) := q c * (1 / f.sqrt (∑ e ∈ range K, q e * q e + l2Eps V)) * p.scale
  let kn (c : ℕ) := k c * (1 / f.sqrt (∑ e ∈ range K, k e * k e + l2Eps V))
  let sbase : ℤ := bb * (H * K * W) + h * K * W
  let s (c r : ℕ) := m (.state, sbase + c * W + r) * f.exp (g c)
  let kv (r : ℕ) := ∑ c ∈ range K, s c r * kn c
  let s (c r : ℕ) := s c r + kn c * (beta * (v r - kv r))
  let m := storeTile K W (fun c r => (.state, sbase + c * W + r)) s m
  let o (r : ℕ) := ∑ c ∈ range K, s c r * qn c
  store W (fun r => (.out, bb * (H * W) + h * W + r)) (fun r => f.toOut (o r)) m

def kdaHeadsBatched (B : ℕ) : Except String (Mem V → Mem V → Prop) := do
  arange K
  arange W
  tile K W
  .ok (Launched (B * H) (tKdaHeadsBatched f H K W p))

end

/-! ## `_t_kda_fused` -/

structure FusedBuffers (V : Type) where
  ids : ℕ → ℤ
  qkv : ℕ → V
  f : ℕ → V
  b : ℕ → V
  g : ℕ → V
  taps : ℕ → V
  dtb : ℕ → V
  alog : ℕ → V
  onorm : ℕ → V
  scale : V
  eps : V
  /-- A NaN is `none`. -/
  lowerBound : Option V

section

variable (H D CC KW : ℕ) (p : FusedBuffers V)

/-- `q_cols`, `k_cols`, `v_cols`. -/
def cols (h part l : ℕ) : ℕ := part * (CC / 3) + h * D + l

/-- Tap `w` of the three segments, and the shift of its row of the window. -/
def fusedTap (cbase : ℤ) (h w : ℕ) (r : (ℕ → ℕ → V) × Mem V) : (ℕ → ℕ → V) × Mem V :=
  let t (part l : ℕ) := p.taps (w * CC + cols D CC h part l)
  let s (part l : ℕ) := r.2 (.conv, cbase + w * CC + cols D CC h part l)
  let acc (part l : ℕ) := r.1 part l + t part l * s part l
  if w < KW - 1 then
    let n (part l : ℕ) := r.2 (.conv, cbase + (w + 1) * CC + cols D CC h part l)
    (acc, storeTile 3 D (fun part l => (.conv, cbase + w * CC + cols D CC h part l)) n r.2)
  else (acc, r.2)

/-- The convolution of a head: its channels, and the window moved by one. -/
def fusedChannels (slot bb h : ℕ) (m : Mem V) : (ℕ → ℕ → V) × Mem V :=
  let x (part l : ℕ) := f.bf16 (p.qkv (bb * CC + cols D CC h part l))
  let cbase : ℤ := slot * (KW * CC)
  let r := (List.range KW).foldl (fun r w => fusedTap D CC KW p cbase h w r) (fun _ _ => 0, m)
  let acc (part l : ℕ) := r.1 part l + p.taps (KW * CC + cols D CC h part l) * x part l
  let m := storeTile 3 D (fun part l => (.conv, cbase + (KW - 1) * CC + cols D CC h part l)) x r.2
  (fun part l => acc part l / (1 + f.exp (-acc part l)), m)

/-- `decay`, of a head and key dimension. -/
def tDecay (lowerBound : Option V) (A xDt : V) : V :=
  match lowerBound with
  | some bound => f.exp (bound / (1 + f.exp (-A * xDt)))
  | none => f.exp (-A * (if xDt ≤ guard V then f.log (1 + f.exp xDt) else xDt))

/-- The gate, the delta rule and the gated norm, on the channels `y`. -/
def fusedHead (slot bb h : ℕ) (y : ℕ → ℕ → V) (m : Mem V) : Mem V :=
  let q := y 0
  let k := y 1
  let v := y 2
  let fRaw (d : ℕ) := f.bf16 (p.f (bb * (H * D) + h * D + d))
  let A := f.exp (p.alog h)
  let xDt (d : ℕ) := fRaw d + p.dtb (h * D + d)
  let decay (d : ℕ) := tDecay f p.lowerBound A (xDt d)
  let beta := 1 / (1 + f.exp (-f.bf16 (p.b (bb * H + h))))
  let qn (d : ℕ) := q d * (1 / f.sqrt (∑ e ∈ range D, q e * q e + l2Eps V)) * p.scale
  let kn (d : ℕ) := k d * (1 / f.sqrt (∑ e ∈ range D, k e * k e + l2Eps V))
  let sbase : ℤ := slot * (H * D * D) + h * D * D
  let s (r d : ℕ) := m (.ssm, sbase + r * D + d) * decay d
  let t (r : ℕ) := ∑ d ∈ range D, s r d * kn d
  let delta (r : ℕ) := (v r - t r) * beta
  let s (r d : ℕ) := s r d + delta r * kn d
  let m := storeTile D D (fun r d => (.ssm, sbase + r * D + d)) s m
  let o (r : ℕ) := ∑ d ∈ range D, s r d * qn d
  let rstd := 1 / f.sqrt ((∑ r ∈ range D, o r * o r) / (D : V) + p.eps)
  let gate (r : ℕ) := 1 / (1 + f.exp (-f.bf16 (p.g (bb * (H * D) + h * D + r))))
  store D (fun r => (.out, bb * (H * D) + h * D + r))
    (fun r => f.toOut (f.bf16 (o r * rstd * p.onorm r * gate r))) m

def tKdaFusedLive (slot bb h : ℕ) (m : Mem V) : Mem V :=
  let r := fusedChannels f D CC KW p slot bb h m
  fusedHead f H D p slot bb h r.1 r.2

def tKdaFused (task : ℕ) (m : Mem V) : Mem V :=
  let bb := task / H
  let h := task % H
  let slot := p.ids bb
  if 0 ≤ slot then tKdaFusedLive f H D CC KW p slot.toNat bb h m
  else store D (fun r => (.out, bb * (H * D) + h * D + r)) (fun _ => f.toOut 0) m

def kdaFused (B : ℕ) : Except String (Mem V → Mem V → Prop) := do
  arange D
  tile D D
  .ok (Launched (B * H) (tKdaFused f H D CC KW p))

end

end VKernels.Recurrent
