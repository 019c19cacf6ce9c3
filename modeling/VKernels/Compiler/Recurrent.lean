import VKernels.Lib.OwnedTasks

/-!
# Recurrent decode operators

The reference bodies of `gdn_conv`, `gdn_delta`, `kda_delta`, `kda_fused_decode` and `rms_norm_gated`: one task each, on
the persistent pools and the outputs of its operator, with exact arithmetic between the roundings.

* `Functions` — the exponential and the other functions that the bodies call.
* `ConvShape.tasks`, … — the tasks of a family.
-/

namespace VKernels.Recurrent

open Finset LocalActions OwnedTasks
open Grouping (blocksFor)

structure Functions (V : Type) where
  exp : V → V
  log : V → V
  sqrt : V → V
  /-- `bf16_round`. -/
  bf16 : V → V
  /-- The conversion to the type of an output. -/
  toOut : V → V

section

variable (V : Type) [Field V]

/-- `1e-6`. -/
def l2Eps : V := 1 / ((1000000 : ℕ) : V)

def guard : V := ((20 : ℕ) : V)

end

/-! ## The delta rule -/

section

variable {V : Type} [Field V] (f : Functions V) (n : ℕ)

/-- A row over its length, `1e-6` under the root. -/
def l2norm (x : ℕ → V) (d : ℕ) : V := x d / f.sqrt (∑ e ∈ range n, x e * x e + l2Eps V)

/-- `s + (beta * (v - s @ kn))[:, None] * kn[None, :]`. -/
def deltaUpdate (beta : V) (v kn : ℕ → V) (s : ℕ → ℕ → V) (r c : ℕ) : V :=
  s r c + beta * (v r - ∑ e ∈ range n, s r e * kn e) * kn c

/-- `s @ qn`. -/
def readout (s : ℕ → ℕ → V) (qn : ℕ → V) (r : ℕ) : V := ∑ c ∈ range n, s r c * qn c

/-- `mean(x * x)`. -/
def meanSquare (x : ℕ → V) : V := (∑ r ∈ range n, x r * x r) / (n : V)

variable {f n}

lemma l2norm_congr {x x' : ℕ → V} (hx : ∀ e < n, x e = x' e) {d : ℕ} (hd : d < n) :
    l2norm f n x d = l2norm f n x' d := by
  have hsum : ∑ e ∈ range n, x e * x e = ∑ e ∈ range n, x' e * x' e :=
    sum_congr rfl fun e he => by rw [hx e (mem_range.mp he)]
  rw [l2norm, l2norm, hsum, hx d hd]

lemma deltaUpdate_congr {beta : V} {v v' kn kn' : ℕ → V} {s s' : ℕ → ℕ → V} {r c : ℕ} (hv : v r = v' r)
    (hkn : ∀ e < n, kn e = kn' e) (hs : ∀ e < n, s r e = s' r e) (hc : c < n) :
    deltaUpdate n beta v kn s r c = deltaUpdate n beta v' kn' s' r c := by
  have hsum : ∑ e ∈ range n, s r e * kn e = ∑ e ∈ range n, s' r e * kn' e :=
    sum_congr rfl fun e he => by rw [hs e (mem_range.mp he), hkn e (mem_range.mp he)]
  rw [deltaUpdate, deltaUpdate, hsum, hv, hkn c hc, hs c hc]

lemma readout_congr {s s' : ℕ → ℕ → V} {qn qn' : ℕ → V} {r : ℕ} (hs : ∀ e < n, s r e = s' r e)
    (hqn : ∀ e < n, qn e = qn' e) : readout n s qn r = readout n s' qn' r :=
  sum_congr rfl fun e he => by rw [hs e (mem_range.mp he), hqn e (mem_range.mp he)]

lemma meanSquare_congr {x x' : ℕ → V} (hx : ∀ e < n, x e = x' e) : meanSquare n x = meanSquare n x' := by
  have hsum : ∑ e ∈ range n, x e * x e = ∑ e ∈ range n, x' e * x' e :=
    sum_congr rfl fun e he => by rw [hx e (mem_range.mp he)]
  rw [meanSquare, meanSquare, hsum]

end

/-! ## `gdn_conv` -/

/-- Rows, taps but one, channels, and the channels of a tile. -/
structure ConvShape where
  B : ℕ
  Km1 : ℕ
  C : ℕ
  tile : ℕ

inductive ConvLoc where
  | state (b j c : ℕ)
  | out (b c : ℕ)
  deriving DecidableEq

structure ConvInputs (V : Type) where
  x : ℕ → ℕ → V
  w : ℕ → ℕ → V

/-- Rows and channel tiles. -/
def ConvShape.tasks (s : ConvShape) : List (ℕ × ℕ) := List.range s.B ×ˢ List.range (blocksFor s.tile s.C)

section

variable {V : Type} [Field V] (f : Functions V) (s : ConvShape) (i : ConvInputs V)

/-- The taps over the state and the new row. -/
def convAcc (m : ConvLoc → V) (b c : ℕ) : V :=
  ∑ j ∈ range s.Km1, m (.state b j c) * i.w c j + i.x b c * i.w c s.Km1

/-- `_body_gdn_conv`. -/
def bodyGdnConv (t : ℕ × ℕ) : Action ConvLoc V := fun m =>
  let b := t.1
  let c0 := t.2 * s.tile
  let c1 := min ((t.2 + 1) * s.tile) s.C
  let acc (l : ℕ) := convAcc s i m b (c0 + l)
  storeRow (c1 - c0) (fun l => .out b (c0 + l)) (fun l => f.toOut (acc l / (1 + f.exp (-acc l)))) ++
    -- state[j] <- state[j + 1]; state[K - 2] <- x
    storeRows s.Km1 (c1 - c0) (fun j l => .state b j (c0 + l))
      fun j l => if j + 1 < s.Km1 then m (.state b (j + 1) (c0 + l)) else i.x b (c0 + l)

end

/-! ## `gdn_delta` -/

structure DeltaShape where
  B : ℕ
  NV : ℕ
  NK : ℕ
  HV : ℕ
  HK : ℕ

inductive DeltaLoc where
  | state (b h r c : ℕ)
  | out (b h r : ℕ)
  deriving DecidableEq

structure DeltaInputs (V : Type) where
  q : ℕ → ℕ → ℕ → V
  k : ℕ → ℕ → ℕ → V
  v : ℕ → ℕ → ℕ → V
  z : ℕ → ℕ → ℕ → V
  a : ℕ → ℕ → V
  b : ℕ → ℕ → V
  aLog : ℕ → V
  dtBias : ℕ → V
  normW : ℕ → V
  scale : V
  eps : V

/-- Rows and value heads. -/
def DeltaShape.tasks (s : DeltaShape) : List (ℕ × ℕ) := List.range s.B ×ˢ List.range s.NV

section

variable {V : Type} [Field V] [LinearOrder V] (f : Functions V)

section

variable (s : DeltaShape) (i : DeltaInputs V)

/-- The decay of a value head. -/
def gdnDecay (bb h : ℕ) : V :=
  let xDt := i.a bb h + i.dtBias h
  let softplusX := if xDt ≤ guard V then f.log (1 + f.exp xDt) else xDt
  f.exp (-f.exp (i.aLog h) * softplusX)

/-- The new state of a value head. -/
def gdnState (m : DeltaLoc → V) (bb h : ℕ) : ℕ → ℕ → V :=
  let kh := h / (s.NV / s.NK)
  let beta := 1 / (1 + f.exp (-i.b bb h))
  deltaUpdate s.HK beta (i.v bb h) (l2norm f s.HK (i.k bb kh)) fun r c => m (.state bb h r c) * gdnDecay f i bb h

/-- Its readout, normalised and gated. -/
def gdnOut (m : DeltaLoc → V) (bb h r : ℕ) : V :=
  let kh := h / (s.NV / s.NK)
  let o := readout s.HK (gdnState f s i m bb h) fun c => l2norm f s.HK (i.q bb kh) c * i.scale
  let on := o r / f.sqrt (meanSquare s.HV o + i.eps) * i.normW r
  on * (i.z bb h r / (1 + f.exp (-i.z bb h r)))

/-- `_body_gdn_delta`. -/
def bodyGdnDelta (t : ℕ × ℕ) : Action DeltaLoc V := fun m =>
  storeRows s.HV s.HK (fun r c => .state t.1 t.2 r c) (gdnState f s i m t.1 t.2) ++
    storeRow s.HV (fun r => .out t.1 t.2 r) fun r => f.toOut (gdnOut f s i m t.1 t.2 r)

end

/-! ## `kda_delta` -/

structure KdaShape where
  B : ℕ
  H : ℕ
  K : ℕ
  V : ℕ

inductive KdaLoc where
  | state (b h k v : ℕ)
  | out (b h v : ℕ)
  deriving DecidableEq

structure KdaInputs (V : Type) where
  q : ℕ → ℕ → ℕ → V
  k : ℕ → ℕ → ℕ → V
  v : ℕ → ℕ → ℕ → V
  f : ℕ → ℕ → ℕ → V
  b : ℕ → ℕ → V
  dtBias : ℕ → ℕ → V
  aLog : ℕ → V
  scale : V
  lowerBound : Option V

/-- Rows and heads. -/
def KdaShape.tasks (s : KdaShape) : List (ℕ × ℕ) := List.range s.B ×ˢ List.range s.H

section

variable (s : KdaShape) (i : KdaInputs V)

/-- The log gate of a head and key dimension. -/
def kdaLogGate (lowerBound : Option V) (A xDt : V) : V :=
  match lowerBound with
  | some bound => bound / (1 + f.exp (-A * xDt))
  | none => -A * (if xDt ≤ guard V then f.log (1 + f.exp xDt) else xDt)

/-- The decayed state, by key and value dimension. -/
def kdaDecayed (m : KdaLoc → V) (bb h k v : ℕ) : V :=
  m (.state bb h k v) * f.exp (kdaLogGate f i.lowerBound (f.exp (i.aLog h)) (i.f bb h k + i.dtBias h k))

/-- The new state of a head. -/
def kdaState (m : KdaLoc → V) (bb h k v : ℕ) : V :=
  let beta := 1 / (1 + f.exp (-i.b bb h))
  let kn := l2norm f s.K (i.k bb h)
  let kvMem := ∑ e ∈ range s.K, kdaDecayed f i m bb h e v * kn e
  kdaDecayed f i m bb h k v + kn k * (beta * (i.v bb h v - kvMem))

/-- Its plain readout. -/
def kdaOut (m : KdaLoc → V) (bb h v : ℕ) : V :=
  ∑ k ∈ range s.K, kdaState f s i m bb h k v * (l2norm f s.K (i.q bb h) k * i.scale)

/-- `_body_kda_delta`. -/
def bodyKdaDelta (t : ℕ × ℕ) : Action KdaLoc V := fun m =>
  storeRows s.K s.V (fun k v => .state t.1 t.2 k v) (kdaState f s i m t.1 t.2) ++
    storeRow s.V (fun v => .out t.1 t.2 v) fun v => f.toOut (kdaOut f s i m t.1 t.2 v)

end

/-! ## `kda_fused_decode` -/

structure FusedShape where
  slots : ℕ
  B : ℕ
  H : ℕ
  /-- Taps but one. -/
  Kw : ℕ
  K : ℕ

namespace FusedShape

variable (s : FusedShape)

/-- The channels of the q, k and v segments. -/
def seg : ℕ := s.H * s.K

/-- Channel `l` of a head in segment `part`. -/
def col (h part l : ℕ) : ℕ := part * s.seg + (h * s.K + l)

/-- Rows and heads. -/
def tasks : List (ℕ × ℕ) := List.range s.B ×ˢ List.range s.H

end FusedShape

inductive FusedLoc where
  | conv (slot j c : ℕ)
  | ssm (slot h v k : ℕ)
  | out (b h v : ℕ)
  deriving DecidableEq

structure FusedInputs (V : Type) where
  slotIds : ℕ → ℤ
  qkvRaw : ℕ → ℕ → V
  fRaw : ℕ → ℕ → ℕ → V
  bRaw : ℕ → ℕ → V
  gRaw : ℕ → ℕ → ℕ → V
  /-- Time-major. -/
  taps : ℕ → ℕ → V
  dtBias : ℕ → ℕ → V
  aLog : ℕ → V
  oNorm : ℕ → V
  scale : V
  eps : V
  lowerBound : Option V

section

variable (s : FusedShape) (i : FusedInputs V)

/-- The decay of a head and key dimension. -/
def fusedDecay (lowerBound : Option V) (A xx : V) : V :=
  match lowerBound with
  | some bound => f.exp (bound * (1 / (1 + f.exp (-A * xx))))
  | none => f.exp (-A * (if xx ≤ guard V then f.log (1 + f.exp (min xx (guard V))) else xx))

lemma fusedDecay_eq (bound : Option V) (A xx : V) : fusedDecay f bound A xx = f.exp (kdaLogGate f bound A xx) := by
  cases bound with
  | some bound => simp only [fusedDecay, kdaLogGate, mul_one_div]
  | none =>
    simp only [fusedDecay, kdaLogGate]
    split
    · rw [min_eq_left (by assumption)]
    · rfl

/-- The convolved channels of a head: SiLU of the taps over the window and the rounded row. -/
def fusedConv (m : FusedLoc → V) (slot bb h part l : ℕ) : V :=
  let c := s.col h part l
  let x := f.bf16 (i.qkvRaw bb c)
  let acc := ∑ j ∈ range s.Kw, i.taps j c * m (.conv slot j c) + i.taps s.Kw c * x
  acc * (1 / (1 + f.exp (-acc)))

/-- The new state of a head, V-major. -/
def fusedState (m : FusedLoc → V) (slot bb h : ℕ) : ℕ → ℕ → V :=
  let decay (d : ℕ) := fusedDecay f i.lowerBound (f.exp (i.aLog h)) (f.bf16 (i.fRaw bb h d) + i.dtBias h d)
  let beta := 1 / (1 + f.exp (-f.bf16 (i.bRaw bb h)))
  deltaUpdate s.K beta (fusedConv f s i m slot bb h 2) (l2norm f s.K (fusedConv f s i m slot bb h 1))
    fun r d => m (.ssm slot h r d) * decay d

/-- Its readout under the gated norm. -/
def fusedOut (m : FusedLoc → V) (slot bb h r : ℕ) : V :=
  let o := readout s.K (fusedState f s i m slot bb h) fun d => l2norm f s.K (fusedConv f s i m slot bb h 0) d * i.scale
  let rstd := 1 / f.sqrt (meanSquare s.K o + i.eps)
  let gate := 1 / (1 + f.exp (-f.bf16 (i.gRaw bb h r)))
  o r * rstd * i.oNorm r * gate

/-- The window of a head's channels, moved by one. -/
def fusedWindow (m : FusedLoc → V) (slot bb j c : ℕ) : V :=
  if j + 1 < s.Kw then m (.conv slot (j + 1) c) else f.bf16 (i.qkvRaw bb c)

def bodyKdaFusedLive (slot bb h : ℕ) : Action FusedLoc V := fun m =>
  ((List.range s.Kw).flatMap fun j => storeRows 3 s.K (fun part l => .conv slot j (s.col h part l))
      fun part l => fusedWindow f s i m slot bb j (s.col h part l)) ++
    (storeRows s.K s.K (fun r d => .ssm slot h r d) (fusedState f s i m slot bb h) ++
      storeRow s.K (fun r => .out bb h r) fun r => f.toOut (f.bf16 (fusedOut f s i m slot bb h r)))

/-- `_body_kda_fused_decode`. -/
def bodyKdaFusedDecode (t : ℕ × ℕ) : Action FusedLoc V := fun m =>
  if i.slotIds t.1 < 0 then storeRow s.K (fun r => .out t.1 t.2 r) fun _ => f.toOut 0
  else bodyKdaFusedLive f s i (i.slotIds t.1).toNat t.1 t.2 m

end

/-! ## `rms_norm_gated` -/

/-- Rows and heads. -/
structure NormShape where
  B : ℕ
  H : ℕ
  V : ℕ

inductive NormLoc where
  | out (b h v : ℕ)
  deriving DecidableEq

def NormShape.tasks (s : NormShape) : List (ℕ × ℕ) := List.range s.B ×ˢ List.range s.H

section

variable (s : NormShape)

/-- `_stable_sigmoid`. -/
def stableSigmoid (g : V) : V := if 0 ≤ g then 1 / (1 + f.exp (-g)) else f.exp g / (1 + f.exp g)

/-- `_body_rms_norm_gated`, one head row. -/
def bodyRmsNormGated (x gate : ℕ → ℕ → ℕ → V) (weight : ℕ → V) (eps : V) (t : ℕ × ℕ) : Action NormLoc V := fun _ =>
  let row := x t.1 t.2
  let rstd := 1 / f.sqrt (meanSquare s.V row + eps)
  storeRow s.V (fun v => .out t.1 t.2 v) fun v => f.toOut (row v * rstd * weight v * stableSigmoid f (gate t.1 t.2 v))

end

end

end VKernels.Recurrent
