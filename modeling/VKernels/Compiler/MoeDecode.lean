import VKernels.Lib.TopK
import VKernels.Lib.WorkerTasks

/-!
# Routed experts in a decode step

`_t_moe_route`, `_t_moe_expert` and `_t_moe_combine` beside the reference bodies.
-/

namespace VKernels.MoeDecode

open Finset WorkerTasks TopK
open LaneLaunch (int32)

/-! ## Arguments -/

structure Dims where
  B : ℕ
  H : ℕ
  I : ℕ
  E : ℕ
  /-- The padded lanes of the router. -/
  EP : ℕ
  K : ℕ
  B_pos : 0 < B
  H_pos : 0 < H
  I_pos : 0 < I
  K_pos : 0 < K
  K_le : K ≤ E
  E_le : E ≤ EP

/-- The routing modes, with one group of experts. -/
inductive Routing (V : Type) (d : Dims) where
  | sqrtsoftplus
  | noauxTc (bias : ℕ → V) (normTopkProb : Bool)
  | hash (tid2eid : ℕ → ℕ → Fin d.E) (tokenIds : ℕ → ℕ)

namespace Routing

variable {V : Type} {d : Dims}

def Learned : Routing V d → Prop
  | .sqrtsoftplus => True
  | .noauxTc _ _ => True
  | .hash _ _ => False

/-- `norm_topk_prob`; unconditional but for the biased router. -/
def normTopk : Routing V d → Bool
  | .sqrtsoftplus => true
  | .noauxTc _ norm => norm
  | .hash _ _ => true

def addBias [Add V] : Routing V d → ℕ → V → V
  | .noauxTc bias _, e, s => s + bias e
  | .sqrtsoftplus, _, s => s
  | .hash _ _, _, s => s

/-- The masked load of the bias. -/
def laneBias [Add V] [Zero V] : Routing V d → ℕ → V → V
  | .noauxTc bias _, e, s => s + (if e < d.E then bias e else 0)
  | .sqrtsoftplus, _, s => s
  | .hash _ _, _, s => s

end Routing

/-- The arguments of the route, and the clamp of the experts.  Tensors are by flat offsets. -/
structure Call (V : Type) where
  d : Dims
  x : ℕ → V
  routerW : ℕ → V
  routing : Routing V d
  /-- The score of a logit, `sigmoid` or `sqrtsoftplus`. -/
  score : V → V
  /-- `routed_scaling_factor`. -/
  rsf : V
  swigluLimit : Option V

section

variable (V : Type) [Field V]

/-- `1e-20`. -/
def tiny : V := 1 / ((10 ^ 20 : ℕ) : V)

/-- `neg_inf`, which is `-1.0e38`. -/
def negInf : V := -((10 ^ 38 : ℕ) : V)

end

/-! ## Reference -/

section

variable {V : Type} [Field V] [LinearOrder V]

section

variable (c : Call V) (b : ℕ)

def logits (e : ℕ) : V := ∑ h ∈ range c.d.H, c.routerW (e * c.d.H + h) * c.x (b * c.d.H + h)

def scores (e : ℕ) : V := c.score (logits c b e)

def choice (e : ℕ) : V := c.routing.addBias e (scores c b e)

/-- `np.argsort(-choice, kind="stable")[:k]`. -/
def moeTopkStable (n : ℕ) (choice : ℕ → V) (k : ℕ) : List ℕ :=
  ((List.range n).mergeSort fun a b => decide (-choice a ≤ -choice b)).take k

/-- `sel[k]`. -/
def sel (k : ℕ) : ℕ :=
  match c.routing with
  | .hash tid2eid tokenIds => tid2eid (tokenIds b) k
  | _ => (moeTopkStable c.d.E (choice c b) c.d.K).getD k 0

/-- `w / (w.sum() + 1e-20)`, if asked for. -/
def renorm (norm : Bool) (K : ℕ) (w : ℕ → V) (k : ℕ) : V :=
  if norm then w k / ((∑ k ∈ range K, w k) + tiny V) else w k

def weight (k : ℕ) : V := renorm c.routing.normTopk c.d.K (fun k => scores c b (sel c b k)) k * c.rsf

/-- `ids[r, :] = sel`. -/
def bodyMoeRouteIds : List (ℕ × ℕ) := (List.range c.d.K).map fun k => (b * c.d.K + k, sel c b k)

/-- `weights[r, :] = w * rsf`. -/
def bodyMoeRouteWeights : List (ℕ × V) := (List.range c.d.K).map fun k => (b * c.d.K + k, weight c b k)

end

/-- The tensors of the experts; the weight stacks by offsets that may leave them. -/
structure Experts (V : Type) where
  x : ℕ → V
  gateUp : ℤ → V
  down : ℤ → V
  shared : Option (ℕ → V)

section

variable (exp : V → V) (c : Call V) (t : Experts V)

def clampGate : Option V → V → V
  | none, g => g
  | some limit, g => min g limit

/-- `np.clip(u, -limit, limit)`. -/
def clampUp : Option V → V → V
  | none, u => u
  | some limit, u => min (max u (-limit)) limit

/-- `silu(g) · u`. -/
def silu (g u : V) : V := g / (1 + exp (-g)) * u

/-- Row `i` of the `2I` rows of an expert. -/
def gu (b e i : ℕ) : V :=
  ∑ h ∈ range c.d.H, t.gateUp (e * (2 * c.d.I * c.d.H) + i * c.d.H + h : ℕ) * t.x (b * c.d.H + h)

def act (b e i : ℕ) : V :=
  silu exp (clampGate c.swigluLimit (gu c t b e i)) (clampUp c.swigluLimit (gu c t b e (c.d.I + i)))

/-- `partials[r, s, :] = down[e] @ act`. -/
def bodyMoeExpert (ids : ℕ → ℕ) (rs : ℕ × ℕ) : List (ℕ × V) :=
  let e := ids (rs.1 * c.d.K + rs.2)
  (List.range c.d.H).map fun h =>
    ((rs.1 * c.d.K + rs.2) * c.d.H + h,
      ∑ i ∈ range c.d.I, t.down (e * (c.d.H * c.d.I) + h * c.d.I + i : ℕ) * act exp c t rs.1 e i)

def addShared : Option (ℕ → V) → ℕ → V → V
  | none, _, acc => acc
  | some shared, i, acc => acc + shared i

/-- `y[r, :] = Σ_s weights[r, s] · partials[r, s]`, then the shared expert. -/
def bodyMoeCombine (weights partials : ℕ → V) (r : ℕ) : List (ℕ × V) :=
  (List.range c.d.H).map fun h =>
    (r * c.d.H + h, addShared t.shared (r * c.d.H + h)
      ((List.range c.d.K).foldl (fun acc s => acc + weights (r * c.d.K + s) * partials ((r * c.d.K + s) * c.d.H + h)) 0))

def expertCoords : List (ℕ × ℕ) := (List.range c.d.B).flatMap fun r => (List.range c.d.K).map fun s => (r, s)

end

/-! ## Device -/

section

variable (c : Call V) (b : ℕ)

/-- `se` on lane `e`, the router rows masked. -/
def laneLogits (e : ℕ) : V :=
  ∑ h ∈ range c.d.H, (if e < c.d.E then c.routerW (e * c.d.H + h) else 0) * c.x (b * c.d.H + h)

def laneScores (e : ℕ) : V := c.score (laneLogits c b e)

def laneChoice (e : ℕ) : V := if e < c.d.E then c.routing.laneBias e (laneScores c b e) else negInf V

/-- The selection state of a row. -/
structure Selection (V : Type) where
  choice : ℕ → V
  sel : ℕ → ℕ
  wsel : ℕ → V

/-- One round: the first maximum of the lanes is taken and then masked. -/
def roundStep (s : Selection V) (kk : ℕ) : Selection V :=
  let best := argmax c.d.EP s.choice
  let wBest := ∑ e ∈ range c.d.EP, if e = best then laneScores c b e else 0
  { choice := fun e => if e = best then negInf V else s.choice e
    sel := fun k => if k = kk then best else s.sel k
    wsel := fun k => if k = kk then wBest else s.wsel k }

def rounds (n : ℕ) : Selection V := (List.range n).foldl (roundStep c b) ⟨laneChoice c b, fun _ => 0, fun _ => 0⟩

def laneSel (k : ℕ) : ℕ :=
  match c.routing with
  | .hash tid2eid tokenIds => tid2eid (tokenIds b) k
  | _ => (rounds c b c.d.K).sel k

/-- `wsel` before the scaling. -/
def laneWsel (k : ℕ) : V :=
  match c.routing with
  | .hash _ _ => ∑ e ∈ range c.d.EP, if e = laneSel c b k then laneScores c b e else 0
  | _ => (rounds c b c.d.K).wsel k

/-- The stores of `_t_moe_route` to `ids`. -/
def idsTask : List (ℕ × ℕ) := (List.range c.d.K).map fun k => (b * c.d.K + k, laneSel c b k)

/-- The stores of `_t_moe_route` to `weights`. -/
def weightsTask : List (ℕ × V) :=
  (List.range c.d.K).map fun k => (b * c.d.K + k, renorm c.routing.normTopk c.d.K (laneWsel c b) k * c.rsf)

end

end

section

variable (d : Dims)

/-- `(e * 2 * I) * H`. -/
def wbase (e : ℕ) : ℤ := int32 (int32 (int32 (e * 2) * d.I) * d.H)

def gateAddr (e i h : ℕ) : ℤ := int32 (int32 (wbase d e + int32 (i * d.H)) + h)

def upAddr (e i h : ℕ) : ℤ := int32 (int32 (wbase d e + int32 (int32 (d.I + i) * d.H)) + h)

/-- `(e * H) * I + h * I + i`. -/
def downAddr (e h i : ℕ) : ℤ := int32 (int32 (int32 (int32 (e * d.H) * d.I) + int32 (h * d.I)) + i)

/-- An offset in block `e` of blocks of `size`. -/
def InBlock (size e : ℕ) (addr : ℤ) : Prop := (e * size : ℕ) ≤ addr ∧ addr < ((e + 1) * size : ℕ)

/-- Every weight read for expert `e` is one of expert `e`. -/
def ReadsExpert (e : ℕ) : Prop :=
  ∀ i < d.I, ∀ h < d.H, InBlock (2 * d.I * d.H) e (gateAddr d e i h) ∧
    InBlock (2 * d.I * d.H) e (upAddr d e i h) ∧ InBlock (d.H * d.I) e (downAddr d e h i)

end

section

variable {V : Type} [Field V] [LinearOrder V] (exp : V → V) (c : Call V)

section

variable (t : Experts V)

/-- `LIMIT`: 0.0 encodes "unclamped". -/
def limit : V := c.swigluLimit.getD 0

def laneGate (b e i : ℕ) : V := ∑ h ∈ range c.d.H, t.gateUp (gateAddr c.d e i h) * t.x (b * c.d.H + h)

def laneUp (b e i : ℕ) : V := ∑ h ∈ range c.d.H, t.gateUp (upAddr c.d e i h) * t.x (b * c.d.H + h)

def laneAct (b e i : ℕ) : V :=
  if 0 < limit c then
    silu exp (min (laneGate c t b e i) (limit c)) (min (max (laneUp c t b e i) (-limit c)) (limit c))
  else silu exp (laneGate c t b e i) (laneUp c t b e i)

/-- `_t_moe_expert`, one task. -/
def expertTask (ids : ℕ → ℕ) (task : ℕ) : List (ℕ × V) :=
  let b := task / c.d.K
  let s := task % c.d.K
  let e := ids (b * c.d.K + s)
  (List.range c.d.H).map fun h =>
    ((b * c.d.K + s) * c.d.H + h,
      ∑ i ∈ range c.d.I, t.down (downAddr c.d e h i) * laneAct exp c t b e i)

/-- `_t_moe_combine`, one task. -/
def combineTask (weights partials : ℕ → V) (b : ℕ) : List (ℕ × V) :=
  (List.range c.d.H).map fun h =>
    (b * c.d.H + h, addShared t.shared (b * c.d.H + h)
      ((List.range c.d.K).foldl (fun acc s => acc + weights (b * c.d.K + s) * partials ((b * c.d.K + s) * c.d.H + h)) 0))

end

/-! ## Agreement -/

/-- The four buffers of the step. -/
@[ext] structure Buffers (V : Type) where
  ids : ℕ → ℕ
  weights : ℕ → V
  partials : ℕ → V
  y : ℕ → V

def reference (t : Experts V) (m : Buffers V) : Buffers V :=
  let ids := runTasks (List.range c.d.B) (bodyMoeRouteIds c) m.ids
  let weights := runTasks (List.range c.d.B) (bodyMoeRouteWeights c) m.weights
  let partials := runTasks (expertCoords c) (bodyMoeExpert exp c t ids) m.partials
  ⟨ids, weights, partials, runTasks (List.range c.d.B) (bodyMoeCombine c t weights partials) m.y⟩

/-- What `P` workers may leave, one launch after another. -/
structure Leaves (P : ℕ) (t : Experts V) (m m' : Buffers V) : Prop where
  ids : Launched P c.d.B (idsTask c) m.ids m'.ids
  weights : Launched P c.d.B (weightsTask c) m.weights m'.weights
  partials : Launched P (c.d.B * c.d.K) (expertTask exp c t m'.ids) m.partials m'.partials
  y : Launched P c.d.B (combineTask c t m'.weights m'.partials) m.y m'.y

/-- The ids of a row are `K` experts. -/
def DistinctExperts (ids : ℕ → ℕ) (b : ℕ) : Prop :=
  (∀ k < c.d.K, ids (b * c.d.K + k) < c.d.E) ∧
    ∀ k < c.d.K, ∀ k' < c.d.K, ids (b * c.d.K + k) = ids (b * c.d.K + k') → k = k'

/-- **The device step is the reference step**: for any workers, expert tensors and old contents it leaves the same
buffers, the ids of a learned row are `K` experts, and the weights read are those of the routed expert. -/
def Agrees : Prop :=
  ∀ (P : ℕ) (t : Experts V) (m m' : Buffers V), 0 < P → Leaves exp c P t m m' →
    m' = reference exp c t m ∧
    (c.routing.Learned → ∀ b < c.d.B, DistinctExperts c m'.ids b) ∧
    ∀ b < c.d.B, ∀ s < c.d.K, ReadsExpert c.d (m'.ids (b * c.d.K + s))

/-- Expert `e` is in the table at the token, or fewer than `K` experts beat it. -/
def Routed (b e : ℕ) : Prop :=
  match c.routing with
  | .hash tid2eid tokenIds => ∃ k < c.d.K, (tid2eid (tokenIds b) k : ℕ) = e
  | _ => Chosen c.d.E (choice c b) c.d.K e

/-- The limit is positive or none; a routed expert is not hidden behind the sentinel, and ends within the first `2 ^ 31`
weights. -/
def Holds : Prop :=
  (∀ L, c.swigluLimit = some L → 0 < L) ∧
    ∀ b < c.d.B, ∀ e < c.d.E, Routed c b e →
      (c.routing.Learned → Visible c.d.EP (negInf V) c.d.E (choice c b) e) ∧ (e + 1) * (2 * c.d.I * c.d.H) ≤ 2 ^ 31

end

end VKernels.MoeDecode
