import VKernels.Compiler.MegakernelKv
import VKernels.Compiler.TaskIR
import VKernels.Lib.LaneLaunch
import VKernels.Lib.OnlineSoftmax
import VKernels.Lib.PingPong

/-!
# The two-series entry pool

`compressor_append`: at every `m`-token boundary a row emits one compressed entry into the active slot of its series.

* `referenceBody` — `_body_compressor_append`, one task; `emitted` is the entry.
* `deviceBody` — `_t_compressor_append`, one task; offsets are in 32-bit arithmetic.
-/

namespace VKernels.CompressorAppend

open Compiler LaneLaunch LocalActions
open Megakernel (pyTuple)
open OnlineSoftmax (maxFrom)

/-! ## Capture and lowering -/

/-- A captured call. -/
structure Geometry where
  rows : ℕ
  layers : ℕ
  m : ℕ
  r : ℕ
  half : ℕ
  m_pos : 0 < m
  r_pos : 0 < r
  m_dvd : m ∣ r

namespace Geometry

variable (g : Geometry)

/-- Entries of a series. -/
def R : ℕ := g.r / g.m

/-- The width of an entry. -/
def d : ℕ := 2 * g.half

lemma R_pos : 0 < g.R := Nat.div_pos (Nat.le_of_dvd g.r_pos g.m_dvd) g.m_pos

lemma half_eq : g.d / 2 = g.half := by
  simp [d]

def tasks : ℕ := g.rows * g.layers

end Geometry

/-- The shapes of the arguments of a call. -/
structure Shapes where
  entryPool : ℕ × ℕ × ℕ × ℕ × ℕ
  seriesState : List ℕ
  window : ℕ × ℕ × ℕ
  gates : ℕ × ℕ
  rmsWeight : List ℕ
  cos : ℕ × ℕ
  sin : List ℕ

def rotates (m r : ℤ) : Prop := ¬(m ≤ 0 ∨ r ≤ 0 ∨ r % m ≠ 0)

instance (m r : ℤ) : Decidable (rotates m r) := inferInstanceAs (Decidable (¬_))

section

variable {m r : ℤ} (h : rotates m r)
include h

lemma rotates.m_pos : 0 < m.toNat := by
  unfold rotates at h
  omega

lemma rotates.r_pos : 0 < r.toNat := by
  unfold rotates at h
  omega

lemma rotates.m_dvd : m.toNat ∣ r.toNat := by
  unfold rotates at h
  rw [← Int.natCast_dvd_natCast, Int.toNat_of_nonneg (by omega), Int.toNat_of_nonneg (by omega)]
  exact Int.dvd_of_emod_eq_zero (by omega)

end

/-- The checks of `compressor_append`. -/
def capture (name : String) (m r : ℤ) (s : Shapes) : Except String Geometry :=
  if h : rotates m r then
    let (b, mw, d) := s.window
    let (bg, mg) := s.gates
    let (be, le, slots, re, de) := s.entryPool
    let (bc, dh) := s.cos
    let R := r.toNat / m.toNat
    if (mw : ℤ) ≠ m then .error (name ++ ": window token axis " ++ toString mw ++ " != m=" ++ toString m)
    else if (bg, (mg : ℤ)) ≠ (b, m) then
      .error (name ++ ": gates " ++ pyTuple [bg, mg] ++ " != [" ++ toString b ++ ", " ++ toString m ++ "]")
    else if (be, slots, re, de) ≠ (b, 2, R, d) then
      .error (name ++ ": entry_pool " ++ pyTuple [be, le, slots, re, de] ++ " != [B=" ++ toString b ++ ", L, 2, R=" ++
        toString R ++ ", D=" ++ toString d ++ "]")
    else if s.seriesState ≠ [b, le, 2] then
      .error (name ++ ": series_state " ++ pyTuple s.seriesState ++ " != [" ++ toString b ++ ", " ++ toString le ++
        ", 2]")
    else if s.rmsWeight ≠ [d] then
      .error (name ++ ": rms_weight " ++ pyTuple s.rmsWeight ++ " != [" ++ toString d ++ "]")
    else if bc ≠ b ∨ s.sin ≠ [b, dh] ∨ 2 * dh ≠ d then
      .error (name ++ ": cos/sin must be [B=" ++ toString b ++ ", D/2=" ++ toString (d / 2) ++ "]; got " ++
        pyTuple [bc, dh] ++ " / " ++ pyTuple s.sin)
    else .ok ⟨b, le, m.toNat, r.toNat, dh, h.m_pos, h.r_pos, h.m_dvd⟩
  else .error (name ++ ": series rotation needs r % m == 0; got m=" ++ toString m ++ ", r=" ++ toString r)

def Geometry.shapes (g : Geometry) : Shapes where
  entryPool := (g.rows, g.layers, 2, g.R, g.d)
  seriesState := [g.rows, g.layers, 2]
  window := (g.rows, g.m, g.d)
  gates := (g.rows, g.m)
  rmsWeight := [g.d]
  cos := (g.rows, g.half)
  sin := [g.rows, g.half]

/-- `lower_compressor_append`: the domain has one task per row and layer. -/
def lower (location : String) (m r : ℤ) (s : Shapes) : Except String TileDomain :=
  if ¬rotates m r then
    .error ("compressor_append " ++ location ++ ": needs r % m == 0; got m=" ++ toString m ++ ", r=" ++ toString r)
  else if (s.window.2.1 : ℤ) ≠ m then
    .error ("compressor_append " ++ location ++ ": window token axis " ++ toString s.window.2.1 ++ " != m=" ++
      toString m)
  else .ok ⟨[(s.window.1, 1), (s.entryPool.2.1, 1)]⟩

def Geometry.domain (g : Geometry) : TileDomain := ⟨[(g.rows, 1), (g.layers, 1)]⟩

/-! ## Memory and inputs -/

section

variable {V : Type}

/-- The entry pool and the series state, row-major. -/
structure Memory (V : Type) where
  pool : ℤ → V
  state : ℤ → ℤ

/-- What one decode step reads, row-major. -/
structure Inputs (V : Type) where
  window : ℤ → V
  gates : ℤ → V
  rmsWeight : ℤ → V
  cos : ℤ → V
  sin : ℤ → V
  positions : ℤ → ℤ
  p : ℤ

inductive PositionForm where
  | scalar
  | row
  deriving DecidableEq

/-- `_row_pos_value`. -/
def rowPosValue (form : PositionForm) (x : Inputs V) (b : ℤ) : ℤ :=
  match form with
  | .scalar => x.p
  | .row => x.positions b

/-- Address of an element of the pool. -/
def Geometry.at (g : Geometry) (task slot cb i : ℤ) : ℤ := (task * 2 + slot) * g.R * g.d + cb * g.d + i

def entryStores (addr : ℕ → ℤ) (n : ℕ) (v : ℕ → V) : List (ℤ × V) := (List.range n).map fun i => (addr i, v i)

/-- The arithmetic of both bodies. -/
structure Numerics (V : Type) where
  exp : V → V
  sqrt : V → V
  /-- The rounding of the pool's element type. -/
  astype : V → V
  eps : V

/-- An index of an axis of numpy. -/
def axisIndex (size : ℕ) (i : ℤ) : Option ℤ :=
  if 0 ≤ i ∧ i < size then some i else if -size ≤ i ∧ i < 0 then some (i + size) else none

lemma axisIndex_of_lt {size : ℕ} {i : ℕ} (h : i < size) : axisIndex size i = some (i : ℤ) := by
  rw [axisIndex, if_pos ⟨Int.natCast_nonneg i, by exact_mod_cast h⟩]

end

/-! ## The reference body -/

section

variable {V : Type} [Field V] [LinearOrder V] (ops : Numerics V) (g : Geometry) (form : PositionForm) (x : Inputs V)

section

variable (b : ℕ)

/-- `gates[b]`. -/
def rowGate (t : ℕ) : V := x.gates (b * g.m + t)

/-- `g.max()`. -/
def gmax : V := ((List.range g.m).map (rowGate g x b)).max?.getD 0

def ex (t : ℕ) : V := ops.exp (rowGate g x b t - gmax g x b)

def weight (t : ℕ) : V := ex ops g x b t / ∑ u ∈ Finset.range g.m, ex ops g x b u

def folded (i : ℕ) : V := ∑ t ∈ Finset.range g.m, weight ops g x b t * x.window ((b * g.m + t) * g.d + i)

def normed (i : ℕ) : V :=
  folded ops g x b i *
      (ops.sqrt ((∑ j ∈ Finset.range g.d, folded ops g x b j * folded ops g x b j) / g.d + ops.eps))⁻¹ *
    x.rmsWeight i

/-- The two halves rotated, one behind the other. -/
def rotated (i : ℕ) : V :=
  let half := g.d / 2
  let ch (k : ℕ) := x.cos (b * half + k)
  let sh (k : ℕ) := x.sin (b * half + k)
  if i < half then normed ops g x b i * ch i - normed ops g x b (half + i) * sh i
  else normed ops g x b i * ch (i - half) + normed ops g x b (i - half) * sh (i - half)

/-- The entry that row `b` emits. -/
def emitted (i : ℕ) : V := ops.astype (rotated ops g x b i)

end

def AtBoundary (b : ℕ) : Prop := rowPosValue form x b % g.m = g.m - 1

instance (b : ℕ) : Decidable (AtBoundary g form x b) := inferInstanceAs (Decidable (_ = _))

def referenceBody (task : ℕ) (mem : Memory V) : Option (Memory V) :=
  match g.domain.coords task with
  | .ok [b, l] =>
    if ¬AtBoundary g form x b then some mem
    else do
      let t : ℤ := b * g.layers + l
      let slot := mem.state (t * 2)
      let cbLen := mem.state (t * 2 + 1)
      let si ← axisIndex 2 slot
      let ci ← axisIndex g.R cbLen
      let pool := assign (entryStores (fun i => g.at t si ci i) g.d (emitted ops g x b)) mem.pool
      if cbLen + 1 = g.R then some ⟨pool, assign [(t * 2, 1 - slot), (t * 2 + 1, 0)] mem.state⟩
      else some ⟨pool, assign [(t * 2 + 1, cbLen + 1)] mem.state⟩
  | _ => none

end

/-! ## The device body -/

def maskedLoad {α : Type} (mask : Bool) (buf : ℤ → α) (offset : ℤ) (other : α) : α :=
  if mask then buf (int32 offset) else other

namespace Device

variable {V : Type} [Field V] [LinearOrder V] (ops : Numerics V) (g : Geometry) (form : PositionForm) (x : Inputs V)

section

variable (boundary : Bool) (b : ℤ)

def gt (t : ℕ) : V := maskedLoad boundary x.gates (b * g.m + t) 0

/-- The first loop, from minus infinity. -/
def gmax : Option V := (List.range g.m).foldl (fun m t => some (maxFrom m (gt g x boundary b t))) none

/-- `tl.exp(gt - gmax)`.  A loop of at least one turn has a maximum. -/
def shifted (t : ℕ) : V := ops.exp (gt g x boundary b t - (gmax g x boundary b).getD 0)

def denom : V := (List.range g.m).foldl (fun d t => d + shifted ops g x boundary b t) 0

def acc (i : ℕ) : V :=
  (List.range g.m).foldl
    (fun a t => a + shifted ops g x boundary b t / denom ops g x boundary b *
      maskedLoad boundary x.window ((b * g.m + t) * g.d + i) 0) 0

def ms : V := (∑ i ∈ Finset.range g.d, acc ops g x boundary b i * acc ops g x boundary b i) / g.d

def e (i : ℕ) : V :=
  acc ops g x boundary b i * (1 / ops.sqrt (ms ops g x boundary b + ops.eps)) * x.rmsWeight (int32 i)

def pair (i : ℕ) : ℕ := if i < g.d / 2 then i + g.d / 2 else i - g.d / 2

/-- The partner lane, by comparing lanes. -/
def pv (i : ℕ) : V := ∑ j ∈ Finset.range g.d, if j = pair g i then e ops g x boundary b j else 0

def sign (i : ℕ) : V := if i < g.d / 2 then -1 else 1

def eRot (i : ℕ) : V :=
  let offset : ℤ := b * (g.d / 2 : ℕ) + (i % (g.d / 2) : ℕ)
  e ops g x boundary b i * maskedLoad boundary x.cos offset 0 +
    sign g i * pv ops g x boundary b i * maskedLoad boundary x.sin offset 0

end

/-- `(p % M) == (M - 1)`, where the remainder has the sign of `p`. -/
def boundary (b : ℤ) : Bool := (rowPosValue form x b).tmod g.m = g.m - 1

/-- Stores under a mask, at wrapped offsets. -/
def maskedStores {α : Type} (mask : Bool) (stores : List (ℤ × α)) : List (ℤ × α) :=
  if mask then stores.map fun st => (int32 st.1, st.2) else []

end Device

section

open Device

variable {V : Type} [Field V] [LinearOrder V] (ops : Numerics V) (g : Geometry) (form : PositionForm) (x : Inputs V)

def deviceBody (task : ℕ) (mem : Memory V) : Memory V :=
  let b : ℤ := (task / g.layers : ℕ)
  let t : ℤ := b * g.layers + (task % g.layers : ℕ)
  let mask := boundary g form x b
  let slot := maskedLoad mask mem.state (t * 2) 0
  let cb := maskedLoad mask mem.state (t * 2 + 1) 0
  let pool := assign (maskedStores mask
    (entryStores (fun i => g.at t slot cb i) g.d fun i => ops.astype (eRot ops g x mask b i))) mem.pool
  let ncb := if cb + 1 = g.R then 0 else cb + 1
  let nslot := if cb + 1 = g.R then 1 - slot else slot
  ⟨pool, assign (maskedStores mask [(t * 2, nslot), (t * 2 + 1, ncb)]) mem.state⟩

end

section

variable {V : Type} (body : Inputs V → ℕ → Memory V → Option (Memory V)) (inputs : ℕ → Inputs V)
  (orders : ℕ → List ℕ) (start : Memory V)

/-- The memory after `n` decode steps, with the tasks of every step in an order of its own. -/
def run : ℕ → Option (Memory V)
  | 0 => some start
  | n + 1 => (run n).bind fun mem => (orders n).foldlM (fun mem task => body (inputs n) task mem) mem

end

end VKernels.CompressorAppend
