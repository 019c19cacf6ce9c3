import VKernels.Lib.TileLoops
import VKernels.Moe.AlignBlockSize

/-!
# The fused MXFP4 MoE

The CPU reference of `kernels/moe_fused.cpp`: gate/up GEMM, activation, down GEMM and combine, each
over the whole aligned layout.  `float` is a field `R`, so its operations are exact; what is read
and rounded as bf16 is a type `W`.  Buffers that the stages fill are indexed by row and column, the
packed weights by the byte offsets of the source.

## Results

* `fusedMoeMxfp4Cpu_ok` — every output is the sum of `rowOut` over the rows that whole 16-row blocks
  serve, each with the expert of its block.
* `fusedMoeMxfp4Cpu_error` — the stages read `expert_ids` past its end when it has too few blocks.
-/

namespace VKernels.Moe

open TileLoops Finset
open List hiding le_refl mem_range range

/-! ## Number formats -/

/-- `R` stands for `float` and `W` for bf16. -/
structure Arith (R W : Type) where
  /-- The nibbles with exponent 3: infinities and NaN. -/
  nonFinite : UInt8 → R
  bf16ToFloat : W → R
  f32ToBf16 : R → W
  exp : R → R
  tanh : R → R

lemma atLeastTwo_two : Nat.AtLeastTwo 2 := ⟨le_refl 2⟩

lemma atLeastTwo_three : Nat.AtLeastTwo 3 := ⟨Nat.le_succ 2⟩

lemma atLeastTwo_four : Nat.AtLeastTwo 4 := ⟨Nat.le_add_left 2 2⟩

-- the literals of `R` are the same terms in every module that reads the tables
attribute [local instance] atLeastTwo_two atLeastTwo_three atLeastTwo_four

section

variable {R W : Type} [Field R] (ar : Arith R W)

/-- The E2M1 nibble decode. -/
def fp4nibToF32 (nibble : UInt8) : R :=
  let s := (nibble >>> 3) &&& 1
  let e := (nibble >>> 1) &&& 3
  let m := nibble &&& 1
  let sign : R := if s = 1 then -1 else 1
  if e = 0 then
    if m = 0 then 0 else sign * (1 / 4)
  else if e = 3 then ar.nonFinite nibble
  else sign * (2 ^ (e.toNat - 1) * if m = 1 then 3 / 2 else 1)

/-- The ue8m0 scale decode. -/
def ue8m0ToFloat (s : UInt8) : R := if s = 0xFF then 0 else 2 ^ ((s.toNat : ℤ) - 127)

/-- Pointer arithmetic. -/
def offset {α : Type} (p : ℕ → α) (k : ℕ) : ℕ → α := fun j => p (k + j)

/-- A tile of packed weights as bf16, at `k` and `n`. -/
def dequantWeightTile (packed scale : ℕ → UInt8) (groupSize stridePacked strideScaleN strideScaleK k n : ℕ) : W :=
  let kp := k / 2
  let gi := kp * 2 / groupSize
  let sc : R := ue8m0ToFloat (scale (n * strideScaleN + gi * strideScaleK))
  let pb := packed (n * stridePacked + kp)
  let nib := if k % 2 = 0 then pb &&& 0x0F else (pb >>> 4) &&& 0x0F
  ar.f32ToBf16 (fp4nibToF32 ar nib * sc)

end

/-! ## The stages -/

def blockM : ℕ := 16

def blockN : ℕ := 64

def blockK : ℕ := 64

/-- `int expert = expert_ids[mb]; if (expert < 0) continue;` -/
def withExpert {S : Type} (expertIds : List ℤ) (body : ℕ → ℕ → S → S) (s : S) (mb : ℕ) : Except String S :=
  match expertIds[mb]? with
  | none => .error outOfBounds
  | some expert => .ok (if expert < 0 then s else body mb expert.toNat s)

/-- `for mb`: the whole blocks of 16 rows. -/
def forBlocks {S : Type} (em : ℕ) (expertIds : List ℤ) (body : ℕ → ℕ → S → S) (s : S) : Except String S :=
  (List.range (em / blockM)).foldlM (withExpert expertIds body) s

/-- `[EM, 2*ispp]`, the gate half and the up half. -/
structure GateUp (R : Type) where
  gate : ℕ → ℕ → R
  up : ℕ → ℕ → R

def kSiTU : ℤ := 1

variable {R W : Type} [Field R] [Zero W] (ar : Arith R W)

section

/-- `tile_gate` of K block `kb`. -/
def gateTile (w13 w13Scale : ℕ → UInt8) (hiddenK ispp groupSize expert nb kb : ℕ) : ℕ → ℕ → W :=
  let w13ExpertBytes := 2 * ispp * (hiddenK / 2)
  let w13sExpertBytes := 2 * ispp * (hiddenK / groupSize)
  let kStart := kb * blockK
  let bGate := offset w13 (expert * w13ExpertBytes + nb * blockN * (hiddenK / 2) + kStart / 2)
  let sGate := offset w13Scale
    (expert * w13sExpertBytes + nb * blockN * (hiddenK / groupSize) + kStart / groupSize)
  dequantWeightTile ar bGate sGate groupSize (hiddenK / 2) (hiddenK / groupSize) 1

def upTile (w13 w13Scale : ℕ → UInt8) (hiddenK ispp groupSize expert nb kb : ℕ) : ℕ → ℕ → W :=
  let w13ExpertBytes := 2 * ispp * (hiddenK / 2)
  let w13sExpertBytes := 2 * ispp * (hiddenK / groupSize)
  let kStart := kb * blockK
  let bUp := offset w13 (expert * w13ExpertBytes + (nb * blockN + ispp) * (hiddenK / 2) + kStart / 2)
  let sUp := offset w13Scale
    (expert * w13sExpertBytes + (nb * blockN + ispp) * (hiddenK / groupSize) + kStart / groupSize)
  dequantWeightTile ar bUp sUp groupSize (hiddenK / 2) (hiddenK / groupSize) 1

def downTile (w2 w2Scale : ℕ → UInt8) (isppK hidden groupSize expert nb kb : ℕ) : ℕ → ℕ → W :=
  let w2ExpertBytes := hidden * (isppK / 2)
  let w2sExpertBytes := hidden * (isppK / groupSize)
  let kStart := kb * blockK
  let bDown := offset w2 (expert * w2ExpertBytes + nb * blockN * (isppK / 2) + kStart / 2)
  let sDown := offset w2Scale
    (expert * w2sExpertBytes + nb * blockN * (isppK / groupSize) + kStart / groupSize)
  dequantWeightTile ar bDown sDown groupSize (isppK / 2) (isppK / groupSize) 1

/-- The accumulator at `m` and `n` after all K blocks; `flat m` tells the padding rows. -/
def accumulate (N : ℕ) (flat : ℕ → ℕ) (numKBlocks : ℕ) (tileA tileB : ℕ → ℕ → ℕ → W) (m n : ℕ) : R :=
  (List.range numKBlocks).foldl (fun acc kb =>
    if flat m ≥ N then acc  -- padding contributes 0
    else acc + (List.range blockK).foldl (fun dot k =>
      dot + ar.bf16ToFloat (tileA kb m k) * ar.bf16ToFloat (tileB kb k n)) 0) 0

/-- Stage 0a: gate/up GEMM, before bias and activation. -/
def moeGateupCpu (A : ℕ → W) (w13 w13Scale : ℕ → UInt8) (sortedIds : ℕ → ℕ) (expertIds : List ℤ)
    (gateUp : GateUp R) (M aStride kBase hiddenK ispp topK em groupSize : ℕ) : Except String (GateUp R) :=
  let N := M * topK
  let numNBlocks := ispp / blockN
  let numKBlocks := hiddenK / blockK
  forBlocks em expertIds (fun mb expert gateUp =>
    let tokenBase := mb * blockM
    let flat := fun m => sortedIds (tokenBase + m)
    let tileA := fun kb m k =>
      if flat m < N then A (flat m / topK * aStride + kBase + kb * blockK + k) else 0
    (List.range numNBlocks).foldl (fun gateUp nb =>
      let tileGate := gateTile ar w13 w13Scale hiddenK ispp groupSize expert nb
      let tileUp := upTile ar w13 w13Scale hiddenK ispp groupSize expert nb
      { gate := writeTile blockM blockN mb nb
          (fun m n _ => accumulate ar N flat numKBlocks tileA tileGate m n) gateUp.gate
        up := writeTile blockM blockN mb nb
          (fun m n _ => accumulate ar N flat numKBlocks tileA tileUp m n) gateUp.up }) gateUp) gateUp

variable [LinearOrder R]

/-- SwiGLU or SiTU over one (gate, up) pair. -/
def epilogueValue (activation : ℤ) (g u swigluLimit beta linearBeta : R) : R :=
  if activation = kSiTU then
    let sig := 1 / (1 + ar.exp (-g))
    let gateOut := beta * ar.tanh (g / beta) * sig
    let upOut := if linearBeta > 0 then linearBeta * ar.tanh (u / linearBeta) else u
    gateOut * upOut
  else
    let (g, u) := if swigluLimit > 0 then
        let g := if g > swigluLimit then swigluLimit else g
        let u := if u > swigluLimit then swigluLimit else u
        (g, if u < -swigluLimit then -swigluLimit else u)
      else (g, u)
    let siluG := g / (1 + ar.exp (-g))
    siluG * u

/-- `if (bias) v += bias[i]`. -/
def addBias (bias : Option (ℕ → R)) (i : ℕ) (v : R) : R :=
  match bias with
  | none => v
  | some b => v + b i

/-- Stage 0b: bias and activation. -/
def moeActEpilogueCpu (gateUp : GateUp R) (b13 : Option (ℕ → R)) (act : ℕ → ℕ → W)
    (sortedIds : ℕ → ℕ) (expertIds : List ℤ) (M topK em ispp : ℕ) (swigluLimit : R)
    (activation : ℤ) (beta linearBeta : R) : Except String (ℕ → ℕ → W) :=
  let N := M * topK
  let numNBlocks := ispp / blockN
  forBlocks em expertIds (fun mb expert act =>
    let tokenBase := mb * blockM
    (List.range numNBlocks).foldl (fun act nb =>
      writeTile blockM blockN mb nb (fun m n old =>
        if sortedIds (tokenBase + m) ≥ N then old  -- padding token, skip
        else
          let g := addBias b13 (expert * (2 * ispp) + nb * blockN + n)
            (gateUp.gate (tokenBase + m) (nb * blockN + n))
          let u := addBias b13 (expert * (2 * ispp) + nb * blockN + n + ispp)
            (gateUp.up (tokenBase + m) (nb * blockN + n))
          ar.f32ToBf16 (epilogueValue ar activation g u swigluLimit beta linearBeta)) act) act) act

/-- Stage 1a: down GEMM, before bias and combine. -/
def moeDownCpu (act : ℕ → ℕ → W) (w2 w2Scale : ℕ → UInt8) (sortedIds : ℕ → ℕ) (expertIds : List ℤ)
    (partialOut : ℕ → ℕ → R) (M kBase isppK hidden topK em groupSize : ℕ) : Except String (ℕ → ℕ → R) :=
  let N := M * topK
  let numNBlocks := hidden / blockN
  let numKBlocks := isppK / blockK
  forBlocks em expertIds (fun mb expert partialOut =>
    let tokenBase := mb * blockM
    let flat := fun m => sortedIds (tokenBase + m)
    let tileA := fun kb m k =>
      if flat m < N then act (tokenBase + m) (kBase + kb * blockK + k) else 0
    (List.range numNBlocks).foldl (fun partialOut nb =>
      let tileDown := downTile ar w2 w2Scale isppK hidden groupSize expert nb
      writeTile blockM blockN mb nb
        (fun m n _ => accumulate ar N flat numKBlocks tileA tileDown m n) partialOut) partialOut)
    partialOut

omit [Zero W] [LinearOrder R] in
/-- Stage 1b: `out[M, hidden] += (partial + b2) * topk_w`. -/
def moeCombineCpu (partialOut : ℕ → ℕ → R) (b2 : Option (ℕ → R)) (topkWSorted : ℕ → R)
    (sortedIds : ℕ → ℕ) (expertIds : List ℤ) (out : ℕ → ℕ → R) (M hidden topK em : ℕ) : Except String (ℕ → ℕ → R) :=
  let N := M * topK
  let numNBlocks := hidden / blockN
  forBlocks em expertIds (fun mb expert out =>
    let tokenBase := mb * blockM
    (List.range numNBlocks).foldl (fun out nb =>
      (List.range blockM).foldl (fun out m =>
        let flat := sortedIds (tokenBase + m)
        if flat ≥ N then out  -- padding token, skip
        else
          let token := flat / topK
          let weight := topkWSorted (tokenBase + m)
          fun t c => if t = token ∧ c / blockN = nb then
            out t c + addBias b2 (expert * hidden + nb * blockN + c % blockN)
              (partialOut (tokenBase + m) c) * weight
          else out t c) out) out) out

end

/-- The arguments of the fused kernel other than the layout. -/
structure MoeArgs (R W : Type) where
  A : ℕ → W
  w13 : ℕ → UInt8
  w13Scale : ℕ → UInt8
  w2 : ℕ → UInt8
  w2Scale : ℕ → UInt8
  b13 : Option (ℕ → R)
  b2 : Option (ℕ → R)
  hidden : ℕ
  ispp : ℕ
  groupSize : ℕ
  groupSize_pos : 0 < groupSize
  swigluLimit : R
  activation : ℤ
  beta : R
  linearBeta : R

section

variable {R W : Type} [Field R] [LinearOrder R] [Zero W] (ar : Arith R W)

/-- The four stages; `act_scratch` and `out` are filled. -/
def fusedMoeMxfp4Cpu (args : MoeArgs R W) (sortedIds : ℕ → ℕ) (topkWSorted : ℕ → R)
    (expertIds : List ℤ) (actScratch : ℕ → ℕ → W) (out : ℕ → ℕ → R) (M topK em : ℕ) :
    Except String ((ℕ → ℕ → W) × (ℕ → ℕ → R)) := do
  let gateUp ← moeGateupCpu ar args.A args.w13 args.w13Scale sortedIds expertIds
    ⟨fun _ _ => 0, fun _ _ => 0⟩ M args.hidden 0 args.hidden args.ispp topK em args.groupSize
  let act ← moeActEpilogueCpu ar gateUp args.b13 actScratch sortedIds expertIds M topK em args.ispp
    args.swigluLimit args.activation args.beta args.linearBeta
  let partialOut ← moeDownCpu ar act args.w2 args.w2Scale sortedIds expertIds (fun _ _ => 0) M 0
    args.ispp args.hidden topK em args.groupSize
  let out ← moeCombineCpu partialOut args.b2 topkWSorted sortedIds expertIds out M args.hidden topK
    em
  return (act, out)

/-! ## One row -/

/-- The accumulated products of a row and a column. -/
def rowDot (numKBlocks : ℕ) (a b : ℕ → ℕ → W) : R :=
  (List.range numKBlocks).foldl (fun acc kb =>
    acc + (List.range blockK).foldl (fun dot k =>
      dot + ar.bf16ToFloat (a kb k) * ar.bf16ToFloat (b kb k)) 0) 0

variable (args : MoeArgs R W) (topK expert i : ℕ)

/-- What the routed token `i` reads of `A`. -/
def rowA (kb k : ℕ) : W := args.A (i / topK * args.hidden + 0 + kb * blockK + k)

def rowGate (c : ℕ) : R :=
  rowDot ar (args.hidden / blockK) (rowA args topK i) fun kb k =>
    gateTile ar args.w13 args.w13Scale args.hidden args.ispp args.groupSize expert (c / blockN) kb k
      (c % blockN)

def rowUp (c : ℕ) : R :=
  rowDot ar (args.hidden / blockK) (rowA args topK i) fun kb k =>
    upTile ar args.w13 args.w13Scale args.hidden args.ispp args.groupSize expert (c / blockN) kb k
      (c % blockN)

def rowAct (c : ℕ) : W :=
  ar.f32ToBf16 (epilogueValue ar args.activation
    (addBias args.b13 (expert * (2 * args.ispp) + c) (rowGate ar args topK expert i c))
    (addBias args.b13 (expert * (2 * args.ispp) + c + args.ispp) (rowUp ar args topK expert i c))
    args.swigluLimit args.beta args.linearBeta)

/-- What the routed token `i` gets from `expert`, before its weight. -/
def rowOut (c : ℕ) : R :=
  addBias args.b2 (expert * args.hidden + c)
    (rowDot ar (args.ispp / blockK) (fun kb k => rowAct ar args topK expert i (kb * blockK + k))
      fun kb k => downTile ar args.w2 args.w2Scale args.ispp args.hidden args.groupSize expert
        (c / blockN) kb k (c % blockN))

end

/-! ## Loops over blocks -/

def blockExpert (expertIds : List ℤ) (mb : ℕ) : Option ℕ :=
  expertIds[mb]?.bind fun expert => if expert < 0 then none else some expert.toNat

/-- The expert that a row is served with, if its block is whole. -/
def rowExpert (em : ℕ) (expertIds : List ℤ) (r : ℕ) : Option ℕ :=
  if r / blockM < em / blockM then blockExpert expertIds (r / blockM) else none

section

variable {S X : Type} {em : ℕ} {expertIds : List ℤ} {body : ℕ → ℕ → S → S}

def runBlocks (expertIds : List ℤ) (body : ℕ → ℕ → S → S) (n : ℕ) (s : S) : S :=
  (List.range n).foldl (fun s mb => (blockExpert expertIds mb).elim s fun e => body mb e s) s

lemma withExpert_of_lt {mb : ℕ} (h : mb < expertIds.length) (s : S) : withExpert expertIds body s mb =
      .ok ((blockExpert expertIds mb).elim s fun e => body mb e s) := by
  unfold withExpert blockExpert
  rw [getElem?_eq_getElem h]
  by_cases hneg : expertIds[mb] < 0 <;> simp [hneg]

lemma forBlocks_range {n : ℕ} (h : n ≤ expertIds.length) (s : S) :
    (List.range n).foldlM (withExpert expertIds body) s = .ok (runBlocks expertIds body n s) := by
  induction n with
  | zero => rfl
  | succ n ih =>
    have hrun : runBlocks expertIds body (n + 1) s = (blockExpert expertIds n).elim
        (runBlocks expertIds body n s) fun e => body n e (runBlocks expertIds body n s) := by
      rw [runBlocks, range_succ, foldl_append]
      rfl
    rw [range_succ, foldlM_append, ih (by omega), ok_bind, hrun, foldlM_cons, withExpert_of_lt (by omega)]
    rfl

lemma forBlocks_ok (h : em / blockM ≤ expertIds.length) (s : S) :
    forBlocks em expertIds body s = .ok (runBlocks expertIds body (em / blockM) s) :=
  forBlocks_range h s

/-- The loop reads past the end of `expert_ids`. -/
lemma forBlocks_error (h : expertIds.length < em / blockM) (s : S) :
    forBlocks em expertIds body s = .error outOfBounds := by
  unfold forBlocks
  obtain ⟨k, hk⟩ := Nat.exists_eq_add_of_lt h
  rw [show em / blockM = expertIds.length + (k + 1) by omega, List.range_add, foldlM_append,
    forBlocks_range (le_refl _), ok_bind, range_succ_eq_map, List.map_cons, foldlM_cons,
    add_zero, withExpert, getElem?_eq_none (le_refl _)]
  rfl

/-- What only the block of row `r` changes. -/
lemma runBlocks_once (read : S → X) (g : ℕ → X → X) {r : ℕ}
    (hbody : ∀ mb e s, read (body mb e s) = if r / blockM = mb then g e (read s) else read s)
    (em : ℕ) (s : S) : read (runBlocks expertIds body (em / blockM) s) =
      (rowExpert em expertIds r).elim (read s) fun e => g e (read s) := by
  have hstep : ∀ s mb, read ((blockExpert expertIds mb).elim s fun e => body mb e s) =
      if mb = r / blockM then (blockExpert expertIds (r / blockM)).elim (read s)
        (fun e => g e (read s)) else read s := by
    intro s mb
    by_cases hmb : mb = r / blockM
    · subst hmb
      rw [if_pos rfl]
      cases blockExpert expertIds _ with
      | none => rfl
      | some e => exact (hbody _ e s).trans (if_pos rfl)
    · rw [if_neg hmb]
      cases blockExpert expertIds mb with
      | none => rfl
      | some e => exact (hbody _ e s).trans (if_neg fun h => hmb h.symm)
  unfold runBlocks rowExpert
  rw [foldl_once read (fun x => (blockExpert expertIds _).elim x fun e => g e x) hstep]
  split <;> rfl

lemma runBlocks_add {M : Type} [AddCommMonoid M] (read : S → M) {δ : ℕ → ℕ → M}
    (hbody : ∀ mb e s, read (body mb e s) = read s + ∑ m ∈ range blockM, δ e (mb * blockM + m)) (em : ℕ) (s : S) :
    read (runBlocks expertIds body (em / blockM) s) = read s +
      ∑ r ∈ range (em / blockM * blockM), (rowExpert em expertIds r).elim 0 fun e => δ e r := by
  have hstep : ∀ s mb, read ((blockExpert expertIds mb).elim s fun e => body mb e s) =
      read s + (blockExpert expertIds mb).elim 0 fun e =>
        ∑ m ∈ range blockM, δ e (mb * blockM + m) := by
    intro s mb
    cases blockExpert expertIds mb with
    | none => exact (add_zero _).symm
    | some e => exact hbody mb e s
  unfold runBlocks
  rw [foldl_add read hstep, ← sum_blocks]
  congr 1
  refine sum_congr rfl fun mb hmb => ?_
  have hrow : ∀ m ∈ range blockM, rowExpert em expertIds (mb * blockM + m) = blockExpert expertIds mb := by
    intro m hm
    rw [rowExpert, Blocks.block_div mb (mem_range.mp hm), if_pos (mem_range.mp hmb)]
  rw [sum_congr rfl fun m hm => by rw [hrow m hm]]
  cases blockExpert expertIds mb with
  | none => exact sum_const_zero.symm
  | some e => rfl

lemma runBlocks_part (part : S → X) (g : ℕ → ℕ → X → X)
    (hbody : ∀ mb e s, part (body mb e s) = g mb e (part s)) (n : ℕ) (s : S) :
    part (runBlocks expertIds body n s) = runBlocks expertIds g n (part s) := by
  unfold runBlocks
  rw [← foldl_hom part]
  intro s mb
  cases blockExpert expertIds mb with
  | none => rfl
  | some e => exact (hbody mb e s).symm

lemma runBlocks_tiles {α : Type} (numNBlocks : ℕ) (f : ℕ → ℕ → ℕ → ℕ → ℕ → α → α) (em : ℕ)
    (buf : ℕ → ℕ → α) (r c : ℕ) : runBlocks expertIds (fun mb e buf => (List.range numNBlocks).foldl (fun buf nb =>
      writeTile blockM blockN mb nb (f mb e nb) buf) buf) (em / blockM) buf r c =
      (rowExpert em expertIds r).elim (buf r c) fun e => if c / blockN < numNBlocks then
          f (r / blockM) e (c / blockN) (r % blockM) (c % blockN) (buf r c) else buf r c := by
  apply runBlocks_once (fun buf : ℕ → ℕ → α => buf r c) (fun e x =>
    if c / blockN < numNBlocks then f _ e _ _ _ x else x)
  intro mb e _
  rw [foldl_writeTile]
  by_cases hmb : r / blockM = mb
  · subst hmb
    simp
  · rw [if_neg fun h => hmb h.1, if_neg hmb]

end

/-! ## What the stages compute -/

section

omit [Zero W] in
lemma accumulate_row {N : ℕ} (flat : ℕ → ℕ) {m : ℕ} (hm : flat m < N) (numKBlocks : ℕ)
    (tileA tileB : ℕ → ℕ → ℕ → W) (n : ℕ) : accumulate ar N flat numKBlocks tileA tileB m n =
      rowDot ar numKBlocks (fun kb k => tileA kb m k) fun kb k => tileB kb k n := by
  unfold accumulate rowDot
  simp [if_neg (Nat.not_le.mpr hm)]

lemma block_row (r : ℕ) : r / blockM * blockM + r % blockM = r := Nat.div_add_mod' r blockM

lemma block_col (c : ℕ) : c / blockN * blockN + c % blockN = c := Nat.div_add_mod' c blockN

omit [Field R] in
lemma foldl_gateUp (mb n : ℕ) (f g : ℕ → ℕ → ℕ → R → R) (s : GateUp R) : (List.range n).foldl (fun gateUp nb =>
      { gate := writeTile blockM blockN mb nb (f nb) gateUp.gate
        up := writeTile blockM blockN mb nb (g nb) gateUp.up }) s =
      { gate := (List.range n).foldl (fun buf nb => writeTile blockM blockN mb nb (f nb) buf) s.gate
        up := (List.range n).foldl (fun buf nb => writeTile blockM blockN mb nb (g nb) buf) s.up } := by
  induction n with
  | zero => rfl
  | succ n ih => simp [range_succ, ih]

variable (sortedIds : ℕ → ℕ) {expertIds : List ℤ} (M topK : ℕ) {em : ℕ}

omit [Field R] in
lemma runBlocks_gateUp {numNBlocks r c e : ℕ} (hr : rowExpert em expertIds r = some e)
    (hc : c / blockN < numNBlocks) (f g : ℕ → ℕ → ℕ → ℕ → ℕ → R → R) (s : GateUp R) :
    (runBlocks expertIds (fun mb e gateUp => (List.range numNBlocks).foldl (fun gateUp nb =>
      { gate := writeTile blockM blockN mb nb (f mb e nb) gateUp.gate
        up := writeTile blockM blockN mb nb (g mb e nb) gateUp.up }) gateUp) (em / blockM) s).gate r c =
      f (r / blockM) e (c / blockN) (r % blockM) (c % blockN) (s.gate r c) ∧
    (runBlocks expertIds (fun mb e gateUp => (List.range numNBlocks).foldl (fun gateUp nb =>
      { gate := writeTile blockM blockN mb nb (f mb e nb) gateUp.gate
        up := writeTile blockM blockN mb nb (g mb e nb) gateUp.up }) gateUp) (em / blockM) s).up r c =
      g (r / blockM) e (c / blockN) (r % blockM) (c % blockN) (s.up r c) := by
  constructor
  · rw [runBlocks_part GateUp.gate (fun mb e buf => (List.range numNBlocks).foldl (fun buf nb =>
      writeTile blockM blockN mb nb (f mb e nb) buf) buf) fun mb e s =>
        congrArg GateUp.gate (foldl_gateUp mb numNBlocks (f mb e) (g mb e) s),
      runBlocks_tiles, hr, Option.elim_some, if_pos hc]
  · rw [runBlocks_part GateUp.up (fun mb e buf => (List.range numNBlocks).foldl (fun buf nb =>
      writeTile blockM blockN mb nb (g mb e nb) buf) buf) fun mb e s =>
        congrArg GateUp.up (foldl_gateUp mb numNBlocks (f mb e) (g mb e) s),
      runBlocks_tiles, hr, Option.elim_some, if_pos hc]

lemma moeGateupCpu_ok (h : em / blockM ≤ expertIds.length) (A : ℕ → W)
    (w13 w13Scale : ℕ → UInt8) (gateUp : GateUp R) (aStride kBase hiddenK ispp groupSize : ℕ) :
    ∃ out, moeGateupCpu ar A w13 w13Scale sortedIds expertIds gateUp M aStride kBase hiddenK ispp
        topK em groupSize = .ok out ∧ ∀ r e c, rowExpert em expertIds r = some e → sortedIds r < M * topK →
        c / blockN < ispp / blockN → out.gate r c = rowDot ar (hiddenK / blockK)
          (fun kb k => A (sortedIds r / topK * aStride + kBase + kb * blockK + k))
          (fun kb k => gateTile ar w13 w13Scale hiddenK ispp groupSize e (c / blockN) kb k (c % blockN)) ∧
        out.up r c = rowDot ar (hiddenK / blockK)
          (fun kb k => A (sortedIds r / topK * aStride + kBase + kb * blockK + k))
          (fun kb k => upTile ar w13 w13Scale hiddenK ispp groupSize e (c / blockN) kb k (c % blockN)) := by
  refine ⟨_, forBlocks_ok h _, ?_⟩
  intro r e c hr hflat hc
  have hrow : sortedIds (r / blockM * blockM + r % blockM) < M * topK := by rwa [block_row]
  constructor
  · apply (runBlocks_gateUp hr hc _ _ gateUp).1.trans
    rw [accumulate_row ar (fun m => sortedIds _) hrow]
    simp [block_row, if_pos hflat]
  · apply (runBlocks_gateUp hr hc _ _ gateUp).2.trans
    rw [accumulate_row ar (fun m => sortedIds _) hrow]
    simp [block_row, if_pos hflat]

lemma moeDownCpu_ok (h : em / blockM ≤ expertIds.length) (act : ℕ → ℕ → W)
    (w2 w2Scale : ℕ → UInt8) (partialOut : ℕ → ℕ → R) (kBase isppK hidden groupSize : ℕ) :
    ∃ out, moeDownCpu ar act w2 w2Scale sortedIds expertIds partialOut M kBase isppK hidden topK em
        groupSize = .ok out ∧ ∀ r e c, rowExpert em expertIds r = some e → sortedIds r < M * topK →
        c / blockN < hidden / blockN →
        out r c = rowDot ar (isppK / blockK) (fun kb k => act r (kBase + kb * blockK + k))
          (fun kb k => downTile ar w2 w2Scale isppK hidden groupSize e (c / blockN) kb k (c % blockN)) := by
  refine ⟨_, forBlocks_ok h _, ?_⟩
  intro r e c hr hflat hc
  have hrow : sortedIds (r / blockM * blockM + r % blockM) < M * topK := by rwa [block_row]
  rw [runBlocks_tiles, hr, Option.elim_some, if_pos hc,
    accumulate_row ar (fun m => sortedIds _) hrow]
  simp [block_row, if_pos hflat]

variable [LinearOrder R]

omit [Zero W] in
lemma moeActEpilogueCpu_ok (h : em / blockM ≤ expertIds.length) (gateUp : GateUp R)
    (b13 : Option (ℕ → R)) (act : ℕ → ℕ → W) (ispp : ℕ) (swigluLimit : R) (activation : ℤ) (beta linearBeta : R) :
    ∃ out, moeActEpilogueCpu ar gateUp b13 act sortedIds expertIds M topK em ispp swigluLimit
        activation beta linearBeta = .ok out ∧ ∀ r e c, rowExpert em expertIds r = some e → sortedIds r < M * topK →
        c / blockN < ispp / blockN → out r c = ar.f32ToBf16 (epilogueValue ar activation
          (addBias b13 (e * (2 * ispp) + c) (gateUp.gate r c))
          (addBias b13 (e * (2 * ispp) + c + ispp) (gateUp.up r c)) swigluLimit beta linearBeta) := by
  refine ⟨_, forBlocks_ok h _, ?_⟩
  intro r e c hr hflat hc
  have hrow : ¬ sortedIds (r / blockM * blockM + r % blockM) ≥ M * topK := by
    rw [block_row]
    omega
  have hcol : ∀ b : ℕ, b + c / blockN * blockN + c % blockN = b + c := by
    intro b
    rw [add_assoc, block_col]
  rw [runBlocks_tiles, hr, Option.elim_some, if_pos hc, if_neg hrow]
  simp [block_row, block_col, hcol]

omit [Zero W] [LinearOrder R] in
/-- **Scatter-add**, tile by tile: every served row adds to the output of its token. -/
theorem scatterAdd_ok (h : em / blockM ≤ expertIds.length) (contrib : ℕ → ℕ → ℕ → ℕ → R) (out : ℕ → ℕ → R)
    (numNBlocks : ℕ) : ∃ out', forBlocks em expertIds (fun mb e out => (List.range numNBlocks).foldl (fun out nb =>
        (List.range blockM).foldl (fun out m => if sortedIds (mb * blockM + m) ≥ M * topK then out
          else fun t c => if t = sortedIds (mb * blockM + m) / topK ∧ c / blockN = nb then
            out t c + contrib e (mb * blockM + m) nb c else out t c) out) out) out = .ok out' ∧
      ∀ t c, out' t c = out t c + ∑ r ∈ range (em / blockM * blockM), (rowExpert em expertIds r).elim 0 fun e =>
          if c / blockN < numNBlocks ∧ sortedIds r < M * topK ∧ sortedIds r / topK = t then contrib e r (c / blockN) c
          else 0 := by
  refine ⟨_, forBlocks_ok h _, ?_⟩
  intro t c
  apply runBlocks_add fun out : ℕ → ℕ → R => out t c
  intro mb e out
  -- one row of the tile that `c` is in
  have hrow : ∀ (nb : ℕ) (out : ℕ → ℕ → R) (m : ℕ), (if sortedIds (mb * blockM + m) ≥ M * topK then out
        else fun t c => if t = sortedIds (mb * blockM + m) / topK ∧ c / blockN = nb then
          out t c + contrib e (mb * blockM + m) nb c
        else out t c) t c = out t c + if nb = c / blockN then
          (if sortedIds (mb * blockM + m) < M * topK ∧ sortedIds (mb * blockM + m) / topK = t then
            contrib e (mb * blockM + m) (c / blockN) c else 0)
        else 0 := by
    intro nb out m
    by_cases hflat : sortedIds (mb * blockM + m) ≥ M * topK
    · rw [if_pos hflat, if_neg (show ¬(sortedIds _ < M * topK ∧ _) by omega), ite_self, add_zero]
    · rw [if_neg hflat]
      by_cases hnb : nb = c / blockN
      · subst hnb
        rw [if_pos rfl]
        by_cases ht : t = sortedIds (mb * blockM + m) / topK
        · rw [if_pos ⟨ht, rfl⟩, if_pos ⟨by omega, ht.symm⟩]
        · rw [if_neg fun h => ht h.1, if_neg fun h => ht h.2.symm, add_zero]
      · rw [if_neg fun h => hnb h.2.symm, if_neg hnb, add_zero]
  have htile : ∀ (out : ℕ → ℕ → R) (nb : ℕ), ((List.range blockM).foldl (fun out m =>
        if sortedIds (mb * blockM + m) ≥ M * topK then out
        else fun t c => if t = sortedIds (mb * blockM + m) / topK ∧ c / blockN = nb then
          out t c + contrib e (mb * blockM + m) nb c
        else out t c) out) t c = if nb = c / blockN then out t c + ∑ m ∈ range blockM,
            (if sortedIds (mb * blockM + m) < M * topK ∧ sortedIds (mb * blockM + m) / topK = t then
              contrib e (mb * blockM + m) (c / blockN) c else 0)
        else out t c := by
    intro out nb
    rw [foldl_add (fun out : ℕ → ℕ → R => out t c) (hrow nb)]
    by_cases hnb : nb = c / blockN
    · simp [if_pos hnb]
    · simp [if_neg hnb, sum_const_zero, add_zero]
  rw [foldl_once (fun out : ℕ → ℕ → R => out t c) (fun x => x + ∑ m ∈ range blockM,
    (if sortedIds (mb * blockM + m) < M * topK ∧ sortedIds (mb * blockM + m) / topK = t then
      contrib e (mb * blockM + m) _ c else 0)) htile]
  by_cases hc : c / blockN < numNBlocks
  · simp [hc, true_and]
  · simp [hc, false_and, sum_const_zero, add_zero]

/-- What row `r`, served with expert `e`, adds to an output. -/
def combined (partialOut : ℕ → ℕ → R) (b2 : Option (ℕ → R)) (topkWSorted : ℕ → R)
    (sortedIds : ℕ → ℕ) (M hidden topK t c e r : ℕ) : R :=
  if sortedIds r < M * topK ∧ sortedIds r / topK = t then
    addBias b2 (e * hidden + c) (partialOut r c) * topkWSorted r
  else 0

omit [Zero W] [LinearOrder R] in
lemma moeCombineCpu_ok (h : em / blockM ≤ expertIds.length) (partialOut : ℕ → ℕ → R)
    (b2 : Option (ℕ → R)) (topkWSorted : ℕ → R) (out : ℕ → ℕ → R) (hidden : ℕ) :
    ∃ out', moeCombineCpu partialOut b2 topkWSorted sortedIds expertIds out M hidden topK em = .ok out' ∧
      ∀ t c, out' t c = out t c + ∑ r ∈ range (em / blockM * blockM),
        (rowExpert em expertIds r).elim 0 fun e => if c / blockN < hidden / blockN then
          combined partialOut b2 topkWSorted sortedIds M hidden topK t c e r else 0 := by
  obtain ⟨out', hout', hsum⟩ := scatterAdd_ok sortedIds M topK h (fun e r nb c =>
    addBias b2 (e * hidden + nb * blockN + c % blockN) (partialOut r c) * topkWSorted r) out _
  refine ⟨out', hout', ?_⟩
  intro t c
  rw [hsum]
  simp [combined, add_assoc, block_col, ite_and]

omit [Zero W] [LinearOrder R] in
lemma rowDot_congr {numKBlocks : ℕ} {a a' b : ℕ → ℕ → W} (h : ∀ kb < numKBlocks, ∀ k < blockK, a kb k = a' kb k) :
    rowDot ar numKBlocks a b = rowDot ar numKBlocks a' b := by
  refine foldl_ext _ _ _ fun acc kb hkb => ?_
  congr 1
  refine foldl_ext _ _ _ fun dot k hk => ?_
  rw [h kb (mem_range.mp hkb) k (mem_range.mp hk)]

lemma fusedMoeMxfp4Cpu_ok (args : MoeArgs R W) (h : em / blockM ≤ expertIds.length)
    (topkWSorted : ℕ → R) (actScratch : ℕ → ℕ → W) (out : ℕ → ℕ → R) :
    ∃ act' out', fusedMoeMxfp4Cpu ar args sortedIds topkWSorted expertIds actScratch out M topK em = .ok (act', out') ∧
      ∀ t c, out' t c = out t c + ∑ r ∈ range (em / blockM * blockM), (rowExpert em expertIds r).elim 0 fun e =>
          if c / blockN < args.hidden / blockN ∧ sortedIds r < M * topK ∧ sortedIds r / topK = t then
            rowOut ar args topK e (sortedIds r) c * topkWSorted r else 0 := by
  obtain ⟨gateUp, hgateUp, hgate⟩ := moeGateupCpu_ok ar sortedIds M topK h args.A args.w13
    args.w13Scale ⟨fun _ _ => 0, fun _ _ => 0⟩ args.hidden 0 args.hidden args.ispp args.groupSize
  obtain ⟨act', hact', hact⟩ := moeActEpilogueCpu_ok ar sortedIds M topK h gateUp args.b13
    actScratch args.ispp args.swigluLimit args.activation args.beta args.linearBeta
  obtain ⟨partialOut, hpartialOut, hpartial⟩ := moeDownCpu_ok ar sortedIds M topK h act' args.w2
    args.w2Scale (fun _ _ => 0) 0 args.ispp args.hidden args.groupSize
  obtain ⟨out', hout', hout⟩ := moeCombineCpu_ok sortedIds M topK h partialOut args.b2 topkWSorted out args.hidden
  refine ⟨act', out', ?_, ?_⟩
  · unfold fusedMoeMxfp4Cpu
    rw [hgateUp, ok_bind, hact', ok_bind, hpartialOut, ok_bind, hout', ok_bind]
    rfl
  · intro t c
    rw [hout]
    congr 1
    refine sum_congr rfl fun r _ => ?_
    cases hr : rowExpert em expertIds r with
    | none => rfl
    | some e =>
      simp only [Option.elim_some, combined]
      by_cases hin : c / blockN < args.hidden / blockN ∧ sortedIds r < M * topK ∧ sortedIds r / topK = t
      · obtain ⟨hc, hflat, ht⟩ := hin
        have hrowAct : ∀ kb < args.ispp / blockK, ∀ k < blockK, act' r (0 + kb * blockK + k) =
            rowAct ar args topK e (sortedIds r) (kb * blockK + k) := by
          intro kb hkb k hk
          have hcol : (0 + kb * blockK + k) / blockN < args.ispp / blockN := by
            have hdiv : (kb * 64 + k) / 64 = kb := by
              have : k < 64 := hk
              omega
            rw [zero_add]
            exact lt_of_eq_of_lt hdiv hkb
          rw [hact r e _ hr hflat hcol, (hgate r e _ hr hflat hcol).1, (hgate r e _ hr hflat hcol).2, zero_add]
          rfl
        rw [if_pos hc, if_pos ⟨hflat, ht⟩, if_pos ⟨hc, hflat, ht⟩, hpartial r e c hr hflat hc, rowDot_congr ar hrowAct]
        rfl
      · rw [if_neg hin]
        by_cases hc : c / blockN < args.hidden / blockN
        · rw [if_pos hc, if_neg fun h => hin ⟨hc, h⟩]
        · rw [if_neg hc]

/-- With too few blocks in `expert_ids`, the first stage reads past its end. -/
lemma fusedMoeMxfp4Cpu_error (args : MoeArgs R W) (h : expertIds.length < em / blockM)
    (topkWSorted : ℕ → R) (actScratch : ℕ → ℕ → W) (out : ℕ → ℕ → R) :
    fusedMoeMxfp4Cpu ar args sortedIds topkWSorted expertIds actScratch out M topK em = .error outOfBounds := by
  unfold fusedMoeMxfp4Cpu moeGateupCpu
  rw [forBlocks_error h]
  rfl

end

end VKernels.Moe
