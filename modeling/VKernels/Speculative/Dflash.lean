import Mathlib.Algebra.Ring.Int.Defs
import Mathlib.Algebra.Ring.Nat
import Mathlib.Data.List.Induction
import Mathlib.Data.List.TakeWhile
import Mathlib.Data.Nat.Log
import VKernels.Lib.Sweeps

/-!
# DFLASH speculative decoding

`prepare_draft_block` and `accept_bonus` of `torch_ops/dflash.py`: the Triton kernels, one program a row in any order,
and the CPU branch.  A tensor is a function of its row and column.

* `acceptBonusKernel`, `acceptBonusCpu`, `prepareDraftBlockKernel` — the calls.

## Results

* `acceptBonus_same` — the kernel and the CPU branch write the same, from any contents of the outputs.
* `acceptLen_spec` — the accepted drafts are the longest prefix that the target confirms.
* `dflash_lossless` — after any rounds, whatever is drafted, the committed tokens are the target's rollout.
-/

namespace VKernels.Dflash

open VKernels.Sweeps
open List
open Function (update)

lemma sweep_read {σ X : Type} (read : σ → ℕ → X) {program : ℕ → σ → σ} {g : ℕ → X → X}
    (hprogram : ∀ row s k, read (program row s) k = if k = row then g k (read s k) else read s k) {rows : List ℕ}
    (hnodup : rows.Nodup) (s : σ) (k : ℕ) :
    read (sweep rows program s) k = if k ∈ rows then g k (read s k) else read s k := by
  have hlocal : Local rows (fun _ => True) read program g := fun row _ s _ => ⟨trivial, hprogram row s⟩
  obtain ⟨-, hin, hout⟩ := sweep_slice hlocal hnodup (s := s) trivial
  split
  · exact hin k ‹_›
  · exact hout k ‹_›

/-! ## The calls -/

/-- The tensors that `accept_bonus` reads. -/
structure AcceptIn where
  batchSize : ℕ
  blockSize : ℕ
  candidates : ℕ → ℕ → ℤ
  targetTop1 : ℕ → ℕ → ℤ
  prefixLens : ℕ → ℤ

/-- The tensors that it writes. -/
@[ext] structure AcceptOut where
  acceptLens : ℕ → ℤ
  commitLens : ℕ → ℤ
  bonusIds : ℕ → ℤ
  outTokens : ℕ → ℕ → ℤ
  newSeqLens : ℕ → ℤ

/-- `triton.next_power_of_2`. -/
def nextPowerOf2 (n : ℕ) : ℕ := 2 ^ Nat.clog 2 n

/-- The cells of a row below `blockSize` written. -/
def writeRow (tensor : ℕ → ℕ → ℤ) (row blockSize : ℕ) (v : ℕ → ℤ) : ℕ → ℕ → ℤ := fun r c =>
  if r = row ∧ c < blockSize then v c else tensor r c

section

variable (args : AcceptIn)

/-- `accept_len` and `prefix_live` after `n` columns. -/
def kernelScan (row n : ℕ) : ℕ × ℕ :=
  (List.range n).foldl (fun state col =>
    let inRange := col < args.blockSize - 1
    let candidateId := if inRange then args.candidates row (col + 1) else 0
    let targetId := if inRange then args.targetTop1 row col else 0
    let matchI32 := if candidateId = targetId then 1 else 0
    let keep := inRange ∧ state.2 ≠ 0 ∧ matchI32 ≠ 0
    (state.1 + if keep then 1 else 0, if inRange then state.2 &&& matchI32 else state.2)) (0, 1)

/-- `_dflash_accept_bonus_contig_kernel`. -/
def acceptKernel (row : ℕ) (out : AcceptOut) : AcceptOut :=
  let BLOCK_SIZE := nextPowerOf2 args.blockSize
  let acceptLen := (kernelScan args row (BLOCK_SIZE - 1)).1
  let commitLen := acceptLen + 1
  let bonusId := args.targetTop1 row acceptLen
  let outVal := fun col => if col = acceptLen then bonusId
    else if col < args.blockSize - 1 then args.candidates row (col + 1) else 0
  { acceptLens := update out.acceptLens row acceptLen
    commitLens := update out.commitLens row commitLen
    bonusIds := update out.bonusIds row bonusId
    outTokens := writeRow out.outTokens row (min args.blockSize BLOCK_SIZE) outVal
    newSeqLens := update out.newSeqLens row (args.prefixLens row + commitLen) }

def acceptBonusKernel (order : List ℕ) (out : AcceptOut) : AcceptOut := sweep order (acceptKernel args) out

/-- The scan of the CPU branch, which breaks at the first mismatch. -/
def cpuScan (row : ℕ) : List ℕ → ℕ → ℕ
  | [], a => a
  | i :: is, a => if args.candidates row (i + 1) = args.targetTop1 row i then cpuScan row is (a + 1) else a

def acceptCpu (row : ℕ) (out : AcceptOut) : AcceptOut :=
  let a := cpuScan args row (List.range (args.blockSize - 1)) 0
  let bonus := args.targetTop1 row a
  let shifted := fun c => if c < args.blockSize - 1 then args.candidates row (c + 1) else 0
  { acceptLens := update out.acceptLens row a
    commitLens := update out.commitLens row (a + 1)
    bonusIds := update out.bonusIds row bonus
    outTokens := writeRow out.outTokens row args.blockSize (update shifted a bonus)
    newSeqLens := update out.newSeqLens row (args.prefixLens row + a + 1) }

def acceptBonusCpu (out : AcceptOut) : AcceptOut := sweep (List.range args.batchSize) (acceptCpu args) out

end

/-- The tensors that `prepare_draft_block` reads. -/
structure PrepareIn where
  blockSize : ℕ
  bonusTokens : ℕ → ℤ
  prefixLens : ℕ → ℤ
  reqPoolIndices : ℕ → ℤ
  reqToToken : ℤ → ℤ → ℤ
  width : ℕ
  maskTokenId : ℤ

structure PrepareOut where
  blockIds : ℕ → ℕ → ℤ
  positions : ℕ → ℕ → ℤ
  cacheLoc : ℕ → ℕ → ℤ

/-- `_prepare_dflash_draft_block_contig_kernel`. -/
def prepareKernel (args : PrepareIn) (row : ℕ) (out : PrepareOut) : PrepareOut :=
  let BLOCK_SIZE := nextPowerOf2 args.blockSize
  let written := min args.blockSize BLOCK_SIZE
  let logicalPos := fun col : ℕ => args.prefixLens row + col
  { blockIds := writeRow out.blockIds row written fun col => if col = 0 then args.bonusTokens row else args.maskTokenId
    positions := writeRow out.positions row written logicalPos
    cacheLoc := writeRow out.cacheLoc row written fun col =>
      if logicalPos col < args.width then args.reqToToken (args.reqPoolIndices row) (logicalPos col) else 0 }

def prepareDraftBlockKernel (args : PrepareIn) (order : List ℕ) (out : PrepareOut) : PrepareOut :=
  sweep order (prepareKernel args) out

/-! ## Acceptance -/

section

variable {args : AcceptIn} {row : ℕ}

/-- The target confirms the draft after column `i`. -/
def Confirms (args : AcceptIn) (row i : ℕ) : Bool := args.candidates row (i + 1) = args.targetTop1 row i

/-- The confirmed drafts among the first `n`, up to the first mismatch. -/
def confirmed (args : AcceptIn) (row n : ℕ) : ℕ := ((List.range n).takeWhile (Confirms args row)).length

def acceptLen (args : AcceptIn) (row : ℕ) : ℕ := confirmed args row (args.blockSize - 1)

lemma confirmed_le (args : AcceptIn) (row n : ℕ) : confirmed args row n ≤ n := by
  have hle := ( takeWhile_prefix (Confirms args row) (l := range n)).length_le
  simpa [confirmed] using hle

lemma confirmed_succ (args : AcceptIn) (row n : ℕ) : confirmed args row (n + 1) =
    if confirmed args row n = n ∧ Confirms args row n = true then n + 1 else confirmed args row n := by
  unfold confirmed
  rw [range_succ, takeWhile_append]
  by_cases hall : ((range n).takeWhile (Confirms args row)).length = n
  · by_cases hn : Confirms args row n = true
    · simp [hall, hn]
    · simp [hall, hn]
  · simp [hall]

lemma acceptLen_spec (args : AcceptIn) (row : ℕ) : acceptLen args row ≤ args.blockSize - 1 ∧
    (∀ i < acceptLen args row, args.candidates row (i + 1) = args.targetTop1 row i) ∧
    (acceptLen args row < args.blockSize - 1 →
      args.candidates row (acceptLen args row + 1) ≠ args.targetTop1 row (acceptLen args row)) := by
  unfold acceptLen
  generalize args.blockSize - 1 = n
  induction n with
  | zero => simp [confirmed]
  | succ n ih =>
    obtain ⟨hle, hbelow, hnext⟩ := ih
    rw [confirmed_succ]
    split
    · rename_i h
      refine ⟨le_rfl, fun i hi => ?_, fun hlt => absurd hlt (lt_irrefl _)⟩
      rcases Nat.lt_succ_iff_lt_or_eq.mp hi with hlt | rfl
      · exact hbelow i (h.1.symm ▸ hlt)
      · simpa [Confirms] using h.2
    · rename_i h
      refine ⟨Nat.le_succ_of_le hle, hbelow, fun _ => ?_⟩
      rcases lt_or_eq_of_le hle with hlt | heq
      · exact hnext hlt
      · rw [heq]
        intro hmatch
        exact h ⟨heq, by simp [Confirms, hmatch]⟩

lemma cpuScan_eq (args : AcceptIn) (row : ℕ) :
    cpuScan args row (range (args.blockSize - 1)) 0 = acceptLen args row := by
  have hscan : ∀ (is : List ℕ) (a : ℕ), cpuScan args row is a = a + (is.takeWhile (Confirms args row)).length := by
    intro is
    induction is with
    | nil => simp [cpuScan]
    | cons i is ih =>
      intro a
      by_cases h : args.candidates row (i + 1) = args.targetTop1 row i
      · simp [cpuScan, h, ih, Confirms]
        omega
      · simp [cpuScan, h, Confirms]
  simp [hscan, acceptLen, confirmed]

lemma kernelScan_eq {n : ℕ} (hn : args.blockSize - 1 ≤ n) : (kernelScan args row n).1 = acceptLen args row := by
  have hstep : ∀ n, kernelScan args row n = (confirmed args row (min n (args.blockSize - 1)),
      if confirmed args row (min n (args.blockSize - 1)) = min n (args.blockSize - 1) then 1 else 0) := by
    intro n
    induction n with
    | zero => simp [kernelScan, confirmed]
    | succ n ih =>
      have hsucc : kernelScan args row (n + 1) = (range (n + 1)).foldl _ (0, 1) := rfl
      rw [range_succ, foldl_append] at hsucc
      rw [hsucc]
      unfold kernelScan at ih
      rw [ih, foldl_cons, foldl_nil]
      by_cases hrange : n < args.blockSize - 1
      · rw [min_eq_left (le_of_lt hrange), min_eq_left hrange, confirmed_succ]
        by_cases hlive : confirmed args row n = n
        · by_cases hmatch : args.candidates row (n + 1) = args.targetTop1 row n
          · simp [hrange, hlive, hmatch, Confirms]
          · simp [hrange, hlive, hmatch, Confirms]
        · have hlt : confirmed args row n ≠ n + 1 := by
            have := confirmed_le args row n
            omega
          simp [hrange, hlive, hlt]
      · rw [min_eq_right (Nat.le_of_not_lt hrange), min_eq_right (by omega)]
        simp [hrange]
  rw [hstep, min_eq_right hn]
  rfl

lemma le_nextPowerOf2 (n : ℕ) : n ≤ nextPowerOf2 n := Nat.le_pow_clog Nat.one_lt_two n

/-- **One row** of both branches. -/
theorem acceptKernel_eq (args : AcceptIn) (row : ℕ) (out : AcceptOut) :
    acceptKernel args row out = acceptCpu args row out := by
  have hblock := le_nextPowerOf2 args.blockSize
  have hscan : (kernelScan args row (nextPowerOf2 args.blockSize - 1)).1 = acceptLen args row :=
    kernelScan_eq (by omega)
  unfold acceptKernel acceptCpu
  simp only [cpuScan_eq, hscan, min_eq_left hblock]
  apply AcceptOut.ext
  · rfl
  · rfl
  · rfl
  · dsimp only
    congr 1
    funext col
    by_cases hcol : col = acceptLen args row
    · simp [hcol]
    · simp [hcol]
  · dsimp only
    congr 1
    omega

@[simp] lemma writeRow_eq (tensor : ℕ → ℕ → ℤ) (row blockSize : ℕ) (v : ℕ → ℤ) (k : ℕ) :
    writeRow tensor row blockSize v k = if k = row then fun c => if c < blockSize then v c else tensor row c
      else tensor k := by
  funext c
  by_cases hk : k = row
  · simp [writeRow, hk]
  · simp [writeRow, hk]

lemma sweep_acceptCpu (args : AcceptIn) {rows : List ℕ} (hrows : rows.Nodup) (out : AcceptOut) :
    sweep rows (acceptCpu args) out = {
      acceptLens := fun r => if r ∈ rows then (acceptLen args r : ℤ) else out.acceptLens r
      commitLens := fun r => if r ∈ rows then (acceptLen args r : ℤ) + 1 else out.commitLens r
      bonusIds := fun r => if r ∈ rows then args.targetTop1 r (acceptLen args r) else out.bonusIds r
      outTokens := fun r => if r ∈ rows then fun c => if c < args.blockSize then
          update (fun c => if c < args.blockSize - 1 then args.candidates r (c + 1) else 0)
            (acceptLen args r) (args.targetTop1 r (acceptLen args r)) c
        else out.outTokens r c else out.outTokens r
      newSeqLens := fun r => if r ∈ rows then args.prefixLens r + acceptLen args r + 1 else out.newSeqLens r } := by
  refine AcceptOut.ext
    (funext (sweep_read (fun out r => out.acceptLens r) (g := fun r _ => (acceptLen args r : ℤ)) ?_ hrows out))
    (funext (sweep_read (fun out r => out.commitLens r) (g := fun r _ => (acceptLen args r : ℤ) + 1) ?_ hrows out))
    (funext (sweep_read (fun out r => out.bonusIds r)
      (g := fun r _ => args.targetTop1 r _) ?_ hrows out))
    (funext (sweep_read (fun out r => out.outTokens r) (g := fun r old c => if c < args.blockSize then
      update (fun c => if c < args.blockSize - 1 then args.candidates r (c + 1) else 0)
        (acceptLen args r) _ c else old c) ?_ hrows out))
    (funext (sweep_read (fun out r => out.newSeqLens r)
      (g := fun r _ => args.prefixLens r + acceptLen args r + 1) ?_ hrows out))
  all_goals
    intro row s k
    by_cases hk : k = row
    · simp [acceptCpu, cpuScan_eq, hk]
    · simp [acceptCpu, hk]

lemma acceptBonus_same (args : AcceptIn) {order : List ℕ} (horder : order.Perm (range args.batchSize))
    (out : AcceptOut) : acceptBonusKernel args order out = acceptBonusCpu args out := by
  have hnodup : order.Nodup := horder.nodup_iff.mpr nodup_range
  unfold acceptBonusKernel acceptBonusCpu
  rw [sweep_congr (acceptKernel_eq args), sweep_acceptCpu args hnodup, sweep_acceptCpu args nodup_range]
  simp [horder.mem_iff]

end

/-! ## Rounds -/

/-- The requests of a batch: the tokens before the seed, their number as the engine counts it, the seed, and the
tokens committed so far. -/
structure Serving where
  context : ℕ → List ℤ
  prefixLens : ℕ → ℤ
  bonus : ℕ → ℤ
  committed : ℕ → List ℤ

/-- What the kernels do not determine: the tables of the engine, the orders of the programs, what the output tensors
held before, and what the drafter drafts. -/
structure Round (batchSize : ℕ) where
  blockSize : ℕ
  blockSize_pos : 0 < blockSize
  reqPoolIndices : ℕ → ℤ
  reqToToken : ℤ → ℤ → ℤ
  width : ℕ
  maskTokenId : ℤ
  prepareOrder : List ℕ
  prepare_perm : prepareOrder.Perm (List.range batchSize)
  prepareOut : PrepareOut
  drafts : ℕ → ℕ → ℤ
  cuda : Bool
  acceptOrder : List ℕ
  accept_perm : acceptOrder.Perm (List.range batchSize)
  acceptOut : AcceptOut

section

variable {batchSize : ℕ} (target : List ℤ → ℤ)

/-- The drafted block: the seed, and what the drafter put for the masks. -/
def Round.block (rd : Round batchSize) (s : Serving) (row col : ℕ) : ℤ :=
  let prepared := prepareDraftBlockKernel { rd with bonusTokens := s.bonus, prefixLens := s.prefixLens }
    rd.prepareOrder rd.prepareOut
  if col = 0 then prepared.blockIds row 0 else rd.drafts row col

/-- The call of `accept_bonus`, on the target's choice at every position of the block. -/
def Round.acceptIn (rd : Round batchSize) (s : Serving) : AcceptIn where
  batchSize := batchSize
  blockSize := rd.blockSize
  candidates := rd.block s
  targetTop1 row i := target (s.context row ++ (List.range (i + 1)).map (rd.block s row))
  prefixLens := s.prefixLens

def Round.accept (rd : Round batchSize) (s : Serving) : AcceptOut :=
  if rd.cuda then acceptBonusKernel (rd.acceptIn target s) rd.acceptOrder rd.acceptOut
  else acceptBonusCpu (rd.acceptIn target s) rd.acceptOut

/-- The seed and the accepted drafts go to the context, the committed tokens to the caller. -/
def round (s : Serving) (rd : Round batchSize) : Serving :=
  let out := rd.accept target s
  { context := fun row => s.context row ++ (List.range (out.commitLens row).toNat).map (rd.block s row)
    prefixLens := out.newSeqLens
    bonus := out.bonusIds
    committed := fun row => s.committed row ++ (List.range (out.commitLens row).toNat).map (out.outTokens row) }

/-- The target alone. -/
def greedy (target : List ℤ → ℤ) (prompt : List ℤ) : ℕ → List ℤ
  | 0 => []
  | n + 1 => greedy target prompt n ++ [target (prompt ++ greedy target prompt n)]

variable {target}

@[simp] lemma greedy_length (prompt : List ℤ) (n : ℕ) : (greedy target prompt n).length = n := by
  induction n with
  | zero => rfl
  | succ n ih => simp [greedy, ih]

lemma greedy_add (prompt : List ℤ) (n m : ℕ) : greedy target prompt (n + m) =
    greedy target prompt n ++ greedy target (prompt ++ greedy target prompt n) m := by
  induction m with
  | zero => simp [greedy]
  | succ m ih =>
    rw [← add_assoc, greedy, ih, greedy]
    simp

lemma block_zero (rd : Round batchSize) (s : Serving) {row : ℕ} (hrow : row < batchSize) :
    rd.block s row 0 = s.bonus row := by
  have hnodup : rd.prepareOrder.Nodup := rd.prepare_perm.nodup_iff.mpr nodup_range
  have hmem : row ∈ rd.prepareOrder := rd.prepare_perm.mem_iff.mpr (mem_range.mpr hrow)
  have hpos : 0 < nextPowerOf2 rd.blockSize := lt_of_lt_of_le rd.blockSize_pos (le_nextPowerOf2 _)
  let args : PrepareIn := { rd with bonusTokens := s.bonus, prefixLens := s.prefixLens }
  have hprogram : ∀ row out k, (prepareKernel args row out).blockIds k 0 =
      if k = row then s.bonus k else out.blockIds k 0 := by
    intro row out k
    by_cases hk : k = row
    · simp [args, prepareKernel, hk, rd.blockSize_pos.ne', hpos.ne']
    · simp [prepareKernel, hk]
  have hread := sweep_read (fun (out : PrepareOut) r => out.blockIds r 0) (g := fun r _ => s.bonus r) hprogram
    hnodup rd.prepareOut row
  rw [if_pos hmem] at hread
  exact hread

lemma round_spec (target : List ℤ → ℤ) (rd : Round batchSize) (s : Serving) {row : ℕ} (hrow : row < batchSize) : ∃ n, 0 < n ∧
    (round target s rd).committed row = s.committed row ++ greedy target (s.context row ++ [s.bonus row]) n ∧
    (round target s rd).context row ++ [(round target s rd).bonus row] =
      s.context row ++ [s.bonus row] ++ greedy target (s.context row ++ [s.bonus row]) n ∧
    (round target s rd).prefixLens row = s.prefixLens row + n := by
  have hsame : rd.accept target s = acceptBonusCpu (rd.acceptIn target s) rd.acceptOut := by
    unfold Round.accept
    split
    · exact acceptBonus_same _ rd.accept_perm _
    · rfl
  have hout : rd.accept target s = sweep (range batchSize) (acceptCpu (rd.acceptIn target s)) rd.acceptOut := hsame
  rw [sweep_acceptCpu _ nodup_range] at hout
  obtain ⟨hle, hconfirmed, -⟩ := acceptLen_spec _ row
  have hseed := block_zero rd s hrow
  have hmem : row ∈ range batchSize := mem_range.mpr hrow
  generalize ha : acceptLen (rd.acceptIn target s) row = a at *
  -- the drafts up to the first mismatch are the target's own tokens
  have hblock : ∀ i ≤ a, (range (i + 1)).map (rd.block s row) =
      s.bonus row :: greedy target (s.context row ++ [s.bonus row]) i := by
    intro i hi
    induction i with
    | zero => simp [hseed, greedy]
    | succ i ih =>
      have hprev := ih (Nat.le_of_succ_le hi)
      have hdraft : rd.block s row (i + 1) = target (s.context row ++ (range (i + 1)).map (rd.block s row)) :=
        hconfirmed i hi
      rw [range_succ, map_append, map_singleton, hdraft, hprev, greedy]
      simp
  have htarget : ∀ i ≤ a, (rd.acceptIn target s).targetTop1 row i =
      target (s.context row ++ [s.bonus row] ++ greedy target (s.context row ++ [s.bonus row]) i) := by
    intro i hi
    show target (s.context row ++ (range (i + 1)).map (rd.block s row)) = _
    rw [hblock i hi]
    simp
  have hcommit : ((rd.accept target s).commitLens row).toNat = a + 1 := by
    rw [hout]
    simp only [hmem, if_true, ha]
    omega
  have hbonus : (rd.accept target s).bonusIds row = (rd.acceptIn target s).targetTop1 row a := by
    rw [hout]
    simp [hrow, ha]
  have htokens : (range (a + 1)).map ((rd.accept target s).outTokens row) =
      greedy target (s.context row ++ [s.bonus row]) (a + 1) := by
    have hsize := rd.blockSize_pos
    have hsize' : (rd.acceptIn target s).blockSize = rd.blockSize := rfl
    have htoken : ∀ c ≤ a, (rd.accept target s).outTokens row c = (rd.acceptIn target s).targetTop1 row c := by
      intro c hc
      rw [hout]
      simp only [hmem, if_true, ha]
      rw [if_pos (by omega)]
      rcases lt_or_eq_of_le hc with hlt | rfl
      · rw [Function.update_of_ne (ne_of_lt hlt), if_pos (by omega)]
        exact hconfirmed c hlt
      · rw [Function.update_self]
    have hpre : ∀ n ≤ a + 1, (range n).map ((rd.accept target s).outTokens row) =
        greedy target (s.context row ++ [s.bonus row]) n := by
      intro n hn
      induction n with
      | zero => rfl
      | succ n ih =>
        rw [range_succ, map_append, map_singleton, ih (Nat.le_of_succ_le hn),
          htoken n (Nat.le_of_succ_le_succ hn), htarget n (Nat.le_of_succ_le_succ hn), greedy]
    exact hpre (a + 1) le_rfl
  refine ⟨a + 1, Nat.succ_pos a, ?_, ?_, ?_⟩
  · show s.committed row ++ _ = _
    rw [hcommit, htokens]
  · show s.context row ++ (range _).map (rd.block s row) ++ [(rd.accept target s).bonusIds row] = _
    rw [hcommit, hblock a le_rfl, hbonus, htarget a le_rfl, greedy]
    simp
  · have hlens : (rd.acceptIn target s).prefixLens row = s.prefixLens row := rfl
    show (rd.accept target s).newSeqLens row = _
    rw [hout]
    simp only [hmem, if_true, ha, hlens]
    omega

/-- The requests before the first round: the last token of a prompt is its seed. -/
def start (context : ℕ → List ℤ) (seed prefixLens : ℕ → ℤ) : Serving := ⟨context, prefixLens, seed, fun _ => []⟩

lemma rounds_spec (target : List ℤ → ℤ) (context : ℕ → List ℤ) (seed prefixLens : ℕ → ℤ)
    (rounds : List (Round batchSize)) {row : ℕ} (hrow : row < batchSize) : ∃ n, rounds.length ≤ n ∧
      (rounds.foldl (round target) (start context seed prefixLens)).committed row =
        greedy target (context row ++ [seed row]) n ∧
      (rounds.foldl (round target) (start context seed prefixLens)).context row ++
          [(rounds.foldl (round target) (start context seed prefixLens)).bonus row] =
        context row ++ [seed row] ++ greedy target (context row ++ [seed row]) n ∧
      (rounds.foldl (round target) (start context seed prefixLens)).prefixLens row = prefixLens row + n := by
  induction rounds using reverseRecOn with
  | nil => exact ⟨0, le_rfl, rfl, by simp [start, greedy], by simp [start]⟩
  | append_singleton rounds rd ih =>
    obtain ⟨n, hlength, hcommitted, hcontext, hpre⟩ := ih
    obtain ⟨m, hm, hcommitted', hcontext', hpre'⟩ := round_spec target rd
      (rounds.foldl _ _) hrow
    rw [foldl_concat]
    refine ⟨n + m, ?_, ?_, ?_, ?_⟩
    · rw [length_append, length_singleton]
      omega
    · rw [hcommitted', hcommitted, hcontext, greedy_add]
    · rw [hcontext', hcontext, greedy_add]
      simp
    · omega

/-- **DFLASH is lossless**: after any rounds the committed tokens of a request are the target's rollout from its
prompt, and its length is the length before the first round and theirs.  A seed that is the target's first token
comes before them in the rollout.  Which of the branches accepts makes no difference. -/
theorem dflash_lossless (target : List ℤ → ℤ) (context : ℕ → List ℤ) (seed prefixLens : ℕ → ℤ)
    (rounds : List (Round batchSize)) : (∀ (args : AcceptIn) (order : List ℕ), order.Perm (List.range args.batchSize) →
      ∀ out, acceptBonusKernel args order out = acceptBonusCpu args out) ∧
    ∀ row < batchSize, let s := rounds.foldl (round target) (start context seed prefixLens)
      s.committed row = greedy target (context row ++ [seed row]) (s.committed row).length ∧
        s.prefixLens row = prefixLens row + (s.committed row).length ∧ rounds.length ≤ (s.committed row).length ∧
        (seed row = target (context row) →
          seed row :: s.committed row = greedy target (context row) ((s.committed row).length + 1)) := by
  refine ⟨fun args order horder out => acceptBonus_same args horder out, fun row hrow => ?_⟩
  obtain ⟨n, hlength, hcommitted, -, hpre⟩ := rounds_spec target context seed prefixLens rounds hrow
  have hn : ((rounds.foldl (round target) (start context seed prefixLens)).committed row).length = n := by
    rw [hcommitted, greedy_length]
  dsimp only
  rw [hn]
  refine ⟨hcommitted, hpre, hlength, fun hseed => ?_⟩
  rw [hcommitted, add_comm n 1, greedy_add]
  simp [greedy, hseed]

/-- A round in which the second draft is refused. -/
def sampleRound : Round 1 where
  blockSize := 3
  blockSize_pos := Nat.succ_pos 2
  reqPoolIndices := fun _ => 0
  reqToToken := fun _ slot => slot
  width := 8
  maskTokenId := -1
  prepareOrder := [0]
  prepare_perm := List.Perm.refl [0]
  prepareOut := ⟨fun _ _ => 0, fun _ _ => 0, fun _ _ => 0⟩
  drafts := fun _ col => if col = 1 then 3 else 9
  cuda := true
  acceptOrder := [0]
  accept_perm := List.Perm.refl [0]
  acceptOut := ⟨fun _ => 0, fun _ => 0, fun _ => 0, fun _ _ => 0, fun _ => 0⟩

/-- Two rounds of a target that counts its prefix. -/
theorem dflash_lossless_sample :
    let s := [sampleRound, sampleRound].foldl (round fun tokens => tokens.length)
      (start (fun _ => [5, 6]) (fun _ => 2) fun _ => 2)
    s.committed 0 = [3, 4, 5] ∧
      s.committed 0 = greedy (fun tokens => tokens.length) [5, 6, 2] (s.committed 0).length := by
  refine ⟨by decide +kernel, ?_⟩
  exact ((dflash_lossless (fun tokens => tokens.length) (fun _ => [5, 6]) (fun _ => 2) (fun _ => 2)
    [sampleRound, sampleRound]).2 0 (by decide)).1

end

end VKernels.Dflash
