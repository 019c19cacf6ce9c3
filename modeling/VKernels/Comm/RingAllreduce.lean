import VKernels.Comm.RingRounds

/-!
# Ring all-reduce

* `ringAllreduceRank`, `RcclAllreducePlan.execute` — the code of one rank; `ringAllreduce`,
  `planRing` — all ranks.

## Results

* `ring_reduces` — a lockstep run reduces; channels make every other run end as this one does.
* `ring_allreduce_correct` — both forms, for every world size and every input.
-/

namespace VKernels.Comm.Allreduce

open Interleaving FifoProcesses Blocks
open List

variable {α : Type} [Add α]

/-! ## `ring_allreduce` -/

/-- `for (k < mine.size()) mine[k] += got[k]`. -/
def addChunk (mine got : List α) : Except String (List α) :=
  if mine.length ≤ got.length then .ok (zipWith (· + ·) mine got) else .error outOfBounds

def ringAllreduceRank (loc : List α) (rank world : ℤ) : RankM α (List α) := do
  expects (world > 0) "world must be positive" "world > 0"
  expects (rank ≥ 0 ∧ rank < world) "rank out of range" "rank >= 0 && rank < world"
  expects (loc.length % world.toNat = 0) "local length must be divisible by world"
    "local.size() % static_cast<std::size_t>(world) == 0"
  if world = 1 then return loc
  let chunk := loc.length / world.toNat
  let loc ← reduceScatter addChunk rank world chunk loc
  allGather rank world chunk loc

/-- `ring_allreduce`, up to the `join` of its threads. -/
def ringAllreduce (locals : List (List α)) : Except String (Ring locals.length α) := do
  expects (0 < locals.length) "locals must be non-empty" "world > 0"
  let len := (locals.headD []).length
  expectsAll locals.length fun r => expects ((locals.getD r []).length = len)
    "all locals must have equal length" "v.size() == len"
  expects (len % locals.length = 0) "local length must be divisible by world"
    "len % static_cast<std::size_t>(world) == 0"
  return { procs := fun r => ringAllreduceRank (locals.get r) r locals.length
           channels := fun _ => [] }

/-! ## `RcclAllreducePlan` -/

inductive RcclReduceOp where
  | sum
  | max
  | min
  deriving DecidableEq

section

variable [LT α] [DecidableLT α]

/-- `x += y`, `std::max(x, y)` or `std::min(x, y)`. -/
def RcclReduceOp.apply : RcclReduceOp → α → α → α
  | .sum, x, y => x + y
  | .max, x, y => if x < y then y else x
  | .min, x, y => if y < x then y else x

def combineChunk (op : RcclReduceOp) (mine got : List α) : Except String (List α) := do
  expects (mine.length = got.length) "chunk sizes must match" "mine.size() == got.size()"
  return zipWith op.apply mine got

/-- A constructed plan, with what its constructor checked. -/
structure RcclAllreducePlan where
  world : ℤ
  rank : ℤ
  op : RcclReduceOp
  capacity : ℕ
  world_pos : world > 0
  rank_range : rank ≥ 0 ∧ rank < world
  capacity_pos : capacity > 0
  capacity_div : capacity % world.toNat = 0

def RcclAllreducePlan.construct (world rank : ℤ) (op : RcclReduceOp) (capacity : ℕ) : Except String RcclAllreducePlan :=
  if hworld : world > 0 then
    if hrank : rank ≥ 0 ∧ rank < world then
      if hcapacity : capacity > 0 then
        if hdiv : capacity % world.toNat = 0 then
          .ok ⟨world, rank, op, capacity, hworld, hrank, hcapacity, hdiv⟩
        else .error ("capacity must be divisible by world: " ++
          "capacity_elems % static_cast<std::size_t>(world) == 0")
      else .error "capacity must be positive: capacity_elems > 0"
    else .error "rank out of range: rank >= 0 && rank < world"
  else .error "world must be positive: world > 0"

/-- `std::vector<float> local(buf, buf + n)`. -/
def readBuf (buf : List α) (n : ℕ) : Except String (List α) :=
  if n ≤ buf.length then .ok (buf.take n) else .error outOfBounds

/-- The closure `run` of `execute`, on the memory at `buf`. -/
def RcclAllreducePlan.run (plan : RcclAllreducePlan) (buf : List α) (n : ℕ) :
    RankM α (List α) := do
  if plan.world = 1 then return buf
  let loc ← readBuf buf n
  let chunk := n / plan.world.toNat
  let loc ← reduceScatter (combineChunk plan.op) plan.rank plan.world chunk loc
  let loc ← allGather plan.rank plan.world chunk loc
  return overwrite buf 0 loc

/-- Where a call runs its closure. -/
inductive Launch (A : Type) where
  | now (task : A)
  | submitted (task : A)

/-- What the calling thread or the stream's worker runs. -/
def Launch.task {A : Type} : Launch A → A
  | now task => task
  | submitted task => task

def RcclAllreducePlan.execute (plan : RcclAllreducePlan) (buf : Option (List α)) (n : ℕ)
    (stream : Bool) : Except String (Launch (RankM α (List α))) := do
  expects (buf ≠ none) "buf must be non-null" "buf != nullptr"
  expects (n > 0) "n must be positive" "n > 0"
  expects (n ≤ plan.capacity) "n exceeds capacity" "n <= capacity_"
  expects (n % plan.world.toNat = 0) "n must be divisible by world"
    "n % static_cast<std::size_t>(world_) == 0"
  let run := plan.run (buf.getD []) n
  return if stream then .submitted run else .now run

/-- One rank of a ring of plans, over its own buffer of `n` elements. -/
def planRank (op : RcclReduceOp) (capacity : ℕ) (stream : Bool) (rank world : ℤ) (buf : List α) :
    RankM α (List α) := do
  let plan ← RcclAllreducePlan.construct world rank op capacity
  let launch ← plan.execute (some buf) buf.length stream
  launch.task

/-- A ring of plans: `stream r` says whether rank `r` passes a stream of its own. -/
def planRing (op : RcclReduceOp) (capacity : ℕ) (locals : List (List α))
    (stream : Fin locals.length → Bool) : Ring locals.length α where
  procs r := planRank op capacity (stream r) r locals.length (locals.get r)
  channels _ := []

end

/-- Every rank ends with one vector, whatever the order of the ranks' channel operations. -/
structure Reduced {α : Type} (op : α → α → α) (locals : List (List α))
    (ring : Ring locals.length α) (out : List α) : Prop where
  /-- No deadlock. -/
  progress : ∀ {σ s}, run Ring.step σ ring = some s → s.Finished ∨ ∃ r s', s.step r = some s'
  /-- No run goes on forever. -/
  bounded : ∃ bound, ∀ {σ s}, run Ring.step σ ring = some s → σ.length ≤ bound
  /-- The ranks agree. -/
  agree : ∀ {σ s}, run Ring.step σ ring = some s → s.Finished →
    ∀ r, s.procs r = .ret (.ok out)
  length : ∀ v ∈ locals, out.length = v.length
  /-- Over a commutative monoid, each element is a sum over the ranks. -/
  sum : ∀ [AddCommMonoid α], (∀ x y, op x y = x + y) → ∀ (j : ℕ) (v : Fin locals.length → α),
    (∀ r, (locals.get r)[j]? = some (v r)) → out[j]? = some (∑ r, v r)

/-! ## The reduced vector -/

section

variable {β : Type} {N c : ℕ}

lemma ringFold_getElem? {op : β → β → β} {x : ℕ → List β} {v : ℕ → β} {i : ℕ}
    (h : ∀ r < N, (x r)[i]? = some (v r)) (hc : c < N) (d : ℕ) :
    (ringFold (zipWith op) N x c d)[i]? = some (ringFold op N v c d) := by
  induction d with
  | zero => exact h c hc
  | succ d ih =>
    have hr := h ((c + d + 1) % N) (Nat.mod_lt _ (by omega))
    simp [ringFold, getElem?_zipWith, hr, ih]

lemma ringFold_sum [AddCommMonoid β] {op : β → β → β} (hop : ∀ x y, op x y = x + y) (v : ℕ → β) (hc : c < N) (d : ℕ) :
    ringFold op N v c d = ∑ e ∈ Finset.range (d + 1), v ((c + e) % N) := by
  induction d with
  | zero => simp [ringFold, Nat.mod_eq_of_lt hc]
  | succ d ih =>
    rw [Finset.sum_range_succ, ← ih, ringFold, hop, add_comm]
    rfl

lemma sum_around [AddCommMonoid β] (v : ℕ → β) (hc : c < N) :
    ∑ e ∈ Finset.range N, v ((c + e) % N) = ∑ r : Fin N, v r := by
  have : NeZero N := ⟨by omega⟩
  rw [Finset.sum_range]
  refine Eq.trans ?_ (Equiv.sum_comp (Equiv.addLeft (⟨c, hc⟩ : Fin N)) fun r : Fin N => v r)
  apply Finset.sum_congr rfl
  intro e _
  simp [Fin.val_add]

end

section

variable {α : Type} {op : α → α → α} {locals : List (List α)} {ring : Ring locals.length α}
  {out : List α} {chunk : ℕ}

lemma reduced_of_run {σ : List (Fin locals.length)}
    (hσ : run Ring.step σ ring = some ⟨fun _ => .ret (.ok out), fun _ => []⟩)
    (hlength : ∀ v ∈ locals, out.length = v.length) (hsum : ∀ [AddCommMonoid α], (∀ x y, op x y = x + y) →
      ∀ (j : ℕ) (v : Fin locals.length → α), (∀ r, (locals.get r)[j]? = some (v r)) →
        out[j]? = some (∑ r, v r)) : Reduced op locals ring out where
  progress := (Net.yields_of_run inp_injective hσ).progress
  bounded := (Net.yields_of_run inp_injective hσ).bounded
  agree := (Net.yields_of_run inp_injective hσ).agree
  length := hlength
  sum := hsum

def inputChunks (locals : List (List α)) (chunk r c : ℕ) : List α :=
  block chunk (locals.getD r []) c

lemma out_sum [AddCommMonoid α] (hop : ∀ x y, op x y = x + y) {N : ℕ} {x : ℕ → ℕ → List α}
    {loc : Fin N → List α} (hpos : 0 < N) (hloc : Holds N chunk x loc)
    (hout : ∀ c < N, block chunk out c = fullChunk op N x c)
    (j : ℕ) (v : Fin N → α) (hv : ∀ r, (loc r)[j]? = some (v r)) : out[j]? = some (∑ r, v r) := by
  by_cases hj : j < N * chunk
  · obtain ⟨hc, hi, hji⟩ := block_of_lt hj
    let w : ℕ → α := fun r => if h : r < N then v ⟨r, h⟩ else 0
    have hw : ∀ r < N, (x r (j / chunk))[j % chunk]? = some (w r) := by
      intro r hr
      rw [← (hloc ⟨r, hr⟩).2 _ hc, getElem?_block, if_pos hi, hji, hv]
      simp [w, hr]
    have hblock := congrArg (fun b => b[j % chunk]?) (hout _ hc)
    simp only [getElem?_block, if_pos hi, hji] at hblock
    rw [hblock, fullChunk, ringFold_getElem? hw hc, ringFold_sum hop w hc,
      Nat.sub_add_cancel (Nat.zero_lt_of_lt hc), sum_around w hc]
    simp [w]
  · have hnone := hv ⟨0, hpos⟩
    rw [getElem?_eq_none (by rw [(hloc _).1]; omega)] at hnone
    cases hnone

/-- The inputs of a ring: as many vectors as ranks, of one length that the ranks divide. -/
structure RingInputs (locals : List (List α)) (chunk : ℕ) : Prop where
  pos : 0 < locals.length
  lengths : ∀ v ∈ locals, v.length = locals.length * chunk

/-- A ring whose ranks run the two loops and then return what `k` makes of their vectors. -/
lemma ring_reduces {combine : List α → List α → Except String (List α)} (h : RingInputs locals chunk)
    (hcombine : ∀ mine got, mine.length = chunk → got.length = chunk →
      combine mine got = .ok (zipWith op mine got)) {k : Fin locals.length → List α → RankM α (List α)}
    (hk : ∀ r out, out.length = locals.length * chunk → k r out = .ret (.ok out))
    (hring : ring = ⟨fun r => (reduceScatter combine r locals.length chunk (locals.get r) >>=
      fun l => allGather r locals.length chunk l >>= k r : RankM α (List α)), fun _ => []⟩) :
    ∃ out, Reduced op locals ring out := by
  have hget : ∀ r : Fin locals.length, (locals.get r).length = locals.length * chunk := fun r =>
    h.lengths _ (get_mem locals r)
  have hholds : Holds locals.length chunk (inputChunks locals chunk) locals.get := by
    intro r
    refine ⟨hget r, fun c _ => ?_⟩
    simp [inputChunks, getD_eq_getElem?_getD]
  obtain ⟨out, hlen, hout, σ, hσ⟩ := ring_rounds h.pos hcombine k hholds
  refine ⟨out, reduced_of_run (σ := σ) ?_ ?_ fun hop => out_sum hop h.pos hholds hout⟩
  · rw [hring, hσ]
    congr 2
    exact funext fun r => hk r out hlen
  · intro v hv
    rw [hlen, h.lengths v hv]

end

/-! ## Both forms -/

section

variable {α : Type} {locals : List (List α)} {chunk : ℕ}

variable {N : ℕ}

lemma rank_range (r : Fin N) : (r : ℤ) ≥ 0 ∧ (r : ℤ) < N := by
  omega

lemma RingInputs.chunk_eq (h : RingInputs locals chunk) (r : Fin locals.length) :
    (locals.get r).length / locals.length = chunk := by
  rw [h.lengths _ (get_mem locals r), Nat.mul_div_cancel_left chunk h.pos]

lemma RingInputs.divides (h : RingInputs locals chunk) (r : Fin locals.length) :
    (locals.get r).length % locals.length = 0 := by
  rw [h.lengths _ (get_mem locals r), Nat.mul_mod_right]

lemma loops_single {combine : List α → List α → Except String (List α)} {rank : ℤ}
    {loc : List α} (k : List α → RankM α (List α)) :
    (reduceScatter combine rank 1 chunk loc >>= fun l => allGather rank 1 chunk l >>= k) = k loc :=
  rfl

variable [Add α]

lemma addChunk_eq {mine got : List α} (hmine : mine.length = chunk) (hgot : got.length = chunk) :
    addChunk mine got = .ok (zipWith (· + ·) mine got) :=
  if_pos (by omega)

lemma ringAllreduceRank_loops {loc : List α} (hN : 0 < N) (hloc : loc.length = N * chunk)
    (r : Fin N) : ringAllreduceRank loc r N =
      reduceScatter addChunk r N chunk loc >>= fun l => allGather r N chunk l >>= pure := by
  have hmod : loc.length % N = 0 := by rw [hloc, Nat.mul_mod_right]
  have hdiv : loc.length / N = chunk := by rw [hloc, Nat.mul_div_cancel_left chunk hN]
  unfold ringAllreduceRank
  rw [expects_of (by omega), lift_ok_bind, expects_of (rank_range r), lift_ok_bind,
    expects_of (by simpa using hmod), lift_ok_bind, Int.toNat_natCast, hdiv]
  by_cases hone : (N : ℤ) = 1
  · rw [if_pos hone, hone]
    exact (loops_single pure).symm
  · rw [if_neg hone]
    simp

lemma ringAllreduceRank_eq (h : RingInputs locals chunk) (r : Fin locals.length) :
    ringAllreduceRank (locals.get r) r locals.length =
      reduceScatter addChunk r locals.length chunk (locals.get r) >>= fun l =>
        allGather r locals.length chunk l >>= pure :=
  ringAllreduceRank_loops h.pos (h.lengths _ (get_mem locals r)) r

lemma ringAllreduce_eq (h : RingInputs locals chunk) :
    ringAllreduce locals = .ok ⟨fun r => ringAllreduceRank (locals.get r) r locals.length, fun _ => []⟩ := by
  have hhead : (locals.headD []).length = locals.length * chunk := by
    apply h.lengths
    rw [headD_eq_head?_getD, head?_eq_getElem?, getElem?_eq_getElem h.pos]
    exact getElem_mem _
  have hall : ∀ r < locals.length, (locals.getD r []).length = (locals.headD []).length := by
    intro r hr
    rw [hhead]
    apply h.lengths
    rw [getD_eq_getElem _ _ hr]
    exact getElem_mem _
  unfold ringAllreduce
  rw [expects_of h.pos]
  show (expectsAll _ _ >>= _) = _
  rw [expectsAll_of fun r hr => expects_of (hall r hr) _ _]
  rw [expects_of (by rw [hhead, Nat.mul_mod_right])]
  rfl

variable [LT α] [DecidableLT α] {op : RcclReduceOp} {capacity : ℕ}

lemma combineChunk_eq {mine got : List α} (hmine : mine.length = chunk) (hgot : got.length = chunk) :
    combineChunk op mine got = .ok (zipWith op.apply mine got) := by
  unfold combineChunk
  rw [expects_of (hmine.trans hgot.symm)]
  rfl

lemma planRank_eq (h : RingInputs locals chunk) (hchunk : 0 < chunk)
    (hcap : locals.length * chunk ≤ capacity) (hdiv : capacity % locals.length = 0)
    (stream : Bool) (r : Fin locals.length) : planRank op capacity stream r locals.length (locals.get r) =
      reduceScatter (combineChunk op) r locals.length chunk (locals.get r) >>= fun l =>
        allGather r locals.length chunk l >>= fun out => pure (overwrite (locals.get r) 0 out) := by
  have hpos := h.pos
  have hlen := h.lengths _ (get_mem locals r)
  have hn : 0 < locals.length * chunk := mul_pos hpos hchunk
  let plan : RcclAllreducePlan :=
    ⟨locals.length, r, op, capacity, by omega, rank_range r, by omega, by simpa using hdiv⟩
  have hconstruct : RcclAllreducePlan.construct locals.length r op capacity = .ok plan := by
    unfold RcclAllreducePlan.construct
    rw [dif_pos, dif_pos _, dif_pos, dif_pos]
  have hexecute : plan.execute (some (locals.get r)) (locals.get r).length stream =
      .ok (if stream then .submitted (plan.run (locals.get r) (locals.get r).length)
        else .now (plan.run (locals.get r) (locals.get r).length)) := by
    unfold RcclAllreducePlan.execute
    rw [expects_of (by simp), expects_of (show (locals.get r).length > 0 by omega),
      expects_of (show (locals.get r).length ≤ plan.capacity by rw [hlen]; exact hcap),
      expects_of (show (locals.get r).length % plan.world.toNat = 0 from h.divides r)]
    rfl
  have htask : ∀ run : RankM α (List α), (if stream then Launch.submitted run else .now run).task = run := by
    intro _
    cases stream <;> rfl
  unfold planRank
  rw [hconstruct, lift_ok_bind, hexecute, lift_ok_bind, htask]
  unfold RcclAllreducePlan.run
  by_cases hone : (locals.length : ℤ) = 1
  · rw [if_pos hone, hone, loops_single, overwrite_all rfl]
  · have hread : readBuf (locals.get r) (locals.get r).length = .ok (locals.get r) := by
      unfold readBuf
      rw [if_pos le_rfl, take_length]
    rw [if_neg hone, hread, lift_ok_bind]
    rw [Int.toNat_natCast, h.chunk_eq r]

/-- **An all-reduce in the middle** of the ranks' programs leaves every rank with the sums. -/
theorem allreduce_run {β : Type} [AddCommMonoid β] (hN : 0 < N) (loc : Fin N → List β)
    (hloc : ∀ r, (loc r).length = N * chunk) (k : Fin N → List β → RankM β (List β)) :
    ∃ out : List β, out.length = N * chunk ∧
      (∀ (j : ℕ) (v : Fin N → β), (∀ r, (loc r)[j]? = some (v r)) → out[j]? = some (∑ r, v r)) ∧
      ∃ σ, run Ring.step σ ⟨fun r => (ringAllreduceRank (loc r) r N >>= k r : RankM β (List β)),
        fun _ => []⟩ = some ⟨fun r => k r out, fun _ => []⟩ := by
  let x : ℕ → ℕ → List β := fun r c => if h : r < N then block chunk (loc ⟨r, h⟩) c else []
  have hholds : Holds N chunk x loc := by
    intro r
    refine ⟨hloc r, fun c _ => ?_⟩
    simp [x]
  have hcombine : ∀ mine got : List β, mine.length = chunk → got.length = chunk →
      addChunk mine got = .ok (zipWith (· + ·) mine got) := fun _ _ => addChunk_eq
  obtain ⟨out, hlen, hout, σ, hσ⟩ := ring_rounds hN hcombine k hholds
  refine ⟨out, hlen, out_sum (fun _ _ => rfl) hN hholds hout, σ, ?_⟩
  rw [← hσ]
  congr 2
  funext r
  rw [ringAllreduceRank_loops hN (hloc r) r]
  simp

/-- **Both forms of the ring all-reduce.**  The plan's form also needs what its constructor and
    `execute` check. -/
theorem ring_allreduce_correct (locals : List (List α)) (len : ℕ) (hpos : 0 < locals.length)
    (hlen : ∀ v ∈ locals, v.length = len) (hdiv : len % locals.length = 0) :
    (∃ ring out, ringAllreduce locals = .ok ring ∧ Reduced (· + ·) locals ring out) ∧
    ∀ (op : RcclReduceOp) (capacity : ℕ) (stream : Fin locals.length → Bool), 0 < len →
      len ≤ capacity → capacity % locals.length = 0 →
        ∃ out, Reduced op.apply locals (planRing op capacity locals stream) out := by
  have hchunk : locals.length * (len / locals.length) = len := by
    have := Nat.div_add_mod len locals.length
    omega
  have h : RingInputs locals (len / locals.length) := ⟨hpos, fun v hv => by rw [hlen v hv, hchunk]⟩
  constructor
  · have hring : ∃ out, Reduced (· + ·) locals
        ⟨fun r => ringAllreduceRank (locals.get r) r locals.length, fun _ => []⟩ out := by
      apply ring_reduces h (fun _ _ => addChunk_eq) (k := fun _ => pure) (fun _ _ _ => rfl)
      rw [funext (ringAllreduceRank_eq h)]
    obtain ⟨out, hout⟩ := hring
    exact ⟨_, out, ringAllreduce_eq h, hout⟩
  · intro _ _ stream hlenpos hcap hcapdiv
    have hpos' : 0 < len / locals.length := by
      apply pos_of_ne_zero
      intro hzero
      rw [hzero] at hchunk
      omega
    apply ring_reduces h (fun _ _ => combineChunk_eq) (k := fun r out => pure (overwrite (locals.get r) 0 out))
    · intro r _ hout
      rw [overwrite_all (by rw [hout, h.lengths _ (get_mem locals r)])]
      rfl
    · unfold planRing
      rw [funext fun r => planRank_eq h hpos' (by rw [hchunk]; exact hcap) hcapdiv (stream r) r]

theorem ring_allreduce_correct_two : (∃ ring out, ringAllreduce [[1, 2], [3, 4]] = .ok ring ∧
      Reduced (· + ·) [[1, 2], [3, 4]] ring out) ∧
    ∀ (op : RcclReduceOp) (capacity : ℕ) (stream : Fin 2 → Bool), 0 < 2 → 2 ≤ capacity → capacity % 2 = 0 →
        ∃ out, Reduced op.apply [[1, 2], [3, 4]] (planRing op capacity [[1, 2], [3, 4]] stream) out :=
  ring_allreduce_correct [[1, 2], [3, 4]] 2 (by decide) (by decide) (by decide)

end

end VKernels.Comm.Allreduce
