import VKernels.Comm.Host
import VKernels.Lib.FifoProcesses
import VKernels.Lib.Blocks

/-!
# Rounds on a ring

The two loops that the ring all-reduces of `allreduce.cpp` and `rccl.cpp` share, over the
in-process channels of `channel.cpp`.  Ranks and steps are counted without overflow.

* `RankM` — a rank's program: it sends and receives vectors and may throw.
* `reduceScatter`, `allGather` — the loops; `makeRingChannels`, `Ring` — the ranks and their edges.
* `scatter_round`, `gather_round` — what every rank holds after each step, by the distance of a
  chunk from its own rank.
* `ring_rounds` — in lockstep, every rank ends with every chunk folded over all ranks.
-/

namespace VKernels.Comm.Allreduce

open Interleaving FifoProcesses Blocks
open List

/-! ## A rank's program -/

abbrev RankM (α : Type) := ExceptT String (Proc (List α))

namespace RankM

variable {α : Type}

/-- `Channel::send`. -/
def send (chunk : List α) : RankM α Unit := ExceptT.mk (.send chunk (.ret (.ok ())))

/-- `Channel::recv`. -/
def recv : RankM α (List α) := ExceptT.mk (.recv fun chunk => .ret (.ok chunk))

end RankM

/-- Reading or writing past the end of a vector. -/
def outOfBounds : String := "out of bounds"

section

variable {α : Type}

/-- `chunk_of`. -/
def chunkOf (chunk : ℕ) (loc : List α) (c : ℕ) : Except String (List α) :=
  if (c + 1) * chunk ≤ loc.length then .ok (block chunk loc c) else .error outOfBounds

/-- `replace_chunk`. -/
def replaceChunk (chunk : ℕ) (loc : List α) (c : ℕ) (v : List α) : Except String (List α) :=
  if c * chunk + v.length ≤ loc.length then .ok (overwrite loc (c * chunk) v)
  else .error outOfBounds

/-- `(c % world + world) % world`, where `%` rounds toward zero. -/
def ringChunk (c world : ℤ) : ℕ := ((c.tmod world + world).tmod world).toNat

variable (combine : List α → List α → Except String (List α)) (rank world : ℤ) (chunk : ℕ)

/-- Step `t` of phase 1. -/
def reduceScatterStep (loc : List α) (t : ℕ) : RankM α (List α) := do
  let sendC := ringChunk (rank - t) world
  let recvC := ringChunk (rank - t - 1) world
  let toSend ← chunkOf chunk loc sendC
  RankM.send toSend
  let got ← RankM.recv
  let mine ← chunkOf chunk loc recvC
  let mine ← combine mine got
  replaceChunk chunk loc recvC mine

/-- Step `t` of phase 2. -/
def allGatherStep (loc : List α) (t : ℕ) : RankM α (List α) := do
  let sendC := ringChunk (rank - t + 1) world
  let recvC := ringChunk (rank - t) world
  let toSend ← chunkOf chunk loc sendC
  RankM.send toSend
  let got ← RankM.recv
  replaceChunk chunk loc recvC got

/-- Phase 1, `world - 1` steps. -/
def reduceScatter (loc : List α) : RankM α (List α) :=
  (range (world - 1).toNat).foldlM (reduceScatterStep combine rank world chunk) loc

/-- Phase 2, `world - 1` steps. -/
def allGather (loc : List α) : RankM α (List α) :=
  (range (world - 1).toNat).foldlM (allGatherStep rank world chunk) loc

end

/-! ## The ring -/

/-- A rank's end of the ring: the edge it sends into and the edge it receives from. -/
structure MockChannel (world : ℕ) where
  out : Fin world
  inp : Fin world

/-- `make_ring_channels`: edge `r` carries rank `r` to rank `(r + 1) % world`. -/
def makeRingChannels {world : ℕ} (r : Fin world) : MockChannel world where
  out := r
  inp := ⟨(r + world - 1) % world, Nat.mod_lt _ r.pos⟩

abbrev Ring (world : ℕ) (α : Type) := Net (Fin world) (List α) (Except String (List α))

/-- The next channel operation of a rank. -/
abbrev Ring.step {world : ℕ} {α : Type} (r : Fin world) (n : Ring world α) : Option (Ring world α) :=
  Net.step (fun r => (makeRingChannels r).inp) r n

/-! ## Places on the ring -/

/-- The rank `d` places before rank `r`; also how many places rank `c` is before `r`. -/
def before (N r c : ℕ) : ℕ := if c ≤ r then r - c else r + N - c

section

variable {N r c d : ℕ}

lemma before_lt (hr : r < N) (hc : c < N) : before N r c < N := by
  unfold before
  split <;> omega

lemma before_before (hr : r < N) (hc : c < N) : before N r (before N r c) = c := by
  unfold before
  split <;> split <;> omega

lemma before_inj (hr : r < N) (hc : c < N) (hd : d < N) : before N r c = d ↔ c = before N r d := by
  constructor
  · intro h
    rw [← h, before_before hr hc]
  · intro h
    rw [h, before_before hr hd]

lemma before_add (hr : r < N) (hd : d < N) : (before N r d + d) % N = r := by
  unfold before
  split
  · rw [Nat.sub_add_cancel ‹_›, Nat.mod_eq_of_lt hr]
  · rw [Nat.sub_add_cancel (by omega), Nat.add_mod_right, Nat.mod_eq_of_lt hr]

lemma before_prev (hr : r < N) (hd : d + 1 < N) : before N (before N r 1) d = before N r (d + 1) := by
  unfold before
  split <;> split <;> split <;> omega

lemma before_prev_last (hr : r < N) (hN : 1 < N) : before N (before N r 1) (N - 1) = r := by
  unfold before
  split <;> split <;> omega

lemma inp_eq_before {N : ℕ} (r : Fin N) (hN : 1 < N) : ((makeRingChannels r).inp : ℕ) = before N r 1 := by
  show (r + N - 1) % N = _
  unfold before
  split
  · rw [show (r : ℕ) + N - 1 = r - 1 + N by omega, Nat.add_mod_right, Nat.mod_eq_of_lt (by omega)]
  · rw [Nat.mod_eq_of_lt (by omega)]

lemma inp_injective {N : ℕ} : Function.Injective fun r : Fin N => (makeRingChannels r).inp := by
  intro r _ h
  by_cases hN : 1 < N
  · have hval := congrArg Fin.val h
    simp only [inp_eq_before _ hN] at hval
    unfold before at hval
    apply Fin.ext
    split at hval <;> split at hval <;> omega
  · apply Fin.ext
    omega

/-- The double remainder of the code is the remainder of the integers. -/
lemma ringChunk_eq_emod {x : ℤ} (hN : 0 < N) : ringChunk x N = (x % N).toNat := by
  have hlow := Int.lt_tmod_of_pos x (show (0 : ℤ) < N by omega)
  have hemod : (x.tmod N + N) % N = x % N := by
    rw [Int.add_emod_right, Int.tmod_def, Int.sub_mul_emod_self_left]
  unfold ringChunk
  rw [Int.tmod_eq_emod_of_nonneg (by omega), hemod]

lemma ringChunk_sub (hr : r < N) (hd : d < N) : ringChunk ((r : ℤ) - d) N = before N r d := by
  rw [ringChunk_eq_emod (by omega)]
  unfold before
  split
  · rw [Int.emod_eq_of_lt (by omega) (by omega)]
    omega
  · rw [← Int.add_emod_right, Int.emod_eq_of_lt (by omega) (by omega)]
    omega

lemma ringChunk_add_world (x : ℤ) (hN : 0 < N) : ringChunk (x + N) N = ringChunk x N := by
  rw [ringChunk_eq_emod hN, ringChunk_eq_emod hN, Int.add_emod_right]

end

/-! ## Rounds in lockstep -/

section

variable {α : Type}

/-- Each rank has `N` chunks, and chunk `c` of rank `r` is `f r c`. -/
def Holds (N chunk : ℕ) (f : ℕ → ℕ → List α) (loc : Fin N → List α) : Prop :=
  ∀ r : Fin N, (loc r).length = N * chunk ∧ ∀ c < N, block chunk (loc r) c = f r c

variable {N chunk : ℕ} {f f' : ℕ → ℕ → List α} {loc : Fin N → List α} {c : ℕ}

section

variable (h : Holds N chunk f loc)
include h

lemma Holds.bound (r : Fin N) (hc : c < N) : (c + 1) * chunk ≤ (loc r).length := by
  rw [(h r).1]
  exact Nat.mul_le_mul_right chunk hc

lemma Holds.chunkOf (r : Fin N) (hc : c < N) : chunkOf chunk (loc r) c = .ok (f r c) := by
  unfold Allreduce.chunkOf
  rw [if_pos (h.bound r hc), (h r).2 c hc]

lemma Holds.size (r : Fin N) (hc : c < N) : (f r c).length = chunk := by
  rw [← (h r).2 c hc]
  exact block_length (h.bound r hc)

lemma Holds.replaceChunk (r : Fin N) (hc : c < N) {v : List α} (hv : v.length = chunk) :
    replaceChunk chunk (loc r) c v = .ok (overwrite (loc r) (c * chunk) v) := by
  have hbound := h.bound r hc
  rw [add_one_mul] at hbound
  exact if_pos (by omega)

lemma Holds.overwrite {q : Fin N → ℕ} {v : Fin N → List α} (hq : ∀ r, q r < N) (hv : ∀ r, (v r).length = chunk)
    (hself : ∀ r : Fin N, f' r (q r) = v r) (hother : ∀ r : Fin N, ∀ c < N, c ≠ q r → f' r c = f r c) :
    Holds N chunk f' fun r => overwrite (loc r) (q r * chunk) (v r) := by
  intro r
  have hbound := h.bound r (hq r)
  constructor
  · rw [overwrite_length]
    · exact (h r).1
    · rw [add_one_mul] at hbound
      have := hv r
      omega
  · intro c hc
    by_cases hcq : c = q r
    · rw [hcq, hself]
      exact block_overwrite_self hbound (hv r)
    · rw [hother r c hc hcq, ← (h r).2 c hc]
      exact block_overwrite_other hbound (hv r) hcq

end

variable {γ : Type} {r : ℕ}

lemma lift_ok_bind {β : Type} (a : β) (k : β → RankM α γ) :
    (liftM (Except.ok a : Except String β) >>= k : RankM α γ) = k a := rfl

lemma send_bind (m : List α) (k : Unit → RankM α γ) : (RankM.send m >>= k : RankM α γ) = Proc.send m (k ()) := rfl

lemma recv_bind (k : List α → RankM α γ) : (RankM.recv >>= k : RankM α γ) = Proc.recv k := rfl

/-- A step of phase 1 sends once and receives once. -/
lemma reduceScatterStep_bind (combine : List α → List α → Except String (List α))
    {rank world : ℤ} {loc m : List α} {t : ℕ} (k : List α → RankM α (List α))
    (hs : chunkOf chunk loc (ringChunk (rank - t) world) = .ok m) :
    ∃ next, (reduceScatterStep combine rank world chunk loc t >>= k) = Proc.send m (.recv next) ∧
      ∀ {got mine v loc'}, chunkOf chunk loc (ringChunk (rank - t - 1) world) = .ok mine → combine mine got = .ok v →
        replaceChunk chunk loc (ringChunk (rank - t - 1) world) v = .ok loc' → next got = k loc' := by
  simp only [reduceScatterStep, hs, lift_ok_bind, bind_assoc]
  simp only [recv_bind]
  refine ⟨_, rfl, ?_⟩
  intro _ _ v _ hmine hv hloc
  simp [hmine, hv, hloc, lift_ok_bind]

/-- A step of phase 2 sends once and receives once. -/
lemma allGatherStep_bind {rank world : ℤ} {loc m : List α} {t : ℕ} (k : List α → RankM α (List α))
    (hs : chunkOf chunk loc (ringChunk (rank - t + 1) world) = .ok m) :
    ∃ next, (allGatherStep rank world chunk loc t >>= k) = Proc.send m (.recv next) ∧
      ∀ {got loc'}, replaceChunk chunk loc (ringChunk (rank - t) world) got = .ok loc' → next got = k loc' := by
  simp only [allGatherStep, hs, lift_ok_bind, bind_assoc]
  simp only [recv_bind]
  refine ⟨_, rfl, ?_⟩
  intro _ _ hloc
  simp [hloc, lift_ok_bind]

lemma ring_exchange {procs procs' : Fin N → Proc (List α) (Except String (List α))} {msg : Fin N → List α}
    (h : ∀ r, ∃ next, procs r = .send (msg r) (.recv next) ∧ next (msg (makeRingChannels r).inp) = procs' r) :
    ∃ σ, run Ring.step σ ⟨procs, fun _ => []⟩ = some ⟨procs', fun _ => []⟩ := by
  choose next hprocs hnext using h
  obtain ⟨σ, hσ⟩ := Net.exchange (fun r => (makeRingChannels r).inp) msg next inp_injective
  refine ⟨σ, ?_⟩
  rw [funext hprocs, ← funext hnext]
  exact hσ

/-! ### Phase 1 -/

/-- The fold of one chunk from rank `c` on, after `d` more ranks. -/
def ringFold {β : Type} (op : β → β → β) (N : ℕ) (x : ℕ → β) (c : ℕ) : ℕ → β
  | 0 => x c
  | d + 1 => op (x ((c + d + 1) % N)) (ringFold op N x c d)

/-- Chunk `c` of rank `r` after `k` steps of phase 1, when `x r c` was there before. -/
def scattered (op : α → α → α) (N : ℕ) (x : ℕ → ℕ → List α) (k r c : ℕ) : List α :=
  if before N r c ≤ k then
    ringFold (zipWith op) N (fun r => x r c) c (before N r c)
  else x r c

variable {op : α → α → α} {combine : List α → List α → Except String (List α)}
  {x : ℕ → ℕ → List α}

lemma scattered_step {k : ℕ} (hr : r < N) (hk : k + 1 < N) :
    zipWith op (scattered op N x k r (before N r (k + 1)))
      (scattered op N x k (before N r 1) (before N r (k + 1))) = scattered op N x (k + 1) r (before N r (k + 1)) := by
  have hc := before_lt hr hk
  have hmine : before N r (before N r (k + 1)) = k + 1 := before_before hr hk
  have hprev : before N (before N r 1) (before N r (k + 1)) = k := by
    rw [before_inj (before_lt hr (by omega)) hc (by omega), before_prev hr hk]
  have hrank := before_add hr hk
  unfold scattered
  rw [hmine, hprev, if_neg (by omega), if_pos le_rfl, if_pos le_rfl, ringFold]
  rw [show before N r (k + 1) + k + 1 = before N r (k + 1) + (k + 1) by omega, hrank]

lemma scattered_other {c k : ℕ} (hr : r < N) (hc : c < N) (hk : k + 1 < N) (hne : c ≠ before N r (k + 1)) :
    scattered op N x (k + 1) r c = scattered op N x k r c := by
  have hd : before N r c ≠ k + 1 := fun h => hne ((before_inj hr hc hk).mp h)
  unfold scattered
  by_cases h : before N r c ≤ k
  · rw [if_pos h, if_pos (by omega)]
  · rw [if_neg h, if_neg (by omega)]

lemma scatter_round (hcombine : ∀ mine got, mine.length = chunk → got.length = chunk →
      combine mine got = .ok (zipWith op mine got))
    (k : Fin N → List α → RankM α (List α)) {t : ℕ} (ht : t + 1 < N) (h : Holds N chunk (scattered op N x t) loc) :
    ∃ loc' : Fin N → List α, Holds N chunk (scattered op N x (t + 1)) loc' ∧ ∃ σ, run Ring.step σ
        ⟨fun r => (reduceScatterStep combine r N chunk (loc r) t >>= k r : RankM α (List α)),
          fun _ => []⟩ = some ⟨fun r => k r (loc' r), fun _ => []⟩ := by
  let v : Fin N → List α := fun r => scattered op N x (t + 1) r (before N r (t + 1))
  have hq : ∀ r : Fin N, before N r (t + 1) < N := fun r => before_lt r.isLt ht
  have hin : ∀ r : Fin N, ((makeRingChannels r).inp : ℕ) = before N r 1 := fun r =>
    inp_eq_before r (by omega)
  have hmine : ∀ r : Fin N, (scattered op N x t r (before N r (t + 1))).length = chunk := fun r => h.size r (hq r)
  have hgot : ∀ r : Fin N, (scattered op N x t (before N r 1) (before N r (t + 1))).length = chunk := by
    intro r
    rw [← hin r]
    exact h.size _ (hq r)
  have hv : ∀ r : Fin N, (v r).length = chunk := by
    intro r
    show (scattered op N x (t + 1) r (before N r (t + 1))).length = chunk
    rw [← scattered_step r.isLt ht, length_zipWith, hmine r, hgot r, min_self]
  refine ⟨_, h.overwrite (v := v) hq hv (fun r => rfl) fun r c hc hne => scattered_other r.isLt hc ht hne, ?_⟩
  refine @ring_exchange α N _ _ (fun r => scattered op N x t r (before N r t)) ?_
  intro r
  have hsend : ringChunk ((r : ℤ) - t) N = before N r t := ringChunk_sub r.isLt (by omega)
  have hrecv : ringChunk ((r : ℤ) - t - 1) N = before N r (t + 1) := by
    rw [← ringChunk_sub r.isLt ht]
    congr 1
    omega
  have hout : chunkOf chunk (loc r) (ringChunk ((r : ℤ) - t) N) = .ok (scattered op N x t r (before N r t)) := by
    rw [hsend]
    exact h.chunkOf r (before_lt r.isLt (by omega))
  obtain ⟨next, hnext, hdone⟩ := reduceScatterStep_bind combine (k r) hout
  refine ⟨next, hnext, ?_⟩
  have hmsg : scattered op N x t (makeRingChannels r).inp (before N (makeRingChannels r).inp t) =
      scattered op N x t (before N r 1) (before N r (t + 1)) := by
    rw [hin r, before_prev r.isLt ht]
  rw [hmsg]
  rw [hrecv] at hdone
  apply hdone (h.chunkOf r (hq r)) (hcombine _ _ (hmine r) (hgot r))
  rw [scattered_step r.isLt ht]
  exact h.replaceChunk r (hq r) (hv r)

/-! ### Phase 2 -/

/-- Chunk `c`, folded over all ranks. -/
def fullChunk (op : α → α → α) (N : ℕ) (x : ℕ → ℕ → List α) (c : ℕ) : List α :=
  ringFold (zipWith op) N (fun r => x r c) c (N - 1)

/-- Chunk `c` of rank `r` after `k` steps of phase 2. -/
def gathered (op : α → α → α) (N : ℕ) (x : ℕ → ℕ → List α) (k r c : ℕ) : List α :=
  if before N r c < k ∨ before N r c = N - 1 then fullChunk op N x c
  else ringFold (zipWith op) N (fun r => x r c) c (before N r c)

/-- The chunk that rank `r` passes on in step `t`. -/
def passedOn (N r t : ℕ) : ℕ := if t = 0 then before N r (N - 1) else before N r (t - 1)

lemma passedOn_lt {t : ℕ} (hr : r < N) (ht : t + 1 < N) : passedOn N r t < N := by
  unfold passedOn
  split <;> exact before_lt hr (by omega)

lemma passedOn_prev {t : ℕ} (hr : r < N) (ht : t + 1 < N) : passedOn N (before N r 1) t = before N r t := by
  unfold passedOn
  split
  · rename_i hzero
    rw [before_prev_last hr (by omega), hzero]
    simp [before]
  · have hprev := before_prev (N := N) (r := r) (d := t - 1) hr (by omega)
    rwa [Nat.sub_add_cancel (by omega)] at hprev

lemma ringChunk_passedOn {t : ℕ} (hr : r < N) (ht : t + 1 < N) : ringChunk ((r : ℤ) - t + 1) N = passedOn N r t := by
  unfold passedOn
  split
  · have hshift := ringChunk_add_world ((r : ℤ) - (N - 1 : ℕ)) (show 0 < N by omega)
    rw [← ringChunk_sub hr (show N - 1 < N by omega), ← hshift]
    congr 1
    omega
  · rw [← ringChunk_sub hr (show t - 1 < N by omega)]
    congr 1
    omega

lemma gathered_passedOn {t : ℕ} (hr : r < N) (ht : t + 1 < N) :
    gathered op N x t r (passedOn N r t) = fullChunk op N x (passedOn N r t) := by
  refine if_pos ?_
  unfold passedOn
  split
  · exact .inr (before_before hr (by omega))
  · left
    rw [before_before hr (by omega)]
    omega

lemma gathered_received {t : ℕ} (hr : r < N) (ht : t + 1 < N) :
    gathered op N x (t + 1) r (before N r t) = fullChunk op N x (before N r t) := by
  refine if_pos (.inl ?_)
  rw [before_before hr (by omega)]
  exact Nat.lt_succ_self t

lemma gathered_other {c t : ℕ} (hr : r < N) (hc : c < N) (ht : t + 1 < N)
    (hne : c ≠ before N r t) : gathered op N x (t + 1) r c = gathered op N x t r c := by
  have hd : before N r c ≠ t := fun h => hne ((before_inj hr hc (by omega)).mp h)
  have hiff : (before N r c < t + 1 ∨ before N r c = N - 1) ↔ (before N r c < t ∨ before N r c = N - 1) := by omega
  unfold gathered
  simp only [hiff]

lemma gather_round (k : Fin N → List α → RankM α (List α)) {t : ℕ} (ht : t + 1 < N)
    (h : Holds N chunk (gathered op N x t) loc) :
    ∃ loc' : Fin N → List α, Holds N chunk (gathered op N x (t + 1)) loc' ∧ ∃ σ, run Ring.step σ
        ⟨fun r => (allGatherStep r N chunk (loc r) t >>= k r : RankM α (List α)),
          fun _ => []⟩ = some ⟨fun r => k r (loc' r), fun _ => []⟩ := by
  have hq : ∀ r : Fin N, before N r t < N := fun r => before_lt r.isLt (by omega)
  have hin : ∀ r : Fin N, ((makeRingChannels r).inp : ℕ) = before N r 1 := fun r =>
    inp_eq_before r (by omega)
  have hmsg : ∀ r : Fin N, gathered op N x t (makeRingChannels r).inp
      (passedOn N (makeRingChannels r).inp t) = fullChunk op N x (before N r t) := by
    intro r
    rw [gathered_passedOn (makeRingChannels r).inp.isLt ht, hin r, passedOn_prev r.isLt ht]
  have hsize : ∀ r : Fin N, (fullChunk op N x (before N r t)).length = chunk := by
    intro r
    rw [← hmsg r]
    exact h.size _ (passedOn_lt (makeRingChannels r).inp.isLt ht)
  refine ⟨_, h.overwrite (v := fun r => fullChunk op N x _) hq hsize (fun r => gathered_received r.isLt ht)
    fun r c hc hne => gathered_other r.isLt hc ht hne, ?_⟩
  refine @ring_exchange α N _ _ (fun r => gathered op N x t r (passedOn N r t)) ?_
  intro r
  have hsend : ringChunk ((r : ℤ) - t + 1) N = passedOn N r t := ringChunk_passedOn r.isLt ht
  have hrecv : ringChunk ((r : ℤ) - t) N = before N r t := ringChunk_sub r.isLt (by omega)
  have hout : chunkOf chunk (loc r) (ringChunk ((r : ℤ) - t + 1) N) = .ok (gathered op N x t r (passedOn N r t)) := by
    rw [hsend]
    exact h.chunkOf r (passedOn_lt r.isLt ht)
  obtain ⟨next, hnext, hdone⟩ := allGatherStep_bind (k r) hout
  rw [hrecv] at hdone
  refine ⟨next, hnext, ?_⟩
  rw [hmsg r]
  exact hdone (h.replaceChunk r (hq r) (hsize r))

/-! ### The two loops -/

lemma rounds {F : ℕ → ℕ → ℕ → List α} {step : Fin N → List α → ℕ → RankM α (List α)}
    (hround : ∀ (k : Fin N → List α → RankM α (List α)) {t : ℕ} {loc : Fin N → List α}, t + 1 < N →
      Holds N chunk (F t) loc → ∃ loc' : Fin N → List α, Holds N chunk (F (t + 1)) loc' ∧
        ∃ σ, run Ring.step σ ⟨fun r => (step r (loc r) t >>= k r : RankM α (List α)), fun _ => []⟩ =
          some ⟨fun r => k r (loc' r), fun _ => []⟩)
    (k : Fin N → List α → RankM α (List α)) : ∀ (m t : ℕ) {loc : Fin N → List α}, t + m + 1 = N →
      Holds N chunk (F t) loc → ∃ loc' : Fin N → List α, Holds N chunk (F (N - 1)) loc' ∧ ∃ σ, run Ring.step σ
          ⟨fun r => ((range' t m).foldlM (step r) (loc r) >>= k r : RankM α (List α)),
            fun _ => []⟩ = some ⟨fun r => k r (loc' r), fun _ => []⟩
  | 0, t, loc, ht, h => by
    obtain rfl : t = N - 1 := by omega
    exact ⟨loc, h, [], rfl⟩
  | m + 1, t, loc, ht, h => by
    obtain ⟨_, h₁, σ₁, hσ₁⟩ := hround
      (fun r l => (range' (t + 1) m).foldlM _ l >>= k r) (by omega) h
    obtain ⟨loc₂, h₂, σ₂, hσ₂⟩ := rounds hround k m (t + 1) (by omega) h₁
    refine ⟨loc₂, h₂, σ₁ ++ σ₂, run_append.mpr ⟨_, ?_, hσ₂⟩⟩
    rw [← hσ₁]
    simp [range'_succ, foldlM_cons, bind_assoc]

/-- Before the first step every rank holds its own chunks. -/
lemma scattered_zero {c : ℕ} (hr : r < N) (hc : c < N) : scattered op N x 0 r c = x r c := by
  unfold scattered
  split
  · rename_i hle
    have hcr : c = r := by
      rw [(before_inj hr hc (by omega)).mp (Nat.le_zero.mp hle)]
      simp [before]
    rw [hcr]
    simp [before, ringFold]
  · rfl

/-- Phase 2 starts with what phase 1 left. -/
lemma scattered_last {c : ℕ} (hr : r < N) (hc : c < N) : scattered op N x (N - 1) r c = gathered op N x 0 r c := by
  have hlt := before_lt hr hc
  unfold scattered gathered fullChunk
  rw [if_pos (by omega)]
  split
  · rw [show before N r c = N - 1 by omega]
  · rfl

lemma ring_rounds (hN : 0 < N) (hcombine : ∀ mine got, mine.length = chunk → got.length = chunk →
      combine mine got = .ok (zipWith op mine got))
    (k : Fin N → List α → RankM α (List α)) (h : Holds N chunk x loc) :
    ∃ out : List α, out.length = N * chunk ∧ (∀ c < N, block chunk out c = fullChunk op N x c) ∧
      ∃ σ, run Ring.step σ ⟨fun r => (reduceScatter combine r N chunk (loc r) >>= fun l =>
        allGather r N chunk l >>= k r : RankM α (List α)), fun _ => []⟩ = some ⟨fun r => k r out, fun _ => []⟩ := by
  have hsteps : ((N : ℤ) - 1).toNat = N - 1 := by omega
  have hstart : Holds N chunk (scattered op N x 0) loc := by
    intro r
    refine ⟨(h r).1, fun c hc => ?_⟩
    rw [scattered_zero r.isLt hc]
    exact (h r).2 c hc
  obtain ⟨loc₁, h₁, σ₁, hσ₁⟩ := rounds (fun k _ _ ht h => scatter_round hcombine k ht h)
    (fun r l => allGather r N chunk l >>= k r) (N - 1) 0 (by omega) hstart
  have hmid : Holds N chunk (gathered op N x 0) loc₁ := by
    intro r
    refine ⟨(h₁ r).1, fun c hc => ?_⟩
    rw [← scattered_last r.isLt hc]
    exact (h₁ r).2 c hc
  obtain ⟨loc₂, h₂, σ₂, hσ₂⟩ := rounds (fun k _ _ ht h => gather_round k ht h) k (N - 1) 0 (by omega) hmid
  have hfull : ∀ r : Fin N, ∀ c < N, block chunk (loc₂ r) c = fullChunk op N x c := by
    intro r c hc
    rw [(h₂ r).2 c hc]
    have hlt := before_lt r.isLt hc
    exact if_pos (by omega)
  have hsame : ∀ r, loc₂ r = loc₂ ⟨0, hN⟩ := by
    intro r
    apply ext_blocks (h₂ r).1 (h₂ _).1
    intro c hc
    rw [hfull r c hc, hfull _ c hc]
  refine ⟨loc₂ ⟨0, hN⟩, (h₂ _).1, hfull _, σ₁ ++ σ₂, ?_⟩
  refine run_append.mpr ⟨⟨fun r => (allGather r N chunk (loc₁ r) >>= k r : RankM α _), fun _ => []⟩, ?_, ?_⟩
  · unfold reduceScatter
    rw [hsteps, range_eq_range']
    exact hσ₁
  · unfold allGather
    rw [hsteps, range_eq_range']
    have hout : (fun r => k r (loc₂ ⟨0, hN⟩)) = fun r => k r (loc₂ r) :=
      funext fun r => by rw [hsame r]
    rw [hout]
    exact hσ₂

end

end VKernels.Comm.Allreduce
