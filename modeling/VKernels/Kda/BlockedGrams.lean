import VKernels.Kda.StateForward
import VKernels.Lib.CheckedCalls
import VKernels.Lib.MaskedStores
import VKernels.Lib.TileLoops

/-!
# The blocked grams

`kda_k3_grams_blocked_cpu` of `kernels/kda.cpp`: the gate-weighted grams of every chunk, block pair by block pair, each
with the logarithms at the end of its column block as an anchor.

* `Args` — the arguments; a pointer is `none` where it is null.

## Results

* `dotTiles_eq` — the anchor cancels.
* `mem_chunkStores` — what is stored, and where: every cell of the square, with its gram.
* `blocked_grams_iff` — an accepted call writes the direct grams exactly if the two products fit; and then whatever `blk`
  is.
-/

namespace VKernels.Kda.Blocked

open CheckedCalls LocalActions MaskedStores
open List hiding lt_irrefl

/-- The two outputs. -/
inductive Gram where
  | M
  | N
  deriving DecidableEq

structure Args (F Λ : Type) where
  q : Option (ℕ → F)
  k : Option (ℕ → F)
  beta : Option (ℕ → F)
  L : Option (ℕ → Λ)
  M : Option (ℕ → F)
  N : Option (ℕ → F)
  B : ℕ
  H : ℕ
  nc : ℕ
  S : ℕ
  D : ℕ
  chunkSize : ℕ
  blk : ℕ

namespace Args

variable {F Λ : Type} [Field F] [LinearOrder F] [AddCommGroup Λ] (E : ExactGates F Λ) (a : Args F Λ)

def Empty : Prop := a.B = 0 ∨ a.H = 0 ∨ a.nc = 0

instance : Decidable a.Empty := inferInstanceAs (Decidable (_ ∨ _))

/-- What is behind the pointers that have been checked. -/
def qAt (i : ℕ) : F := a.q.getD 0 i

def kAt (i : ℕ) : F := a.k.getD 0 i

def betaAt (i : ℕ) : F := a.beta.getD 0 i

def lAt (i : ℕ) : Λ := a.L.getD 0 i

/-- The outputs before the call. -/
def cells : Gram × ℕ → F
  | (.M, p) => a.M.getD 0 p
  | (.N, p) => a.N.getD 0 p

/-! ## One chunk -/

/-- The first token of a chunk. -/
def tok (bh c : ℕ) : ℕ := bh * a.S + c * a.chunkSize

/-- The base of a chunk in `L`, and in `M` and `N`. -/
def lb (bh c : ℕ) : ℕ := (bh * a.nc + c) * a.chunkSize * a.D

def lbq (bh c : ℕ) : ℕ := (bh * a.nc + c) * a.chunkSize * a.chunkSize

def cell (bh c t j : ℕ) : ℕ := a.lbq bh c + t * a.chunkSize + j

/-- The diagonal of `M`, and the cells of both above it. -/
def zeroStores (bh c : ℕ) : List ((Gram × ℕ) × F) :=
  (range a.chunkSize).flatMap fun t =>
    ((Gram.M, a.cell bh c t t), 0) :: (range' (t + 1) (a.chunkSize - (t + 1))).flatMap fun j =>
      [((Gram.M, a.cell bh c t j), 0), ((Gram.N, a.cell bh c t j), 0)]

/-- `ak` and `aq`, of `k` and of `q`. -/
def rowTile (x : ℕ → F) (bh c i0 j1 i : ℕ) : F :=
  let t := i / a.D
  let e := i % a.D
  let s := a.lAt (a.lb bh c + (j1 - 1) * a.D + e)
  let lt := a.lAt (a.lb bh c + (i0 + t) * a.D + e)
  E.exp (lt - s) * x ((a.tok bh c + (i0 + t)) * a.D + e)

/-- `b`. -/
def colTile (bh c j0 j1 i : ℕ) : F :=
  let j := i / a.D
  let e := i % a.D
  let s := a.lAt (a.lb bh c + (j1 - 1) * a.D + e)
  let lj := a.lAt (a.lb bh c + (j0 + j) * a.D + e)
  a.betaAt (a.tok bh c + (j0 + j)) * E.exp (s - lj) * a.kAt ((a.tok bh c + (j0 + j)) * a.D + e)

/-- The dot product of a row of one tile with a row of the other. -/
def dotTiles (x b : ℕ → F) (t j : ℕ) : F :=
  (range a.D).foldl (fun acc e => acc + x (t * a.D + e) * b (j * a.D + e)) 0

/-- The pair of a row block and a column block.  The tiles are filled again for every pair. -/
def pairStores (bh c p qb : ℕ) : List ((Gram × ℕ) × F) :=
  let i0 := p * a.blk
  let j0 := qb * a.blk
  let j1 := j0 + a.blk
  let ak := a.rowTile E a.kAt bh c i0 j1
  let aq := a.rowTile E a.qAt bh c i0 j1
  let b := a.colTile E bh c j0 j1
  (range a.blk).flatMap fun t => (range a.blk).flatMap fun j =>
    let gt := i0 + t
    let gj := j0 + j
    if gt < gj then []
    else
      [((Gram.M, a.cell bh c gt gj), if gj < gt then a.dotTiles ak b t j else 0),
        ((Gram.N, a.cell bh c gt gj), a.dotTiles aq b t j)]

/-- The stores of a chunk: only pairs on and below the diagonal. -/
def chunkStores (bh c : ℕ) : List ((Gram × ℕ) × F) :=
  a.zeroStores bh c ++ (range (a.chunkSize / a.blk)).flatMap fun p =>
    (range (p + 1)).flatMap fun qb => a.pairStores E bh c p qb

/-- The stores of `heads` heads. -/
def stores (heads : ℕ) : List ((Gram × ℕ) × F) :=
  (range heads).flatMap fun bh => (range a.nc).flatMap fun c => a.chunkStores E bh c

/-- `kda_k3_grams_blocked_cpu`.  The loops run at least once where the call is not empty, so both products are formed. -/
def kdaK3GramsBlockedCpu : Except Fault (Gram × ℕ → F) := do
  expects (a.Empty ∨ a.q.isSome) "q must not be null" "B == 0 || H == 0 || nc == 0 || q != nullptr"
  expects (a.Empty ∨ a.k.isSome) "k must not be null" "B == 0 || H == 0 || nc == 0 || k != nullptr"
  expects (a.Empty ∨ a.beta.isSome) "beta must not be null" "B == 0 || H == 0 || nc == 0 || beta != nullptr"
  expects (a.Empty ∨ a.L.isSome) "L must not be null" "B == 0 || H == 0 || nc == 0 || L != nullptr"
  expects (a.Empty ∨ a.M.isSome) "M must not be null" "B == 0 || H == 0 || nc == 0 || M != nullptr"
  expects (a.Empty ∨ a.N.isSome) "N must not be null" "B == 0 || H == 0 || nc == 0 || N != nullptr"
  expects (0 < a.D) "D must be positive" "D > 0"
  expects (0 < a.chunkSize ∧ 0 < a.blk ∧ a.chunkSize % a.blk = 0) "blk must divide chunk_size"
    "chunk_size > 0 && blk > 0 && chunk_size % blk == 0"
  if a.Empty then
    return a.cells
  else do
    let heads ← int32 (a.B * a.H)
    let _tile ← int32 (a.blk * a.D)
    return assign (a.stores E heads.toNat) a.cells

/-! ## The grams of the chunked forward -/

/-- A gram without its triangle, with the rows of `x`. -/
def direct (x : ℕ → F) (bh c t j : ℕ) : F :=
  a.betaAt (a.tok bh c + j) * ∑ kk : Fin a.D,
    E.exp (a.lAt (a.lb bh c + t * a.D + kk) - a.lAt (a.lb bh c + j * a.D + kk)) * a.kAt ((a.tok bh c + j) * a.D + kk) *
      x ((a.tok bh c + t) * a.D + kk)

/-- A cell of `M`, strictly lower triangular, or of `N`, with its diagonal. -/
def gram : Gram → (bh c t j : ℕ) → F
  | .M, bh, c, t, j => if j < t then a.direct E a.kAt bh c t j else 0
  | .N, bh, c, t, j => if j ≤ t then a.direct E a.qAt bh c t j else 0

/-- The tokens of a chunk, and gates whose logarithms add up to its rows of `L`. -/
structure Chunk (bh c : ℕ) (toks : Tokens F a.D) : Prop where
  q : ∀ t < a.chunkSize, ∀ kk, toks.q t kk = a.qAt ((a.tok bh c + t) * a.D + kk)
  k : ∀ t < a.chunkSize, ∀ kk, toks.k t kk = a.kAt ((a.tok bh c + t) * a.D + kk)
  beta : ∀ t < a.chunkSize, toks.beta t = a.betaAt (a.tok bh c + t)
  L : ∀ t < a.chunkSize, ∀ kk, Kda.L E toks t kk = a.lAt (a.lb bh c + t * a.D + kk)

variable {E a} {bh c t j : ℕ}

lemma direct_chunk {toks : Tokens F a.D} (h : a.Chunk E bh c toks) (ht : t < a.chunkSize) (hj : j < a.chunkSize)
    {x : ℕ → F} {y : ℕ → Fin a.D → F} (hx : ∀ t < a.chunkSize, ∀ kk, y t kk = x ((a.tok bh c + t) * a.D + kk)) :
    a.direct E x bh c t j =
      toks.beta j * ∑ kk, E.exp (Kda.L E toks t kk - Kda.L E toks j kk) * toks.k j kk * y t kk := by
  rw [direct, h.beta j hj]
  refine congrArg _ (Finset.sum_congr rfl fun kk _ => ?_)
  rw [h.L t ht, h.L j hj, h.k j hj, hx t ht]

lemma gram_chunk {toks : Tokens F a.D} (h : a.Chunk E bh c toks) (ht : t < a.chunkSize) (hj : j < a.chunkSize) :
    a.gram E .M bh c t j = gramM E toks t j ∧ a.gram E .N bh c t j = if j ≤ t then gramN E toks t j else 0 := by
  constructor
  · rw [gram, gramM, direct_chunk h ht hj h.k]
  · rw [gram, gramN, direct_chunk h ht hj h.q]

/-! ## What is stored -/

lemma dotTiles_eq (x : ℕ → F) (i0 j0 j1 t j : ℕ) :
    a.dotTiles (a.rowTile E x bh c i0 j1) (a.colTile E bh c j0 j1) t j = a.direct E x bh c (i0 + t) (j0 + j) := by
  have hsum : a.dotTiles (a.rowTile E x bh c i0 j1) (a.colTile E bh c j0 j1) t j = ∑ e ∈ Finset.range a.D,
      a.rowTile E x bh c i0 j1 (t * a.D + e) * a.colTile E bh c j0 j1 (j * a.D + e) := by
    rw [dotTiles, TileLoops.foldl_add (fun acc : F => acc) (fun _ _ => rfl), zero_add]
  rw [hsum, direct, ← Fin.sum_univ_eq_sum_range, Finset.mul_sum]
  refine Finset.sum_congr rfl fun kk _ => ?_
  unfold rowTile colTile
  simp only [Blocks.block_div _ kk.isLt, Blocks.block_mod _ kk.isLt]
  generalize a.lAt _ = lt
  generalize a.lAt (a.lb bh c + (j0 + j) * a.D + kk) = lj
  generalize a.lAt _ = s
  have hsplit : E.exp (lt - lj) = E.exp (lt - s) * E.exp (s - lj) := by
    rw [← E.exp_add, sub_add_sub_cancel]
  rw [hsplit]
  ring

omit [LinearOrder F] [AddCommGroup Λ] in
lemma mem_zeroStores {g : Gram} {p : ℕ} {v : F} : ((g, p), v) ∈ a.zeroStores bh c ↔
    ∃ t < a.chunkSize, ∃ j < a.chunkSize, (t < j ∨ g = .M ∧ t = j) ∧ p = a.cell bh c t j ∧ v = 0 := by
  simp only [zeroStores, mem_flatMap, mem_range, mem_cons, mem_range'_1, not_mem_nil, or_false,
    Prod.mk.injEq]
  constructor
  · rintro ⟨t, ht, ⟨⟨rfl, rfl⟩, rfl⟩ | ⟨j, hj, ⟨⟨rfl, rfl⟩, rfl⟩ | ⟨⟨rfl, rfl⟩, rfl⟩⟩⟩
    · exact ⟨t, ht, t, ht, .inr ⟨rfl, rfl⟩, rfl, rfl⟩
    · exact ⟨t, ht, j, by omega, .inl (by omega), rfl, rfl⟩
    · exact ⟨t, ht, j, by omega, .inl (by omega), rfl, rfl⟩
  · rintro ⟨t, ht, j, hj, habove | ⟨rfl, rfl⟩, rfl, rfl⟩
    · refine ⟨t, ht, .inr ⟨j, by omega, ?_⟩⟩
      cases g with
      | M => exact .inl ⟨⟨rfl, rfl⟩, rfl⟩
      | N => exact .inr ⟨⟨rfl, rfl⟩, rfl⟩
    · exact ⟨t, ht, .inl ⟨⟨rfl, rfl⟩, rfl⟩⟩

variable {g : Gram} {v : F}

lemma mem_pairStores {p qb i : ℕ} : ((g, i), v) ∈ a.pairStores E bh c p qb ↔
    ∃ t < a.blk, ∃ j < a.blk, qb * a.blk + j ≤ p * a.blk + t ∧ i = a.cell bh c (p * a.blk + t) (qb * a.blk + j) ∧
      v = a.gram E g bh c (p * a.blk + t) (qb * a.blk + j) := by
  simp only [pairStores, mem_flatMap, mem_range, dotTiles_eq]
  refine exists_congr fun t => and_congr_right fun _ => exists_congr fun j => and_congr_right fun _ => ?_
  by_cases hupper : p * a.blk + t < qb * a.blk + j
  · simp [hupper]
  · have hle := Nat.not_lt.mp hupper
    cases g with
    | M => simp [gram, hle]
    | N => simp [gram, hle]

lemma mem_chunkStores (hblk : a.blk ∣ a.chunkSize) (hpos : 0 < a.blk) {i : ℕ} : ((g, i), v) ∈ a.chunkStores E bh c ↔
      ∃ t < a.chunkSize, ∃ j < a.chunkSize, i = a.cell bh c t j ∧ v = a.gram E g bh c t j := by
  have hsize : a.chunkSize / a.blk * a.blk = a.chunkSize := Nat.div_mul_cancel hblk
  simp only [chunkStores, mem_append, mem_zeroStores, mem_flatMap, mem_range, mem_pairStores]
  constructor
  · rintro (⟨t, ht, j, hj, hzero, rfl, rfl⟩ | ⟨p, hp, _, hqb, t, ht, j, hj, hle, rfl, rfl⟩)
    · refine ⟨t, ht, j, hj, rfl, ?_⟩
      obtain habove | ⟨rfl, rfl⟩ := hzero
      · cases g with
        | M => rw [gram, if_neg (by omega)]
        | N => rw [gram, if_neg (by omega)]
      · rw [gram, if_neg (lt_irrefl _)]
    · have hrows : (p + 1) * a.blk ≤ a.chunkSize / a.blk * a.blk := Nat.mul_le_mul_right _ hp
      rw [hsize, Nat.add_one_mul] at hrows
      exact ⟨_, by omega, _, by omega, rfl, rfl⟩
  · rintro ⟨t, ht, j, hj, rfl, rfl⟩
    by_cases hle : j ≤ t
    · -- the pair of the blocks of the row and of the column
      have hp : t / a.blk < a.chunkSize / a.blk := by
        rw [Nat.div_lt_iff_lt_mul hpos, hsize]
        exact ht
      have ht' : t / a.blk * a.blk + t % a.blk = t := Nat.div_add_mod' _ _
      have hj' : j / a.blk * a.blk + j % a.blk = j := Nat.div_add_mod' _ _
      refine .inr ⟨t / a.blk, hp, j / a.blk, Nat.lt_succ_of_le (Nat.div_le_div_right hle), t % a.blk, Nat.mod_lt _ hpos,
        j % a.blk, Nat.mod_lt _ hpos, ?_⟩
      rw [ht', hj']
      exact ⟨hle, rfl, rfl⟩
    · refine .inl ⟨t, ht, j, hj, .inl (by omega), rfl, ?_⟩
      cases g with
      | M => rw [gram, if_neg (by omega)]
      | N => rw [gram, if_neg (by omega)]

omit [Field F] [LinearOrder F] [AddCommGroup Λ] in
lemma cell_inj {bh' c' t' j' : ℕ} (hc : c < a.nc) (hc' : c' < a.nc) (ht : t < a.chunkSize) (ht' : t' < a.chunkSize)
    (hj : j < a.chunkSize) (hj' : j' < a.chunkSize) (h : a.cell bh c t j = a.cell bh' c' t' j') :
    bh = bh' ∧ c = c' ∧ t = t' ∧ j = j' := by
  have hflat (bh c t j : ℕ) :
      a.cell bh c t j = ((bh * a.nc + c) * a.chunkSize + t) * a.chunkSize + j := by
    unfold cell lbq
    ring
  rw [hflat, hflat] at h
  obtain ⟨hrows, hcol⟩ := Blocks.place_inj hj hj' h
  obtain ⟨hchunks, hrow⟩ := Blocks.place_inj ht ht' hrows
  obtain ⟨hhead, hchunk⟩ := Blocks.place_inj hc hc' hchunks
  exact ⟨hhead, hchunk, hrow, hcol⟩

lemma mem_stores (hblk : a.blk ∣ a.chunkSize) (hpos : 0 < a.blk) {heads i : ℕ} :
    ((g, i), v) ∈ a.stores E heads ↔ ∃ bh < heads, ∃ c < a.nc, ∃ t < a.chunkSize, ∃ j < a.chunkSize,
      i = a.cell bh c t j ∧ v = a.gram E g bh c t j := by
  simp [stores, mem_flatMap, mem_range, mem_chunkStores hblk hpos]

/-! ## The result -/

variable (E a)

/-- Every cell of every chunk is its gram, which is that of the chunked forward, and the rest is as before. -/
structure Exact (out : Gram × ℕ → F) : Prop where
  cells : ∀ g, ∀ bh < a.B * a.H, ∀ c < a.nc, ∀ t < a.chunkSize, ∀ j < a.chunkSize,
    out (g, a.cell bh c t j) = a.gram E g bh c t j
  forward : ∀ bh < a.B * a.H, ∀ c < a.nc, ∀ toks : Tokens F a.D, a.Chunk E bh c toks →
    ∀ t < a.chunkSize, ∀ j < a.chunkSize, out (.M, a.cell bh c t j) = gramM E toks t j ∧
      out (.N, a.cell bh c t j) = if j ≤ t then gramN E toks t j else 0
  rest : ∀ g i, (∀ bh < a.B * a.H, ∀ c < a.nc, ∀ t < a.chunkSize, ∀ j < a.chunkSize, i ≠ a.cell bh c t j) →
    out (g, i) = a.cells (g, i)

/-- The two products are values of `int`, where they are formed. -/
def Fits : Prop := a.Empty ∨ a.B * a.H < 2 ^ 31 ∧ a.blk * a.D < 2 ^ 31

variable {E a} {out : Gram × ℕ → F}

lemma stores_exact (hblk : a.blk ∣ a.chunkSize) (hpos : 0 < a.blk) :
    a.Exact E (assign (a.stores E (a.B * a.H)) a.cells) := by
  have hcells (g : Gram) (bh : ℕ) (hbh : bh < a.B * a.H) (c : ℕ) (hc : c < a.nc) (t : ℕ) (ht : t < a.chunkSize) (j : ℕ)
      (hj : j < a.chunkSize) :
      assign (a.stores E (a.B * a.H)) a.cells (g, a.cell bh c t j) = a.gram E g bh c t j := by
    refine assign_agree ((mem_stores hblk hpos).mpr ⟨bh, hbh, c, hc, t, ht, j, hj, rfl, rfl⟩) (fun v hv => ?_) a.cells
    obtain ⟨_, -, _, hc', _, ht', _, hj', hcell, rfl⟩ := (mem_stores hblk hpos).mp hv
    obtain ⟨rfl, rfl, rfl, rfl⟩ := cell_inj hc hc' ht ht' hj hj' hcell
    rfl
  refine ⟨hcells, fun bh hbh c hc toks htoks t ht j hj => ?_, fun g i hout => assign_frame (fun hmem => ?_) a.cells⟩
  · obtain ⟨hM, hN⟩ := gram_chunk htoks ht hj
    rw [← hM, ← hN]
    exact ⟨hcells .M bh hbh c hc t ht j hj, hcells .N bh hbh c hc t ht j hj⟩
  · obtain ⟨⟨⟨_, _⟩, v⟩, hst, heq⟩ := mem_map.mp hmem
    obtain ⟨rfl, rfl⟩ := Prod.mk.inj heq
    obtain ⟨bh, hbh, c, hc, t, ht, j, hj, hcell, -⟩ := (mem_stores hblk hpos).mp hst
    exact hout bh hbh c hc t ht j hj hcell

lemma Exact.unique {out' : Gram × ℕ → F} (h : a.Exact E out) (h' : a.Exact E out') : out = out' := by
  funext ⟨g, i⟩
  by_cases hcell : ∃ bh < a.B * a.H, ∃ c < a.nc, ∃ t < a.chunkSize, ∃ j < a.chunkSize, i = a.cell bh c t j
  · obtain ⟨bh, hbh, c, hc, t, ht, j, hj, rfl⟩ := hcell
    rw [h.cells g bh hbh c hc t ht j hj, h'.cells g bh hbh c hc t ht j hj]
  · have hrest : ∀ bh < a.B * a.H, ∀ c < a.nc, ∀ t < a.chunkSize, ∀ j < a.chunkSize, i ≠ a.cell bh c t j := by
      intro bh hbh c hc t ht j hj heq
      exact hcell ⟨bh, hbh, c, hc, t, ht, j, hj, heq⟩
    rw [h.rest g i hrest, h'.rest g i hrest]

lemma empty_exact (h : a.Empty) : a.Exact E a.cells := by
  have hnone (bh : ℕ) (hbh : bh < a.B * a.H) (c : ℕ) (hc : c < a.nc) : False := by
    obtain h | h | h := h
    · rw [h, Nat.zero_mul] at hbh
      exact Nat.not_lt_zero _ hbh
    · rw [h, Nat.mul_zero] at hbh
      exact Nat.not_lt_zero _ hbh
    · rw [h] at hc
      exact Nat.not_lt_zero _ hc
  exact ⟨fun _ bh hbh c hc => (hnone bh hbh c hc).elim, fun bh hbh c hc => (hnone bh hbh c hc).elim, fun _ _ _ => rfl⟩

lemma blocked_ok (h : a.kdaK3GramsBlockedCpu E = .ok out) : a.Exact E out ∧ a.Fits := by
  unfold kdaK3GramsBlockedCpu at h
  simp only [expects_ok] at h
  obtain ⟨-, -, -, -, -, -, -, ⟨-, hpos, hmod⟩, h⟩ := h
  split at h
  · rename_i hempty
    obtain rfl := Except.ok.inj h
    exact ⟨empty_exact hempty, .inl hempty⟩
  · obtain ⟨hheads, h⟩ := int32_bind_ok.mp h
    obtain ⟨htile, h⟩ := int32_bind_ok.mp h
    obtain rfl := Except.ok.inj h
    have hheads' : ((a.B : ℤ) * a.H).toNat = a.B * a.H := by
      rw [← Int.natCast_mul, Int.toNat_natCast]
    refine ⟨stores_exact (Nat.dvd_of_mod_eq_zero hmod) hpos, .inr ⟨?_, ?_⟩⟩
    · exact_mod_cast hheads.2
    · exact_mod_cast htile.2

lemma blocked_fits (h : a.Fits) : a.kdaK3GramsBlockedCpu E ≠ .error .overflow := by
  refine expects_fits fun _ => expects_fits fun _ => expects_fits fun _ => expects_fits fun _ =>
    expects_fits fun _ => expects_fits fun _ => expects_fits fun _ => expects_fits fun _ => ?_
  split
  · simp [pure, Except.pure]
  · rename_i hnonempty
    obtain ⟨hheads, htile⟩ := h.resolve_left hnonempty
    have hnonneg (x y : ℕ) : -2 ^ 31 ≤ (x : ℤ) * y := by
      have : (0 : ℤ) ≤ x * y := by positivity
      omega
    refine int32_bind_fits ⟨hnonneg _ _, by exact_mod_cast hheads⟩ (int32_bind_fits ⟨hnonneg _ _, by exact_mod_cast htile⟩ ?_)
    simp [pure, Except.pure]

lemma Exact.ofBlk {blk : ℕ} (h : ({ a with blk := blk } : Args F Λ).Exact E out) : a.Exact E out :=
  ⟨h.cells, fun bh hbh c hc toks htoks => h.forward bh hbh c hc toks ⟨htoks.q, htoks.k, htoks.beta, htoks.L⟩, h.rest⟩

/-- **An accepted call** runs without overflow and writes the direct grams exactly if the products `B * H` and `blk * D`
fit `int`; two calls that differ in `blk` and return leave the same memory. -/
theorem blocked_grams_iff (haccepted : ∀ what, a.kdaK3GramsBlockedCpu E ≠ .error (.rejected what)) :
    ((∃ out, a.kdaK3GramsBlockedCpu E = .ok out ∧ a.Exact E out) ↔ a.Fits) ∧
      ∀ blk out out', a.kdaK3GramsBlockedCpu E = .ok out →
        ({ a with blk := blk } : Args F Λ).kdaK3GramsBlockedCpu E = .ok out' → out = out' := by
  refine ⟨⟨?_, fun hfits => ?_⟩, fun blk out out' h h' => ?_⟩
  · rintro ⟨out, hout, -⟩
    exact (blocked_ok hout).2
  · cases hrun : a.kdaK3GramsBlockedCpu E with
    | ok out => exact ⟨out, rfl, (blocked_ok hrun).1⟩
    | error fault =>
      cases fault with
      | rejected what => exact absurd hrun (haccepted what)
      | overflow => exact absurd hrun (blocked_fits hfits)
  · exact (blocked_ok h).1.unique (blocked_ok h').1.ofBlk

/-- One head with one chunk of two tokens. -/
def twoTokens (D blk : ℕ) : Args ℚ (Additive ℚˣ) where
  q := some fun _ => 1
  k := some fun _ => 1
  beta := some fun _ => 1
  L := some fun _ => 0
  M := some fun _ => 7
  N := some fun _ => 7
  B := 1
  H := 1
  nc := 1
  S := 2
  D := D
  chunkSize := 2
  blk := blk

theorem blocked_grams_two : ∃ out, (twoTokens 1 1).kdaK3GramsBlockedCpu productGates = .ok out ∧
    (twoTokens 1 1).Exact productGates out := by
  have hreturns : ∃ out, (twoTokens 1 1).kdaK3GramsBlockedCpu productGates = .ok out := by
    refine ⟨assign ((twoTokens 1 1).stores productGates 1) (twoTokens 1 1).cells, ?_⟩
    simp [kdaK3GramsBlockedCpu, twoTokens, expects, Empty, int32, InInt32, bind, Except.bind, pure, Except.pure]
  refine (blocked_grams_iff fun what h => ?_).1.mpr (.inr ⟨by decide, by decide⟩)
  obtain ⟨_, hout⟩ := hreturns
  rw [hout] at h
  cases h

/-- A tile of `2 ^ 31` values. -/
theorem blocked_grams_overflow : (twoTokens (2 ^ 30) 2).kdaK3GramsBlockedCpu productGates = .error .overflow := by
  simp [kdaK3GramsBlockedCpu, twoTokens, expects, Empty, int32, InInt32, bind, Except.bind]

end Args

end VKernels.Kda.Blocked
