import VKernels.Lib.TextLines
import Mathlib.Tactic.IntervalCases

/-!
# Selectors of launch configurations

`gemv_pick_sk` of `kernels/glm_moe.cpp`, and `dsa_config_for`, `dsa_tile_from_store`, `dsa_topk_logits_split_for` and
`dsa_sparse_fwd_split_for` of `kernels/dsa.cpp`, over every content of the tuning store.

* A run that overflows or divides by zero has no result.

## Results

* `selectors_launchable` — when each selector returns a configuration that its kernel can launch.
* `selectors_not_launchable` — a formula, two records of splits and a tile that give none.
-/

namespace VKernels.Selectors

open TextLines (LongLong)
open Option (bind_eq_bind bind_eq_some_iff bind_none bind_some)

/-! ## Arithmetic -/

/-- `int`, and the conversion to it. -/
def int (x : ℤ) : Option ℤ := if -2 ^ 31 ≤ x ∧ x < 2 ^ 31 then some x else none

def toInt (x : ℤ) : ℤ := x.bmod (2 ^ 32)

/-- `long long`. -/
def longLong (x : ℤ) : Option ℤ := if -2 ^ 63 ≤ x ∧ x < 2 ^ 63 then some x else none

/-- `a % b`. -/
def rem (a b : ℤ) : Option ℤ := if b = 0 then none else some (a.tmod b)

/-- `while (s > 1 && n % s != 0) s >>= 1`. -/
def halve (n : ℕ) : ℕ → ℕ → ℕ
  | 0, s => s
  | fuel + 1, s => if 1 < s ∧ n % s ≠ 0 then halve n fuel (s / 2) else s

/-- What an enabled store has for a kernel and a key: the parameters of a record, by name. -/
abbrev Store := String → List ℤ → Option (String → Option LongLong)

/-- One parameter of a record, where the store is enabled and has it. -/
def lookup (store : Option Store) (kernel : String) (key : List ℤ) (param : String) : Option LongLong := do
  let records ← store
  let entry ← records kernel key
  entry param

variable (store : Option Store)

/-! ## The selectors -/

/-- What `gemv_pick_sk` takes from the store. -/
def storedSk (N K : ℕ) : Option ℤ :=
  (lookup store "glm_fp8_gemv_pick_sk" [N, K] "sk").bind fun sk =>
    if 1 ≤ sk.val ∧ sk.val ≤ 8 ∧ ((K / 128 : ℕ) : ℤ).tmod sk = 0 then some sk.val else none

def gemvPickSk (N K : ℕ) : Option ℤ :=
  match storedSk store N K with
  | some sk => some (toInt sk)
  | none => do
    let num ← int (912 * 32 + N)
    let sk := ((num - 1) / N).toNat
    let sk := if sk < 1 then 1 else sk
    let sk := if sk > 8 then 8 else sk
    some (halve (K / 128) sk sk)

def dsaTopkLogitsSplitFor (batchSize maxSeqLen block : ℕ) : Option ℤ :=
  match lookup store "dsa_topk_logits_split_for" [batchSize, maxSeqLen, block] "split" with
  | some split => some (toInt split)
  | none =>
    if batchSize = 0 ∨ maxSeqLen = 0 ∨ block = 0 then some 1
    else do
      let num ← int (maxSeqLen + block)
      let pages := (num - 1) / block
      let byCu : ℤ := (228 / batchSize : ℕ)
      let s := if pages < byCu then pages else byCu
      some (if s < 1 then 1 else s)

structure Tile where
  bq : ℤ
  blockI : ℤ
  innerIter : ℤ

/-- The parameters of a tile record, when there are all three. -/
def storedTile (S_q H : ℕ) (dim tailDim : ℤ) (topk : ℕ) : Option (LongLong × LongLong × LongLong) := do
  let get := lookup store "dsa_sparse_fwd_tile" [S_q, H, dim, tailDim, topk]
  let pb ← get "bq"
  let pbi ← get "block_I"
  let pii ← get "inner_iter"
  some (pb, pbi, pii)

/-- A run of `dsa_tile_from_store`: the tile, or `false`. -/
def dsaTileFromStore (S_q H : ℕ) (dim tailDim : ℤ) (topk : ℕ) : Option (Option Tile) :=
  match storedTile store S_q H dim tailDim topk with
  | none => some none
  | some (pb, pbi, pii) =>
    if pb.val ≠ 1 ∧ pb.val ≠ 2 ∧ pb.val ≠ 4 ∧ pb.val ≠ 8 then some none
    else if pbi.val ≤ 0 ∨ pii.val ≤ 0 ∨ pbi.val > topk then some none
    else do
      let product ← longLong (pbi * pii)
      let r ← rem topk product
      some (if r ≠ 0 then none else some ⟨toInt pb, toInt pbi, toInt pii⟩)

/-- `bq`, `threads` and the tile of `dsa_config_for`. -/
def dsaConfigFor (S_q topk : ℕ) : ℕ × ℕ × ℕ × ℕ :=
  let bi := halve topk 64 64
  let ii := (List.range 3).foldl (fun ii _ => if ii < 8 ∧ topk % (bi * (ii * 2)) = 0 then ii * 2 else ii) 1
  (if S_q ≤ 8 then 1 else 4, if S_q ≤ 8 then 64 else 256, bi, ii)

/-- `bq` of the tile that a launch will have. -/
def launchBq (S_q H : ℕ) (dim tailDim : ℤ) (topk : ℕ) : Option ℤ :=
  if 0 < dim ∧ 0 ≤ tailDim then do
    match ← dsaTileFromStore store S_q H dim tailDim topk with
    | some tile => some tile.bq
    | none => some (dsaConfigFor S_q topk).1
  else some (dsaConfigFor S_q topk).1

def dsaSparseFwdSplitFor (S_q H topk : ℕ) (blockI numCu dim tailDim : ℤ) : Option ℤ :=
  match lookup store "dsa_sparse_fwd_split_for" [S_q, H, topk, blockI, numCu] "split" with
  | some split => some (toInt split)
  | none =>
    let numCu := if numCu ≤ 0 then 228 else numCu
    if S_q = 0 ∨ H = 0 ∨ topk = 0 then some 1
    else do
      let bq ← launchBq store S_q H dim tailDim topk
      let num ← int (S_q + bq)
      let blocks ← int ((num - 1) / bq * H)
      if numCu ≤ blocks then some 1
      else
        let s : ℤ := if 1024 ≤ topk then 32 else if topk < 16 then topk else 16
        some (if s < 1 then 1 else s)

/-! ## What a kernel can launch -/

/-- A value in {1, 2, 4, 8} that divides `K / 128`. -/
def GemvLaunches (N K : ℕ) : Prop :=
  ∃ sk : ℕ, gemvPickSk store N K = some (sk : ℤ) ∧ (sk = 1 ∨ sk = 2 ∨ sk = 4 ∨ sk = 8) ∧ sk ∣ K / 128

/-- A split of the pages. -/
def LogitsLaunches (batchSize maxSeqLen block : ℕ) : Prop :=
  ∃ s : ℤ, dsaTopkLogitsSplitFor store batchSize maxSeqLen block = some s ∧ 1 ≤ s ∧
    s ≤ ((maxSeqLen + block - 1) / block : ℕ)

/-- A split of the selected keys. -/
def SparseLaunches (S_q H topk : ℕ) (blockI numCu dim tailDim : ℤ) : Prop :=
  ∃ s : ℤ, dsaSparseFwdSplitFor store S_q H topk blockI numCu dim tailDim = some s ∧ 1 ≤ s ∧ s ≤ topk

/-- A tile of positive sizes whose product divides `topk`. -/
def Tiles (blockI innerIter : ℤ) (topk : ℕ) : Prop := 0 < blockI ∧ 0 < innerIter ∧ blockI * innerIter ∣ topk

/-- The store is read without a fault, and its tile, if any, and that of the formula are tiles. -/
def TileLaunches (S_q H : ℕ) (dim tailDim : ℤ) (topk : ℕ) : Prop :=
  (∃ tile, dsaTileFromStore store S_q H dim tailDim topk = some tile ∧
    ∀ t, tile = some t → Tiles t.blockI t.innerIter topk) ∧
  Tiles (dsaConfigFor S_q topk).2.2.1 (dsaConfigFor S_q topk).2.2.2 topk

/-! ## When they do -/

/-- The record that is trusted has a power of two; without one `912 * 32 + N` fits, and where the formula starts
at 3, 5, 6 or 7, no number that its loop reaches divides `K / 128`. -/
def GemvFits (N K : ℕ) : Prop :=
  match storedSk store N K with
  | some sk => sk = 1 ∨ sk = 2 ∨ sk = 4 ∨ sk = 8
  | none =>
    let first := min 8 ((912 * 32 + N - 1) / N)
    N + 912 * 32 < 2 ^ 31 ∧ (first = 3 ∨ first = 6 ∨ first = 7 → ¬3 ∣ K / 128) ∧ (first = 5 → ¬5 ∣ K / 128) ∧
      (first = 7 → ¬7 ∣ K / 128)

/-- The recorded split, as an `int`, is one of the pages; without a record the pages are counted without overflow. -/
def LogitsFits (batchSize maxSeqLen block : ℕ) : Prop :=
  match lookup store "dsa_topk_logits_split_for" [batchSize, maxSeqLen, block] "split" with
  | some split => 1 ≤ toInt split ∧ toInt split ≤ ((maxSeqLen + block - 1) / block : ℕ)
  | none => maxSeqLen + block < 2 ^ 31

/-- The product of a record of positive sizes fits `long long`. -/
def TileFits (S_q H : ℕ) (dim tailDim : ℤ) (topk : ℕ) : Prop :=
  ∀ pb pbi pii : LongLong, storedTile store S_q H dim tailDim topk = some (pb, pbi, pii) →
    (pb.val = 1 ∨ pb.val = 2 ∨ pb.val = 4 ∨ pb.val = 8) → 0 < pbi.val → 0 < pii.val → pbi.val ≤ topk →
    pbi.val * pii.val < 2 ^ 63

/-- The recorded split, as an `int`, is one of the keys; without a record the launch's `bq` is read without a fault,
and its blocks are counted without overflow. -/
def SparseFits (S_q H topk : ℕ) (blockI numCu dim tailDim : ℤ) : Prop :=
  match lookup store "dsa_sparse_fwd_split_for" [S_q, H, topk, blockI, numCu] "split" with
  | some split => 1 ≤ toInt split ∧ toInt split ≤ topk
  | none => ∃ bq, launchBq store S_q H dim tailDim topk = some bq ∧ S_q + bq < 2 ^ 31 ∧
      (S_q + bq - 1) / bq * H < 2 ^ 31

/-! ## Loops -/

lemma halve_spec (n fuel s : ℕ) (hs : 0 < s) (hfuel : s ≤ fuel) :
    0 < halve n fuel s ∧ n % halve n fuel s = 0 ∧ halve n fuel s ≤ s := by
  induction fuel generalizing s with
  | zero => omega
  | succ fuel ih =>
    rw [halve]
    split
    · obtain ⟨hpos, hmod, hle⟩ := ih (s / 2) (by omega) (by omega)
      exact ⟨hpos, hmod, by omega⟩
    · refine ⟨hs, ?_, le_rfl⟩
      by_contra hmod
      have hone : s = 1 := by omega
      exact hmod (by rw [hone, Nat.mod_one])

/-- From each start, the loop of `gemv_pick_sk` ends at a power of two unless it meets a divisor that is none. -/
lemma halve_power_iff (q first : ℕ) (h0 : 1 ≤ first) (h8 : first ≤ 8) :
    (halve q first first = 1 ∨ halve q first first = 2 ∨ halve q first first = 4 ∨ halve q first first = 8) ↔
      (first = 3 ∨ first = 6 ∨ first = 7 → ¬3 ∣ q) ∧ (first = 5 → ¬5 ∣ q) ∧ (first = 7 → ¬7 ∣ q) := by
  interval_cases first <;> simp only [halve, Nat.dvd_iff_mod_eq_zero] <;> split_ifs <;> grind

variable {x : ℤ}

lemma toInt_of_le {bound : ℕ} (hx : 0 < x) (hle : x ≤ bound) (hsize : bound < 2 ^ 31) : toInt x = x := by
  have hmod : x % ((2 ^ 32 : ℕ) : ℤ) = x := Int.emod_eq_of_lt (by omega) (by push_cast; omega)
  rw [toInt, Int.bmod_def, hmod, if_pos (by omega)]

lemma int_of_lt (hlow : 0 ≤ x) (hx : x < 2 ^ 31) : int x = some x := if_pos ⟨by omega, hx⟩

lemma int_of_le (hx : 2 ^ 31 ≤ x) : int x = none := if_neg fun h => absurd h.2 (by omega)

/-! ## The selectors launch -/

section

variable {store}

lemma gemv_iff {N K : ℕ} (hN : 0 < N) : GemvLaunches store N K ↔ GemvFits store N K := by
  unfold GemvLaunches GemvFits gemvPickSk
  cases hstored : storedSk store N K with
  | some sk =>
    obtain ⟨value, -, hvalue⟩ := bind_eq_some_iff.mp hstored
    split at hvalue
    · rename_i htrusted
      obtain rfl := Option.some.inj hvalue
      obtain ⟨k, hk⟩ : ∃ k : ℕ, value.val = k := ⟨value.val.toNat, by omega⟩
      have hint : toInt k = k := toInt_of_le (by omega) le_rfl (by omega)
      have hdvd : k ∣ K / 128 := by
        have hdvd := Int.dvd_of_tmod_eq_zero htrusted.2.2
        rw [hk] at hdvd
        exact_mod_cast hdvd
      simp only [hint, hk, Option.some.injEq, Nat.cast_inj]
      constructor
      · rintro ⟨sk, rfl, hpower, -⟩
        omega
      · intro hpower
        exact ⟨k, rfl, by omega, hdvd⟩
    · cases hvalue
  | none =>
    by_cases hfits : N + 912 * 32 < 2 ^ 31
    · have hnum : int (912 * 32 + N) = some (912 * 32 + N : ℤ) := int_of_lt (by omega) (by omega)
      have hstart : ((912 * 32 + N - 1 : ℤ) / N).toNat = (912 * 32 + N - 1) / N := by
        rw [show (912 * 32 + N - 1 : ℤ) = ((912 * 32 + N - 1 : ℕ) : ℤ) by omega, ← Int.natCast_ediv, Int.toNat_natCast]
      have hpos : 1 ≤ (912 * 32 + N - 1) / N := (Nat.one_le_div_iff hN).mpr (by omega)
      have hclamp : (if (if (912 * 32 + N - 1) / N < 1 then 1 else (912 * 32 + N - 1) / N) > 8 then 8
          else if (912 * 32 + N - 1) / N < 1 then 1 else (912 * 32 + N - 1) / N) = min 8 ((912 * 32 + N - 1) / N) := by
        split_ifs <;> omega
      simp only [hnum, bind_eq_bind, bind_some, hstart, hclamp, Option.some.injEq, Nat.cast_inj, hfits,
        true_and]
      generalize hfirst : min 8 _ = first
      have hpower := halve_power_iff (K / 128) first (by omega) (by omega)
      have hspec := halve_spec (K / 128) first first (by omega) le_rfl
      rw [← hpower]
      constructor
      · rintro ⟨sk, rfl, h, -⟩
        exact h
      · exact fun h => ⟨_, rfl, h, Nat.dvd_of_mod_eq_zero hspec.2.1⟩
    · have hnum : int (912 * 32 + N) = none := int_of_le (by omega)
      refine iff_of_false ?_ fun h => hfits h.1
      rintro ⟨_, h, -⟩
      simp only [hnum, bind_eq_bind, bind_none, reduceCtorEq] at h

lemma logits_iff {batchSize maxSeqLen block : ℕ} (hbatch : 0 < batchSize) (hlen : 0 < maxSeqLen) (hblock : 0 < block) :
    LogitsLaunches store batchSize maxSeqLen block ↔ LogitsFits store batchSize maxSeqLen block := by
  unfold LogitsLaunches LogitsFits dsaTopkLogitsSplitFor
  cases lookup store "dsa_topk_logits_split_for" [batchSize, maxSeqLen, block] "split" with
  | some split => simp
  | none =>
    have hsizes : ¬(batchSize = 0 ∨ maxSeqLen = 0 ∨ block = 0) := by omega
    by_cases hfits : maxSeqLen + block < 2 ^ 31
    · have hnum : int (maxSeqLen + block) = some (maxSeqLen + block : ℤ) := int_of_lt (by omega) (by omega)
      have hpages : (maxSeqLen + block - 1 : ℤ) / block = ((maxSeqLen + block - 1) / block : ℕ) := by
        rw [show (maxSeqLen + block - 1 : ℤ) = ((maxSeqLen + block - 1 : ℕ) : ℤ) by omega, Int.natCast_ediv]
      have hpos : 1 ≤ (maxSeqLen + block - 1) / block := (Nat.one_le_div_iff hblock).mpr (by omega)
      simp only [hsizes, if_false, hnum, bind_eq_bind, bind_some, hpages, hfits, iff_true]
      refine ⟨_, rfl, ?_⟩
      split_ifs <;> omega
    · have hnum : int (maxSeqLen + block) = none := int_of_le (by omega)
      refine iff_of_false ?_ hfits
      rintro ⟨s, h, -⟩
      simp only [hsizes, if_false, hnum, bind_eq_bind, bind_none, reduceCtorEq] at h

variable {topk S_q H : ℕ} {tailDim : ℤ}

lemma configFor_tiles (S_q : ℕ) : Tiles (dsaConfigFor S_q topk).2.2.1 (dsaConfigFor S_q topk).2.2.2 topk := by
  obtain ⟨hpos, hmod, -⟩ := halve_spec topk 64 64 (by norm_num) le_rfl
  have hloop (c : ℕ) : 0 < (List.range c).foldl (fun ii _ => if ii < 8 ∧ topk % (halve topk 64 64 * (ii * 2)) = 0 then
      ii * 2 else ii) 1 ∧ topk % (halve topk 64 64 * (List.range c).foldl (fun ii _ => if ii < 8 ∧
        topk % (halve topk 64 64 * (ii * 2)) = 0 then ii * 2 else ii) 1) = 0 := by
    induction c with
    | zero => simpa using hmod
    | succ c ih =>
      rw [List.range_succ, List.foldl_concat]
      split
      · rename_i hnext
        exact ⟨by omega, hnext.2⟩
      · exact ih
  obtain ⟨hinner, hdvd⟩ := hloop 3
  exact ⟨by exact_mod_cast hpos, by exact_mod_cast hinner, by exact_mod_cast Nat.dvd_of_mod_eq_zero hdvd⟩

lemma tile_iff {dim : ℤ} (htopk : 0 < topk) (hsize : topk < 2 ^ 31) :
    TileLaunches store S_q H dim tailDim topk ↔ TileFits store S_q H dim tailDim topk := by
  unfold TileLaunches TileFits dsaTileFromStore
  rw [and_iff_left (configFor_tiles S_q)]
  cases hstored : storedTile store S_q H dim tailDim topk with
  | none => simp
  | some record =>
    obtain ⟨pb, pbi, pii⟩ := record
    simp only [Option.some.injEq, Prod.mk.injEq, and_imp]
    by_cases hbq : pb.val ≠ 1 ∧ pb.val ≠ 2 ∧ pb.val ≠ 4 ∧ pb.val ≠ 8
    · rw [if_pos hbq]
      refine iff_of_true ⟨none, rfl, fun t ht => by cases ht⟩ ?_
      rintro _ _ _ rfl rfl rfl hpower
      omega
    by_cases hpos : pbi.val ≤ 0 ∨ pii.val ≤ 0 ∨ pbi.val > topk
    · rw [if_neg hbq, if_pos hpos]
      refine iff_of_true ⟨none, rfl, fun t ht => by cases ht⟩ ?_
      rintro _ _ _ rfl rfl rfl
      omega
    rw [if_neg hbq, if_neg hpos]
    have hproduct : 0 < pbi.val * pii.val := mul_pos (by omega) (by omega)
    by_cases hfits : pbi.val * pii.val < 2 ^ 63
    · refine iff_of_true ?_ (by rintro _ _ _ rfl rfl rfl - - - -; exact hfits)
      have hlong : longLong (pbi.val * pii.val) = some (pbi.val * pii.val) := if_pos ⟨by omega, hfits⟩
      have hrem : rem topk (pbi.val * pii.val) = some ((topk : ℤ).tmod (pbi.val * pii.val)) := if_neg hproduct.ne'
      simp only [hlong, hrem, bind_eq_bind, bind_some]
      refine ⟨_, rfl, fun t ht => ?_⟩
      split at ht
      · cases ht
      · rename_i hmod
        obtain rfl := Option.some.inj ht
        have hdvd := Int.dvd_of_tmod_eq_zero (not_not.mp hmod)
        have hle := Int.le_of_dvd (by exact_mod_cast htopk) hdvd
        have hinner : pii.val ≤ topk := (le_mul_of_one_le_left (by omega) (by omega)).trans hle
        have hblock : toInt pbi = pbi.val := toInt_of_le (by omega) (by omega) hsize
        have hiter : toInt pii = pii.val := toInt_of_le (by omega) hinner hsize
        show Tiles (toInt pbi) (toInt pii) topk
        rw [hblock, hiter]
        exact ⟨by omega, by omega, hdvd⟩
    · refine iff_of_false ?_ fun h => hfits (h pb pbi pii rfl rfl rfl (by omega) (by omega) (by omega) (by omega))
      have hlong : longLong (pbi.val * pii.val) = none := if_neg fun h => hfits h.2
      simp [hlong]

lemma launchBq_range {dim bq : ℤ} (h : launchBq store S_q H dim tailDim topk = some bq) : 1 ≤ bq ∧ bq ≤ 8 := by
  have hconfig : 1 ≤ (dsaConfigFor S_q topk).1 ∧ (dsaConfigFor S_q topk).1 ≤ 8 := by
    unfold dsaConfigFor
    dsimp only
    split <;> omega
  unfold launchBq at h
  split at h
  · obtain ⟨tile, htile, h⟩ := bind_eq_some_iff.mp h
    cases tile with
    | none =>
      obtain rfl := Option.some.inj h
      omega
    | some tile =>
      obtain rfl := Option.some.inj h
      unfold dsaTileFromStore at htile
      split at htile
      · cases htile
      rename_i pb _ _ _
      split at htile
      · cases htile
      split at htile
      · cases htile
      · obtain ⟨_, -, htile⟩ := bind_eq_some_iff.mp htile
        obtain ⟨r, -, htile⟩ := bind_eq_some_iff.mp htile
        have htile := Option.some.inj htile
        split at htile
        · cases htile
        · obtain rfl := Option.some.inj htile
          have hint : toInt pb = pb.val := toInt_of_le (by omega) (by omega : pb.val ≤ (8 : ℕ)) (by norm_num)
          show 1 ≤ toInt pb ∧ toInt pb ≤ 8
          omega
  · obtain rfl := Option.some.inj h
    omega

lemma sparse_iff {blockI numCu dim : ℤ} (hS : 0 < S_q) (hH : 0 < H) (htopk : 0 < topk) :
    SparseLaunches store S_q H topk blockI numCu dim tailDim ↔ SparseFits store S_q H topk blockI numCu dim tailDim := by
  unfold SparseLaunches SparseFits dsaSparseFwdSplitFor
  cases lookup store "dsa_sparse_fwd_split_for" [S_q, H, topk, blockI, numCu] "split" with
  | some split => simp
  | none =>
    have hsizes : ¬(S_q = 0 ∨ H = 0 ∨ topk = 0) := by omega
    simp only [hsizes, if_false]
    cases hlaunch : launchBq store S_q H dim tailDim topk with
    | none => simp
    | some bq =>
      obtain ⟨hlow, hhigh⟩ := launchBq_range hlaunch
      simp only [bind_eq_bind, bind_some, Option.some.injEq, exists_eq_left']
      by_cases hnum : S_q + bq < 2 ^ 31
      · have hblocks : 0 ≤ (S_q + bq - 1) / bq * H := mul_nonneg (Int.ediv_nonneg (by omega) (by omega)) (by omega)
        rw [int_of_lt (by omega) hnum]
        by_cases hfits : (S_q + bq - 1) / bq * H < 2 ^ 31
        · refine iff_of_true ?_ ⟨hnum, hfits⟩
          simp only [bind_some, int_of_lt hblocks hfits]
          generalize (if numCu ≤ 0 then 228 else numCu) = cu
          by_cases hbusy : cu ≤ (S_q + bq - 1) / bq * H
          all_goals simp only [hbusy, if_true, if_false]
          · exact ⟨1, rfl, le_rfl, by omega⟩
          · refine ⟨_, rfl, ?_⟩
            split_ifs <;> omega
        · refine iff_of_false ?_ fun h => hfits h.2
          rintro ⟨s, h, -⟩
          simp only [bind_some, int_of_le (not_lt.mp hfits), bind_none, reduceCtorEq] at h
      · refine iff_of_false ?_ fun h => hnum h.1
        rintro ⟨s, h, -⟩
        simp only [int_of_le (not_lt.mp hnum), bind_none, reduceCtorEq] at h

end

/-- **When the selectors return configurations that can be launched**: for all sizes of type `int` that are positive,
and every content of the store. -/
theorem selectors_launchable (store : Option Store) :
    (∀ N K : ℕ, 0 < N → (GemvLaunches store N K ↔ GemvFits store N K)) ∧
    (∀ batchSize maxSeqLen block : ℕ, 0 < batchSize → 0 < maxSeqLen → 0 < block →
      (LogitsLaunches store batchSize maxSeqLen block ↔ LogitsFits store batchSize maxSeqLen block)) ∧
    (∀ (S_q H topk : ℕ) (blockI numCu dim tailDim : ℤ), 0 < S_q → 0 < H → 0 < topk →
      (SparseLaunches store S_q H topk blockI numCu dim tailDim ↔ SparseFits store S_q H topk blockI numCu dim tailDim)) ∧
    (∀ (S_q H topk : ℕ) (dim tailDim : ℤ), 0 < topk → topk < 2 ^ 31 →
      (TileLaunches store S_q H dim tailDim topk ↔ TileFits store S_q H dim tailDim topk)) :=
  ⟨fun _ _ => gemv_iff, fun _ _ _ => logits_iff, fun _ _ _ _ _ _ _ => sparse_iff, fun _ _ _ _ _ => tile_iff⟩

/-- Without a store, at four shapes. -/
theorem selectors_launchable_unstored : GemvLaunches none 16384 1024 ∧ LogitsLaunches none 2 4096 64 ∧
    SparseLaunches none 1 8 2048 64 228 512 64 ∧ TileLaunches none 1 8 512 64 2048 := by
  obtain ⟨hgemv, hlogits, hsparse, htile⟩ := selectors_launchable none
  refine ⟨(hgemv 16384 1024 (by decide)).mpr ?_, (hlogits 2 4096 64 (by decide) (by decide) (by decide)).mpr ?_,
    (hsparse 1 8 2048 64 228 512 64 (by decide) (by decide) (by decide)).mpr ?_,
    (htile 1 8 2048 512 64 (by decide) (by decide)).mpr ?_⟩
  · show 16384 + 912 * 32 < 2 ^ 31 ∧ _
    decide
  · show 4096 + 64 < 2 ^ 31
    decide
  · exact ⟨1, rfl, by decide, by decide⟩
  · intro _ _ _ h
    cases h

def recorded (x : ℤ) (h : -2 ^ 63 ≤ x ∧ x < 2 ^ 63 := by decide) : LongLong := ⟨x, h⟩

/-- A store whose every record has a split of zero, and tiles whose product is `2 ^ 64`. -/
def corrupt : Store := fun _ _ =>
  some fun param => some (if param = "split" then recorded 0 else if param = "inner_iter" then recorded (2 ^ 62) else recorded 4)

/-- The formula returns 6; a split of zero is returned as it stands; the product of a tile overflows. -/
theorem selectors_not_launchable : ¬GemvLaunches none 5000 768 ∧ ¬LogitsLaunches (some corrupt) 2 4096 64 ∧
    ¬SparseLaunches (some corrupt) 1 8 2048 64 228 512 64 ∧ ¬TileLaunches (some corrupt) 1 8 512 64 2048 := by
  refine ⟨?_, ?_, ?_, ?_⟩
  · rintro ⟨_, h, hpower, -⟩
    have hsix : gemvPickSk none 5000 768 = some 6 := by decide +kernel
    rw [hsix, Option.some.injEq] at h
    omega
  · rintro ⟨s, h, hone, -⟩
    have hzero : dsaTopkLogitsSplitFor (some corrupt) 2 4096 64 = some 0 := by decide +kernel
    rw [hzero, Option.some.injEq] at h
    omega
  · rintro ⟨s, h, hone, -⟩
    have hzero : dsaSparseFwdSplitFor (some corrupt) 1 8 2048 64 228 512 64 = some 0 := by decide +kernel
    rw [hzero, Option.some.injEq] at h
    omega
  · rintro ⟨⟨_, h, -⟩, -⟩
    have hfault : dsaTileFromStore (some corrupt) 1 8 512 64 2048 = none := by rfl
    cases h

end VKernels.Selectors
