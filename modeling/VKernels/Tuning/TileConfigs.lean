import Mathlib.Algebra.Order.Ring.Int
import Mathlib.Data.List.Sort

/-!
# Tile tables

`_parse_tiles` and `_nearest_bucket` of `torch_ops/tile_configs.py`, and `_tiles` of
`torch_ops/glm_fp8_blockwise_gemm.py`.

* `Tiles` — a tile entry that was let pass; `nearestBucket` — the bucket for a number of rows.
* `nearestBucket_spec` — it is one of the buckets, no other is nearer, and a tie goes to the smaller.
-/

namespace VKernels.TileConfigs

open List

/-- `(BM, BN, warps, stages)`, none of them zero or below. -/
structure Tiles where
  bm : ℕ
  bn : ℕ
  warps : ℕ
  stages : ℕ
  bm_pos : 0 < bm
  bn_pos : 0 < bn
  warps_pos : 0 < warps
  stages_pos : 0 < stages
  deriving DecidableEq

/-- `(abs(a - m), a) < (abs(b - m), b)`. -/
def closer (m a b : ℤ) : Prop := |a - m| < |b - m| ∨ |a - m| = |b - m| ∧ a < b

instance (m a b : ℤ) : Decidable (closer m a b) := inferInstanceAs (Decidable (_ ∨ _))

def nearestBucket (buckets : List ℤ) (m : ℤ) : Option ℤ :=
  match buckets.insertionSort (· ≤ ·) with
  | [] => none
  | b :: rest => some (rest.foldl (fun best b => if closer m b best then b else best) b)

variable {m b : ℤ}

lemma not_closer {a : ℤ} : ¬ closer m a b ↔ |b - m| < |a - m| ∨ |b - m| = |a - m| ∧ b ≤ a := by
  unfold closer
  omega

lemma closer_trans {a c : ℤ} (hab : ¬ closer m b a) (hbc : ¬ closer m c b) : ¬ closer m c a := by
  unfold closer at *
  omega

lemma foldl_closer (m : ℤ) (rest : List ℤ) (b : ℤ) :
    rest.foldl (fun best b => if closer m b best then b else best) b ∈ b :: rest ∧
      ∀ c ∈ b :: rest, ¬ closer m c (rest.foldl (fun best b => if closer m b best then b else best) b) := by
  induction rest generalizing b with
  | nil =>
    refine ⟨mem_cons_self, fun c hc => ?_⟩
    rw [mem_singleton.mp hc]
    unfold closer
    simp
  | cons b' rest ih =>
    rw [foldl_cons]
    by_cases h : closer m b' b
    · rw [if_pos h]
      obtain ⟨hmem, hleast⟩ := ih b'
      refine ⟨mem_cons_of_mem b hmem, fun c hc => ?_⟩
      rcases mem_cons.mp hc with rfl | hc
      · refine closer_trans (hleast b' mem_cons_self) ?_
        unfold closer at h ⊢
        omega
      · exact hleast c hc
    · rw [if_neg h]
      obtain ⟨hmem, hleast⟩ := ih b
      constructor
      · rcases mem_cons.mp hmem with heq | hmem
        · rw [heq]
          exact mem_cons_self
        · exact mem_cons_of_mem b (mem_cons_of_mem b' hmem)
      · intro c hc
        rcases mem_cons.mp hc with rfl | hc
        · exact hleast c mem_cons_self
        · rcases mem_cons.mp hc with rfl | hc
          · exact closer_trans (hleast b mem_cons_self) h
          · exact hleast c (mem_cons_of_mem b hc)

lemma nearestBucket_spec {buckets : List ℤ} (h : nearestBucket buckets m = some b) :
    b ∈ buckets ∧ ∀ c ∈ buckets, |b - m| < |c - m| ∨ |b - m| = |c - m| ∧ b ≤ c := by
  have hperm := perm_insertionSort (· ≤ ·) buckets
  unfold nearestBucket at h
  split at h
  · cases h
  · rename_i b' rest heq
    obtain ⟨hmem, hleast⟩ := foldl_closer m rest b'
    rw [heq] at hperm
    cases h
    refine ⟨hperm.mem_iff.mp hmem, fun c hc => ?_⟩
    exact not_closer.mp (hleast c (hperm.mem_iff.mpr hc))

lemma nearestBucket_eq_none {buckets : List ℤ} : nearestBucket buckets m = none ↔ buckets = [] := by
  have hperm := perm_insertionSort (· ≤ ·) buckets
  unfold nearestBucket
  split
  · rename_i heq
    rw [heq] at hperm
    simp [hperm.symm.eq_nil]
  · rename_i heq
    rw [heq] at hperm
    simp only [reduceCtorEq, false_iff]
    rintro rfl
    exact cons_ne_nil _ _ hperm.eq_nil

/-- The entry of the nearest bucket. -/
def tableTiles (table : List (ℤ × Tiles)) (m : ℕ) : Option Tiles :=
  (nearestBucket (table.map Prod.fst) m).bind fun b => table.lookup b

/-- `_tiles`: `VK_FP8GEMM_TILES`, the op's table, the default. -/
def tiles (override : Option Tiles) (table : List (ℤ × Tiles)) (m : ℕ) (default : Tiles) : Tiles :=
  override.getD ((tableTiles table m).getD default)

end VKernels.TileConfigs
