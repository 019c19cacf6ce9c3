import VKernels.Lib.CheckedCalls
import Mathlib.Algebra.BigOperators.Group.List.Basic
import Mathlib.Algebra.Order.Ring.Int
import Mathlib.Data.List.TakeWhile

/-!
# Paged top-k logits

`dsa_topk_logits_cpu` of `kernels/dsa.cpp` and `dsa_topk_logits` of `_fallback.py`, in exact arithmetic.  Arrays are flat,
and `size_t` offsets into them do not wrap.

* `dsaTopkLogitsCpu` — the C++ loops, where `int` overflow ends the run; `fallback` — the stores of the Python loops.

## Results

* `topkLogits_agree_iff` — an accepted call agrees exactly when every sequence fits its row of the table.
* `topkLogits_past` — a sequence that does not.
-/

namespace VKernels.TopkLogits

open CheckedCalls
open List

variable {F : Type}

/-- Reads `(b, i)` of the page table and stores of the logits `(b, t)`. -/
structure Run (F : Type) where
  reads : List (ℕ × ℕ)
  stores : List ((ℕ × ℕ) × F)

/-- A loop from 0 to `n`, one run after another. -/
def loop (body : ℕ → Except Fault (Run F)) : ℕ → Except Fault (Run F)
  | 0 => .ok ⟨[], []⟩
  | n + 1 => do
    let done ← loop body n
    let next ← body n
    return ⟨done.reads ++ next.reads, done.stores ++ next.stores⟩

structure Args (F : Type) where
  (batchSize numHeads headDim block maxTableLen numBlocks : ℤ)
  (q kv kScale gate : Option (ℕ → F))
  (seqLens pageTable : Option (ℕ → Int32))
  out : Option (ℕ → F)

namespace Args

variable (a : Args F)

def checks : Except Fault Unit := do
  expects (a.batchSize ≥ 0 ∧ a.numHeads > 0 ∧ a.headDim > 0 ∧ a.block > 0)
    "batch_size >= 0 and num_heads/head_dim/block > 0 required" "batch_size >= 0 && num_heads > 0 && head_dim > 0 && block > 0"
  expects (a.maxTableLen ≥ 0 ∧ a.numBlocks ≥ 0)
    "max_table_len >= 0 and num_blocks >= 0 required" "max_table_len >= 0 && num_blocks >= 0"
  pointer a.q.isSome "q"
  pointer a.kv.isSome "kv"
  pointer a.kScale.isSome "k_scale"
  pointer a.gate.isSome "gate"
  pointer a.seqLens.isSome "seq_lens"
  pointer a.pageTable.isSome "page_table"
  pointer a.out.isSome "out"
where
  /-- With work to do, every pointer is required. -/
  pointer (given : Bool) (name : String) : Except Fault Unit :=
    expects (a.batchSize = 0 ∨ a.maxTableLen = 0 ∨ given) (name ++ " must not be null")
      ("batch_size == 0 || max_table_len == 0 || " ++ name ++ " != nullptr")

def heads : ℕ := a.numHeads.toNat
def dim : ℕ := a.headDim.toNat
def tableLen : ℕ := a.maxTableLen.toNat

def seqLen (b : ℕ) : ℤ := (a.seqLens.getD fun _ => 0) b |>.toInt

/-- `pt_b[i]`: past the row it is an entry of a later one. -/
def page (b i : ℕ) : ℤ := (a.pageTable.getD fun _ => 0) (b * a.tableLen + i) |>.toInt

section

variable [CommRing F] [LinearOrder F]

def query (b h d : ℕ) : F := a.q.getD 0 (b * a.heads * a.dim + h * a.dim + d)
def key (page j d : ℕ) : F := a.kv.getD 0 (page * a.block.toNat * a.dim + j * a.dim + d)
def weight (b h : ℕ) : F := a.gate.getD 0 (b * a.heads + h)
def scale (page j : ℕ) : F := a.kScale.getD 0 (page * a.block.toNat + j)

/-! ## C++ -/

/-- `sbase[j] * acc`. -/
def logit (b page j : ℕ) : F :=
  let dot (h : ℕ) := (List.range a.dim).foldl (fun dot d => dot + a.query b h d * a.key page j d) 0
  a.scale page j * (List.range a.heads).foldl (fun acc h => acc + max (dot h) 0 * a.weight b h) 0

/-- The keys of page `i` up to the end of the sequence, from `j` on. -/
def keys (seqLen : ℤ) (i : ℕ) : ℕ → ℕ → Except Fault (List ℕ)
  | 0, _ => .ok []
  | n + 1, j => do
    let first ← int32 (i * a.block)
    let t ← int32 (first + j)
    if t ≥ seqLen then return []
    let rest ← keys seqLen i n (j + 1)
    return j :: rest

def pageRun (b i : ℕ) : Except Fault (Run F) := do
  let page := a.page b i
  if page < 0 ∨ page ≥ a.numBlocks then return ⟨[(b, i)], []⟩
  let keys ← a.keys (a.seqLen b) i a.block.toNat 0
  return ⟨[(b, i)], keys.map fun j => ((b, i * a.block.toNat + j), a.logit b page.toNat j)⟩

def rowRun (b : ℕ) : Except Fault (Run F) := do
  let sum ← int32 (a.seqLen b + a.block)
  let last ← int32 (sum - 1)
  let npTotal := last.tdiv a.block
  loop (a.pageRun b) npTotal.toNat

def dsaTopkLogitsCpu : Except Fault (Run F) := do
  a.checks
  if a.batchSize = 0 ∨ a.maxTableLen = 0 then return ⟨[], []⟩
  loop a.rowRun a.batchSize.toNat

/-! ## Python -/

/-- `np.float32(sb[j] * acc[j])`. -/
def fallbackLogit (b page j : ℕ) : F :=
  let dot (h : ℕ) := ((List.range a.dim).map fun d => a.query b h d * a.key page j d).sum
  a.scale page j * ((List.range a.heads).map fun h => max (dot h) 0 * a.weight b h).sum

def fallbackPage (b i : ℕ) : List ((ℕ × ℕ) × F) :=
  let page := a.page b i
  if page < 0 ∨ page ≥ a.numBlocks then []
  else ((List.range a.block.toNat).takeWhile fun j : ℕ => decide (i * a.block + j < a.seqLen b)).map fun j =>
    ((b, i * a.block.toNat + j), a.fallbackLogit b page.toNat j)

def fallbackRow (b : ℕ) : List ((ℕ × ℕ) × F) :=
  if a.seqLen b ≤ 0 then [] else (List.range a.tableLen).flatMap (a.fallbackPage b)

def fallback : List ((ℕ × ℕ) × F) := (List.range a.batchSize.toNat).flatMap a.fallbackRow

/-- The run returns, each row reads its own entries and stores its own logits, and the stores are the fallback's, so
that every other logit is left as it was. -/
def Agrees : Prop :=
  ∃ run, a.dsaTopkLogitsCpu = .ok run ∧ (∀ e ∈ run.reads, e.2 < a.tableLen) ∧
    (∀ st ∈ run.stores, st.1.2 < a.tableLen * a.block.toNat) ∧ run.stores = a.fallback

/-- No sequence is longer than the table's row has room for, or so long that adding the block overflows. -/
def Fits : Prop :=
  a.maxTableLen = 0 ∨ ∀ b < a.batchSize.toNat, a.seqLen b + a.block < 2 ^ 31 ∧ a.seqLen b ≤ a.maxTableLen * a.block

end

end Args

/-! ## Loops -/

variable {body : ℕ → Except Fault (Run F)}

lemma loop_ok {run : ℕ → Run F} {n : ℕ} (h : ∀ i < n, body i = .ok (run i)) :
    loop body n = .ok ⟨(range n).flatMap fun i => (run i).reads, (range n).flatMap fun i => (run i).stores⟩ := by
  induction n with
  | zero => rfl
  | succ n ih =>
    rw [loop, ih fun i hi => h i (by omega), h n (Nat.lt_succ_self n), range_succ]
    simp [bind, Except.bind, pure, Except.pure]

lemma loop_inv {n : ℕ} {r : Run F} (h : loop body n = .ok r) :
    ∀ i < n, ∃ ri, body i = .ok ri ∧ ri.reads ⊆ r.reads := by
  induction n generalizing r with
  | zero => intro i hi; omega
  | succ n ih =>
    obtain ⟨_, hdone, h⟩ := bind_ok.mp h
    obtain ⟨next, hnext, h⟩ := bind_ok.mp h
    obtain rfl := Except.ok.inj h
    intro i hi
    obtain hi | rfl := Nat.lt_succ_iff_lt_or_eq.mp hi
    · obtain ⟨ri, hri, hsub⟩ := ih hdone i hi
      exact ⟨ri, hri, subset_append_of_subset_left _ hsub⟩
    · exact ⟨next, hnext, subset_append_right _ _⟩

lemma foldl_sum [CommRing F] (f : ℕ → F) (l : List ℕ) (x : F) :
    l.foldl (fun acc i => acc + f i) x = x + (l.map f).sum := by
  induction l generalizing x with
  | nil => simp
  | cons i l ih => rw [foldl_cons, ih, map_cons, sum_cons, add_assoc]

lemma lt_pages_iff {seqLen block : ℤ} (hblock : 0 < block) (i : ℕ) :
    i < ((seqLen + block - 1).tdiv block).toNat ↔ i * block < seqLen := by
  have hi : 0 ≤ (i : ℤ) * block := mul_nonneg (Int.natCast_nonneg i) hblock.le
  by_cases hnum : 0 ≤ seqLen + block - 1
  · rw [Int.tdiv_eq_ediv_of_nonneg hnum, Int.lt_toNat, Int.lt_iff_add_one_le, Int.le_ediv_iff_mul_le hblock, add_mul]
    omega
  · have hneg : (seqLen + block - 1).tdiv block ≤ 0 := by
      rw [← neg_neg (seqLen + block - 1), Int.neg_tdiv]
      have := Int.tdiv_nonneg (show 0 ≤ -(seqLen + block - 1) by omega) hblock.le
      omega
    omega

namespace Args

variable {a : Args F}

lemma checks_ok (h : a.checks = .ok ()) : 0 < a.block ∧ 0 ≤ a.maxTableLen := by
  obtain ⟨⟨-, -, -, hblock⟩, h⟩ := expects_ok.mp h
  obtain ⟨⟨hlen, -⟩, -⟩ := expects_ok.mp h
  exact ⟨hblock, hlen⟩

lemma keys_eq {seqLen : ℤ} (hseq : seqLen < 2 ^ 31) {i n j : ℕ} (hblock : 0 < a.block) (hi : i * a.block + j ≤ seqLen) :
    a.keys seqLen i n j = .ok ((range' j n).takeWhile fun j : ℕ => decide (i * a.block + j < seqLen)) := by
  have hfirst : 0 ≤ (i : ℤ) * a.block := mul_nonneg (Int.natCast_nonneg i) hblock.le
  induction n generalizing j with
  | zero => rfl
  | succ n ih =>
    rw [keys, int32_ok.mpr ⟨⟨by omega, by omega⟩, rfl⟩]
    simp only [bind, Except.bind, int32_ok.mpr ⟨(⟨by omega, by omega⟩ : InInt32 (i * a.block + j)), rfl⟩]
    rw [range'_succ, takeWhile_cons]
    by_cases ht : i * a.block + j < seqLen
    · rw [if_neg (by omega), ih (by push_cast; omega)]
      simp [ht, pure, Except.pure]
    · simp [ht, pure, Except.pure]

variable [CommRing F] [LinearOrder F]

lemma logit_eq (b page j : ℕ) : a.logit b page j = a.fallbackLogit b page j := by
  simp [logit, fallbackLogit, foldl_sum, zero_add]

variable {b : ℕ}

lemma fallbackPage_past {i : ℕ} (h : a.seqLen b ≤ i * a.block) : a.fallbackPage b i = [] := by
  unfold fallbackPage
  dsimp only
  split
  · rfl
  · rw [map_eq_nil_iff, eq_nil_iff_forall_not_mem]
    intro j hj
    have hlt := mem_takeWhile_imp hj
    rw [decide_eq_true_iff] at hlt
    omega

lemma pageRun_eq (hblock : 0 < a.block) {i : ℕ} (h : i * a.block < a.seqLen b) :
    a.pageRun b i = .ok ⟨[(b, i)], a.fallbackPage b i⟩ := by
  unfold pageRun fallbackPage
  dsimp only
  split
  · rfl
  · have hseq : a.seqLen b < 2 ^ 31 := Int32.toInt_lt _
    rw [keys_eq hseq hblock (by push_cast; omega), range_eq_range']
    simp [bind, Except.bind, pure, Except.pure, logit_eq]

lemma rowRun_eq (hblock : 0 < a.block) (hlen : 0 ≤ a.maxTableLen) (hsum : a.seqLen b + a.block < 2 ^ 31)
    (hfits : a.seqLen b ≤ a.maxTableLen * a.block) :
    ∃ reads, (∀ e ∈ reads, e.2 < a.tableLen) ∧ a.rowRun b = .ok ⟨reads, a.fallbackRow b⟩ := by
  have hlow : -2 ^ 31 ≤ a.seqLen b := Int32.le_toInt _
  unfold rowRun
  rw [int32_ok.mpr ⟨⟨by omega, hsum⟩, rfl⟩]
  simp only [bind, Except.bind, int32_ok.mpr ⟨(⟨by omega, by omega⟩ : InInt32 (a.seqLen b + a.block - 1)), rfl⟩]
  generalize hpages : ((a.seqLen b + a.block - 1).tdiv a.block).toNat = pages
  have hpage (i : ℕ) : i < pages ↔ i * a.block < a.seqLen b := hpages ▸ lt_pages_iff hblock i
  have hwithin : pages ≤ a.tableLen := by
    by_contra hpast
    have hpast := (hpage a.tableLen).mp (by omega)
    rw [tableLen, Int.toNat_of_nonneg hlen] at hpast
    omega
  have hrow : a.fallbackRow b = (range pages).flatMap (a.fallbackPage b) := by
    unfold fallbackRow
    obtain ⟨_, hrest⟩ := Nat.exists_eq_add_of_le hwithin
    split
    · have hnone : pages = 0 := by
        by_contra hsome
        have := (hpage 0).mp (by omega)
        omega
      rw [hnone, range_zero, flatMap_nil]
    · rw [hrest, range_add, flatMap_append, append_right_eq_self, flatMap_map,
        flatMap_eq_nil_iff]
      intro i _
      exact fallbackPage_past (not_lt.mp fun h => absurd ((hpage (pages + i)).mpr h) (by omega))
  rw [loop_ok fun i (hi : i < pages) => pageRun_eq hblock ((hpage i).mp hi), hrow]
  refine ⟨_, ?_, rfl⟩
  simp only [mem_flatMap, mem_range, mem_singleton]
  rintro e ⟨i, hi, rfl⟩
  exact hi.trans_le hwithin

lemma fallback_inside : ∀ st ∈ a.fallbackRow b, st.1.2 < a.tableLen * a.block.toNat := by
  unfold fallbackRow
  split
  · simp
  · simp only [mem_flatMap, mem_range]
    rintro _ ⟨i, hi, hst⟩
    unfold fallbackPage at hst
    dsimp only at hst
    split at hst
    · cases hst
    · obtain ⟨j, hj, rfl⟩ := mem_map.mp hst
      have hj := mem_range.mp ((takeWhile_subset _) hj)
      calc i * a.block.toNat + j < (i + 1) * a.block.toNat := by rw [add_one_mul]; omega
        _ ≤ a.tableLen * a.block.toNat := Nat.mul_le_mul_right _ hi

/-- **When the two agree**, for every call that is accepted. -/
theorem topkLogits_agree_iff (a : Args F) (h : a.checks = .ok ()) : a.Agrees ↔ a.Fits := by
  obtain ⟨hblock, hlen⟩ := checks_ok h
  unfold Agrees Fits dsaTopkLogitsCpu
  rw [h]
  by_cases hempty : a.batchSize = 0 ∨ a.maxTableLen = 0
  · rw [if_pos hempty]
    refine iff_of_true ⟨_, rfl, by simp, by simp, ?_⟩ ?_
    · unfold fallback fallbackRow tableLen
      obtain hnone | hnone := hempty <;> simp [hnone]
    · exact hempty.symm.imp id fun hnone b hb => by simp [hnone] at hb
  · rw [if_neg hempty]
    constructor
    · rintro ⟨_, hrun, hreads, -⟩
      refine .inr fun b hb => ?_
      obtain ⟨_, hrow, hsub⟩ := loop_inv hrun b hb
      obtain ⟨⟨-, hsum⟩, hrow⟩ := int32_bind_ok.mp hrow
      obtain ⟨-, hrow⟩ := int32_bind_ok.mp hrow
      refine ⟨hsum, ?_⟩
      by_contra hlong
      -- the first page after the table's row is read
      have hpast := (lt_pages_iff hblock a.tableLen).mpr (show _ < a.seqLen b by rw [tableLen, Int.toNat_of_nonneg hlen]; omega)
      obtain ⟨page, hpage, hmem⟩ := loop_inv hrow a.tableLen hpast
      have hread : (b, a.tableLen) ∈ page.reads := by
        unfold pageRun at hpage
        dsimp only at hpage
        split at hpage
        · obtain rfl := Except.ok.inj hpage
          exact mem_singleton_self _
        · obtain ⟨_, -, hpage⟩ := bind_ok.mp hpage
          obtain rfl := Except.ok.inj hpage
          exact mem_singleton_self _
      exact absurd (hreads _ (hsub (hmem hread))) (lt_irrefl _)
    · intro hfits
      have hfits := hfits.resolve_left fun h => hempty (.inr h)
      choose! reads hreads hrow using fun b hb => rowRun_eq hblock hlen (hfits b hb).1 (hfits b hb).2
      refine ⟨_, loop_ok hrow, ?_, ?_, rfl⟩
      · simp only [mem_flatMap, mem_range]
        rintro e ⟨b, hb, he⟩
        exact hreads b hb e he
      · simp only [mem_flatMap]
        rintro st ⟨b, -, hst⟩
        exact fallback_inside st hst

/-- One row with a table of one page of two keys, and a sequence length. -/
def onePage (seqLen : Int32) : Args ℤ :=
  ⟨1, 1, 1, 2, 1, 1, some 1, some 1, some 1, some 1, some fun _ => seqLen, some fun _ => 0, some 0⟩

theorem topkLogits_agree_full : (onePage 2).Agrees :=
  (topkLogits_agree_iff (onePage 2) rfl).mpr (.inr fun b _ =>
    (by decide : (2 : ℤ) + 2 < 2 ^ 31 ∧ (2 : ℤ) ≤ 1 * 2))

/-- A third key: the second entry is read, of a row that has one. -/
theorem topkLogits_past : (onePage 3).checks = .ok () ∧ ¬(onePage 3).Agrees := by
  refine ⟨rfl, ?_⟩
  rintro ⟨run, hrun, hreads, -⟩
  obtain ⟨_, _⟩ := run
  have hrun' : (onePage 3).dsaTopkLogitsCpu = .ok ⟨[(0, 0), (0, 1)], [((0, 0), 1), ((0, 1), 1), ((0, 2), 1)]⟩ := rfl
  obtain ⟨rfl, -⟩ := Run.mk.inj (Except.ok.inj hrun)
  exact absurd (hreads (0, 1) (by simp)) (by decide)

end Args

end VKernels.TopkLogits
