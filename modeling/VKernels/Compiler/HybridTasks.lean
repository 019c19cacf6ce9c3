import VKernels.Compiler.Recurrent
import VKernels.Lib.BarrierPhases
import VKernels.Lib.SplitSoftmax

/-!
# Task bodies of the hybrid megakernel

After the task bodies of `compiler/device_triton_hybrid.py`, with exact arithmetic: what each task loads and what it
stores. Weights, rotary tables and the token embedding are read-only; the workspace, the caches, the recurrent
states and the logits are one memory.

* `Buffer`, `Cell`, `span` — that memory.
-/

namespace VKernels.Hybrid

open Finset BarrierPhases
open Grouping (blocksFor)
open OwnedTasks (storeRow storeRows)
open Recurrent (l2Eps guard)
open SplitSoftmax (maxOver)
open WorkerTasks (laneStores blockStores)
open OwnedTasks (storeRow_congr)

inductive Buffer where
  | ws
  | kCache
  | vCache
  | ssm
  | conv
  | logits
  deriving DecidableEq

abbrev Cell := Buffer × ℕ

abbrev Mem (V : Type) := Cell → V

/-- `len` elements of a buffer. -/
def span (b : Buffer) (start len : ℕ) : Set Cell := {c | c.1 = b ∧ start ≤ c.2 ∧ c.2 < start + len}

/-- The elements of one head over the rows of a cache, from `base` on. -/
def headRows (b : Buffer) (base kvh rows NKV D : ℕ) : Set Cell :=
  {c | ∃ t < rows, ∃ d < D, c = (b, base + (t * (NKV * D) + (kvh * D + d)))}

lemma mem_span {b : Buffer} {start len i : ℕ} (hi : i < len) : (b, start + i) ∈ span b start len :=
  ⟨rfl, Nat.le_add_right start i, Nat.add_lt_add_left hi start⟩

/-- What the bodies call. -/
structure Maths (V : Type) where
  exp : V → V
  log : V → V
  sqrt : V → V

/-! ## Stores under a mask -/

section

variable {V : Type}

variable {n : ℕ} {f : ℕ → Cell × V}

lemma laneStores_congr {lanes : ℕ} {g : ℕ → Cell × V} (h : ∀ i < n, f i = g i) :
    laneStores lanes n f = laneStores lanes n g := by
  refine List.flatMap_congr fun i _ => ?_
  unfold MaskedStores.storeIf
  by_cases hi : i < n
  · rw [if_pos hi, if_pos hi, h i hi]
  · rw [if_neg hi, if_neg hi]

lemma blockStores_congr {block : ℕ} {g : ℕ → Cell × V} (h : ∀ i < n, f i = g i) :
    blockStores block n f = blockStores block n g := by
  refine List.flatMap_congr fun t _ => List.flatMap_congr fun l _ => ?_
  unfold MaskedStores.storeIf
  by_cases hi : t * block + l < n
  · rw [if_pos hi, if_pos hi, h _ hi]
  · rw [if_neg hi, if_neg hi]

lemma mem_laneStores {lanes : ℕ} {st : Cell × V} : st ∈ laneStores lanes n f ↔ ∃ i < lanes, i < n ∧ st = f i := by
  unfold laneStores MaskedStores.storeIf
  simp only [List.mem_flatMap, List.mem_range]
  constructor
  · rintro ⟨i, hi, hst⟩
    by_cases hn : i < n
    · rw [if_pos hn, List.mem_singleton] at hst
      exact ⟨i, hi, hn, hst⟩
    · rw [if_neg hn] at hst
      cases hst
  · rintro ⟨i, hi, hn, rfl⟩
    exact ⟨i, hi, by rw [if_pos hn]; exact List.mem_singleton.mpr rfl⟩

lemma mem_blockStores {block : ℕ} (hblock : 0 < block) {st : Cell × V} :
    st ∈ blockStores block n f ↔ ∃ i < n, st = f i := by
  rw [WorkerTasks.blockStores_eq hblock]
  simp [List.mem_map, List.mem_range, eq_comm]

end

section

variable {V : Type} [Field V] (f : Maths V)

/-! ## Shared bodies -/

/-- `_h_embed`. -/
def hEmbed (token : ℕ) (emb : ℕ → V) (out C BC : ℕ) : Task Cell V where
  loads := ∅
  stores _ := laneStores BC C fun i => ((.ws, out + i), emb (token * C + i))
  reads_only _ _ _ := rfl

/-- `_h_rms`. -/
def hRms (x : ℕ) (g : ℕ → V) (y C BC : ℕ) (eps : V) : Task Cell V where
  loads := span .ws x C
  stores m :=
    let var := (∑ i ∈ range BC, if i < C then m (.ws, x + i) * m (.ws, x + i) else 0) / (C : V)
    laneStores BC C fun i => ((.ws, y + i), m (.ws, x + i) * (1 / f.sqrt (var + eps)) * (1 + g i))
  reads_only m m' h := by
    have hx : ∀ i < C, m (.ws, x + i) = m' (.ws, x + i) := fun i hi => h _ (mem_span hi)
    have hvar : (∑ i ∈ range BC, if i < C then m (.ws, x + i) * m (.ws, x + i) else 0) =
        ∑ i ∈ range BC, if i < C then m' (.ws, x + i) * m' (.ws, x + i) else 0 := by
      refine sum_congr rfl fun i _ => ?_
      by_cases hi : i < C
      · rw [if_pos hi, if_pos hi, hx i hi]
      · rw [if_neg hi, if_neg hi]
    rw [hvar]
    exact laneStores_congr fun i hi => by rw [hx i hi]

/-- `_h_gemv_fp8`: rows `16 * task`, … of the dequantised weight, by 128 columns. -/
def hGemvFp8 (x : ℕ) (w sc : ℕ → V) (y K task : ℕ) : Task Cell V where
  loads := span .ws x (K / 128 * 128)
  stores m := storeRow 16 (fun n => (.ws, y + (task * 16 + n))) fun n =>
    ∑ kb ∈ range (K / 128), ∑ k ∈ range 128, w ((task * 16 + n) * K + (kb * 128 + k)) *
      (sc (task * 16 / 128 * (K / 128) + kb) * m (.ws, x + (kb * 128 + k)))
  reads_only m m' h := by
    refine storeRow_congr (fun _ _ => rfl) fun n _ => ?_
    refine sum_congr rfl fun kb hkb => sum_congr rfl fun k hk => ?_
    have hlt : kb * 128 + k < K / 128 * 128 := by
      have := mem_range.mp hkb
      have := mem_range.mp hk
      omega
    rw [h _ (mem_span hlt)]

/-- `_h_gemv_bf16`, into `y` of a buffer, by 256 columns. -/
def hGemvBf16 (x : ℕ) (w : ℕ → V) (dst : Buffer) (y K task : ℕ) : Task Cell V where
  loads := span .ws x (blocksFor 256 K * 256)
  stores m := storeRow 16 (fun n => (dst, y + (task * 16 + n))) fun n =>
    ∑ kb ∈ range (blocksFor 256 K), ∑ k ∈ range 256, w ((task * 16 + n) * K + (kb * 256 + k)) *
      m (.ws, x + (kb * 256 + k))
  reads_only m m' h := by
    refine storeRow_congr (fun _ _ => rfl) fun n _ => ?_
    refine sum_congr rfl fun kb hkb => sum_congr rfl fun k hk => ?_
    have hlt : kb * 256 + k < blocksFor 256 K * 256 := by
      have := mem_range.mp hkb
      have := mem_range.mp hk
      omega
    rw [h _ (mem_span hlt)]

/-- `_h_gemv_bf16_small`: 64 lanes for `N` rows. -/
def hGemvBf16Small (x : ℕ) (w : ℕ → V) (y K N : ℕ) : Task Cell V where
  loads := span .ws x (blocksFor 256 K * 256)
  stores m := laneStores 64 N fun n => ((.ws, y + n),
    ∑ kb ∈ range (blocksFor 256 K), ∑ k ∈ range 256, w (n * K + (kb * 256 + k)) * m (.ws, x + (kb * 256 + k)))
  reads_only m m' h := by
    refine laneStores_congr fun n _ => congrArg (Prod.mk _) ?_
    refine sum_congr rfl fun kb hkb => sum_congr rfl fun k hk => ?_
    have hlt : kb * 256 + k < blocksFor 256 K * 256 := by
      have := mem_range.mp hkb
      have := mem_range.mp hk
      omega
    rw [h _ (mem_span hlt)]

/-- `_h_add`. -/
def hAdd (a b y C BC : ℕ) : Task Cell V where
  loads := span .ws a C ∪ span .ws b C
  stores m := laneStores BC C fun i => ((.ws, y + i), m (.ws, a + i) + m (.ws, b + i))
  reads_only m m' h := by
    refine laneStores_congr fun i hi => ?_
    rw [h _ (Or.inl (mem_span hi)), h _ (Or.inr (mem_span hi))]

/-- `_h_swiglu`, by 4096. -/
def hSwiglu (gu y F : ℕ) : Task Cell V where
  loads := span .ws gu F ∪ span .ws (gu + F) F
  stores m := blockStores 4096 F fun i => ((.ws, y + i),
    m (.ws, gu + i) / (1 + f.exp (-m (.ws, gu + i))) * m (.ws, gu + F + i))
  reads_only m m' h := by
    refine blockStores_congr fun i hi => ?_
    rw [h _ (Or.inl (mem_span hi)), h _ (Or.inr (mem_span hi))]

/-! ## Full attention -/

/-- The normed entry `i` of a head of `D` elements at `src`. -/
def normed (D : ℕ) (eps : V) (w : ℕ → V) (src : ℕ) (m : Mem V) (i : ℕ) : V :=
  m (.ws, src + i) * (1 / f.sqrt ((∑ e ∈ range D, m (.ws, src + e) * m (.ws, src + e)) / (D : V) + eps)) * (1 + w i)

lemma normed_congr {D : ℕ} {eps : V} {w : ℕ → V} {src : ℕ} {m m' : Mem V}
    (h : ∀ i < D, m (.ws, src + i) = m' (.ws, src + i)) {i : ℕ} (hi : i < D) :
    normed f D eps w src m i = normed f D eps w src m' i := by
  have hsum : (∑ e ∈ range D, m (.ws, src + e) * m (.ws, src + e)) =
      ∑ e ∈ range D, m' (.ws, src + e) * m' (.ws, src + e) := by
    refine sum_congr rfl fun e he => ?_
    rw [h e (mem_range.mp he)]
  unfold normed
  rw [hsum, h i hi]

/-- `_h_qknorm`: a query head and its gate, or a key head. -/
def hQknorm (qkv : ℕ) (qn kn : ℕ → V) (out H D : ℕ) (eps : V) (task : ℕ) : Task Cell V :=
  if task < H then
    { loads := span .ws (qkv + task * 2 * D) (2 * D)
      stores := fun m =>
        storeRow D (fun i => (.ws, out + task * D + i)) (normed f D eps qn (qkv + task * 2 * D) m) ++
          storeRow D (fun i => (.ws, out + H * D + task * D + i)) fun i => m (.ws, qkv + task * 2 * D + (D + i))
      reads_only := by
        intro m m' h
        refine congrArg₂ (· ++ ·) (storeRow_congr (fun _ _ => rfl) fun i hi => ?_)
          (storeRow_congr (fun _ _ => rfl) fun i hi => ?_)
        · exact normed_congr f (fun e he => h _ (mem_span (by omega))) hi
        · exact h _ (mem_span (by omega)) }
  else
    { loads := span .ws (qkv + H * 2 * D + (task - H) * D) D
      stores := fun m => storeRow D (fun i => (.ws, out + 2 * H * D + (task - H) * D + i))
        (normed f D eps kn (qkv + H * 2 * D + (task - H) * D) m)
      reads_only := by
        intro m m' h
        refine storeRow_congr (fun _ _ => rfl) fun i hi => ?_
        exact normed_congr f (fun e he => h _ (mem_span he)) hi }

/-- The rotated first half of a head at `base`, at position `pos`. -/
def rotFirst (cos sin : ℕ → V) (pos ROT base : ℕ) (m : Mem V) (d : ℕ) : V :=
  m (.ws, base + d) * cos (pos * ROT + d) - m (.ws, base + (ROT / 2 + d)) * sin (pos * ROT + d)

/-- The rotated second half. -/
def rotSecond (cos sin : ℕ → V) (pos ROT base : ℕ) (m : Mem V) (d : ℕ) : V :=
  m (.ws, base + (ROT / 2 + d)) * cos (pos * ROT + d) + m (.ws, base + d) * sin (pos * ROT + d)

/-- `_h_rope_append`: a query head in place, a key head into the key cache, or a value head into the value cache. -/
def hRopeAppend (post : ℕ) (cos sin : ℕ → V) (kCache vSrc vCache pos slot H NKV D ROT task : ℕ) : Task Cell V :=
  if task < H then
    { loads := span .ws (post + task * D) (ROT / 2 + ROT / 2)
      stores := fun m =>
        storeRow (ROT / 2) (fun d => (.ws, post + task * D + d)) (rotFirst cos sin pos ROT (post + task * D) m) ++
          storeRow (ROT / 2) (fun d => (.ws, post + task * D + (ROT / 2 + d)))
            (rotSecond cos sin pos ROT (post + task * D) m)
      reads_only := by
        intro m m' h
        have h₁ : ∀ d < ROT / 2, m (.ws, post + task * D + d) = m' (.ws, post + task * D + d) :=
          fun d hd => h _ (mem_span (by omega))
        have h₂ : ∀ d < ROT / 2, m (.ws, post + task * D + (ROT / 2 + d)) = m' (.ws, post + task * D + (ROT / 2 + d)) :=
          fun d hd => h _ (mem_span (by omega))
        refine congrArg₂ (· ++ ·) (storeRow_congr (fun _ _ => rfl) fun d hd => ?_)
          (storeRow_congr (fun _ _ => rfl) fun d hd => ?_)
        · rw [rotFirst, rotFirst, h₁ d hd, h₂ d hd]
        · rw [rotSecond, rotSecond, h₁ d hd, h₂ d hd] }
  else if task < H + NKV then
    { loads := span .ws (post + 2 * H * D + (task - H) * D) (max (ROT / 2 + ROT / 2) D)
      stores := fun m =>
        storeRow (ROT / 2) (fun d => (.kCache, kCache + (slot * (NKV * D) + ((task - H) * D + d))))
            (rotFirst cos sin pos ROT (post + 2 * H * D + (task - H) * D) m) ++
          storeRow (ROT / 2) (fun d => (.kCache, kCache + (slot * (NKV * D) + ((task - H) * D + (ROT / 2 + d)))))
            (rotSecond cos sin pos ROT (post + 2 * H * D + (task - H) * D) m) ++
          -- the tail, from ROT on
          (List.range D).flatMap fun i => MaskedStores.storeIf (ROT ≤ i)
            (.kCache, kCache + (slot * (NKV * D) + ((task - H) * D + i))) (m (.ws, post + 2 * H * D + (task - H) * D + i))
      reads_only := by
        intro m m' h
        have hall : ∀ i < max (ROT / 2 + ROT / 2) D, m (.ws, post + 2 * H * D + (task - H) * D + i) =
            m' (.ws, post + 2 * H * D + (task - H) * D + i) := fun i hi => h _ (mem_span hi)
        refine congrArg₂ (· ++ ·) (congrArg₂ (· ++ ·) (storeRow_congr (fun _ _ => rfl) fun d hd => ?_)
          (storeRow_congr (fun _ _ => rfl) fun d hd => ?_)) (List.flatMap_congr fun i hi => ?_)
        · rw [rotFirst, rotFirst, hall d (by omega), hall (ROT / 2 + d) (by omega)]
        · rw [rotSecond, rotSecond, hall d (by omega), hall (ROT / 2 + d) (by omega)]
        · rw [hall i (lt_max_of_lt_right (List.mem_range.mp hi))] }
  else
    { loads := span .ws (vSrc + (task - H - NKV) * D) D
      stores := fun m => storeRow D (fun d => (.vCache, vCache + (slot * (NKV * D) + ((task - H - NKV) * D + d))))
        fun d => m (.ws, vSrc + (task - H - NKV) * D + d)
      reads_only := fun m m' h => storeRow_congr (fun _ _ => rfl) fun d hd => h _ (mem_span hd) }

/-- `_h_scores`: one head, `BT` rows of the cache at a time. -/
def hScores (q kCache y pos H NKV D SCAP BT : ℕ) (scale : V) (h : ℕ) : Task Cell V where
  loads := span .ws (q + h * D) D ∪ headRows .kCache kCache (h / (H / NKV)) (pos + 1) NKV D
  stores m := blockStores BT (pos + 1) fun t => ((.ws, y + h * SCAP + t),
    (∑ d ∈ range D, m (.kCache, kCache + (t * (NKV * D) + (h / (H / NKV) * D + d))) * m (.ws, q + h * D + d)) * scale)
  reads_only m m' hagree := by
    refine blockStores_congr fun t ht => Prod.ext rfl (congrArg (· * scale) ?_)
    refine sum_congr rfl fun d hd => ?_
    have hd := mem_range.mp hd
    rw [hagree _ (Or.inr ⟨t, ht, d, hd, rfl⟩), hagree _ (Or.inl (mem_span hd))]

/-- The scores that `_h_softmax` loads: lanes past the position are minus infinity. -/
def maskedScore (x pos SCAP h : ℕ) (m : Mem V) (t : ℕ) : Option V :=
  if t < pos + 1 then some (m (.ws, x + h * SCAP + t)) else none

section

variable [LinearOrder V]

/-- The shifted exponential of a lane, 0 past the position. -/
def softmaxWeight (x pos SCAP BTR h : ℕ) (m : Mem V) (t : ℕ) : V :=
  let mr := (maxOver BTR (maskedScore x pos SCAP h m)).getD 0
  if t < pos + 1 then f.exp (m (.ws, x + h * SCAP + t) - mr) else 0

lemma softmaxWeight_congr {x pos SCAP BTR h : ℕ} {m m' : Mem V}
    (hx : ∀ t < min BTR (pos + 1), m (.ws, x + h * SCAP + t) = m' (.ws, x + h * SCAP + t)) {t : ℕ} (ht : t < BTR) :
    softmaxWeight f x pos SCAP BTR h m t = softmaxWeight f x pos SCAP BTR h m' t := by
  have hmax : maxOver BTR (maskedScore x pos SCAP h m) = maxOver BTR (maskedScore x pos SCAP h m') := by
    refine SplitSoftmax.maxOver_congr fun i hi => ?_
    unfold maskedScore
    by_cases hp : i < pos + 1
    · rw [if_pos hp, if_pos hp, hx i (lt_min hi hp)]
    · rw [if_neg hp, if_neg hp]
  unfold softmaxWeight
  rw [hmax]
  by_cases hp : t < pos + 1
  · rw [if_pos hp, if_pos hp, hx t (lt_min ht hp)]
  · rw [if_neg hp, if_neg hp]

/-- `_h_softmax`: one head in one tile of `BTR` lanes. -/
def hSoftmax (x pos y SCAP BTR h : ℕ) : Task Cell V where
  loads := span .ws (x + h * SCAP) (min BTR (pos + 1))
  stores m :=
    let e := softmaxWeight f x pos SCAP BTR h m
    let inv := 1 / ∑ t ∈ range BTR, e t
    laneStores BTR SCAP fun t => ((.ws, y + h * SCAP + t), if t < pos + 1 then e t * inv else 0)
  reads_only m m' hagree := by
    have hx : ∀ t < min BTR (pos + 1), m (.ws, x + h * SCAP + t) = m' (.ws, x + h * SCAP + t) :=
      fun t ht => hagree _ (mem_span ht)
    have hsum : (∑ t ∈ range BTR, softmaxWeight f x pos SCAP BTR h m t) =
        ∑ t ∈ range BTR, softmaxWeight f x pos SCAP BTR h m' t :=
      sum_congr rfl fun t ht => softmaxWeight_congr f hx (mem_range.mp ht)
    refine List.flatMap_congr fun t ht => ?_
    dsimp only
    rw [hsum, softmaxWeight_congr f hx (List.mem_range.mp ht)]

end

/-- `_h_values_gate`: one head, `BT` rows of the cache at a time, times the sigmoid of its gate. -/
def hValuesGate (probs vCache gate y pos H NKV D SCAP BT h : ℕ) : Task Cell V where
  loads := span .ws (probs + h * SCAP) (pos + 1) ∪ headRows .vCache vCache (h / (H / NKV)) (pos + 1) NKV D ∪
    span .ws (gate + h * D) D
  stores m :=
    let acc (d : ℕ) := ∑ b ∈ range (blocksFor BT (pos + 1)), ∑ l ∈ range BT, if b * BT + l < pos + 1 then
      m (.ws, probs + h * SCAP + (b * BT + l)) *
        m (.vCache, vCache + ((b * BT + l) * (NKV * D) + (h / (H / NKV) * D + d))) else 0
    storeRow D (fun d => (.ws, y + h * D + d)) fun d => acc d * (1 / (1 + f.exp (-m (.ws, gate + h * D + d))))
  reads_only m m' hagree := by
    refine storeRow_congr (fun _ _ => rfl) fun d hd => ?_
    rw [hagree _ (Or.inr (mem_span hd))]
    refine congrArg (· * _) (sum_congr rfl fun b _ => sum_congr rfl fun l _ => ?_)
    by_cases ht : b * BT + l < pos + 1
    · rw [if_pos ht, if_pos ht, hagree _ (Or.inl (Or.inl (mem_span ht))),
        hagree _ (Or.inl (Or.inr ⟨_, ht, d, hd, rfl⟩))]
    · rw [if_neg ht, if_neg ht]

/-! ## Linear attention -/

/-- Rows `0`, …, `KTAPS - 2` of a tile of the channel state. -/
def convRows (state C ELEM rows task : ℕ) : Set Cell :=
  {c | ∃ j < rows, ∃ e < ELEM, c = (.conv, state + (j * C + (task * ELEM + e)))}

/-- `_t_gdn_conv`: a tile of `ELEM` channels. The state moves up one row, row by row, and the new row is last; a row
is read before the row above it is stored. -/
def tGdnConv (state : ℕ) (w : ℕ → V) (x out C ELEM KTAPS task : ℕ) : Task Cell V where
  loads := span .ws (x + task * ELEM) ELEM ∪ convRows state C ELEM (KTAPS - 1) task
  stores m :=
    let xn (e : ℕ) := m (.ws, x + task * ELEM + e)
    let acc (e : ℕ) := ∑ j ∈ range (KTAPS - 1), w ((task * ELEM + e) * KTAPS + j) *
        m (.conv, state + (j * C + (task * ELEM + e))) + w ((task * ELEM + e) * KTAPS + (KTAPS - 1)) * xn e
    storeRow ELEM (fun e => (.ws, out + task * ELEM + e)) (fun e => acc e / (1 + f.exp (-acc e))) ++
      storeRows (KTAPS - 2) ELEM (fun j e => (.conv, state + (j * C + (task * ELEM + e))))
        (fun j e => m (.conv, state + ((j + 1) * C + (task * ELEM + e)))) ++
      storeRow ELEM (fun e => (.conv, state + ((KTAPS - 2) * C + (task * ELEM + e)))) xn
  reads_only m m' h := by
    have hx : ∀ e < ELEM, m (.ws, x + task * ELEM + e) = m' (.ws, x + task * ELEM + e) :=
      fun e he => h _ (Or.inl (mem_span he))
    have hstate : ∀ j < KTAPS - 1, ∀ e < ELEM, m (.conv, state + (j * C + (task * ELEM + e))) =
        m' (.conv, state + (j * C + (task * ELEM + e))) := fun j hj e he => h _ (Or.inr ⟨j, hj, e, he, rfl⟩)
    have hacc : ∀ e < ELEM, (∑ j ∈ range (KTAPS - 1), w ((task * ELEM + e) * KTAPS + j) *
        m (.conv, state + (j * C + (task * ELEM + e)))) = ∑ j ∈ range (KTAPS - 1),
          w ((task * ELEM + e) * KTAPS + j) * m' (.conv, state + (j * C + (task * ELEM + e))) := by
      intro e he
      refine sum_congr rfl fun j hj => ?_
      rw [hstate j (mem_range.mp hj) e he]
    refine congrArg₂ (· ++ ·) (congrArg₂ (· ++ ·) (storeRow_congr (fun _ _ => rfl) fun e he => ?_)
      (OwnedTasks.storeRows_congr (fun _ _ _ _ => rfl) fun j hj e he => ?_))
      (storeRow_congr (fun _ _ => rfl) hx)
    · dsimp only
      rw [hacc e he, hx e he]
    · exact hstate (j + 1) (by omega) e he

/-- The lanes of a `tl.load`. -/
def lanes (n : ℕ) (g : ℕ → V) (i : ℕ) : V := if i < n then g i else 0

lemma lanes_congr {n : ℕ} {g g' : ℕ → V} (h : ∀ i < n, g i = g' i) : lanes n g = lanes n g' := by
  funext i
  unfold lanes
  by_cases hi : i < n
  · rw [if_pos hi, if_pos hi, h i hi]
  · rw [if_neg hi, if_neg hi]

/-- A head over its length, `1e-6` under the root. -/
def l2normed (HK : ℕ) (x : ℕ → V) (c : ℕ) : V := x c * (1 / f.sqrt (∑ e ∈ range HK, x e * x e + l2Eps V))

variable [LinearOrder V]

/-- The new state of a head: decayed, then corrected towards `v`. -/
def headState (HK : ℕ) (k v : ℕ → V) (a b alog dtb : V) (s : ℕ → ℕ → V) (r c : ℕ) : V :=
  let A := f.exp alog
  let xDt := a + dtb
  let sp := if xDt ≤ guard V then f.log (1 + f.exp xDt) else xDt
  let beta := 1 / (1 + f.exp (-b))
  let kn := l2normed f HK k
  let s (r c : ℕ) := s r c * f.exp (-A * sp)
  let vd (r : ℕ) := beta * (v r - ∑ c ∈ range HK, s r c * kn c)
  s r c + vd r * kn c

/-- What a head reads out of its new state, normed over its rows and gated. -/
def headOut (HV HK : ℕ) (q z normw : ℕ → V) (eps scale : V) (s : ℕ → ℕ → V) (r : ℕ) : V :=
  let qn (c : ℕ) := l2normed f HK q c * scale
  let o (r : ℕ) := ∑ c ∈ range HK, s r c * qn c
  let var := (∑ r ∈ range HV, o r * o r) / (HV : V)
  o r * (1 / f.sqrt (var + eps)) * normw r * (z r * (1 / (1 + f.exp (-z r))))

/-- `_t_gdn_heads`: one value head. -/
def tGdnHeads (q k v z a b : ℕ) (alog dtb normw : ℕ → V) (state out NH NK HV HK : ℕ) (eps scale : V) (h : ℕ) :
    Task Cell V where
  loads := span .ws (q + h / (NH / NK) * HK) HK ∪ span .ws (k + h / (NH / NK) * HK) HK ∪ span .ws (v + h * HV) HV ∪
    span .ws (z + h * HV) HV ∪ {(.ws, a + h), (.ws, b + h)} ∪
    {c | ∃ r < HV, ∃ e < HK, c = (.ssm, state + h * HV * HK + (r * HK + e))}
  stores m :=
    let kh := h / (NH / NK)
    let q := lanes HK fun c => m (.ws, q + kh * HK + c)
    let k := lanes HK fun c => m (.ws, k + kh * HK + c)
    let v := lanes HV fun r => m (.ws, v + h * HV + r)
    let z := lanes HV fun r => m (.ws, z + h * HV + r)
    let s := fun r => lanes HK fun c => if r < HV then m (.ssm, state + h * HV * HK + (r * HK + c)) else 0
    let s := headState f HK k v (m (.ws, a + h)) (m (.ws, b + h)) (alog h) (dtb h) s
    storeRows HV HK (fun r c => (.ssm, state + h * HV * HK + (r * HK + c))) s ++
      storeRow HV (fun r => (.ws, out + h * HV + r)) (headOut f HV HK q z normw eps scale s)
  reads_only m m' hagree := by
    have hq := lanes_congr (n := HK) fun c hc => hagree (.ws, q + h / (NH / NK) * HK + c)
      (by simp only [Set.mem_union, mem_span hc, true_or])
    have hk := lanes_congr (n := HK) fun c hc => hagree (.ws, k + h / (NH / NK) * HK + c)
      (by simp only [Set.mem_union, mem_span hc, true_or, or_true])
    have hv := lanes_congr (n := HV) fun r hr => hagree (.ws, v + h * HV + r)
      (by simp only [Set.mem_union, mem_span hr, true_or, or_true])
    have hz := lanes_congr (n := HV) fun r hr => hagree (.ws, z + h * HV + r)
      (by simp only [Set.mem_union, mem_span hr, true_or, or_true])
    have ha : m (.ws, a + h) = m' (.ws, a + h) := hagree _ (by simp)
    have hb : m (.ws, b + h) = m' (.ws, b + h) := hagree _ (by simp)
    have hs (r : ℕ) : lanes HK (fun c => if r < HV then m (.ssm, state + h * HV * HK + (r * HK + c)) else 0) =
        lanes HK fun c => if r < HV then m' (.ssm, state + h * HV * HK + (r * HK + c)) else 0 := by
      refine lanes_congr fun c hc => ?_
      by_cases hr : r < HV
      · rw [if_pos hr, if_pos hr, hagree _ (Or.inr ⟨r, hr, c, hc, rfl⟩)]
      · rw [if_neg hr, if_neg hr]
    dsimp only
    rw [hq, hk, hv, hz, ha, hb, funext hs]

end

end VKernels.Hybrid
