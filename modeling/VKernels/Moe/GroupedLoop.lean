import VKernels.Moe.NativeGrouped

/-!
# The per-expert loop

`glm_moe_grouped_gemm` of `torch_ops/glm_fp8_blockwise_gemm.py` with `_route` and `_torch_blockwise_gemm`, and when it
returns what `glm_moe_grouped_gemm_native` does.

## Results

* `loop_eq`, `native_y` — each path gives `moeSum` under its own activation.
* `two_mlps_iff` — they agree on all data exactly when the weights of every expert a token is routed to cancel.
-/

namespace VKernels.GroupedFp8

open Finset
open Grouping Segments MaskedStores TileConfigs
open List hiding cons max mem_range min range sum_eq_zero
open Real (exp)

/-! ## The loop -/

/-- `torch.unique_consecutive(…, return_counts=True)`. -/
def uniqueConsecutive : List ℤ → List (ℤ × ℕ)
  | [] => []
  | x :: xs =>
    match uniqueConsecutive xs with
    | [] => [(x, 1)]
    | (y, n) :: rest => if x = y then (y, n + 1) :: rest else (x, 1) :: (y, n) :: rest

lemma uniqueConsecutive_replicate (l : List ℤ) : (uniqueConsecutive l).flatMap (fun r => replicate r.2 r.1) = l := by
  induction l with
  | nil => rfl
  | cons x xs ih =>
    unfold uniqueConsecutive
    split
    · rename_i heq
      rw [heq] at ih
      rw [← ih]
      rfl
    · rename_i y n _ heq
      rw [heq] at ih
      by_cases h : x = y
      · rw [if_pos h, ← ih, h]
        simp [flatMap_cons, replicate_succ, cons_append]
      · rw [if_neg h, ← ih]
        rfl

/-- A quantizer of the blocks of a matrix of `rows` by `k`. -/
structure BlockQuantizer (R : Type) where
  payload : ℕ → ℕ → (ℕ → ℕ → R) → ℕ → ℕ → R
  scale : ℕ → ℕ → (ℕ → ℕ → R) → ℕ → ℕ → R

variable {R : Type} [Field R]

section

variable [LinearOrder R] (exp : R → R)

def sigmoid (z : R) : R := 1 / (1 + exp (-z))

/-- `torch.nn.functional.silu`. -/
def silu (z : R) : R := z * sigmoid exp z

/-- The activation of `glm_moe_grouped_gemm`. -/
def loopSwiglu (limit gate up : R) : R :=
  if limit ≠ 0 then sigmoid exp (gate / limit) * up * limit else silu exp gate * up

/-- The activation of `glm_moe_grouped_gemm_native`. -/
def nativeSwiglu (limit gate up : R) : R := silu exp (min gate limit) * min (max up (-limit)) limit

/-- `_torch_blockwise_gemm`, at row `r` and column `n`. -/
def torchBlockwiseGemm (k : ℕ) (a sa b sb : ℕ → ℕ → R) (r n : ℕ) : R :=
  ∑ kb ∈ range (k / 128), ∑ j ∈ range 128,
    (a r (kb * 128 + j) * sa (r / 128) kb) * (b n (kb * 128 + j) * sb (n / 128) kb)

variable (bq : BlockQuantizer R) (limit : R) (c : Call R)

/-- The slots by expert id. -/
def loopOrder : List ℕ := argsort c.routing.index c.routing.slots

/-- `dn` of one expert: its `m` slots from `off` on. -/
def expertDown (e : ℕ) (off m : ℕ) : ℕ → ℕ → R :=
  let xa := fun p => c.x (c.routing.token ((loopOrder c).getD (off + p) 0))
  let gu := fun p n => c.bf16 (torchBlockwiseGemm c.dims.hidden (bq.payload m c.dims.hidden xa) (bq.scale m c.dims.hidden xa)
    (c.gateUp e) (c.gateUpScales e) p n)
  let act := fun p i => c.bf16 (loopSwiglu exp limit (gu p i) (gu p (c.dims.inter + i)))
  fun p n => c.bf16 (torchBlockwiseGemm c.dims.inter (bq.payload m c.dims.inter act) (bq.scale m c.dims.inter act)
    (c.down e) (c.downScales e) p n)

/-- `y.index_add_(0, toks, dn * w)`. -/
def expertAdd (e : ℕ) (off m t n : ℕ) : R :=
  ∑ p ∈ range m, if c.routing.token ((loopOrder c).getD (off + p) 0) = t then
    expertDown exp bq limit c e off m p n * c.routing.weight ((loopOrder c).getD (off + p) 0) else 0

/-- The experts in turn, from sorted slot `off` on. -/
def loopFrom : List (ℤ × ℕ) → ℕ → (ℕ → ℕ → R) → ℕ → ℕ → R
  | [], _, y => y
  | (e, m) :: rest, off, y => loopFrom rest (off + m) fun t n => y t n + expertAdd exp bq limit c e.toNat off m t n

/-- `glm_moe_grouped_gemm`. -/
def loop (t n : ℕ) : R :=
  c.bf16 (loopFrom exp bq limit c (uniqueConsecutive ((loopOrder c).map c.routing.index)) 0 (fun _ _ => 0) t n)

end

/-! ## Both paths without quantization -/

/-- A row by a scaled weight row. -/
def dense (k : ℕ) (x w sw : ℕ → R) : R := ∑ i ∈ range k, x i * (w i * sw (i / 128))

/-- The expert MLP of a token. -/
def mlpRow (f : R → R → R) (c : Call R) (t e n : ℕ) : R :=
  dense c.dims.inter
    (fun i => f (dense c.dims.hidden (c.x t) (c.gateUp e i) (c.gateUpScales e (i / 128)))
      (dense c.dims.hidden (c.x t) (c.gateUp e (c.dims.inter + i)) (c.gateUpScales e ((c.dims.inter + i) / 128))))
    (c.down e n) (c.downScales e (n / 128))

/-- The weighted sum over the routes of a token. -/
def moeSum (f : R → R → R) (c : Call R) (t n : ℕ) : R :=
  ∑ s ∈ range c.routing.slots,
    if c.routing.token s = t then mlpRow f c t (expertOf c s) n * c.routing.weight s else 0

lemma dense_congr {k : ℕ} {x x' w sw : ℕ → R} (h : ∀ i < k, x i = x' i) : dense k x w sw = dense k x' w sw :=
  sum_congr rfl fun i hi => by rw [h i (mem_range.mp hi)]

lemma sum_blocks_of_dvd {k : ℕ} (hk : 128 ∣ k) (f : ℕ → ℕ → R) :
    ∑ kb ∈ range (k / 128), ∑ j ∈ range 128, f (kb * 128 + j) kb = ∑ i ∈ range k, f i (i / 128) := by
  have hblocks := TileLoops.sum_blocks (fun i => f i (i / 128)) (k / 128) 128
  rw [Nat.div_mul_cancel hk] at hblocks
  rw [← hblocks]
  refine sum_congr rfl fun kb _ => sum_congr rfl fun j hj => ?_
  have hj := mem_range.mp hj
  have hdiv : (kb * 128 + j) / 128 = kb := by omega
  rw [hdiv]

/-- A quantizer whose payload under its scale is the row. -/
def Quantizer.Lossless (q : Quantizer R) : Prop :=
  ∀ k row, 128 ∣ k → ∀ i < k, q.payload k row i * q.scale k row (i / 128) = row i

def BlockQuantizer.Lossless (q : BlockQuantizer R) : Prop :=
  ∀ rows k x, 128 ∣ k → ∀ r < rows, ∀ i < k, q.payload rows k x r i * q.scale rows k x (r / 128) (i / 128) = x r i

lemma dotBlocks_lossless {q : Quantizer R} (hq : q.Lossless) {k : ℕ} (hk : 128 ∣ k) (row w sw : ℕ → R) :
    dotBlocks k (q.payload k row) (q.scale k row) w sw = dense k row w sw := by
  have hblock : ∀ kb, (∑ j ∈ range 128, q.payload k row (kb * 128 + j) * w (kb * 128 + j)) * (q.scale k row kb * sw kb) =
      ∑ j ∈ range 128, q.payload k row (kb * 128 + j) * q.scale k row kb * (w (kb * 128 + j) * sw kb) := by
    intro kb
    rw [sum_mul]
    refine sum_congr rfl fun j _ => ?_
    ring
  unfold dotBlocks
  simp only [hblock]
  rw [sum_blocks_of_dvd hk fun i kb => q.payload k row i * q.scale k row kb * (w i * sw kb)]
  refine sum_congr rfl fun i hi => ?_
  rw [hq k row hk i (mem_range.mp hi)]

lemma torchBlockwiseGemm_lossless {q : BlockQuantizer R} (hq : q.Lossless) {k rows : ℕ} (hk : 128 ∣ k) (x : ℕ → ℕ → R)
    (b sb : ℕ → ℕ → R) {r : ℕ} (hr : r < rows) (n : ℕ) :
    torchBlockwiseGemm k (q.payload rows k x) (q.scale rows k x) b sb r n = dense k (x r) (b n) (sb (n / 128)) := by
  unfold torchBlockwiseGemm
  rw [sum_blocks_of_dvd hk fun i kb => q.payload rows k x r i * q.scale rows k x _ kb * (b n i * sb _ kb)]
  refine sum_congr rfl fun i hi => ?_
  rw [hq rows k x hk r hr i (mem_range.mp hi)]

/-! ## The loop adds up its experts -/

section

variable [LinearOrder R] {exp : R → R} {bq : BlockQuantizer R} (hbq : bq.Lossless) {limit : R}
    {c : Call R} (hround : ∀ v, c.bf16 v = v)
include hbq hround

lemma expertDown_eq (e : ℕ) {off m p : ℕ} (hp : p < m) (n : ℕ) : expertDown exp bq limit c e off m p n =
      mlpRow (loopSwiglu exp limit) c (c.routing.token ((loopOrder c).getD (off + p) 0)) e n := by
  unfold expertDown
  simp only [hround]
  rw [torchBlockwiseGemm_lossless hbq c.dims.inter_blocks _ _ _ hp]
  refine dense_congr fun i _ => ?_
  rw [torchBlockwiseGemm_lossless hbq c.dims.hidden_blocks _ _ _ hp, torchBlockwiseGemm_lossless hbq c.dims.hidden_blocks _ _ _ hp]

/-- What sorted slot `p` adds. -/
def loopTerm (exp : R → R) (limit : R) (c : Call R) (t n s : ℕ) : R :=
  if c.routing.token s = t then mlpRow (loopSwiglu exp limit) c t (expertOf c s) n * c.routing.weight s else 0

lemma loopFrom_eq (runs : List (ℤ × ℕ)) : ∀ (off : ℕ) (y : ℕ → ℕ → R),
    (∀ p e, (runs.flatMap fun r => replicate r.2 r.1)[p]? = some e →
      c.routing.index ((loopOrder c).getD (off + p) 0) = e) → ∀ t n, loopFrom exp bq limit c runs off y t n = y t n +
      ∑ p ∈ range (runs.flatMap fun r => replicate r.2 r.1).length,
        loopTerm exp limit c t n ((loopOrder c).getD (off + p) 0) := by
  induction runs with
  | nil =>
    intro off y _ t n
    simp [loopFrom]
  | cons r rest ih =>
    obtain ⟨e, m⟩ := r
    intro off y hids t n
    rw [flatMap_cons] at hids ⊢
    have hfirst : expertAdd exp bq limit c e.toNat off m t n =
        ∑ p ∈ range m, loopTerm exp limit c t n ((loopOrder c).getD (off + p) 0) := by
      refine sum_congr rfl fun p hp => ?_
      have hp := mem_range.mp hp
      have hid := hids p e (by rw [getElem?_append_left (by simpa using hp), getElem?_replicate, if_pos hp])
      unfold loopTerm expertOf
      rw [expertDown_eq hbq hround e.toNat hp, hid]
      split
      · rename_i htok
        rw [htok]
      · rfl
    have hrest : ∀ p e', (rest.flatMap fun r => replicate r.2 r.1)[p]? = some e' →
        c.routing.index ((loopOrder c).getD (off + m + p) 0) = e' := by
      intro p e' hp
      rw [add_assoc]
      refine hids (m + p) e' ?_
      rw [getElem?_append_right (by simp), length_replicate, Nat.add_sub_cancel_left]
      exact hp
    rw [loopFrom, ih _ _ hrest, hfirst, length_append, length_replicate, sum_range_add, add_assoc]
    simp [add_assoc]

lemma loop_eq (t n : ℕ) : loop exp bq limit c t n = moeSum (loopSwiglu exp limit) c t n := by
  have hids : ∀ p e, ((uniqueConsecutive ((loopOrder c).map c.routing.index)).flatMap
      fun r => replicate r.2 r.1)[p]? = some e → c.routing.index ((loopOrder c).getD (0 + p) 0) = e := by
    intro p e hp
    rw [uniqueConsecutive_replicate, getElem?_map] at hp
    obtain ⟨s, hs, rfl⟩ := Option.map_eq_some_iff.mp hp
    rw [zero_add, getD_eq_getElem?_getD, hs, Option.getD_some]
  rw [loop, hround, loopFrom_eq hbq hround _ 0 _ hids, zero_add, uniqueConsecutive_replicate, length_map, loopOrder,
    argsort_length]
  simp only [zero_add]
  exact sum_argsort c.routing.index c.routing.slots _

end

/-! ## What the two paths are compared on -/

section

/-- What is fixed: shapes, routing and its weights, the limit, the quantizers, the tiles. -/
structure Setting where
  dims : Dims
  routing : Routing ℝ
  limit : ℝ
  quantize : Quantizer ℝ
  blockQuantize : BlockQuantizer ℝ
  override : Option Tiles
  table : List (ℤ × Tiles)
  compiles : Tiles → Bool
  valid : ValidRouting routing dims.experts false
  limit_pos : 0 < limit
  quantize_lossless : quantize.Lossless
  blockQuantize_lossless : blockQuantize.Lossless

/-- What varies: activations, stacks with scales, fresh memory, the order of the stores. -/
structure Data where
  x : ℕ → ℕ → ℝ
  gateUp : ℕ → ℕ → ℕ → ℝ
  gateUpScales : ℕ → ℕ → ℕ → ℝ
  down : ℕ → ℕ → ℕ → ℝ
  downScales : ℕ → ℕ → ℕ → ℝ
  freshGateUp : ℕ × ℕ → ℝ
  freshDown : ℕ × ℕ → ℝ
  arrange : List (Store ℝ) → List (Store ℝ)
  arrange_perm : ∀ stores, (arrange stores).Perm stores

lemma eager_congr (limit : ℝ) (i : ℕ) (row row' : ℕ → ℝ) (h : ∀ c < 2 * i, row c = row' c) (n : ℕ) (hn : n < i) :
    nativeSwiglu exp limit (row n) (row (i + n)) = nativeSwiglu exp limit (row' n) (row' (i + n)) := by
  rw [h n (by omega), h (i + n) (by omega)]

/-- The eager chain of `glm_moe_grouped_gemm_native`. -/
noncomputable def eagerAct (limit : ℝ) : Activation ℝ where
  run i row n := nativeSwiglu exp limit (row n) (row (i + n))
  congr := eager_congr limit

namespace Setting

variable (st : Setting) (d : Data)

noncomputable def call : Call ℝ where
  dims := st.dims
  routing := st.routing
  x := d.x
  gateUp := d.gateUp
  gateUpScales := d.gateUpScales
  down := d.down
  downScales := d.downScales
  skipZeroWeights := false
  quantize := st.quantize
  act := eagerAct st.limit
  bf16 v := v

def host : Host ℝ where
  override := st.override
  table := st.table
  compiles := st.compiles
  freshGateUp := d.freshGateUp
  freshDown := d.freshDown
  arrange := d.arrange
  arrange_perm := d.arrange_perm

/-- Both paths return, and the same. -/
def Agree : Prop :=
  ∃ f, native (st.host d) (st.call d) = .ok f ∧ ∀ t < st.routing.t, ∀ n < st.dims.hidden,
    f.y t n = loop exp st.blockQuantize st.limit (st.call d) t n

/-- The slot at a sorted position. -/
def slotAt (p : ℕ) : ℕ := (argsort st.routing.index st.routing.slots).getD p 0

def expertAt (s : ℕ) : ℕ := (st.routing.index s).toNat

/-- The row tile of the map. -/
def height : ℕ := (tiles st.override st.table st.routing.slots defaultTiles).bm

def launch : Tiles :=
  tiles st.override st.table (min st.routing.slots (st.routing.slots / st.height + st.dims.experts + 1)) defaultTiles

noncomputable def counts : List ℕ := countsOf st.routing st.dims.experts false

/-- The launches reach the sorted slot. -/
def Reached (p : ℕ) : Prop := (p - start st.counts (segmentOf st.counts p)) % st.height < st.launch.bm

def LostWeightless : Prop := ∀ p < st.routing.slots, ¬ st.Reached p → st.routing.weight (st.slotAt p) = 0

/-- The weight that a token gives an expert. -/
noncomputable def expertWeight (t e : ℕ) : ℝ :=
  ∑ s ∈ range st.routing.slots, if st.routing.token s = t ∧ st.expertAt s = e then st.routing.weight s else 0

/-- No token gives an expert a weight in sum. -/
def Cancelling : Prop := ∀ t < st.routing.t, ∀ e < st.dims.experts, st.expertWeight t e = 0

end Setting

variable {st : Setting} {d : Data}

lemma flat_false : flat st.routing st.dims.experts false = st.routing.index := by
  funext s
  exact if_pos fun h => absurd h Bool.false_ne_true

lemma orderOf_getD (p : ℕ) : (orderOf (st.call d)).getD p 0 = st.slotAt p := by
  exact congrArg (fun key => (argsort key st.routing.slots).getD p 0) flat_false

lemma live_false (st : Setting) (s : ℕ) : Live st.routing false s := fun h => absurd h Bool.false_ne_true

variable {p n : ℕ}

lemma slotAt_lt (hp : p < st.routing.slots) : st.slotAt p < st.routing.slots :=
  (mem_argsort _ _).mp (by
    unfold Setting.slotAt
    rw [getD_eq_getElem?_getD, getElem?_eq_getElem (by rwa [argsort_length]), Option.getD_some]
    exact getElem_mem _)

lemma token_lt {s : ℕ} (hs : s < st.routing.slots) : st.routing.token s < st.routing.t :=
  Nat.div_lt_of_lt_mul (by rwa [mul_comm])

lemma expertAt_lt {s : ℕ} (hs : s < st.routing.slots) : st.expertAt s < st.dims.experts := by
  obtain ⟨hlt, hnonneg⟩ := st.valid s hs
  have := hnonneg rfl
  unfold Setting.expertAt
  omega

lemma downRow_eq (s n : ℕ) : downRow (st.call d) s n =
    mlpRow (nativeSwiglu exp st.limit) (st.call d) (st.routing.token s) (st.expertAt s) n := by
  have hgate : ∀ r, gateUpRow (st.call d) s r = dense st.dims.hidden (d.x (st.routing.token s))
      (d.gateUp (st.expertAt s) r) (d.gateUpScales (st.expertAt s) (r / 128)) :=
    fun r => dotBlocks_lossless st.quantize_lossless st.dims.hidden_blocks _ _ _
  refine (dotBlocks_lossless st.quantize_lossless st.dims.inter_blocks _ _ _).trans (dense_congr fun i _ => ?_)
  exact congrArg₂ (nativeSwiglu exp st.limit) (hgate i) (hgate (st.dims.inter + i))

lemma downAfter_reached (hp : p < st.routing.slots) (hn : n < st.dims.hidden) (hreached : st.Reached p) :
    downAfter (st.host d) (st.call d) (p, n) = mlpRow (nativeSwiglu exp st.limit) (st.call d)
      (st.routing.token (st.slotAt p)) (st.expertAt (st.slotAt p)) n := by
  have hcovered : p < st.counts.sum → Covered (st.host d) (st.call d) p := fun _ => hreached
  refine (downAfter_row st.valid hcovered hp hn).trans ((if_pos (live_false st _)).trans ?_)
  rw [orderOf_getD, downRow_eq]

lemma downAfter_lost (hlost : ¬ st.Reached p) : downAfter (st.host d) (st.call d) (p, n) = d.freshDown (p, n) := by
  exact assign_never (d.arrange_perm _)
    (launch_never (mapHeight_pos (st.host d) (st.call d)) _ (fun _ => Nat.le_of_not_lt hlost) n) _

lemma native_sum (t n : ℕ) : (forward (st.host d) (st.call d)).y t n = ∑ p ∈ range st.routing.slots,
    if st.routing.token (st.slotAt p) = t then
      downAfter (st.host d) (st.call d) (p, n) * st.routing.weight (st.slotAt p) else 0 := by
  have hadd : (forward (st.host d) (st.call d)).y t n =
      indexAdd (st.call d) (orderOf (st.call d)) (downAfter (st.host d) (st.call d)) t n := rfl
  rw [hadd, indexAdd]
  rfl

lemma native_y (hlost : st.LostWeightless) {t : ℕ} (hn : n < st.dims.hidden) :
    (forward (st.host d) (st.call d)).y t n = moeSum (nativeSwiglu exp st.limit) (st.call d) t n := by
  rw [native_sum]
  refine Eq.trans (sum_congr rfl fun p hp => ?_) (sum_argsort st.routing.index st.routing.slots fun s =>
    if st.routing.token s = t then
      mlpRow _ _ t _ n * st.routing.weight s else 0)
  have hp := mem_range.mp hp
  change _ = if st.routing.token (st.slotAt p) = t then mlpRow (nativeSwiglu exp st.limit) (st.call d) t
    (st.expertAt (st.slotAt p)) n * st.routing.weight (st.slotAt p) else 0
  by_cases htok : st.routing.token (st.slotAt p) = t
  · by_cases hreached : st.Reached p
    · rw [downAfter_reached hp hn hreached, htok]
    · rw [hlost p hp hreached, mul_zero, mul_zero]
  · rw [if_neg htok, if_neg htok]

lemma moeSum_experts (f : ℝ → ℝ → ℝ) (t n : ℕ) : moeSum f (st.call d) t n =
    ∑ e ∈ range st.dims.experts, mlpRow f (st.call d) t e n * st.expertWeight t e := by
  unfold moeSum Setting.expertWeight
  simp only [mul_sum]
  rw [sum_comm]
  refine sum_congr rfl fun s hs => ?_
  have hs := mem_range.mp hs
  rw [sum_eq_single _]
  · change (if st.routing.token s = t then mlpRow f (st.call d) t (st.expertAt s) n * st.routing.weight s else 0) = _
    by_cases htok : st.routing.token s = t
    · rw [if_pos htok, if_pos (And.intro htok rfl)]
    · rw [if_neg htok, if_neg fun h => htok h.1, mul_zero]
  · intro e _ he
    rw [if_neg fun h => he h.2.symm, mul_zero]
  · intro h
    exact absurd (mem_range.mpr (expertAt_lt hs)) h

lemma loop_sum (t n : ℕ) : loop exp st.blockQuantize st.limit (st.call d) t n =
    moeSum (loopSwiglu exp st.limit) (st.call d) t n :=
  loop_eq st.blockQuantize_lossless (fun _ => rfl) t n

/-! ## Where they differ -/

lemma nativeSwiglu_zero {limit : ℝ} (hlimit : 0 < limit) (up : ℝ) : nativeSwiglu exp limit 0 up = 0 := by
  rw [nativeSwiglu, min_eq_left hlimit.le, silu, zero_mul, zero_mul]

lemma loopSwiglu_zero {limit : ℝ} (hlimit : 0 < limit) (up : ℝ) : loopSwiglu exp limit 0 up = up * limit / 2 := by
  rw [loopSwiglu, if_pos hlimit.ne', sigmoid, zero_div, neg_zero, Real.exp_zero]
  ring

/-- No gate anywhere, and one element of the up rows of one expert. -/
def probe (inter e : ℕ) : Data where
  x _ h := if h = 0 then 1 else 0
  gateUp e' r _ := if e' = e ∧ r = inter then 1 else 0
  gateUpScales _ _ _ := 1
  down _ _ i := if i = 0 then 1 else 0
  downScales _ _ _ := 1
  freshGateUp _ := 0
  freshDown _ := 0
  arrange stores := stores
  arrange_perm _ := Perm.refl _

lemma dense_single {k : ℕ} (hk : 0 < k) (w : ℕ → ℝ) : dense k (fun i => if i = 0 then 1 else 0) w (fun _ => 1) = w 0 := by
  rw [dense, sum_eq_single 0]
  · rw [if_pos rfl, one_mul, mul_one]
  · intro i _ hi
    rw [if_neg hi, zero_mul]
  · intro h
    exact absurd (mem_range.mpr hk) h

lemma dense_select {k : ℕ} (hk : 0 < k) (x : ℕ → ℝ) : dense k x (fun i => if i = 0 then 1 else 0) (fun _ => 1) = x 0 := by
  rw [← dense_single hk x]
  refine sum_congr rfl fun i _ => ?_
  rw [mul_one, mul_one, mul_comm]

lemma mlpRow_probe (hhidden : 0 < st.dims.hidden) (hinter : 0 < st.dims.inter) (f : ℝ → ℝ → ℝ) (t e e' n : ℕ) :
    mlpRow f (st.call (probe st.dims.inter e)) t e' n = f 0 (if e' = e then 1 else 0) := by
  have hrow : ∀ r, dense st.dims.hidden ((probe st.dims.inter e).x t) ((probe st.dims.inter e).gateUp e' r)
      ((probe st.dims.inter e).gateUpScales e' (r / 128)) = if e' = e ∧ r = st.dims.inter then 1 else 0 :=
    fun r => dense_single hhidden _
  have hgate := hrow 0
  have hup := hrow (st.dims.inter + 0)
  rw [if_neg fun h => ne_of_gt hinter h.2.symm] at hgate
  simp only [add_zero, and_true] at hup
  refine (dense_select hinter _).trans ?_
  exact congrArg₂ f hgate hup

lemma expertWeight_of_agree (st : Setting) {t e : ℕ} (ht : t < st.routing.t) (he : e < st.dims.experts)
    (hagree : st.Agree (probe st.dims.inter e)) (hlost : st.LostWeightless) (hhidden : 0 < st.dims.hidden)
    (hinter : 0 < st.dims.inter) : st.expertWeight t e = 0 := by
  obtain ⟨f, hf, hy⟩ := hagree
  rw [native_eq st.valid] at hf
  split at hf
  · cases hf
  split at hf
  · cases hf
    have heq := hy t ht 0 hhidden
    rw [native_y hlost hhidden, loop_sum, moeSum_experts, moeSum_experts] at heq
    simp only [mlpRow_probe hhidden hinter, nativeSwiglu_zero st.limit_pos, loopSwiglu_zero st.limit_pos, zero_mul,
      sum_const_zero] at heq
    rw [sum_eq_single e (fun e' _ he' => by rw [if_neg he', zero_mul, zero_div, zero_mul])
      (fun h => absurd (mem_range.mpr he) h), if_pos rfl, one_mul] at heq
    exact (mul_eq_zero.mp heq.symm).resolve_left (div_ne_zero st.limit_pos.ne' two_ne_zero)
  · cases hf

/-- Memory that the launches leave as they find it. -/
def marked (p : ℕ) : Data where
  x _ _ := 0
  gateUp _ _ _ := 0
  gateUpScales _ _ _ := 0
  down _ _ _ := 0
  downScales _ _ _ := 0
  freshGateUp _ := 0
  freshDown cell := if cell = (p, 0) then 1 else 0
  arrange stores := stores
  arrange_perm _ := Perm.refl _

lemma mlpRow_marked (f : ℝ → ℝ → ℝ) (p t e n : ℕ) : mlpRow f (st.call (marked p)) t e n = 0 := by
  have hdense : ∀ x : ℕ → ℝ, dense st.dims.inter x (fun _ => 0) (fun _ => 0) = 0 := by
    intro x
    refine sum_eq_zero fun i _ => ?_
    rw [mul_zero, mul_zero]
  exact hdense _

lemma weight_of_agree (hp : p < st.routing.slots) (hlost : ¬ st.Reached p) (hagree : st.Agree (marked p))
    (hhidden : 0 < st.dims.hidden) : st.routing.weight (st.slotAt p) = 0 := by
  obtain ⟨f, hf, hy⟩ := hagree
  rw [native_eq st.valid] at hf
  split at hf
  · cases hf
  split at hf
  · cases hf
    have heq := hy _ (token_lt (slotAt_lt hp)) 0 hhidden
    have hloop : moeSum (loopSwiglu exp st.limit) (st.call (marked p)) (st.routing.token (st.slotAt p)) 0 = 0 := by
      rw [moeSum_experts]
      exact sum_eq_zero fun e _ => by rw [mlpRow_marked, zero_mul]
    rw [native_sum, loop_sum, hloop, sum_eq_single p] at heq
    · rw [if_pos rfl, downAfter_lost hlost] at heq
      simpa [marked] using heq
    · intro p' hp' hne
      have hp' := mem_range.mp hp'
      have hrow : downAfter (st.host (marked p)) (st.call (marked p)) (p', 0) = 0 := by
        by_cases hreached : st.Reached p'
        · rw [downAfter_reached hp' hhidden hreached, mlpRow_marked]
        · rw [downAfter_lost hreached]
          exact if_neg fun h => hne (Prod.mk.inj h).1
      rw [hrow, zero_mul, ite_self]
    · intro h
      exact absurd (mem_range.mpr hp) h
  · cases hf

lemma agree_of_cancelling (hexperts : 0 < st.dims.experts) (hcompiles : st.compiles st.launch = true)
    (h : st.dims.hidden = 0 ∨ st.LostWeightless ∧ (st.dims.inter = 0 ∨ st.Cancelling)) (d : Data) : st.Agree d := by
  refine ⟨forward (st.host d) (st.call d), ?_, fun t ht n hn => ?_⟩
  · rw [native_eq st.valid]
    exact (if_neg (ne_of_gt hexperts)).trans (if_pos hcompiles)
  · rcases h with hhidden | ⟨hlost, hinter | hcancel⟩
    · omega
    · -- no intermediate column: every MLP is zero
      have hzero : ∀ f e, mlpRow f (st.call d) t e n = 0 := by
        intro f e
        change dense st.dims.inter _ _ _ = 0
        rw [hinter]
        rfl
      rw [native_y hlost hn, loop_sum, moeSum_experts, moeSum_experts]
      simp [hzero]
    · rw [native_y hlost hn, loop_sum, moeSum_experts, moeSum_experts]
      refine sum_congr rfl fun e he => ?_
      rw [hcancel t ht e (mem_range.mp he), mul_zero, mul_zero]

/-- **The two paths agree** on all data exactly when there is nothing to compute, or the weights that a token gives an expert
cancel and no slot with a weight is lost. -/
theorem two_mlps_iff (st : Setting) : (∀ d, st.Agree d) ↔ 0 < st.dims.experts ∧ st.compiles st.launch = true ∧
    (st.dims.hidden = 0 ∨ st.LostWeightless ∧ (st.dims.inter = 0 ∨ st.Cancelling)) := by
  constructor
  · intro hagree
    obtain ⟨f, hf, -⟩ := hagree (marked 0)
    rw [native_eq st.valid] at hf
    split at hf
    · cases hf
    rename_i hexperts
    split at hf
    · rename_i hcompiles
      refine ⟨pos_of_ne_zero hexperts, hcompiles, ?_⟩
      rcases eq_zero_or_pos st.dims.hidden with hhidden | hhidden
      · exact .inl hhidden
      have hlost : st.LostWeightless := fun p hp hreached => weight_of_agree hp hreached (hagree _) hhidden
      rcases eq_zero_or_pos st.dims.inter with hinter | hinter
      · exact .inr ⟨hlost, .inl hinter⟩
      · exact .inr ⟨hlost, .inr fun t ht e he => expertWeight_of_agree st ht he (hagree _) hlost hhidden hinter⟩
    · cases hf
  · rintro ⟨hexperts, hcompiles, h⟩
    exact agree_of_cancelling hexperts hcompiles h

/-- One token, one expert, weight 1, limit 1 and the built-in tiles. -/
noncomputable def oneRoute : Setting where
  dims := ⟨1, 128, 128, one_block, one_block⟩
  routing := ⟨1, 1, fun _ => 0, fun _ => 1⟩
  limit := 1
  quantize := ⟨fun _ row => row, fun _ _ _ => 1, fun _ _ _ h => h, fun _ _ _ _ _ _ => rfl⟩
  blockQuantize := ⟨fun _ _ x => x, fun _ _ _ _ _ => 1⟩
  override := none
  table := []
  compiles _ := true
  valid _ _ := ⟨Int.one_pos, fun _ => Int.le_refl 0⟩
  limit_pos := one_pos
  quantize_lossless _ _ _ _ _ := mul_one _
  blockQuantize_lossless _ _ _ _ _ _ _ _ := mul_one _

/-- A gate of 0 and an up of 1: the loop gives 1 / 2, the native path 0. -/
theorem one_route_differs : ¬ oneRoute.Agree (probe 128 0) := by
  intro hagree
  have hlost : oneRoute.LostWeightless := by
    intro p hp hreached
    have hp0 : p = 0 := Nat.lt_one_iff.mp hp
    refine absurd ?_ hreached
    rw [hp0, Setting.Reached, Nat.zero_sub, Nat.zero_mod]
    exact oneRoute.launch.bm_pos
  have hweight : oneRoute.expertWeight 0 0 = 1 := by
    simp [Setting.expertWeight, Routing.slots, Routing.token, Setting.expertAt, oneRoute]
  have hzero := expertWeight_of_agree oneRoute one_pos one_pos hagree hlost (by decide) (by decide)
  rw [hweight] at hzero
  exact one_ne_zero hzero

end

end VKernels.GroupedFp8
