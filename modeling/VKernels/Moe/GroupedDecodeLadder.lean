import VKernels.Moe.GroupedDecodeRows

/-!
# The grouped MoE decode against its ladder

* `eligible_spec` — the shapes that the check accepts.
* `grouped_eq`, `ladder_eq` — both compute the rows `finalRow`, from their own stacks.
* `stacks_agree` — FP8 and BF16-resident stacks have the ladder's weights.
* `gateUp_owns`, `down_owns` — the loads of calls that fit.

## Results

* `gives_ladder_iff` — the promise is kept by exactly the calls that fit: among others, the intermediate width is a
  power of two.
-/

namespace VKernels.GroupedDecode

open Float8 Grouping LaneLaunch
open List hiding lt_of_le_of_lt
open Tensor (buffer dim isCuda)
open Option (bind_eq_bind bind_eq_some_iff bind_some map_eq_some_iff)

variable {α V : Type}

/-! ## Shapes that are eligible -/

/-- What the check establishes. -/
structure Shaped (c : Call V) (storage : Storage) : Prop where
  stored : c.storage = some storage
  gateUpW : ∃ rest, c.gateUpW.shape = c.e :: c.o :: c.i :: rest
  index : c.topKIndex.shape = [c.t, c.k]
  x : c.x.shape = [c.t, c.i]
  gateUpS : c.gateUpS.shape = [c.e, c.o / 128, c.i / 128]
  downW : c.downW.shape = [c.e, c.i, c.ia]
  downS : c.downS.shape = [c.e, c.i / 128, c.ia / 128]
  tokens : (c.t : ℤ) ≤ c.tCap
  t_pos : 0 < c.t
  k_pos : 0 < c.k
  ia_pos : 0 < c.ia
  ia_dvd : 128 ∣ c.ia
  i_dvd : 128 ∣ c.i
  onDevice : c.x.isCuda = true
  x_dtype : c.x.dtype = .bfloat16
  gateUpW_dtype : c.gateUpW.dtype = storage.dtype
  downW_dtype : c.downW.dtype = storage.dtype
  gateUpS_dtype : c.gateUpS.dtype = .float32
  downS_dtype : c.downS.dtype = .float32
  index_dtype : c.topKIndex.dtype = .int64
  weights_dtype : c.topKWeights.dtype = .float32
  contiguous : c.contiguous = true
  oneDevice : c.oneDevice = true

lemma eligible_spec {c : Call V} (h : moeGroupedDecodeEligible c = some true) : ∃ storage, Shaped c storage := by
  unfold moeGroupedDecodeEligible at h
  split at h
  · cases h
  · rename_i storage e o i rest t k hstorage hw hindex
    split at h
    · rename_i hfirst
      split at h
      · rename_i e' h' w' rest' hdown
        simp only [Bool.and_eq_true, beq_iff_eq, decide_eq_true_eq, Option.some.injEq] at hfirst h
        obtain ⟨⟨⟨⟨⟨⟨⟨⟨⟨⟨hcuda, -⟩, hxd⟩, hx⟩, hwd⟩, hdd⟩, hsd⟩, hdsd⟩, hid⟩, hrd⟩, hs⟩ := hfirst
        obtain ⟨⟨⟨⟨⟨⟨⟨⟨⟨⟨hds, hdw⟩, hia⟩, hia'⟩, hi⟩, -⟩, htokens⟩, ht⟩, hk⟩, hcontiguous⟩, hdevice⟩ := h
        have het : c.t = t := by simp [Call.t, dim, hindex]
        have hek : c.k = k := by simp [Call.k, dim, hindex]
        have hee : c.e = e := by simp [Call.e, dim, hw]
        have heo : c.o = o := by simp [Call.o, dim, hw]
        have hei : c.i = i := by simp [Call.i, dim, hw]
        have hxi : c.x.dim 1 = i := by simp [dim, hx]
        have heia : c.ia = o / 2 := by rw [Call.ia, heo]
        rw [hdown, hxi] at hdw
        obtain ⟨rfl, rfl, rfl, rfl⟩ : e' = e ∧ h' = i ∧ w' = o / 2 ∧ rest' = [] := by simpa using hdw
        refine ⟨storage, ⟨hstorage, ⟨rest, by rw [hw, hee, heo, hei]⟩, by rw [hindex, het, hek], by rw [hx, het, hei],
          by rw [hs, hee, heo, hei], by rw [hdown, hee, heia, hei], by rw [hds, hee, heia, hei], by rw [het]; exact htokens,
          by rw [het]; exact ht, by rw [hek]; exact hk, by rw [heia]; exact hia, by rw [heia]; exact Nat.dvd_of_mod_eq_zero hia',
          by rw [hei]; exact Nat.dvd_of_mod_eq_zero hi, hcuda, hxd, hwd, hdd, hsd, hdsd, hid, hrd, hcontiguous, hdevice⟩⟩
      · cases h
    · cases h
  · cases h

section

variable {host : Host V} {c : Call V} {storage : Storage}

lemma Shaped.h_eq (hc : Shaped c storage) : c.h = c.i := by simp [Call.h, dim, hc.downW]

lemma Shaped.le_slots (hc : Shaped c storage) : c.t ≤ c.t * c.k := Nat.le_mul_of_pos_right _ hc.k_pos

variable {j p n : ℕ}

lemma slot_lt {token : ℕ} (ht : token < c.t) (hj : j < c.k) : token * c.k + j < c.t * c.k := by
  have h := Blocks.block_le ht c.k
  omega

lemma token_lt (hp : p < c.t * c.k) : p / c.k < c.t := Nat.div_lt_of_lt_mul (by rwa [mul_comm])

/-! ## Offsets that fit -/

namespace Fits

lemma gateUpW (hc : Shaped c storage) (hf : Fits host c) : c.gateUpW.shape = [c.e, c.o, c.i] := by
  obtain ⟨rest, hrest⟩ := hc.gateUpW
  have hrank := hf.rank
  rw [hrest] at hrank ⊢
  simp only [length_cons] at hrank
  rw [length_eq_zero_iff.mp (by omega : rest.length = 0)]

lemma o_dvd (hc : Shaped c storage) (hf : Fits host c) : 128 ∣ c.o := by
  rw [hf.pairs]
  exact Dvd.dvd.mul_left hc.ia_dvd 2

lemma row_lt (hf : Fits host c) {row : ℕ} (h : row < c.o) : row * c.i < 2 ^ 31 :=
  lt_of_le_of_lt (Nat.mul_le_mul_right _ (by omega)) hf.stackOffsets

lemma downRow_lt (hf : Fits host c) {row : ℕ} (h : row < c.i) : row * c.ia < 2 ^ 31 := by
  have hle : row * c.ia ≤ (c.o - 1) * c.i := by
    rw [mul_comm]
    exact Nat.mul_le_mul (by rw [hf.pairs]; omega) h.le
  exact lt_of_le_of_lt hle hf.stackOffsets

variable {p : ℕ}

lemma pair_lt (hf : Fits host c) (h : p < c.t * c.k) : p * c.o < 2 ^ 31 :=
  lt_of_le_of_lt (Nat.mul_le_mul_right _ (by omega)) hf.pairOffsets

lemma act_lt (hf : Fits host c) (h : p < c.t * c.k) : p * c.ia < 2 ^ 31 :=
  lt_of_le_of_lt (Nat.mul_le_mul_left _ (by rw [hf.pairs]; omega)) (pair_lt hf h)

lemma out_lt (hf : Fits host c) (h : p < c.t * c.k) : p * c.i < 2 ^ 31 :=
  lt_of_le_of_lt (Nat.mul_le_mul_right _ (by omega)) hf.outOffsets

lemma width_lt (hc : Shaped c storage) (hf : Fits host c) : c.o < 2 ^ 25 ∧ c.i < 2 ^ 24 := by
  have hia := Nat.le_of_dvd hc.ia_pos hc.ia_dvd
  have hi := Nat.le_of_dvd hf.wide hc.i_dvd
  have hpairs := hf.pairs
  have hstack := hf.stackOffsets
  constructor
  · have h : (c.o - 1) * 128 ≤ (c.o - 1) * c.i := Nat.mul_le_mul_left _ hi
    omega
  · have h : 255 * c.i ≤ (c.o - 1) * c.i := Nat.mul_le_mul_right _ (by omega)
    omega

lemma cols_eq (hf : Fits host c) : nextPowerOf2 c.ia = c.ia := by
  obtain ⟨n, hn⟩ := hf.power
  rw [hn, nextPowerOf2_two_pow]

end Fits

/-! ## The tensors hold what the rows load -/

lemma rows_fit {e rows ex row : ℕ} (hex : ex < e) (hrow : row < rows) : (ex * rows + row + 1) * n ≤ [e, rows, n].prod := by
  have h : ex * rows + row + 1 ≤ e * rows := by
    have h' := Blocks.block_le hex rows
    omega
  simpa [Nat.mul_assoc] using Nat.mul_le_mul_right n h

/-- The expert of a slot. -/
def Call.id (c : Call V) (p : ℕ) : ℕ := (c.topKIndex.data p).toNat

lemma Call.ValidIds.id (h : c.ValidIds) (hp : p < c.t * c.k) : (c.id p : ℤ) = c.topKIndex.data p ∧ c.id p < c.e := by
  obtain ⟨h0, hlt⟩ := h p hp
  have hcast : (c.id p : ℤ) = c.topKIndex.data p := Int.toNat_of_nonneg h0
  exact ⟨hcast, by omega⟩

lemma x_fits (hc : Shaped c storage) (hp : p < c.t * c.k) : (p / c.k + 1) * c.i ≤ c.x.buffer.size := by
  have h : (p / c.k + 1) * c.i ≤ c.t * c.i := Nat.mul_le_mul_right _ (token_lt hp)
  show _ ≤ c.x.shape.prod
  simpa [hc.x] using h

lemma loadId (hc : Shaped c storage) (hids : c.ValidIds) (hp : p < c.t * c.k) :
    c.topKIndex.buffer.load ⟨p, true⟩ 0 = some (c.id p : ℤ) := by
  have hsize : p < c.topKIndex.buffer.size := by
    show p < c.topKIndex.shape.prod
    simpa [hc.index] using hp
  rw [Buffer.load_at rfl rfl hsize, (hids.id hp).1]
  rfl

/-- A stack of `e` experts with `rows` rows of `n`. -/
def Stack.Sized (s : Stack V) (e rows n : ℕ) : Prop :=
  match s with
  | .fp8 bytes scales _ => bytes.size = [e, rows, n].prod ∧ scales.size = [e, rows / 128, n / 128].prod
  | .bf16 w => w.size = [e, rows, n].prod

lemma Stack.Sized.holds {s : Stack V} {e rows ex row : ℕ} (h : s.Sized e rows n) (hex : ex < e) (hrow : row < rows)
    (hrows : 128 ∣ rows) : s.Holds (ex * rows + row) (ex * (rows / 128) + row / 128) n := by
  cases s with
  | fp8 bytes scales decode =>
    refine ⟨?_, ?_⟩
    · rw [h.1]
      exact rows_fit hex hrow
    · rw [h.2]
      exact rows_fit hex (Nat.div_lt_div_of_lt_of_dvd hrows hrow)
  | bf16 w =>
    show _ ≤ w.size
    rw [show w.size = _ from h]
    exact rows_fit hex hrow

lemma blocksFor_mul {lanes : ℕ} (hlanes : 0 < lanes) (h : lanes ∣ n) : blocksFor lanes n * lanes = n := by
  obtain ⟨m, rfl⟩ := h
  have hlo := le_blocksFor hlanes (lanes * m)
  have hhi := blocksFor_lt hlanes (lanes * m)
  have hm : blocksFor lanes (lanes * m) < m + 1 := by
    apply Nat.lt_of_mul_lt_mul_right (a := lanes)
    rw [Nat.add_one_mul, Nat.mul_comm m]
    exact hhi
  have hm' : m ≤ blocksFor lanes (lanes * m) := by
    apply Nat.le_of_mul_le_mul_right _ hlanes
    rw [Nat.mul_comm]
    exact hlo
  rw [Nat.le_antisymm (Nat.le_of_lt_succ hm) hm', Nat.mul_comm]

lemma blocksFor_pos (hn : 0 < n) : 0 < blocksFor rows2 n := by
  have hle : n ≤ blocksFor rows2 n * rows2 := le_blocksFor (by decide) n
  by_contra hzero
  rw [Nat.eq_zero_of_not_pos hzero] at hle
  omega

/-- **A launch** that the device takes. -/
theorem Host.launch_eq (host : Host V) (alloc : ℕ) (task : ℕ → ℤ → Option (Lane × V)) (off : ℕ → ℕ → ℤ) (v : ℕ → ℕ → V)
    {programs lanes cols : ℕ} (haccepts : host.accepts programs (blocksFor lanes n) lanes cols = true)
    (hlanes : 0 < lanes) (hrows : n + lanes ≤ 2 ^ 31)
    (h : ∀ p < programs, ∀ row < blocksFor lanes n * lanes, task p row = some (⟨off p row, decide (row < n)⟩, v p row))
    (hoff : ∀ p < programs, ∀ row < n, off p row = (p * n + row : ℕ)) :
    ∃ b, host.launch alloc programs n lanes cols task = some b ∧ b.size = programs * n ∧
      ∀ p < programs, ∀ row < n, b.get (p * n + row) = v p row := by
  rw [Host.launch, if_pos haccepts]
  exact launch_grid host.arrange_perm hlanes ((blocksFor_lt hlanes n).le.trans hrows) h hoff

lemma Host.launch_rows (host : Host V) (alloc : ℕ) (task : ℕ → ℤ → Option (Lane × V)) (v : ℕ → ℕ → V)
    {programs lanes cols : ℕ} (haccepts : host.accepts programs (blocksFor lanes n) lanes cols = true)
    (hlanes : 0 < lanes) (hdvd : lanes ∣ n) (hrows : n + lanes ≤ 2 ^ 31)
    (h : ∀ p < programs, ∀ row < n, task p row = some (⟨(p * n + row : ℕ), decide (row < n)⟩, v p row)) :
    ∃ b, host.launch alloc programs n lanes cols task = some b ∧ b.size = programs * n ∧
      ∀ p < programs, ∀ row < n, b.get (p * n + row) = v p row := by
  refine host.launch_eq alloc task (fun p row => (p * n + row : ℕ)) v haccepts hlanes hrows ?_ fun _ _ _ _ => rfl
  rw [blocksFor_mul hlanes hdvd]
  exact h

/-! ## What both compute -/

section

variable [AddCommMonoid V] [Mul V] (fl : Floats V) (c : Call V)

/-- Row `row` of the first product of slot `p`. -/
def pairRow (s : Stack V) (p row : ℕ) : V :=
  fl.bf16 (rowDot fl s (fun col => c.x.data (p / c.k * c.i + col)) (c.id p * c.o + row) (c.id p * (c.o / 128) + row / 128)
    c.i (nextPowerOf2 c.i))

def actRow (s : Stack V) (p row : ℕ) : V := swiglu fl c.swigluLimit (pairRow fl c s p row) (pairRow fl c s p (row + c.ia))

def outRow (s s' : Stack V) (p row : ℕ) : V :=
  fl.bf16 (rowDot fl s' (actRow fl c s p) (c.id p * c.i + row) (c.id p * (c.i / 128) + row / 128) c.ia c.ia)

def finalRow (s s' : Stack V) (token row : ℕ) : V :=
  combined fl c.k (fun j => c.topKWeights.data (token * c.k + j)) fun j => outRow fl c s s' (token * c.k + j) row

end

/-! ## The two launches -/

section

variable [AddCommMonoid V] [Mul V] (fl : Floats V) (hc : Shaped c storage) (hf : Fits host c) (hids : c.ValidIds)
include hc hf hids

variable {s : Stack V}

lemma gateUp_launch (hs : s.Sized c.e c.o c.i) : ∃ act, host.launch 0 (c.t * c.k) c.ia host.rows1 (nextPowerOf2 c.i)
        (gateUpRow fl s c.x.buffer c.topKIndex.buffer c.swigluLimit c.ia c.i c.k (nextPowerOf2 c.i)) = some act ∧
      act.size = c.t * c.k * c.ia ∧ ∀ p < c.t * c.k, ∀ row < c.ia, act.get (p * c.ia + row) = actRow fl c s p row := by
  have hwidth := hf.width_lt hc
  have hrows : 0 < host.rows1 ∧ host.rows1 ∣ c.ia ∧ host.rows1 ≤ 4 := by
    have hia := hc.ia_dvd
    unfold Host.rows1
    split
    · exact ⟨by omega, by omega, by omega⟩
    · exact ⟨by omega, by omega, by omega⟩
  have hpairs := hf.pairs
  refine host.launch_rows 0 _ _ hf.gateUp hrows.1 hrows.2.1 (by omega) fun p hp row hrow => ?_
  obtain ⟨-, hex⟩ := hids.id hp
  have ho := hf.o_dvd hc
  have htoken := token_lt (c := c) hp
  have hx := x_fits hc hp
  have hgate := hs.holds hex (show row < c.o by omega) ho
  have hup := hs.holds hex (show row + c.ia < c.o by omega) ho
  rw [gateUpRow_eq (loadId hc hids hp) hc.i_dvd hf.wide hrow (hf.row_lt (by omega)) (hf.row_lt (by omega))
    (hf.out_lt (lt_of_lt_of_le htoken hc.le_slots)) (hf.act_lt hp) (by rwa [← hpairs]) (by rwa [← hpairs]) hx, ← hpairs]
  rfl

lemma down_launch {s' : Stack V} (hs : s'.Sized c.e c.i c.ia) (hroutes : c.topKWeights.shape = [c.t, c.k])
    {act : Buffer V} (hsize : act.size = c.t * c.k * c.ia)
    (hact : ∀ p < c.t * c.k, ∀ row < c.ia, act.get (p * c.ia + row) = actRow fl c s p row) :
    ∃ y, host.launch 1 c.t c.h rows2 (nextPowerOf2 c.ia)
        (downRow fl s' act c.topKIndex.buffer c.topKWeights.buffer false c.ia c.h c.k (nextPowerOf2 c.ia)) = some y ∧
      y.size = c.t * c.h ∧ ∀ token < c.t, ∀ row < c.h, y.get (token * c.h + row) = finalRow fl c s s' token row := by
  have hwidth := hf.width_lt hc
  have hi := hc.i_dvd
  have hh := hc.h_eq
  refine host.launch_rows 1 _ _ hf.down (by decide) (Dvd.dvd.trans (by decide) (hh ▸ hi)) (by unfold rows2; omega)
    fun token ht row hrow => ?_
  have hslot (j : ℕ) (hj : j < c.k) : token * c.k + j < c.t * c.k := slot_lt ht hj
  have hzero := hslot 0 hc.k_pos
  have hwts (j : ℕ) (hj : j < c.k) : token * c.k + j < c.topKWeights.buffer.size := by
    show _ < c.topKWeights.shape.prod
    simpa [hroutes] using hslot j hj
  have hx (j : ℕ) (hj : j < c.k) : (token * c.k + j + 1) * c.ia ≤ act.size := by
    rw [hsize]
    exact Nat.mul_le_mul_right _ (hslot j hj)
  have hsmall : token * c.k < 2 ^ 31 := lt_of_le_of_lt (Nat.le_mul_of_pos_right _ hc.ia_pos) (hf.act_lt hzero)
  rw [hh] at hrow ⊢
  rw [downRow_eq (fun j => c.id _) hsmall (fun j hj => loadId hc hids (hslot j hj)) hwts hc.ia_dvd
    hc.ia_pos (Nat.le_of_eq hf.cols_eq) hrow (hf.downRow_lt hrow) (hf.act_lt hzero)
    (fun j hj => hf.act_lt (lt_of_le_of_lt (Nat.le_add_left _ _) (hslot j hj)))
    (hf.out_lt (lt_of_lt_of_le ht hc.le_slots)) (fun j hj => hs.holds (hids.id (hslot j hj)).2 hrow hi) hx, hf.cols_eq]
  have hrows : (range c.k).foldl (fun acc j => acc + c.topKWeights.data (token * c.k + j) *
      fl.bf16 (rowDot fl s' (fun col => act.get ((token * c.k + j) * c.ia + col)) (c.id (token * c.k + j) * c.i + row)
        (c.id (token * c.k + j) * (c.i / 128) + row / 128) c.ia c.ia)) 0 =
      (range c.k).foldl (fun acc j => acc + c.topKWeights.data (token * c.k + j) *
        outRow fl c s s' (token * c.k + j) row) 0 := by
    refine foldl_ext _ _ _ fun acc j hj => ?_
    have hj : j < c.k := mem_range.mp hj
    rw [outRow, rowDot_congr (fun _ _ => rfl) fun col hcol => hact _ (hslot j hj) col hcol]
  simp
  exact congrArg fl.bf16 hrows

lemma grouped_eq {s' : Stack V} (hstacks : c.stacks storage = (s, s')) (hs : s.Sized c.e c.o c.i)
    (hs' : s'.Sized c.e c.i c.ia) (helig : moeGroupedDecodeEligible c = some true) :
    ∃ y, moeGroupedDecode fl host c = some y ∧ y.size = c.t * c.h ∧
      ∀ token < c.t, ∀ row < c.h, y.get (token * c.h + row) = finalRow fl c s s' token row := by
  obtain ⟨_, hact, hsize, hget⟩ := gateUp_launch fl hc hf hids hs
  obtain ⟨y, hy, hysize, hyget⟩ := down_launch fl hc hf hids hs' (hf.routes.trans hc.index) hsize hget
  refine ⟨y, ?_, hysize, hyget⟩
  have hia : c.o / 2 = c.ia := rfl
  have hh : c.downW.dim 1 = c.h := rfl
  simp [moeGroupedDecode, helig, hc.stored, hf.gateUpW hc, hc.index, hstacks, bind_eq_bind, bind_some,
    hia, hh, hact, hy]

end

/-! ## The ladder -/

section

variable (hc : Shaped c storage)
include hc

lemma Shaped.devices : c.gateUpW.device = c.x.device ∧ c.gateUpS.device = c.x.device ∧
    c.downW.device = c.x.device ∧ c.downS.device = c.x.device ∧ c.topKIndex.device = c.x.device ∧
    c.topKWeights.device = c.x.device := by
  simpa [Call.oneDevice] using hc.oneDevice

lemma Shaped.contiguities : c.x.contiguous = true ∧ c.gateUpW.contiguous = true ∧
    c.gateUpS.contiguous = true ∧ c.downW.contiguous = true ∧ c.downS.contiguous = true ∧
    c.topKIndex.contiguous = true ∧ c.topKWeights.contiguous = true := by
  simpa [Call.contiguous, and_assoc] using hc.contiguous

lemma Shaped.cuda : c.x.device ≠ .cpu := by simpa [isCuda] using hc.onDevice

lemma firstContract (hf : Fits host c) (he : 0 < c.e) :
    expertGemvContract c.x c.gateUpW c.gateUpS c.topKIndex storage c.tCap = true := by
  obtain ⟨hd1, hd2, -, -, hd5, -⟩ := hc.devices
  obtain ⟨hk0, hk1, hk2, -, -, hk5, -⟩ := hc.contiguities
  have ho := Nat.mod_eq_zero_of_dvd (hf.o_dvd hc)
  have hi := Nat.mod_eq_zero_of_dvd hc.i_dvd
  have ho0 : 0 < c.o := by
    have := hc.ia_pos
    rw [hf.pairs]
    omega
  have hcap : (c.t : ℤ) ≤ max 2 c.tCap := hc.tokens.trans (le_max_right _ _)
  simp [expertGemvContract, hf.gateUpW hc, hc.index, hc.x, hc.gateUpS, hc.x_dtype, hc.gateUpW_dtype,
    hc.gateUpS_dtype, hc.index_dtype, isCuda, hd1, hd2, hd5, hk0, hk1, hk2, hk5, ho, hi, he, ho0, hf.wide, hcap]
  simp [hc.cuda]

lemma secondContract {data : ℕ → V} (he : 0 < c.e) (hi : 0 < c.i) :
    expertGemvContract (emptyLike [c.t, c.k, c.ia] c.x.device data) c.downW c.downS c.topKIndex storage c.tCap = true := by
  obtain ⟨-, -, hd3, hd4, hd5, -⟩ := hc.devices
  obtain ⟨-, -, -, hk3, hk4, hk5, -⟩ := hc.contiguities
  have hia := Nat.mod_eq_zero_of_dvd hc.ia_dvd
  have hi' := Nat.mod_eq_zero_of_dvd hc.i_dvd
  have hcap : (c.t : ℤ) ≤ max 2 c.tCap := hc.tokens.trans (le_max_right _ _)
  simp [expertGemvContract, hc.downW, hc.index, hc.downS, hc.downW_dtype, hc.downS_dtype, hc.index_dtype,
    isCuda, emptyLike, hd3, hd4, hd5, hk3, hk4, hk5, hia, hi', he, hi, hc.ia_pos, hcap]
  simp [hc.cuda]

lemma Shaped.experts_pos (hids : c.ValidIds) : 0 < c.e := by
  have h : 0 < c.t * c.k := mul_pos hc.t_pos hc.k_pos
  exact lt_of_le_of_lt (Nat.zero_le _) (hids.id h).2

end

section

variable [AddCommMonoid V] [Mul V] (fl : Floats V) (hc : Shaped c storage) (hf : Fits host c)
include hc hf

variable {s s' : Stack V}

lemma firstGemv_eq (hids : c.ValidIds) (hs : s.Sized c.e c.o c.i)
    (hstack : s = .fp8 c.gateUpW.buffer c.gateUpS.buffer (host.decoder storage)) :
    ∃ data, expertGemv fl host 2 c.x c.gateUpW c.gateUpS c.topKIndex storage c.tCap =
        some (emptyLike [c.t, c.k, c.o] c.x.device data) ∧
      ∀ p < c.t * c.k, ∀ row < c.o, data (p * c.o + row) = pairRow fl c s p row := by
  have hwidth := hf.width_lt hc
  have ho := hf.o_dvd hc
  have hnz : ¬ (c.t = 0 ∨ c.k = 0) := by
    have := hc.t_pos
    have := hc.k_pos
    omega
  obtain ⟨y, hy, -, hget⟩ := host.launch_rows 2
    (gemvRow fl s c.x.buffer c.topKIndex.buffer c.o c.i c.k _ (c.x.shape.length == 2) host.compactScales)
    (pairRow fl c s) hf.firstGemv (by decide) (Dvd.dvd.trans (by decide) ho) (by unfold rows2; omega) (by
      intro p hp _ hrow
      have hbroadcast : (c.x.shape.length == 2) = true := by simp [hc.x]
      have htoken := token_lt (c := c) hp
      have hx := x_fits hc hp
      rw [hbroadcast, gemvRow_eq true _ (loadId hc hids hp) hc.i_dvd hrow (hf.row_lt hrow)
        (hf.out_lt (lt_of_lt_of_le htoken hc.le_slots)) (hf.pair_lt hp) (hs.holds (hids.id hp).2 hrow ho) hx]
      rfl)
  refine ⟨y.get, ?_, hget⟩
  have ho' : c.gateUpW.dim 1 = c.o := rfl
  have hi' : c.gateUpW.dim 2 = c.i := rfl
  have ht' : c.topKIndex.dim 0 = c.t := rfl
  have hk' : c.topKIndex.dim 1 = c.k := rfl
  rw [expertGemv, if_pos (firstContract hc hf (hc.experts_pos hids))]
  simp [ho', hi', ht', hk', if_neg hnz, ← hstack, hy, Option.map_some]

lemma swiglu_eq {data : ℕ → V} (hdata : ∀ p < c.t * c.k, ∀ row < c.o, data (p * c.o + row) = pairRow fl c s p row) :
    ∃ act, swigluLimit fl host 3 (emptyLike [c.t, c.k, c.o] c.x.device data) c.ia c.swigluLimit =
        some (emptyLike [c.t, c.k, c.ia] c.x.device act) ∧
      ∀ p < c.t * c.k, ∀ col < c.ia, act (p * c.ia + col) = actRow fl c s p col := by
  have hwidth := hf.width_lt hc
  have hpairs := hf.pairs
  let gu : Buffer V := (emptyLike [c.t, c.k, c.o] c.x.device data).buffer
  have hsize : gu.size = c.t * c.k * c.o := by simp [gu, buffer, emptyLike, mul_assoc]
  obtain ⟨y, hy, -, hget⟩ := host.launch_eq 3 (swigluRow fl gu c.swigluLimit c.o c.ia)
    (fun p col => int32 _ + col)
    (fun p col => if col < c.ia then actRow fl c s p col else swiglu fl c.swigluLimit 0 0)
    hf.swiglu (by decide) (by unfold swigluBlock; omega) (by
      intro p hp col _
      by_cases hcol : col < c.ia
      · have hlast : p * c.o + (col + c.ia) < gu.size := by
          have h := Blocks.block_le hp c.o
          omega
        rw [swigluRow_eq hcol (hf.pair_lt hp) (hf.act_lt hp) hlast, if_pos hcol, int32_mul (hf.act_lt hp)]
        show some (_, swiglu fl c.swigluLimit (data (p * c.o + col)) (data (p * c.o + (col + c.ia)))) = _
        rw [hdata p hp col (by omega), hdata p hp _ (by omega), Nat.cast_add]
        rfl
      · rw [swigluRow_masked (Nat.le_of_not_lt hcol), if_neg hcol]) (by
      intro p hp col _
      rw [int32_mul (hf.act_lt hp), Nat.cast_add])
  refine ⟨y.get, ?_, fun p hp col hcol => ?_⟩
  · have hcuda : (emptyLike [c.t, c.k, c.o] c.x.device data).isCuda = true := by
      simpa [isCuda, emptyLike] using hc.cuda
    have hup : c.o - c.ia = c.ia := by omega
    have h0 : (emptyLike [c.t, c.k, c.o] c.x.device data).dim 0 = c.t := rfl
    have h1 : (emptyLike [c.t, c.k, c.o] c.x.device data).dim 1 = c.k := rfl
    have h2 : (emptyLike [c.t, c.k, c.o] c.x.device data).dim 2 = c.o := rfl
    rw [swigluLimit, if_pos (by rw [hcuda, h2, hup]; simp [emptyLike]), h0, h1, h2, hy]
    rfl
  · rw [hget p hp col hcol, if_pos hcol]

lemma secondGemv_eq (hids : c.ValidIds) (hs : s'.Sized c.e c.i c.ia)
    (hstack : s' = .fp8 c.downW.buffer c.downS.buffer (host.decoder storage)) {act : ℕ → V}
    (hact : ∀ p < c.t * c.k, ∀ col < c.ia, act (p * c.ia + col) = actRow fl c s p col) :
    ∃ out, expertGemv fl host 4 (emptyLike [c.t, c.k, c.ia] c.x.device act) c.downW c.downS c.topKIndex storage c.tCap =
        some (emptyLike [c.t, c.k, c.i] c.x.device out) ∧
      ∀ p < c.t * c.k, ∀ row < c.i, out (p * c.i + row) = outRow fl c s s' p row := by
  have hwidth := hf.width_lt hc
  have hh := hc.h_eq
  have hnz : ¬ (c.t = 0 ∨ c.k = 0) := by
    have := hc.t_pos
    have := hc.k_pos
    omega
  let x : Buffer V := (emptyLike [c.t, c.k, c.ia] c.x.device act).buffer
  have hsize : x.size = c.t * c.k * c.ia := by simp [x, buffer, emptyLike, mul_assoc]
  have haccepts := hf.secondGemv
  rw [hh] at haccepts
  obtain ⟨y, hy, -, hget⟩ := host.launch_rows 4
    (gemvRow fl s' x c.topKIndex.buffer c.i c.ia c.k (nextPowerOf2 c.ia) false host.compactScales) (outRow fl c s s')
    haccepts (by decide) (Dvd.dvd.trans (by decide) hc.i_dvd) (by unfold rows2; omega) (by
      intro p hp row hrow
      have hx : (p + 1) * c.ia ≤ x.size := by
        rw [hsize]
        exact Nat.mul_le_mul_right _ hp
      have hrows : rowDot fl s' (fun col => x.get (p * c.ia + col)) (c.id p * c.i + row) (c.id p * (c.i / 128) + row / 128)
          c.ia c.ia = rowDot fl s' (actRow fl c s p) (c.id p * c.i + row) (c.id p * (c.i / 128) + row / 128) c.ia c.ia :=
        rowDot_congr (fun _ _ => rfl) fun col hcol => hact p hp col hcol
      rw [gemvRow_eq false _ (loadId hc hids hp) hc.ia_dvd hrow (hf.downRow_lt hrow) (hf.act_lt hp) (hf.out_lt hp)
        (hs.holds (hids.id hp).2 hrow hc.i_dvd) hx, outRow, hf.cols_eq, ← hrows]
      rfl)
  refine ⟨y.get, ?_, hget⟩
  have ho' : c.downW.dim 1 = c.i := by simp [dim, hc.downW]
  have hi' : c.downW.dim 2 = c.ia := by simp [dim, hc.downW]
  have ht' : c.topKIndex.dim 0 = c.t := rfl
  have hk' : c.topKIndex.dim 1 = c.k := rfl
  have hbroadcast : ((emptyLike [c.t, c.k, c.ia] c.x.device act).shape.length == 2) = false := by simp [emptyLike]
  rw [expertGemv, if_pos (secondContract hc (hc.experts_pos hids) hf.wide)]
  simp only [ho', hi', ht', hk', if_neg hnz, hbroadcast, ← hstack]
  rw [hy]
  rfl

lemma weightedSum_eq {out : ℕ → V}
    (hout : ∀ p < c.t * c.k, ∀ row < c.i, out (p * c.i + row) = outRow fl c s s' p row) :
    ∃ y, moeWeightedSum fl host 5 (emptyLike [c.t, c.k, c.i] c.x.device out) c.topKWeights =
        some (emptyLike [c.t, c.i] c.x.device y) ∧
      ∀ token < c.t, ∀ row < c.i, y (token * c.i + row) = finalRow fl c s s' token row := by
  have hwidth := hf.width_lt hc
  have hh := hc.h_eq
  have hroutes : c.topKWeights.shape = [c.t, c.k] := hf.routes.trans hc.index
  let x : Buffer V := (emptyLike [c.t, c.k, c.i] c.x.device out).buffer
  have hsize : x.size = c.t * c.k * c.i := by simp [x, buffer, emptyLike, mul_assoc]
  have haccepts := hf.weightedSum
  rw [hh] at haccepts
  have hblock : 0 < min (nextPowerOf2 c.i) weightedSumBlock :=
    lt_min (lt_of_lt_of_le hf.wide (le_nextPowerOf2 _)) (by decide)
  have hblock' : min (nextPowerOf2 c.i) weightedSumBlock ≤ 4096 := min_le_right _ _
  obtain ⟨y, hy, -, hget⟩ := host.launch_eq 5 (weightedSumRow fl x c.topKWeights.buffer c.k c.i)
    (fun token row => (token * c.i + row : ℕ)) (fun token row => if row < c.i then finalRow fl c s s' token row else
      combined fl c.k (fun j => c.topKWeights.data _) fun _ => 0)
    haccepts hblock (by omega) (by
      intro token ht row _
      have hslot (j : ℕ) (hj : j < c.k) : token * c.k + j < c.t * c.k := slot_lt ht hj
      have hwts (j : ℕ) (hj : j < c.k) : token * c.k + j < c.topKWeights.buffer.size := by
        show _ < c.topKWeights.shape.prod
        simpa [hroutes] using hslot j hj
      by_cases hrow : row < c.i
      · have hx (j : ℕ) (hj : j < c.k) : (token * c.k + j) * c.i + row < x.size := by
          have h := Blocks.block_le (hslot j hj) c.i
          omega
        rw [weightedSumRow_eq hrow hwts hx, if_pos hrow]
        have hrows : (range c.k).foldl (fun acc j => acc + c.topKWeights.data (token * c.k + j) *
            x.get ((token * c.k + j) * c.i + row)) 0 = (range c.k).foldl (fun acc j =>
              acc + c.topKWeights.data (token * c.k + j) * outRow fl c s s' (token * c.k + j) row) 0 := by
          refine foldl_ext _ _ _ fun acc j hj => ?_
          rw [← hout _ (hslot j (mem_range.mp hj)) row hrow]
          rfl
        simp
        exact congrArg fl.bf16 hrows
      · rw [weightedSumRow_masked (Nat.le_of_not_lt hrow) hwts, if_neg hrow]
        rfl) fun _ _ _ _ => rfl
  refine ⟨y.get, ?_, fun token ht row hrow => ?_⟩
  · have heligible : moeWeightedSumEligible (emptyLike [c.t, c.k, c.i] c.x.device out) c.topKWeights = true := by
      obtain ⟨-, -, -, -, -, hd⟩ := hc.devices
      simp [moeWeightedSumEligible, isCuda, dim, emptyLike, hroutes, hd, hc.cuda, hc.weights_dtype, hf.wide]
    have h0 : (emptyLike [c.t, c.k, c.i] c.x.device out).dim 0 = c.t := rfl
    have h1 : (emptyLike [c.t, c.k, c.i] c.x.device out).dim 1 = c.k := rfl
    have h2 : (emptyLike [c.t, c.k, c.i] c.x.device out).dim 2 = c.i := rfl
    rw [moeWeightedSum, if_pos heligible]
    simp only [h0, h1, h2]
    rw [hy]
    rfl
  · rw [hget token ht row hrow, if_pos hrow]

lemma ladder_eq (hids : c.ValidIds) (hs : s.Sized c.e c.o c.i)
    (hstack : s = .fp8 c.gateUpW.buffer c.gateUpS.buffer (host.decoder storage)) (hs' : s'.Sized c.e c.i c.ia)
    (hstack' : s' = .fp8 c.downW.buffer c.downS.buffer (host.decoder storage)) :
    ∃ y, ladder fl host c = some (emptyLike [c.t, c.i] c.x.device y) ∧
      ∀ token < c.t, ∀ row < c.i, y (token * c.i + row) = finalRow fl c s s' token row := by
  obtain ⟨_, hgu, hgu'⟩ := firstGemv_eq fl hc hf hids hs hstack
  obtain ⟨_, hact, hact'⟩ := swiglu_eq fl hc hf hgu'
  obtain ⟨_, hout, hout'⟩ := secondGemv_eq fl hc hf hids hs' hstack' hact'
  obtain ⟨y, hy, hy'⟩ := weightedSum_eq fl hc hf hout'
  refine ⟨y, ?_, hy'⟩
  have hia : c.gateUpW.dim 1 / 2 = c.ia := rfl
  simp [ladder, hc.stored, bind_eq_bind, bind_some, hgu, hia, hact, hout, hy]

end

/-! ## One value from both -/

section

variable [AddCommMonoid V] [Mul V] (fl : Floats V)

/-- Two stacks with the same weights. -/
def Stack.Agrees (s s' : Stack V) (e rows n : ℕ) : Prop :=
  ∀ ex < e, ∀ row < rows, ∀ col < n,
    s.at fl ((ex * rows + row) * n + col) ((ex * (rows / 128) + row / 128) * (n / 128) + col / 128) =
      s'.at fl ((ex * rows + row) * n + col) ((ex * (rows / 128) + row / 128) * (n / 128) + col / 128)

variable {fl}

lemma finalRow_congr (hids : c.ValidIds) (hpairs : c.o = 2 * c.ia) {s₁ s₁' s₂ s₂' : Stack V}
    (h₁ : s₁.Agrees fl s₁' c.e c.o c.i) (h₂ : s₂.Agrees fl s₂' c.e c.i c.ia) {token row : ℕ} (ht : token < c.t)
    (hrow : row < c.i) : finalRow fl c s₁ s₂ token row = finalRow fl c s₁' s₂' token row := by
  have hpair (p : ℕ) (hp : p < c.t * c.k) (r : ℕ) (hr : r < c.o) : pairRow fl c s₁ p r = pairRow fl c s₁' p r := by
    rw [pairRow, pairRow, rowDot_congr (fun col hcol => h₁ _ (hids.id hp).2 r hr col hcol) fun _ _ => rfl]
  have hact (p : ℕ) (hp : p < c.t * c.k) (r : ℕ) (hr : r < c.ia) : actRow fl c s₁ p r = actRow fl c s₁' p r := by
    rw [actRow, actRow, hpair p hp r (by omega), hpair p hp _ (by omega)]
  unfold finalRow combined
  congr 1
  refine foldl_ext _ _ _ fun acc j hj => ?_
  have hp := slot_lt ht (mem_range.mp hj)
  have hout : outRow fl c s₁ s₂ (token * c.k + j) row = outRow fl c s₁' s₂' (token * c.k + j) row := by
    rw [outRow, outRow, rowDot_congr (fun col hcol => h₂ _ (hids.id hp).2 row hrow col hcol) fun r hr => hact _ hp r hr]
  show acc + _ * outRow fl c s₁ s₂ (token * c.k + j) row = acc + _ * outRow fl c s₁' s₂' (token * c.k + j) row
  rw [hout]

lemma agrees_of_storage {bytes : Buffer UInt8} {scales : Buffer V} {d d' : Decode} (h : d.storage = d'.storage)
    (e rows n : ℕ) : (Stack.fp8 bytes scales d).Agrees fl (.fp8 bytes scales d') e rows n := by
  intro _ _ _ _ _ _
  simp [Stack.at]
  rw [value_eq, value_eq, h]

lemma agrees_of_twin {bytes : Tensor UInt8} {scales w16 : Tensor V} {d : Decode} {e rows n : ℕ}
    (hshape : bytes.shape = [e, rows, n]) (h : TwinOf fl d.storage bytes scales w16) :
    (Stack.bf16 w16.buffer).Agrees fl (.fp8 bytes.buffer scales.buffer d) e rows n := by
  have h0 : bytes.dim 0 = e := by simp [dim, hshape]
  have h1 : bytes.dim 1 = rows := by simp [dim, hshape]
  have h2 : bytes.dim 2 = n := by simp [dim, hshape]
  intro ex hex row hrow col hcol
  have htwin := h ex (by rwa [h0]) row (by rwa [h1]) col (by rwa [h2])
  rw [h1, h2] at htwin
  simp [Stack.at, value_eq]
  exact htwin

lemma decodeW8_storage (storage : Storage) : (decodeW8 storage).storage = storage := by
  cases storage with
  | e4m3fn => rfl
  | e4m3fnuz => rfl

lemma stacks_agree (hc : Shaped c storage) (hf : Fits host c) (htwins : c.Twins fl) :
    ∃ s s', c.stacks storage = (s, s') ∧ s.Sized c.e c.o c.i ∧ s'.Sized c.e c.i c.ia ∧
      s.Agrees fl (.fp8 c.gateUpW.buffer c.gateUpS.buffer (host.decoder storage)) c.e c.o c.i ∧
      s'.Agrees fl (.fp8 c.downW.buffer c.downS.buffer (host.decoder storage)) c.e c.i c.ia := by
  have hgateUp := hf.gateUpW hc
  have hsize : c.gateUpW.buffer.size = [c.e, c.o, c.i].prod := congrArg List.prod hgateUp
  have hsize' : c.downW.buffer.size = [c.e, c.i, c.ia].prod := congrArg List.prod hc.downW
  have hstorage : (decodeW8 storage).storage = (host.decoder storage).storage := by
    rw [decodeW8_storage, host.decoder_storage]
  have hbytes : ∃ s s', (Stack.fp8 c.gateUpW.buffer c.gateUpS.buffer (decodeW8 storage),
        Stack.fp8 c.downW.buffer c.downS.buffer (decodeW8 storage)) = (s, s') ∧
      s.Sized c.e c.o c.i ∧ s'.Sized c.e c.i c.ia ∧
      s.Agrees fl (.fp8 c.gateUpW.buffer c.gateUpS.buffer (host.decoder storage)) c.e c.o c.i ∧
      s'.Agrees fl (.fp8 c.downW.buffer c.downS.buffer (host.decoder storage)) c.e c.i c.ia :=
    ⟨_, _, rfl, ⟨hsize, congrArg List.prod hc.gateUpS⟩, ⟨hsize', congrArg List.prod hc.downS⟩,
      agrees_of_storage hstorage _ _ _, agrees_of_storage hstorage _ _ _⟩
  unfold Call.stacks
  split
  · rename_i gateUp down hg hd
    split
    · rename_i hresident
      obtain ⟨htwin, htwin'⟩ := htwins storage gateUp down hc.stored hg hd
      rw [← host.decoder_storage storage] at htwin htwin'
      simp only [Bool.and_eq_true, beq_iff_eq] at hresident
      obtain ⟨⟨⟨-, hshape⟩, hshape'⟩, -⟩ := hresident
      exact ⟨_, _, rfl, (congrArg List.prod hshape).trans hsize, (congrArg List.prod hshape').trans hsize',
        agrees_of_twin hgateUp htwin, agrees_of_twin hc.downW htwin'⟩
    · exact hbytes
  · exact hbytes

end

/-! ## The promise is kept -/

lemma gateUp_owns (hc : Shaped c storage) (hf : Fits host c) (hids : c.ValidIds) (scaled : Bool) {q r : ℕ}
    (hp : p < c.t * c.k) (hq : q < blocksFor host.rows1 c.ia) (hr : r < host.rows1) :
    (gateLanes c.ia c.i c.k (nextPowerOf2 c.i) (c.topKIndex.data p) p (int32 (int32 (q * host.rows1) + r))).Owns scaled
        (c.topKIndex.data p * c.o + (q * host.rows1 + r : ℕ))
        (c.topKIndex.data p * (c.o / 128 : ℕ) + ((q * host.rows1 + r) / 128 : ℕ)) (p / c.k : ℕ) c.i ∧
      (upLanes c.ia c.i c.k (nextPowerOf2 c.i) (c.topKIndex.data p) p (int32 (int32 (q * host.rows1) + r))).Owns scaled
        (c.topKIndex.data p * c.o + (q * host.rows1 + r + c.ia : ℕ))
        (c.topKIndex.data p * (c.o / 128 : ℕ) + ((q * host.rows1 + r + c.ia) / 128 : ℕ)) (p / c.k : ℕ) c.i := by
  have hsmall : c.o < 2 ^ 31 := lt_trans (hf.width_lt hc).1 (by norm_num)
  have hpairs := hf.pairs
  have hdvd : host.rows1 ∣ c.ia ∧ 0 < host.rows1 := by
    have hia := hc.ia_dvd
    unfold Host.rows1
    split
    · exact ⟨by omega, by omega⟩
    · exact ⟨by omega, by omega⟩
  have hblocks := blocksFor_mul hdvd.2 hdvd.1
  have hrow : q * host.rows1 + r < c.ia := by
    have h := Blocks.block_le hq host.rows1
    omega
  have hgate_lt : q * host.rows1 + r < c.o := by omega
  have hup_lt : q * host.rows1 + r + c.ia < c.o := by omega
  have hrow' : int32 (int32 (q * host.rows1) + r) = (q * host.rows1 + r : ℕ) :=  int32_row (by omega) hq hr
  have hpanel : int32 (((q * host.rows1 + r : ℕ) : ℤ) + c.ia) = (q * host.rows1 + r + c.ia : ℕ) := by
    rw [← Nat.cast_add, int32_natCast (lt_trans hup_lt hsmall)]
  have hreads (panel : ℕ) (hlt : panel < c.o) :
      (panelLanes c.ia c.i c.k (nextPowerOf2 c.i) (c.id p) p (q * host.rows1 + r : ℕ) panel).Reads (c.id p * c.o + panel)
        (c.id p * (c.o / 128) + panel / 128) (p / c.k) c.i := by
    rw [hpairs]
    exact panelLanes_reads hc.i_dvd hrow (hf.row_lt hlt) (hf.out_lt (lt_of_lt_of_le (token_lt hp) hc.le_slots))
  have hgate := owns_of_reads (hreads _ hgate_lt) hc.i_dvd scaled
  have hup := owns_of_reads (hreads _ hup_lt) hc.i_dvd scaled
  rw [hrow', ← (hids.id hp).1, upLanes, hpanel, gateLanes]
  exact ⟨hgate, hup⟩

lemma down_owns (hc : Shaped c storage) (hf : Fits host c) (hids : c.ValidIds) (scaled : Bool) {token q r : ℕ}
    (ht : token < c.t) (hj : j < c.k) (hq : q < blocksFor rows2 c.h) (hr : r < rows2) :
    (downLanes c.ia c.h c.k (nextPowerOf2 c.ia) (c.topKIndex.data (token * c.k + j)) token j
        (int32 (int32 (q * rows2) + r))).Owns scaled (c.topKIndex.data (token * c.k + j) * c.h + (q * rows2 + r : ℕ))
      (c.topKIndex.data (token * c.k + j) * (c.h / 128 : ℕ) + ((q * rows2 + r) / 128 : ℕ)) (token * c.k + j : ℕ) c.ia := by
  have hwidth := hf.width_lt hc
  have hi := hc.i_dvd
  have hslot := slot_lt ht hj
  have hblocks : blocksFor rows2 c.i * rows2 = c.i := blocksFor_mul (by decide) (Dvd.dvd.trans (by decide) hi)
  rw [hc.h_eq] at hq ⊢
  have hrow : q * rows2 + r < c.i := by
    have h := Blocks.block_le hq rows2
    omega
  have hzero := slot_lt ht hc.k_pos
  rw [int32_row (by omega) hq hr, ← (hids.id hslot).1]
  have howns := owns_of_reads (downLanes_reads (c.id (token * c.k + j)) hc.ia_dvd (Nat.le_of_eq hf.cols_eq) hrow
    (hf.downRow_lt hrow) (hf.act_lt hzero) (hf.act_lt (lt_of_le_of_lt (Nat.le_add_left _ _) hslot)) hc.ia_pos)
    hc.ia_dvd scaled
  exact howns

section

variable [AddCommMonoid V] [Mul V] {fl : Floats V}

lemma givesLadder_of_fits (hc : Shaped c storage) (hf : Fits host c) (hids : c.ValidIds) (htwins : c.Twins fl)
    (helig : moeGroupedDecodeEligible c = some true) : GivesLadder fl host c where
  result := by
    obtain ⟨s, _, hstacks, hs, hs', hagree, hagree'⟩ := stacks_agree hc hf htwins
    have hsized : (Stack.fp8 c.gateUpW.buffer c.gateUpS.buffer (host.decoder storage)).Sized c.e c.o c.i :=
      ⟨congrArg List.prod (hf.gateUpW hc), congrArg List.prod hc.gateUpS⟩
    have hsized' : (Stack.fp8 c.downW.buffer c.downS.buffer (host.decoder storage)).Sized c.e c.i c.ia :=
      ⟨congrArg List.prod hc.downW, congrArg List.prod hc.downS⟩
    obtain ⟨y, hy, hdata⟩ := ladder_eq fl hc hf hids hsized rfl hsized' rfl
    obtain ⟨y', hy', hsize, hget⟩ := grouped_eq fl hc hf hids hstacks hs hs' helig
    refine ⟨_, y', hy, hy', hsize, fun n hn => ?_⟩
    have hh := hc.h_eq
    have hi : 0 < c.i := hf.wide
    have ht : n / c.i < c.t := Nat.div_lt_of_lt_mul (by rwa [mul_comm, ← hh])
    have hrow : n % c.i < c.i := Nat.mod_lt _ hi
    have hn' : n / c.i * c.i + n % c.i = n := Nat.div_add_mod' n c.i
    have hleft := hget _ ht _ (by rwa [hh])
    have hright := hdata _ ht _ hrow
    rw [hh, hn'] at hleft
    rw [hn'] at hright
    rw [hleft, finalRow_congr hids hf.pairs hagree hagree' ht hrow]
    exact hright.symm
  gateUp _ _ _ hp _ hq _ hr := gateUp_owns hc hf hids _ hp hq hr
  down _ _ _ ht _ hj _ hq _ hr := down_owns hc hf hids _ ht hj hq hr

end

/-! ## What the promise needs -/

lemma offsets_fit {o : ℕ} (ho : 0 < o) (hlt : o < 2 ^ 31) (h : ∀ p < n, 0 ≤ int32 (p * o : ℕ)) : (n - 1) * o < 2 ^ 31 := by
  by_contra hwrap
  have hlo := le_blocksFor ho (2 ^ 31)
  have hhi := blocksFor_lt ho (2 ^ 31)
  have hp : blocksFor o (2 ^ 31) < n := by
    apply Nat.lt_of_mul_lt_mul_right (a := o)
    have hn : (n - 1) * o + o = n * o := by
      rw [← Nat.add_one_mul, Nat.sub_add_cancel]
      by_contra hn
      rw [Nat.lt_one_iff.mp (Nat.lt_of_not_le hn)] at hwrap
      omega
    omega
  have hneg := int32_neg (x := (blocksFor o _ * o : ℕ)) (by exact_mod_cast hlo) (by
    have : blocksFor o (2 ^ 31) * o < 2 ^ 32 := by omega
    exact_mod_cast this)
  exact absurd (h _ hp) (Int.not_le.mpr hneg)

/-- A lane that loads from its panel row has an offset that did not wrap. -/
lemma panel_fits {ia i k cols selected panel : ℕ} {expert row : ℤ} {scaled : Bool} {s x : ℤ} (hi : 0 < i)
    (hcols : 0 < cols) (hrow : row < ia)
    (h : (panelLanes ia i k cols expert selected row panel).Owns scaled (expert * (2 * ia : ℕ) + panel) s x i) :
    panel * i < 2 ^ 31 := by
  have hmask : (decide (row < ia) && decide (0 < i)) = true := by simp [hrow, hi]
  have hlo := ((h 0 hcols).1 hmask).1
  have hlt := int32_lt ((panel : ℤ) * i)
  simp only [panelLanes] at hlo
  have hbase : (expert * (2 * ia : ℕ) + panel) * (i : ℤ) = expert * (2 * ia * i) + panel * i := by
    push_cast
    ring
  have hpanel : (panel : ℤ) * i ≤ int32 ((panel : ℤ) * i) := by
    have hzero : ((0 : ℕ) : ℤ) = 0 := rfl
    linarith
  have h31 := lt_of_le_of_lt hpanel hlt
  omega

lemma stackOffsets_of_owns (hc : Shaped c storage) (hpairs : c.o = 2 * c.ia) (hwide : 0 < c.i)
    (h : ∀ q < blocksFor host.rows1 c.ia, ∀ r < host.rows1, ∃ expert : ℤ, ∃ scaled s s' x x',
      (gateLanes c.ia c.i c.k (nextPowerOf2 c.i) expert 0 (int32 (int32 (q * host.rows1) + r))).Owns scaled
          (expert * c.o + (q * host.rows1 + r : ℕ)) s x c.i ∧
        (upLanes c.ia c.i c.k (nextPowerOf2 c.i) expert 0 (int32 (int32 (q * host.rows1) + r))).Owns scaled
          (expert * c.o + (q * host.rows1 + r + c.ia : ℕ)) s' x' c.i) : (c.o - 1) * c.i < 2 ^ 31 := by
  by_contra hwrap
  have hi128 := Nat.le_of_dvd hwide hc.i_dvd
  have hrows1 : 0 < host.rows1 ∧ host.rows1 ≤ 4 := by
    unfold Host.rows1
    split
    · exact ⟨by omega, by omega⟩
    · exact ⟨by omega, by omega⟩
  have hcols : 0 < nextPowerOf2 c.i := lt_of_lt_of_le hwide (le_nextPowerOf2 _)
  -- the first panel row whose offset wraps
  obtain ⟨panel, hpanel⟩ : ∃ panel, panel = blocksFor c.i (2 ^ 31) := ⟨_, rfl⟩
  have hlo := le_blocksFor hwide (2 ^ 31)
  have hhi := blocksFor_lt hwide (2 ^ 31)
  rw [← hpanel] at hlo hhi
  have hpos : 0 < panel := by
    by_contra hzero
    rw [Nat.eq_zero_of_not_pos hzero] at hlo
    omega
  have hprev : (panel - 1) * c.i + c.i = panel * c.i := by rw [← Nat.add_one_mul, Nat.sub_add_cancel hpos]
  have hsmall : panel < 2 ^ 25 := by
    have h : (panel - 1) * 128 ≤ (panel - 1) * c.i := Nat.mul_le_mul_left _ hi128
    omega
  have hlt : panel < c.o := by
    have hlast : (c.o - 1) * c.i + c.i = c.o * c.i := by
      have := hc.ia_pos
      rw [← Nat.add_one_mul, Nat.sub_add_cancel (by omega)]
    exact Nat.lt_of_mul_lt_mul_right (a := c.i) (by omega)
  -- it is a gate row or an up row of some program
  have hprogram (row : ℕ) (hrow : row < c.ia) (hle : row ≤ panel) : row / host.rows1 < blocksFor host.rows1 c.ia ∧
      int32 (int32 ((row / host.rows1 : ℕ) * host.rows1) + (row % host.rows1 : ℕ)) = row := by
    have hsplit := Nat.div_add_mod' row host.rows1
    have hcover := le_blocksFor hrows1.1 c.ia
    refine ⟨Nat.lt_of_mul_lt_mul_right (a := host.rows1) (by omega), ?_⟩
    have hblock : (row / host.rows1 + 1) * host.rows1 < 2 ^ 31 := by
      rw [Nat.add_one_mul]
      omega
    rw [int32_row hblock.le (Nat.lt_succ_self _) (Nat.mod_lt _ hrows1.1), hsplit]
  have hown (row : ℕ) (hrow : row < c.ia) (hle : row ≤ panel) := h _ (hprogram row hrow hle).1 _ (Nat.mod_lt row hrows1.1)
  by_cases hgate : panel < c.ia
  · obtain ⟨expert, scaled, s, s', x, x', howns, -⟩ := hown panel hgate le_rfl
    rw [(hprogram panel hgate le_rfl).2, Nat.div_add_mod', hpairs, gateLanes] at howns
    exact absurd (panel_fits hwide hcols (by exact_mod_cast hgate) howns) (Nat.not_lt.mpr hlo)
  · have hrow : panel - c.ia < c.ia := by omega
    obtain ⟨_, _, s, _, x, _, -, howns⟩ := hown _ hrow (Nat.sub_le _ _)
    have hsum : panel - c.ia + c.ia = panel := Nat.sub_add_cancel (Nat.le_of_not_lt hgate)
    have hcast : ((panel - c.ia : ℕ) : ℤ) + c.ia = panel := by exact_mod_cast hsum
    rw [(hprogram _ hrow (Nat.sub_le _ _)).2, Nat.div_add_mod', hsum, hpairs, upLanes, hcast,
      int32_natCast (by omega)] at howns
    exact absurd (panel_fits hwide hcols (by exact_mod_cast hrow) howns) (Nat.not_lt.mpr hlo)

/-- A padded column is a load from the next row. -/
lemma power_of_owns {ia h k token : ℕ} {expert : ℤ} {scaled : Bool} {s x : ℤ} (hia : 0 < ia) (hh : 0 < h)
    (hown : (downLanes ia h k (nextPowerOf2 ia) expert token j 0).Owns scaled (expert * h) s x ia) : ∃ n, ia = 2 ^ n := by
  by_cases hpadded : nextPowerOf2 ia = ia
  · refine ⟨Nat.clog 2 ia, ?_⟩
    rw [nextPowerOf2, if_neg (by omega)] at hpadded
    exact hpadded.symm
  · have hlt : ia < nextPowerOf2 ia := lt_of_le_of_ne (le_nextPowerOf2 ia) (Ne.symm hpadded)
    have hmask : decide ((0 : ℤ) < h) = true := by simpa using hh
    have hhi := ((hown ia hlt).1 hmask).2
    simp only [downLanes, Int.zero_mul] at hhi
    have hzero : int32 0 = 0 := by decide
    exact absurd hhi (by rw [Int.mul_assoc]; omega)

section

variable [AddCommMonoid V] [Mul V] {fl : Floats V}

omit [AddCommMonoid V] [Mul V] in
lemma Host.launch_some {alloc programs n lanes cols : ℕ} {task : ℕ → ℤ → Option (Lane × V)} {b : Buffer V}
    (h : host.launch alloc programs n lanes cols task = some b) :
    host.accepts programs (blocksFor lanes n) lanes cols = true ∧
      LaneLaunch.launch (programs * n) (host.fresh alloc) host.arrange (grid programs (blocksFor lanes n) lanes task) = some b := by
  unfold Host.launch at h
  split at h
  · exact ⟨‹_›, h⟩
  · cases h

lemma gemvRow_store {s : Stack V} {x : Buffer V} {idx : Buffer ℤ} {o i k cols p : ℕ} {broadcast compact : Bool}
    {row : ℤ} {st : Lane × V} (h : gemvRow fl s x idx o i k cols broadcast compact p row = some st) :
    st.1 = ⟨int32 (p * o) + row, decide (row < o)⟩ := by
  obtain ⟨_, -, h⟩ := bind_eq_some_iff.mp h
  obtain ⟨_, -, h⟩ := bind_eq_some_iff.mp h
  rw [← Option.some.inj h]

lemma expertGemv_spec {alloc : ℕ} {x : Tensor V} {weights : Tensor UInt8} {scales : Tensor V} {indices : Tensor ℤ}
    {tCap : ℤ} {y : Tensor V} (h : expertGemv fl host alloc x weights scales indices storage tCap = some y)
    (ht : 0 < indices.dim 0) (hk : 0 < indices.dim 1) : (∃ e o i, weights.shape = [e, o, i] ∧ 0 < o ∧ 0 < i ∧ 128 ∣ o) ∧
      host.accepts (indices.dim 0 * indices.dim 1) (blocksFor rows2 (weights.dim 1)) rows2 (nextPowerOf2 (weights.dim 2)) = true ∧
      y.shape = [indices.dim 0, indices.dim 1, weights.dim 1] ∧
      ∀ p < indices.dim 0 * indices.dim 1, 0 ≤ int32 (p * weights.dim 1 : ℕ) := by
  unfold expertGemv at h
  split at h
  · rename_i hcontract
    have hnz : ¬ (indices.dim 0 = 0 ∨ indices.dim 1 = 0) := by omega
    simp only [if_neg hnz, map_eq_some_iff] at h
    obtain ⟨b, hb, rfl⟩ := h
    obtain ⟨haccepts, hlaunch⟩ := Host.launch_some hb
    unfold expertGemvContract at hcontract
    split at hcontract
    · rename_i e o i t k hw _
      simp only [Bool.and_eq_true, decide_eq_true_eq, beq_iff_eq] at hcontract
      have ho : 0 < o := by tauto
      have hi : 0 < i := by tauto
      have hdvd : o % 128 = 0 := by tauto
      have hdim : weights.dim 1 = o := by simp [dim, hw]
      refine ⟨⟨e, o, i, hw, ho, hi, Nat.dvd_of_mod_eq_zero hdvd⟩, haccepts, rfl, fun p hp => ?_⟩
      have hblocks : 0 < blocksFor rows2 (weights.dim 1) := blocksFor_pos (by rwa [hdim])
      obtain ⟨_, hst, hinside⟩ := launch_inside hlaunch p hp 0 hblocks 0 (by decide)
      have hzero : int32 (int32 (((0 : ℕ) : ℤ) * (rows2 : ℕ)) + ((0 : ℕ) : ℤ)) = 0 := by decide
      rw [hzero] at hst
      rw [gemvRow_store hst] at hinside
      have hoffset := (hinside (by simpa [hdim] using ho)).1
      simpa using hoffset
    · cases hcontract
  · cases h

lemma fits_of_givesLadder (hc : Shaped c storage) (helig : moeGroupedDecodeEligible c = some true)
    (h : GivesLadder fl host c) : Fits host c := by
  obtain ⟨y, _, hladder, hgrouped, -, -⟩ := h.result
  -- the ladder: its contracts, launches and stores
  simp only [ladder, hc.stored, bind_eq_bind, bind_some] at hladder
  obtain ⟨gu, hgu, hladder⟩ := bind_eq_some_iff.mp hladder
  obtain ⟨_, hact, hladder⟩ := bind_eq_some_iff.mp hladder
  obtain ⟨out, hout, hsum⟩ := bind_eq_some_iff.mp hladder
  obtain ⟨⟨e, o, i, hw, ho, hi, hodvd⟩, hfirst, hgushape, hguoffsets⟩ := expertGemv_spec hgu hc.t_pos hc.k_pos
  obtain ⟨-, hsecond, houtshape, houtoffsets⟩ := expertGemv_spec hout hc.t_pos hc.k_pos
  have heo : c.o = o := by simp [Call.o, dim, hw]
  have hei : c.i = i := by simp [Call.i, dim, hw]
  have hpairs : c.o = 2 * c.ia := by
    rw [Call.ia, heo]
    omega
  have hwide : 0 < c.i := by rwa [hei]
  have hi128 := Nat.le_of_dvd hwide hc.i_dvd
  have hia128 := Nat.le_of_dvd hc.ia_pos hc.ia_dvd
  have hswiglu : host.accepts (c.t * c.k) (blocksFor swigluBlock c.ia) swigluBlock 1 = true := by
    unfold swigluLimit at hact
    split at hact
    · obtain ⟨b, hb, -⟩ := map_eq_some_iff.mp hact
      have h0 : gu.dim 0 = c.t := by simp [dim, hgushape, Call.t]
      have h1 : gu.dim 1 = c.k := by simp [dim, hgushape, Call.k]
      rw [h0, h1] at hb
      exact (Host.launch_some hb).1
    · cases hact
  have hdown1 : c.downW.dim 1 = c.i := hc.h_eq
  have hdown2 : c.downW.dim 2 = c.ia := by simp [dim, hc.downW]
  rw [hdown1] at houtshape houtoffsets hsecond
  rw [hdown2] at hsecond
  obtain ⟨hroutes, hweighted⟩ : c.topKWeights.shape = c.topKIndex.shape ∧
      host.accepts c.t (blocksFor (min (nextPowerOf2 c.h) weightedSumBlock) c.h)
        (min (nextPowerOf2 c.h) weightedSumBlock) 1 = true := by
    unfold moeWeightedSum at hsum
    split at hsum
    · rename_i heligible
      obtain ⟨b, hb, -⟩ := map_eq_some_iff.mp hsum
      have h0 : out.dim 0 = c.t := by simp [dim, houtshape, Call.t]
      have h1 : out.dim 1 = c.k := by simp [dim, houtshape, Call.k]
      have h2 : out.dim 2 = c.i := by simp [dim, houtshape]
      simp only [moeWeightedSumEligible, Bool.and_eq_true, beq_iff_eq] at heligible
      have hrank : c.topKWeights.shape.length = 2 := by tauto
      have hdim0 : c.topKWeights.dim 0 = out.dim 0 := by tauto
      have hdim1 : c.topKWeights.dim 1 = out.dim 1 := by tauto
      rw [h0, h2] at hb
      refine ⟨?_, by rw [hc.h_eq]; exact (Host.launch_some hb).1⟩
      obtain ⟨a, b, hab⟩ := length_eq_two.mp hrank
      rw [hab, hc.index]
      rw [h0] at hdim0
      rw [h1] at hdim1
      simp only [dim, hab, getD_cons_zero, getD_cons_succ] at hdim0 hdim1
      rw [hdim0, hdim1]
    · cases hsum
  -- the two launches
  have hia : o / 2 = c.ia := by rw [Call.ia, heo]
  simp only [moeGroupedDecode, helig, hc.stored, hw, hc.index, bind_eq_bind, bind_some] at hgrouped
  obtain ⟨b, hb, hgrouped⟩ := bind_eq_some_iff.mp hgrouped
  rw [hia, ← hei] at hb
  rw [hia] at hgrouped
  -- the loads
  have hslots : 0 < c.t * c.k := Nat.mul_pos hc.t_pos hc.k_pos
  have hstack : (c.o - 1) * c.i < 2 ^ 31 := stackOffsets_of_owns hc hpairs hwide fun q hq r hr =>
    ⟨_, _, _, _, _, _, h.gateUp storage hc.stored 0 hslots q hq r hr⟩
  have hpower : ∃ n, c.ia = 2 ^ n := by
    have hblocks : 0 < blocksFor rows2 c.h := blocksFor_pos (by rwa [hc.h_eq])
    have hown := h.down storage hc.stored 0 hc.t_pos 0 hc.k_pos 0 hblocks 0 (by decide)
    have hzero : int32 (int32 (((0 : ℕ) : ℤ) * (rows2 : ℕ)) + ((0 : ℕ) : ℤ)) = 0 := by decide
    simp only [Nat.zero_mul, Nat.cast_zero, add_zero] at hown
    exact power_of_owns hc.ia_pos (by rw [hc.h_eq]; exact hwide) hown
  have hosmall : c.o < 2 ^ 31 := by
    have h : (c.o - 1) * 128 ≤ (c.o - 1) * c.i := Nat.mul_le_mul_left _ hi128
    omega
  have hismall : c.i < 2 ^ 31 := by
    have h : 255 * c.i ≤ (c.o - 1) * c.i := Nat.mul_le_mul_right _ (by omega)
    omega
  exact {
    rank := by simp [hw]
    routes := hroutes
    pairs := hpairs
    wide := hwide
    power := hpower
    stackOffsets := hstack
    pairOffsets := offsets_fit (by omega) hosmall hguoffsets
    outOffsets := offsets_fit hwide hismall houtoffsets
    gateUp := (Host.launch_some hb).1
    down := (Host.launch_some hgrouped).1
    firstGemv := hfirst
    swiglu := hswiglu
    secondGemv := by rw [hc.h_eq]; exact hsecond
    weightedSum := hweighted }

/-- **The promise is kept** by exactly the calls that fit. -/
theorem gives_ladder_iff (fl : Floats V) (host : Host V) (c : Call V) (helig : moeGroupedDecodeEligible c = some true)
    (hids : c.ValidIds) (htwins : c.Twins fl) : GivesLadder fl host c ↔ Fits host c := by
  obtain ⟨_, hc⟩ := eligible_spec helig
  exact ⟨fits_of_givesLadder hc helig, fun hf => givesLadder_of_fits hc hf hids htwins helig⟩

end

end

/-! ## A width of 128, and one of 384 -/

section

/-- Exact arithmetic, on calls that stay at zero. -/
def plainFloats : Floats ℚ where
  ofFp8 v := v.getD 0
  bf16 v := v
  one := 1
  neg v := -v
  div v w := v / w
  exp _ := 1
  minimum := min
  maximum := max
  masked := mul_zero _

def plainHost : Host ℚ where
  hip := false
  decoder
    | .e4m3fn => .nv
    | .e4m3fnuz => .manualFnuz
  decoder_storage
    | .e4m3fn => rfl
    | .e4m3fnuz => rfl
  compactScales := true
  accepts _ _ _ _ := true
  fresh _ _ := 0
  arrange stores := stores
  arrange_perm _ := Perm.refl _

def zeros (α : Type) [Zero α] (shape : List ℕ) (dtype : Dtype) : Tensor α := ⟨shape, dtype, .cuda 0, true, fun _ => 0⟩

/-- One token, one slot, one expert of width 128. -/
def plainCall (ia : ℕ) : Call ℚ where
  x := zeros ℚ [1, 128] .bfloat16
  gateUpW := zeros UInt8 [1, 2 * ia, 128] .float8E4m3fn
  gateUpS := zeros ℚ [1, 2 * ia / 128, 1] .float32
  downW := zeros UInt8 [1, 128, ia] .float8E4m3fn
  downS := zeros ℚ [1, 1, ia / 128] .float32
  topKIndex := zeros ℤ [1, 1] .int64
  topKWeights := zeros ℚ [1, 1] .float32
  swigluLimit := 7
  tCap := 8
  storage := some .e4m3fn
  w16GateUp := none
  w16Down := none

lemma plainCall_valid (ia : ℕ) : (plainCall ia).ValidIds := fun _ _ => ⟨le_rfl, Int.one_pos⟩

theorem gives_ladder_iff_plain : GivesLadder plainFloats plainHost (plainCall 128) ↔ Fits plainHost (plainCall 128) :=
  gives_ladder_iff plainFloats plainHost (plainCall 128) rfl (plainCall_valid 128) fun _ _ _ _ h => by cases h

lemma not_two_pow (n : ℕ) : 384 ≠ 2 ^ n := by
  by_cases hn : n < 9
  · interval_cases n <;> decide
  · have h : 2 ^ 9 ≤ 2 ^ n := Nat.pow_le_pow_right (by decide) (by omega)
    omega

/-- The padded columns of the last row lie past the end of the stack. -/
theorem odd_width_reads_past_end : moeGroupedDecodeEligible (plainCall 384) = some true ∧ (plainCall 384).ValidIds ∧
    384 < nextPowerOf2 384 ∧ (downLanes 384 128 1 (nextPowerOf2 384) 0 0 0 127).weight 384 = ⟨49152, true⟩ ∧
    (plainCall 384).downW.buffer.size = 49152 ∧ ¬ GivesLadder plainFloats plainHost (plainCall 384) := by
  refine ⟨rfl, plainCall_valid 384, ?_, rfl, rfl, fun h => ?_⟩
  · refine lt_of_le_of_ne (le_nextPowerOf2 384) fun heq => ?_
    exact not_two_pow _ heq
  · have hown := h.down .e4m3fn rfl 0 (by decide) 0 (by decide) 0 (by decide) 0 (by decide)
    obtain ⟨n, hn⟩ : ∃ n, 384 = 2 ^ n := power_of_owns (by decide) (by decide) hown
    exact not_two_pow n hn

end

end VKernels.GroupedDecode
