import VKernels.Compiler.MegakernelKv
import VKernels.Lib.Blocks
import Mathlib.Tactic.Ring
import Mathlib.Tactic.Linarith

/-!
# What the megakernel addresses

* `Pools.kLayer`, `Pools.vLayer` — the buffer of a layer; `Aligned` — the kernel's address of a slot is
  the buffer's; `init_base` — the pools for which the constructor gets that right.
* `Installed` — the slot table that a caller has installed; `Tracks` — the runner's table holds it.
* `setSlotTable_cases` — all that a call can do; `tracks_call` — a fitting call keeps the invariant.
-/

namespace VKernels.Megakernel

open Strided
open List

variable (c : Config)

/-! ## Pools -/

section

def Pools.kLayer : Pools → ℕ → Option PoolTensor
  | .allocated kPtr _, l => some ((allocate c kPtr).select l)
  | .tensors k _, l => some (k.select l)
  | .layers kl _, l => kl[l]?

def Pools.vLayer : Pools → ℕ → Option PoolTensor
  | .allocated _ vPtr, l => some ((allocate c vPtr).select l)
  | .tensors _ v, l => some (v.select l)
  | .layers _ vl, l => vl[l]?

def Pools.vSlots : Pools → ℕ
  | .allocated _ _ => c.needSlots
  | .tensors _ v => v.shape.getD 1 0
  | .layers _ vl => ((vl.head?).map PoolTensor.slots).getD 0

def Config.slotStrides : List ℕ := [c.kvHeads * c.headDim, c.headDim, 1]

/-- Pools of one dense layout: two tensors shaped as the geometry says, both with the layer stride of a
dense K pool; per-layer buffers of one size and one element size, with room for the default table. -/
def PoolsFit : Pools → Prop
  | .allocated _ _ => True
  | .tensors k v => ∃ kSlots vSlots, k.shape[1]? = some kSlots ∧
      v.shape = [c.layers, vSlots, c.kvHeads, c.headDim] ∧
      k.Laid (kSlots * c.kvHeads * c.headDim :: c.slotStrides) ∧
      v.Laid (kSlots * c.kvHeads * c.headDim :: c.slotStrides)
  | .layers kl vl => ∃ kSlots vSlots size : ℕ, c.needSlots ≤ kSlots ∧ c.needSlots ≤ vSlots ∧
      (∀ t ∈ kl, t.Laid c.slotStrides ∧ t.shape = [kSlots, c.kvHeads, c.headDim] ∧ t.elementSize = size) ∧
      ∀ t ∈ vl, t.Laid c.slotStrides ∧ t.shape = [vSlots, c.kvHeads, c.headDim] ∧
        (c.layers ≤ 1 ∨ t.elementSize = size)

def Aligned (launch : PoolTensor) (stride l : ℕ) (t : PoolTensor) : Prop :=
  ∀ s < t.slots, ∀ kvh < c.kvHeads, ∀ d < c.headDim,
    launchAddr c launch stride l (s : ℕ) kvh d = t.addr [s, kvh, d]

lemma select_addr (t : PoolTensor) (l : ℕ) (index : List ℕ) : (t.select l).addr index = t.addr (l :: index) := by
  unfold PoolTensor.addr PoolTensor.select
  cases t.strides with
  | nil => simp [dot]
  | cons s strides =>
    simp only [headD_cons, tail_cons, dot_cons]
    push_cast
    ring

variable {l : ℕ} {r : Runner}

lemma aligned_select {t : PoolTensor} {slots stride : ℕ}
    (hshape : t.shape = [c.layers, slots, c.kvHeads, c.headDim]) (ht : t.Laid (stride :: c.slotStrides))
    (hl : l < c.layers) : Aligned c t stride l (t.select l) := by
  intro s hs kvh hkvh d hd
  have hslots : (t.select l).slots = slots := by simp [PoolTensor.slots, PoolTensor.select, hshape]
  have hin : List.Forall₂ (· < ·) [l, s, kvh, d] t.shape := by
    rw [hshape]
    exact .cons hl (.cons (hslots ▸ hs) (.cons hkvh (.cons hd .nil)))
  rw [select_addr, PoolTensor.addr, ht _ hin]
  simp only [launchAddr, Config.slotStrides, dot_cons, dot_nil]
  push_cast
  ring

lemma uniform_dataPtr {strideBytes : ℕ} {t₀ : PoolTensor} {bufs : List PoolTensor}
    (h : uniform strideBytes (t₀ :: bufs) = true) {t : PoolTensor} (ht : (t₀ :: bufs)[l]? = some t) :
    t.dataPtr = t₀.dataPtr + (l : ℤ) * strideBytes := by
  induction bufs generalizing t₀ l with
  | nil =>
    cases l with
    | zero =>
      obtain rfl : t₀ = t := by simpa using ht
      simp
    | succ l => simp at ht
  | cons t₁ bufs ih =>
    have hboth : t₁.dataPtr - t₀.dataPtr = strideBytes ∧ uniform strideBytes (t₁ :: bufs) = true := by
      simpa [uniform] using h
    cases l with
    | zero =>
      obtain rfl : t₀ = t := by simpa using ht
      simp
    | succ l =>
      rw [ih hboth.2 ht, ← hboth.1]
      push_cast
      linarith [hboth.1]

lemma aligned_layer {t₀ t : PoolTensor} {slots stride strideBytes : ℕ}
    (hshape : t.shape = [slots, c.kvHeads, c.headDim]) (ht : t.Laid c.slotStrides)
    (hsize : t.elementSize = t₀.elementSize) (hptr : t.dataPtr = t₀.dataPtr + (l : ℤ) * strideBytes)
    (hstride : l = 0 ∨ strideBytes = stride * t₀.elementSize) : Aligned c t₀ stride l t := by
  intro s hs kvh hkvh d hd
  have hslots : t.slots = slots := by simp [PoolTensor.slots, hshape]
  have hin : List.Forall₂ (· < ·) [s, kvh, d] t.shape := by
    rw [hshape]
    exact .cons (hslots ▸ hs) (.cons hkvh (.cons hd .nil))
  rw [PoolTensor.addr, ht _ hin, hsize, hptr]
  simp only [launchAddr, Config.slotStrides, dot_cons, dot_nil]
  rcases hstride with rfl | rfl
  · push_cast
    ring
  · push_cast
    ring

/-- What the runner's launch arguments are to the pools. -/
structure Base (p : Pools) (r : Runner) : Prop where
  kLayer : ∀ l < c.layers, ∃ t, p.kLayer c l = some t ∧ t.slots = r.poolSlots ∧
    Aligned c r.kLaunch r.layerStride l t
  vLayer : ∀ l < c.layers, ∃ t, p.vLayer c l = some t ∧ t.slots = p.vSlots c ∧
    Aligned c r.vLaunch r.layerStride l t

/-- The runner that the constructor leaves. -/
structure Fresh (p : Pools) (r : Runner) : Prop where
  base : Base c p r
  kRoom : c.needSlots ≤ r.poolSlots
  vRoom : c.needSlots ≤ p.vSlots c
  table : r.table = (List.range c.needSlots).map fun i : ℕ => (i : ℤ)
  tableRowLens : r.tableRowLens = List.replicate c.batch c.capacity

lemma allocate_laid (ptr : ℤ) : (allocate c ptr).Laid (c.needSlots * c.kvHeads * c.headDim :: c.slotStrides) := by
  intro index _
  have hstrides : rowMajor [c.layers, c.needSlots, c.kvHeads, c.headDim] =
      c.needSlots * c.kvHeads * c.headDim :: c.slotStrides := by
    simp [rowMajor, Config.slotStrides, mul_assoc]
  exact congrArg _ hstrides

lemma fresh_allocated (kPtr vPtr : ℤ) (h : init c (.allocated kPtr vPtr) = .ok r) :
    Fresh c (.allocated kPtr vPtr) r := by
  cases h
  exact ⟨⟨fun l hl => ⟨_, rfl, rfl, aligned_select c rfl (allocate_laid c kPtr) hl⟩,
    fun l hl => ⟨_, rfl, rfl, aligned_select c rfl (allocate_laid c vPtr) hl⟩⟩, le_rfl, le_rfl, rfl, rfl⟩

lemma fresh_tensors {k v : PoolTensor} (hfit : PoolsFit c (.tensors k v))
    (h : init c (.tensors k v) = .ok r) : Fresh c (.tensors k v) r := by
  obtain ⟨kSlots, vSlots, hkSlots, hvshape, hk, hv⟩ := hfit
  have hvSlots : Pools.vSlots c (.tensors k v) = vSlots := by simp [Pools.vSlots, hvshape]
  have hvs : v.shape[1]? = some vSlots := by simp [hvshape]
  simp only [init, hkSlots, hvs] at h
  split at h
  · cases h
  · rename_i hshape
    split at h
    · cases h
    · cases h
      have hkshape : k.shape = [c.layers, kSlots, c.kvHeads, c.headDim] := by
        rw [not_not] at hshape
        rcases hcases : k.shape with _ | ⟨a, _ | ⟨b, _⟩⟩
        · simp [hcases] at hkSlots
        · simp [hcases] at hkSlots
        · rw [hcases] at hkSlots hshape
          obtain rfl : b = kSlots := by simpa using hkSlots
          simp only [take_succ_cons, take_zero, drop_succ_cons, drop_zero,
            cons_append, nil_append, cons.injEq] at hshape
          rw [hshape.1, hshape.2]
      refine ⟨⟨fun l hl => ⟨_, rfl, ?_, aligned_select c hkshape hk hl⟩,
        fun l hl => ⟨_, rfl, ?_, aligned_select c hvshape hv hl⟩⟩, ?_, ?_, rfl, rfl⟩
      · simp [PoolTensor.slots, PoolTensor.select, hkshape, start]
      · simp [PoolTensor.slots, PoolTensor.select, hvshape, hvSlots]
      · show c.needSlots ≤ kSlots
        omega
      · omega

lemma fresh_layers {kl vl : List PoolTensor} (hfit : PoolsFit c (.layers kl vl))
    (h : init c (.layers kl vl) = .ok r) : Fresh c (.layers kl vl) r := by
  obtain ⟨_, _, _, hkRoom, hvRoom, hkl, hvl⟩ := hfit
  simp only [init] at h
  split at h
  · cases h
  · rename_i hlen
    rw [not_or, not_not, not_not] at hlen
    obtain ⟨hklen, hvlen⟩ := hlen
    split at h
    · rename_i k0 ks v0 vs
      split at h
      · rename_i huniform
        rw [Bool.and_eq_true] at huniform
        obtain ⟨hk0, hk0shape, hk0size⟩ := hkl k0 mem_cons_self
        obtain ⟨hv0, hv0shape, hv0size⟩ := hvl v0 mem_cons_self
        rw [hk0shape] at h
        cases h
        refine ⟨⟨fun l hl => ?_, fun l hl => ?_⟩, hkRoom, ?_, rfl, rfl⟩
        · obtain ⟨t, ht⟩ : ∃ t, (k0 :: ks)[l]? = some t := ⟨_, getElem?_eq_getElem (by omega)⟩
          obtain ⟨hcont, hshape, hsize⟩ := hkl t (mem_of_getElem? ht)
          exact ⟨t, ht, by simp [PoolTensor.slots, hshape, start], aligned_layer c hshape hcont
            (hsize.trans hk0size.symm) (uniform_dataPtr huniform.1 ht) (.inr rfl)⟩
        · obtain ⟨t, ht⟩ : ∃ t, (v0 :: vs)[l]? = some t := ⟨_, getElem?_eq_getElem (by omega)⟩
          obtain ⟨hcont, hshape, hsize⟩ := hvl t (mem_of_getElem? ht)
          refine ⟨t, ht, by simp [PoolTensor.slots, hshape, hv0shape, Pools.vSlots], ?_⟩
          rcases eq_zero_or_pos l with rfl | hpos
          · obtain rfl : v0 = t := by simpa using ht
            exact aligned_layer c hshape hcont rfl (uniform_dataPtr huniform.2 ht) (.inl rfl)
          · have hmany : ¬ c.layers ≤ 1 := by omega
            have hsize := hsize.resolve_left hmany
            have hv0size := hv0size.resolve_left hmany
            refine aligned_layer c hshape hcont (hsize.trans hv0size.symm) (uniform_dataPtr huniform.2 ht) (.inr ?_)
            show k0.numel * k0.elementSize = k0.numel * v0.elementSize
            rw [hv0size, hk0size]
        · simpa [Pools.vSlots, PoolTensor.slots, hv0shape] using hvRoom
      · cases h
    · cases h

/-- **The constructor** gets the addresses of fitting pools right. -/
theorem init_fresh {p : Pools} (hfit : PoolsFit c p) (h : init c p = .ok r) : Fresh c p r := by
  cases p with
  | allocated kPtr vPtr => exact fresh_allocated c kPtr vPtr h
  | tensors k v => exact fresh_tensors c hfit h
  | layers kl vl => exact fresh_layers c hfit h

end

/-! ## Installed tables -/

section

structure Installed where
  cols : ℕ
  data : List ℤ

/-- Entry `i` of row `b`. -/
def Installed.entry (T : Installed) (b i : ℕ) : Option ℤ :=
  if i < T.cols then T.data[b * T.cols + i]? else none

/-- The default table. -/
def Installed.initial : Installed := ⟨c.capacity, (List.range c.needSlots).map fun i : ℕ => (i : ℤ)⟩

open Installed (initial)

/-- The table of a call that succeeded. -/
def installedOf (T : Installed) : SlotArg → Installed
  | .unreadable => T
  | .tensor t => ⟨t.rows.getD 1 0, t.data⟩

/-- The checks pass and the row lengths are recorded: `n` entries a row. -/
structure Records (r : Runner) (t : SlotTensor) (n : ℕ) (rest : List ℕ) : Prop where
  oneRow : ¬ (t.shape.length = 1 ∧ c.batch ≠ 1)
  rows : t.rows = c.batch :: n :: rest
  nonempty : t.data.length ≠ 0
  below : t.max < r.poolSlots

/-- The table is then installed; otherwise the call raises. -/
def Installs (t : SlotTensor) (n : ℕ) (rest : List ℕ) : Prop :=
  n ≤ c.capacity ∧ (n < c.capacity → rest = [] ∧ t.onHost = true)

/-- What the runner keeps as its table. -/
def stored (t : SlotTensor) (n : ℕ) : List ℤ := if n < c.capacity then padded c n t.data else t.data

lemma setSlotTable_cases (r : Runner) (a : SlotArg) :
    (∃ e, setSlotTable c r a = (r, some e)) ∨
    ∃ t n rest, a = .tensor t ∧ Records c r t n rest ∧
      ((Installs c t n rest ∧ setSlotTable c r a =
          ({ r with tableRowLens := replicate c.batch n, table := stored c t n }, none)) ∨
        (¬ Installs c t n rest ∧ ∃ e, setSlotTable c r a =
          ({ r with tableRowLens := replicate c.batch n }, some e))) := by
  cases a with
  | unreadable => exact .inl ⟨_, rfl⟩
  | tensor t =>
    by_cases hone : t.shape.length = 1 ∧ c.batch ≠ 1
    · exact .inl ⟨_, by simp only [setSlotTable]; rw [if_pos hone]⟩
    · rcases hrows : t.rows with _ | ⟨rows, _ | ⟨n, rest⟩⟩
      · exact .inl ⟨.other, by simp only [setSlotTable, hrows]; rw [if_neg hone]⟩
      · exact .inl ⟨.other, by simp only [setSlotTable, hrows]; rw [if_neg hone]⟩
      · simp only [setSlotTable, hrows]
        rw [if_neg hone]
        by_cases hbatch : rows ≠ c.batch
        · exact .inl ⟨_, by rw [if_pos hbatch]⟩
        · by_cases hempty : t.data.length = 0
          · exact .inl ⟨_, by rw [if_neg hbatch, if_pos hempty]⟩
          · by_cases hmax : (r.poolSlots : ℤ) ≤ t.max
            · exact .inl ⟨_, by rw [if_neg hbatch, if_neg hempty, if_pos hmax]⟩
            · rw [if_neg hbatch, if_neg hempty, if_neg hmax]
              rw [not_not] at hbatch
              refine .inr ⟨t, n, rest, rfl, ⟨hone, hbatch ▸ hrows, hempty, not_le.mp hmax⟩, ?_⟩
              rcases lt_trichotomy n c.capacity with hlt | heq | hgt
              · by_cases hpad : rest = [] ∧ t.onHost = true
                · exact .inl ⟨⟨hlt.le, fun _ => hpad⟩, by rw [if_pos hlt, if_pos hpad, stored, if_pos hlt]⟩
                · exact .inr ⟨fun h => hpad (h.2 hlt), _, by rw [if_pos hlt, if_neg hpad]⟩
              · have hnot : ¬ n < c.capacity := by omega
                have hnot' : ¬ c.capacity < n := by omega
                exact .inl ⟨⟨heq.le, fun h => absurd h hnot⟩, by
                  rw [if_neg hnot, if_neg hnot', stored, if_neg hnot]⟩
              · have hnot : ¬ n < c.capacity := by omega
                exact .inr ⟨fun h => absurd h.1 (by omega), _, by rw [if_neg hnot, if_pos hgt]⟩

lemma le_max {t : SlotTensor} {s : ℤ} (h : s ∈ t.data) : s ≤ t.max :=
  (max?_eq_some_iff.mp max?_cons').2 s (mem_cons_of_mem _ h)

variable {r : Runner} {n b : ℕ} {p : Pools}

lemma Records.length {t : SlotTensor} (h : Records c r t n []) : t.data.length = c.batch * n := by
  have hrows := h.rows
  unfold SlotTensor.rows at hrows
  rw [t.length_eq]
  split at hrows
  · simp only [cons.injEq] at hrows
    rw [← hrows.1, hrows.2]
    simp
  · rw [hrows]
    simp

lemma padded_entry {data : List ℤ} (hlen : data.length = c.batch * n) (hn : n ≤ c.capacity) {i : ℕ}
    (hb : b < c.batch) (hi : i < n) : (padded c n data)[b * c.capacity + i]? = data[b * n + i]? := by
  have hend : ∀ b < c.batch, b * n + n ≤ data.length := by
    intro b hb
    rw [hlen, ← Nat.succ_mul]
    exact Nat.mul_le_mul_right n hb
  have hrow : ∀ b < c.batch,
      ((data.drop (b * n)).take n ++ replicate (c.capacity - n) (0 : ℤ)).length = c.capacity := by
    intro b hb
    have := hend b hb
    simp only [length_append, length_take, length_drop, length_replicate]
    omega
  unfold padded
  rw [Blocks.getElem?_flatMap_range hrow hb (hi.trans_le hn), getElem?_append_left,
    getElem?_take_of_lt hi, getElem?_drop]
  have := hend b hb
  simp only [length_take, length_drop]
  omega

lemma stored_entry {t : SlotTensor} (h : Records c r t n []) (hn : n ≤ c.capacity)
    {i : ℕ} (hb : b < c.batch) (hi : i < n) : (stored c t n)[b * c.capacity + i]? = t.data[b * n + i]? := by
  unfold stored
  split
  · exact padded_entry c h.length hn hb hi
  · obtain rfl : n = c.capacity := by omega
    rfl

/-! ## Runs of calls -/

/-- A runner and the table its caller has installed. -/
abbrev Session := Runner × Installed

/-- One call of `set_slot_table`. -/
def call (s : Session) (a : SlotArg) : Session :=
  match setSlotTable c s.1 a with
  | (r, none) => (r, installedOf s.2 a)
  | (r, some _) => (r, s.2)

/-- A call that leaves the addresses in order.  If its checks pass and the table is installed, it is a
rectangle of slots of both pools; if it is not installed, a step accepts as many positions as before. -/
def CallFits (p : Pools) (r : Runner) (a : SlotArg) : Prop :=
  ∀ t n rest, a = .tensor t → Records c r t n rest →
    (Installs c t n rest → rest = [] ∧ ∀ s ∈ t.data, 0 ≤ s ∧ s < p.vSlots c) ∧
      (¬ Installs c t n rest → ∀ m ∈ r.tableRowLens, min n c.capacity = min m c.capacity)

/-- Every call of the run fits. -/
def CallsFit (p : Pools) : Session → List SlotArg → Prop
  | _, [] => True
  | s, a :: args => CallFits c p s.1 a ∧ CallsFit p (call c s a) args

structure Tracks (p : Pools) (r : Runner) (T : Installed) : Prop where
  base : Base c p r
  lens : ∃ m, r.tableRowLens = List.replicate c.batch m ∧ min m c.capacity = T.cols
  entry : ∀ b < c.batch, ∀ i < T.cols, ∃ s : ℕ, T.entry b i = some (s : ℤ) ∧ tableEntry c r b i = (s : ℤ) ∧
    s < r.poolSlots ∧ s < p.vSlots c

lemma tracks_init (h : Fresh c p r) : Tracks c p r (initial c) := by
  refine ⟨h.base, ⟨c.capacity, h.tableRowLens, min_self _⟩, fun b hb i hi => ?_⟩
  have hi : i < c.capacity := hi
  have hlt : b * c.capacity + i < c.needSlots := by
    have hle := Blocks.block_le hb c.capacity
    rw [Config.needSlots, mul_comm c.capacity]
    omega
  have hentry : ((range c.needSlots).map fun i : ℕ => (i : ℤ))[b * c.capacity + i]? =
      some ((b * c.capacity + i : ℕ) : ℤ) := by
    rw [getElem?_map, getElem?_range hlt]
    rfl
  refine ⟨b * c.capacity + i, ?_, ?_, hlt.trans_le h.kRoom, hlt.trans_le h.vRoom⟩
  · exact (if_pos hi).trans hentry
  · rw [tableEntry, h.table, getD_eq_getElem?_getD, hentry]
    rfl

lemma tracks_call {s : Session} (h : Tracks c p s.1 s.2) {a : SlotArg}
    (hfit : CallFits c p s.1 a) : Tracks c p (call c s a).1 (call c s a).2 := by
  obtain ⟨r, T⟩ := s
  rcases setSlotTable_cases c r a with ⟨e, hcall⟩ | ⟨t, n, rest, rfl, hrec, hinst | hraise⟩
  · simp only [call, hcall]
    exact h
  · obtain ⟨hinst, hcall⟩ := hinst
    obtain ⟨rfl, hslots⟩ := (hfit t n rest rfl hrec).1 hinst
    have hcols : t.rows.getD 1 0 = n := by simp [hrec.rows]
    simp only [call, hcall, installedOf, hcols]
    refine ⟨⟨h.base.kLayer, h.base.vLayer⟩, ⟨n, rfl, min_eq_left hinst.1⟩, fun b hb i hi => ?_⟩
    have hi : i < n := hi
    have hlt : b * n + i < t.data.length := by
      have hle := Blocks.block_le hb n
      rw [hrec.length]
      omega
    have hmem := getElem_mem hlt
    obtain ⟨hnonneg, hv⟩ := hslots _ hmem
    have hk := (le_max hmem).trans_lt hrec.below
    have hcast := Int.toNat_of_nonneg hnonneg
    refine ⟨(t.data[b * n + i]).toNat, (if_pos hi).trans ?_, ?_, (Int.toNat_lt hnonneg).mpr hk,
      (Int.toNat_lt hnonneg).mpr hv⟩
    · rw [getElem?_eq_getElem hlt, hcast]
    · rw [tableEntry, getD_eq_getElem?_getD, stored_entry c hrec hinst.1 hb hi, getElem?_eq_getElem hlt, hcast]
      rfl
  · obtain ⟨hnot, e, hcall⟩ := hraise
    obtain ⟨m, hlens, hcols⟩ := h.lens
    have hsame := (hfit t n rest rfl hrec).2 hnot m (by
      rw [hlens]
      exact mem_replicate.mpr ⟨Nat.one_le_iff_ne_zero.mp c.batch_pos, rfl⟩)
    simp only [call, hcall]
    exact ⟨⟨h.base.kLayer, h.base.vLayer⟩, ⟨n, rfl, hsame.trans hcols⟩, h.entry⟩

lemma tracks_run {s : Session} (h : Tracks c p s.1 s.2) {args : List SlotArg}
    (hfit : CallsFit c p s args) : Tracks c p (args.foldl (call c) s).1 (args.foldl (call c) s).2 := by
  induction args generalizing s with
  | nil => exact h
  | cons a args ih => exact ih (tracks_call c h hfit.1) hfit.2

/-! ## Steps -/

/-- The positions that `run` accepts. -/
def Accepts (r : Runner) (pos : List ℤ) : Prop := runCheck c r pos = .ok ()

/-- Every row of an accepted step addresses, up to its position, the slots that the installed table names,
in every layer of both pools and within their slots. -/
def Addresses (p : Pools) (r : Runner) (T : Installed) : Prop :=
  ∀ pos, Accepts c r pos → ∀ b < c.batch, ∀ i : ℕ, (i : ℤ) ≤ pos.getD b 0 → ∀ l < c.layers,
    ∃ s : ℕ, T.entry b i = some (s : ℤ) ∧ ∃ kt vt, p.kLayer c l = some kt ∧ p.vLayer c l = some vt ∧
      s < kt.slots ∧ s < vt.slots ∧ ∀ kvh < c.kvHeads, ∀ d < c.headDim,
        kAddr c r l b i kvh d = kt.addr [s, kvh, d] ∧ vAddr c r l b i kvh d = vt.addr [s, kvh, d]

/-- No step can tell the runners apart. -/
def SameBehaviour (r r' : Runner) : Prop :=
  (∀ pos, Accepts c r' pos ↔ Accepts c r pos) ∧ ∀ l b i kvh d,
    kAddr c r' l b i kvh d = kAddr c r l b i kvh d ∧ vAddr c r' l b i kvh d = vAddr c r l b i kvh d

lemma forM_ok {β : Type} {f : β → Except Raised Unit} {xs : List β} :
    xs.forM f = .ok () ↔ ∀ x ∈ xs, f x = .ok () := by
  induction xs with
  | nil => exact ⟨fun _ x hx => absurd hx not_mem_nil, fun _ => rfl⟩
  | cons x xs ih =>
    have hcons : (x :: xs).forM f = f x >>= fun _ => xs.forM f := rfl
    rw [hcons, forall_mem_cons, ← ih]
    cases hx : f x with
    | ok u => exact ⟨fun h => ⟨rfl, h⟩, fun h => h.2⟩
    | error e => exact ⟨fun h => (nomatch h), fun h => (nomatch h.1)⟩

lemma checkRow_ok {pos : List ℤ} : checkRow c r pos b = .ok () ↔
      0 ≤ pos.getD b 0 ∧ pos.getD b 0 < c.capacity ∧ pos.getD b 0 < r.tableRowLens.getD b 0 := by
  unfold checkRow
  by_cases hrange : 0 ≤ pos.getD b 0 ∧ pos.getD b 0 < c.capacity
  · rw [if_neg (not_not.mpr hrange)]
    by_cases hlen : (r.tableRowLens.getD b 0 : ℤ) ≤ pos.getD b 0
    · rw [if_pos hlen]
      exact ⟨fun h => (nomatch h), fun h => absurd h.2.2 (not_lt.mpr hlen)⟩
    · rw [if_neg hlen]
      exact ⟨fun _ => ⟨hrange.1, hrange.2, not_le.mp hlen⟩, fun _ => rfl⟩
  · rw [if_pos hrange]
    exact ⟨fun h => (nomatch h), fun h => absurd ⟨h.1, h.2.1⟩ hrange⟩

lemma getD_replicate {m : ℕ} (hb : b < c.batch) : (replicate c.batch m).getD b 0 = m := by
  rw [getD_eq_getElem?_getD, getElem?_replicate_of_lt hb]
  rfl

/-- The positions that a step accepts, where all rows have `m` entries. -/
lemma accepts_iff {m : ℕ} (hlens : r.tableRowLens = replicate c.batch m) {pos : List ℤ} : Accepts c r pos ↔
      pos.length = c.batch ∧ ∀ b < c.batch, 0 ≤ pos.getD b 0 ∧ pos.getD b 0 < (min m c.capacity : ℕ) := by
  unfold Accepts runCheck
  by_cases hlen : pos.length = c.batch
  · rw [if_neg (not_not.mpr hlen), forM_ok]
    refine ⟨fun h => ⟨hlen, fun b hb => ?_⟩, fun h b hb => ?_⟩
    · obtain ⟨h₀, hcap, hm⟩ := (checkRow_ok c).mp (h b (mem_range.mpr hb))
      rw [hlens, getD_replicate c hb] at hm
      exact ⟨h₀, by rw [Nat.cast_min]; exact lt_min hm hcap⟩
    · obtain ⟨h₀, hmin⟩ := h.2 b (mem_range.mp hb)
      rw [Nat.cast_min, lt_min_iff] at hmin
      rw [checkRow_ok, hlens, getD_replicate c (mem_range.mp hb)]
      exact ⟨h₀, hmin.2, hmin.1⟩
  · rw [if_pos hlen]
    exact ⟨fun h => (nomatch h), fun h => absurd h.1 hlen⟩

lemma addresses_of_tracks {T : Installed} (h : Tracks c p r T) : Addresses c p r T := by
  intro _ hpos b hb i hi l hl
  obtain ⟨m, hlens, hcols⟩ := h.lens
  obtain ⟨-, hbound⟩ := ((accepts_iff c hlens).mp hpos).2 b hb
  obtain ⟨s, hentry, htable, hk, hv⟩ := h.entry b hb i (by omega)
  obtain ⟨kt, hkt, hkslots, hkaligned⟩ := h.base.kLayer l hl
  obtain ⟨vt, hvt, hvslots, hvaligned⟩ := h.base.vLayer l hl
  have hk : s < kt.slots := hkslots ▸ hk
  have hv : s < vt.slots := hvslots ▸ hv
  refine ⟨s, hentry, kt, vt, hkt, hvt, hk, hv, fun kvh hkvh d hd => ⟨?_, ?_⟩⟩
  · rw [kAddr, htable]
    exact hkaligned s hk kvh hkvh d hd
  · rw [vAddr, htable]
    exact hvaligned s hv kvh hkvh d hd

/-- A fitting call that raises is not seen by any step. -/
lemma raise_unseen {T : Installed} (h : Tracks c p r T) {a : SlotArg}
    (hfit : CallFits c p r a) {r' : Runner} {e : Raised} (hcall : setSlotTable c r a = (r', some e)) :
    SameBehaviour c r r' := by
  rcases setSlotTable_cases c r a with ⟨_, hcase⟩ | ⟨t, n, rest, rfl, hrec, ⟨_, hcase⟩ | ⟨hnot, _, hcase⟩⟩
  · rw [hcase] at hcall
    cases hcall
    exact ⟨fun _ => Iff.rfl, fun _ _ _ _ _ => ⟨rfl, rfl⟩⟩
  · rw [hcase] at hcall
    cases hcall
  · rw [hcase] at hcall
    cases hcall
    obtain ⟨m, hlens, hcols⟩ := h.lens
    have hsame := (hfit t n rest rfl hrec).2 hnot m (by
      rw [hlens]
      exact mem_replicate.mpr ⟨Nat.one_le_iff_ne_zero.mp c.batch_pos, rfl⟩)
    refine ⟨fun pos => ?_, fun _ _ _ _ _ => ⟨rfl, rfl⟩⟩
    rw [accepts_iff c (r := { r with tableRowLens := replicate c.batch n }) (m := n) rfl, accepts_iff c hlens, hsame]

/-- **KV addressing**: over fitting pools and any run of fitting calls, successful or raising, every step
that is accepted addresses the slots of the last installed table, and a fitting call that raises changes
nothing that a step can see. -/
theorem kv_addressing {p : Pools} (hp : PoolsFit c p) {r : Runner} (hinit : init c p = .ok r)
    {args : List SlotArg} (hargs : CallsFit c p (r, initial c) args) :
    Addresses c p (args.foldl (call c) (r, initial c)).1 (args.foldl (call c) (r, initial c)).2 ∧
      ∀ a r' e, CallFits c p (args.foldl (call c) (r, initial c)).1 a →
        setSlotTable c (args.foldl (call c) (r, initial c)).1 a = (r', some e) →
        SameBehaviour c (args.foldl (call c) (r, initial c)).1 r' := by
  have htracks := tracks_run c (s := (r, initial c)) (tracks_init c (init_fresh c hp hinit)) hargs
  exact ⟨addresses_of_tracks c htracks, fun a r' e hfit hcall => raise_unseen c htracks hfit hcall⟩

end

/-! ## A small runner -/

/-- One layer, one head of one dimension, one row of two positions. -/
def small : Config where
  layers := 1
  kvHeads := 1
  headDim := 1
  batch := 1
  capacity := 2
  batch_pos := Nat.le_refl 1

/-- The slot table `[[1]]`. -/
def goodTable : SlotTensor where
  shape := [1, 1]
  data := [1]
  onHost := true
  length_eq := rfl

/-- The slot table `[[-1]]`. -/
def negativeTable : SlotTensor where
  shape := [1, 1]
  data := [-1]
  onHost := true
  length_eq := rfl

def smallRunner : Runner :=
  start small 2 (allocate small 0) (allocate small 0) 2

lemma init_small : init small (.allocated 0 0) = .ok smallRunner := rfl

lemma goodTable_fits : CallsFit small (.allocated 0 0) (smallRunner, Installed.initial small)
    [.tensor goodTable] := by
  refine ⟨fun t n rest ht hrec => ?_, trivial⟩
  obtain rfl : goodTable = t := by simpa using ht
  have hrows := hrec.rows
  obtain ⟨-, rfl, rfl⟩ := hrows
  refine ⟨fun _ => ⟨rfl, fun s hs => ?_⟩, fun hnot => absurd ?_ hnot⟩
  · obtain rfl : s = 1 := by simpa [goodTable] using hs
    decide
  · exact ⟨by decide, fun _ => ⟨rfl, rfl⟩⟩

theorem kv_addressing_goodTable : Addresses small (.allocated 0 0) ([SlotArg.tensor goodTable].foldl (call small)
        (smallRunner, Installed.initial small)).1
      ([SlotArg.tensor goodTable].foldl (call small) (smallRunner, Installed.initial small)).2 :=
  (kv_addressing small (p := .allocated 0 0) trivial init_small goodTable_fits).1

/-- The negative slot is accepted, and the step at position 0 addresses four bytes before the pool. -/
theorem negative_slot_before_pool : init small (.allocated 0 0) = .ok smallRunner ∧
      (setSlotTable small smallRunner (.tensor negativeTable)).2 = none ∧
      runCheck small (setSlotTable small smallRunner (.tensor negativeTable)).1 [0] = .ok () ∧
      kAddr small (setSlotTable small smallRunner (.tensor negativeTable)).1 0 0 0 0 0 = -4 ∧
      ¬ Addresses small (.allocated 0 0) (call small (smallRunner, Installed.initial small) (.tensor negativeTable)).1
        (call small (smallRunner, Installed.initial small) (.tensor negativeTable)).2 := by
  refine ⟨rfl, rfl, rfl, rfl, fun h => ?_⟩
  obtain ⟨s, hentry, -⟩ := h [0] rfl 0 one_pos 0 le_rfl 0 one_pos
  have hneg : (s : ℤ) = -1 := (Option.some.inj hentry).symm
  omega

end VKernels.Megakernel
