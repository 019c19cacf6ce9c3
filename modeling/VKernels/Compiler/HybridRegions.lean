import VKernels.Compiler.HybridKernel

/-!
# Regions of the hybrid workspace

Where the phases of the hybrid megakernel load and store.

* `Region` — a part of a buffer, or all of it; `regionsApart`, `covers` are decided by the numbers.
* `gemvFp8_within`, `hScores_stores`, … — the footprints of the calls.
* `rHiddenA`, …, `rProbs` — the regions of the host.

## Results

* `fullAttention_sound`, `linearAttention_sound`, `mlp_sound`, `layer_sound` — the phases of a layer: only the rope phase
  of full attention stores to the caches, to the row of its position.
* `megakernel_sound` — all phases of a launch, for every capacity up to 512.
-/

namespace VKernels.Hybrid

open BarrierPhases
open OwnedTasks (mem_storeRow mem_storeRows)
open LaneLaunch (nextPowerOf2)
open List
open Prod (ext_iff fst snd)

/-! ## Regions -/

inductive Region where
  | whole (b : Buffer)
  | part (b : Buffer) (start len : ℕ)
  deriving DecidableEq

namespace Region

def cells : Region → Set Cell
  | whole b => {c | c.1 = b}
  | part b start len => span b start len

/-- The two have no element in common. -/
def apart : Region → Region → Bool
  | whole b, whole b' => b ≠ b'
  | whole b, part b' _ _ => b ≠ b'
  | part b _ _, whole b' => b ≠ b'
  | part b s n, part b' s' n' => b ≠ b' ∨ s + n ≤ s' ∨ s' + n' ≤ s

lemma disjoint_of_apart {r r' : Region} (h : r.apart r' = true) : Disjoint r.cells r'.cells := by
  rw [Set.disjoint_left]
  intro c hc hc'
  cases r <;> cases r' <;> simp only [apart, cells, span, decide_eq_true_eq, Set.mem_ofPred_eq] at h hc hc'
  · exact h (hc.symm.trans hc')
  · exact h (hc.symm.trans hc'.1)
  · exact h (hc.1.symm.trans hc')
  · rcases h with h | h
    · exact h (hc.1.symm.trans hc'.1)
    · omega

end Region

open Region (part whole)

def cells (rs : List Region) : Set Cell := {c | ∃ r ∈ rs, c ∈ r.cells}

def regionsApart (rs ss : List Region) : Bool := rs.all fun r => ss.all r.apart

variable {rs W : List Region} {b : Buffer} {V : Type} {ph : Phase Cell V} {P : ℕ}

lemma disjoint_cells {ss : List Region} (h : regionsApart rs ss = true) : Disjoint (cells rs) (cells ss) := by
  rw [Set.disjoint_left]
  rintro c ⟨r, hr, hc⟩ ⟨s, hs, hc'⟩
  have happart := all_eq_true.mp (all_eq_true.mp h r hr) s hs
  exact Set.disjoint_left.mp (Region.disjoint_of_apart happart) hc hc'

/-- Some region holds the elements. -/
def covers (rs : List Region) (b : Buffer) (start len : ℕ) : Bool :=
  rs.any fun
    | .whole b' => b = b'
    | .part b' start' len' => b = b' ∧ start' ≤ start ∧ start + len ≤ start' + len'

lemma span_subset_cells {start len : ℕ} (h : covers rs b start len = true) : span b start len ⊆ cells rs := by
  obtain ⟨r, hr, hcovers⟩ := any_eq_true.mp h
  rintro c ⟨hb, hlow, hhigh⟩
  refine ⟨r, hr, ?_⟩
  cases r with
  | whole b' =>
    simp only [decide_eq_true_eq] at hcovers
    exact hb.trans hcovers
  | part b' start' len' =>
    simp only [decide_eq_true_eq] at hcovers
    exact ⟨hb.trans hcovers.1, by omega, by omega⟩

lemma part_subset {start len start' len' : ℕ} (h : part b start' len' ∈ rs)
    (hlow : start' ≤ start) (hhigh : start + len ≤ start' + len') : span b start len ⊆ cells rs := by
  rintro c ⟨hb, hc, hc'⟩
  exact ⟨_, h, hb, by omega, by omega⟩

lemma mem_cells_whole (h : whole b ∈ rs) {c : Cell} (hc : c.1 = b) : c ∈ cells rs := ⟨_, h, hc⟩

/-- The calls load in `R` and store in `W`. -/
def Separate {V : Type} (R W : List Region) (ph : Phase Cell V) : Prop :=
  (∀ c ∈ ph.calls, c.Within (cells R) (cells W)) ∧ regionsApart R W = true

lemma Separate.raceFree {R : List Region} (h : Separate R W ph)
    (hP : 0 < P) : RaceFree P ph := raceFree_of_within hP h.1 (disjoint_cells h.2)

lemma Separate.writes {R : List Region} (h : Separate R W ph) : ph.writes ⊆ cells W := writes_of_within h.1

lemma Separate.loads {R : List Region} (h : Separate R W ph) (hP : 0 < P)
    {id : ℕ × ℕ} (hid : id ∈ ph.ids P) : (ph.taskAt id).loads ⊆ cells R := by
  obtain ⟨call, hcall, hlt⟩ := (Phase.mem_ids hP).mp hid
  have heq : ph.taskAt id = call.task id.2 := Phase.taskAt_eq hcall
  rw [heq]
  exact (h.1 call (mem_of_getElem? hcall)).loads _ hlt

lemma cells_singleton (r : Region) : cells [r] = r.cells := by
  ext c
  simp [cells]

/-! ## Stores -/

section

variable {V : Type} {t : Task Cell V} {b : Buffer} {start len : ℕ}

/-- A task all of whose stores lie in a span. -/
lemma writes_subset (h : ∀ m, ∀ st ∈ t.stores m, st.1.1 = b ∧ start ≤ st.1.2 ∧ st.1.2 < start + len) :
    t.writes ⊆ span b start len := by
  rintro c ⟨m, v, hmem⟩
  exact h m _ hmem

lemma once_within {R W : List Region} (hloads : t.loads ⊆ cells R) (hwrites : t.writes ⊆ cells W) :
    (once t).Within (cells R) (cells W) := ⟨fun _ _ => hloads, fun _ _ => hwrites⟩

end

section

variable {V : Type} [Field V] {f : Maths V} {R W : List Region}

omit [Field V] in
lemma hEmbed_within {token : ℕ} {emb : ℕ → V} {out C BC : ℕ} (hW : covers W .ws out C = true) :
    (once (hEmbed token emb out C BC)).Within (cells R) (cells W) := by
  refine once_within (Set.empty_subset _) ((writes_subset fun m st hst => ?_).trans (span_subset_cells hW))
  obtain ⟨i, -, hi, rfl⟩ := mem_laneStores.mp hst
  exact mem_span hi

variable {x y K H D kCache vCache pos NKV SCAP : ℕ} {eps : V} {wt : ℕ → V} {m : Mem V} {st : Cell × V}

lemma hRms_within {g : ℕ → V} {C BC : ℕ} (hR : covers R .ws x C = true)
    (hW : covers W .ws y C = true) : (once (hRms f x g y C BC eps)).Within (cells R) (cells W) := by
  refine once_within (span_subset_cells hR) ((writes_subset fun m st hst => ?_).trans (span_subset_cells hW))
  obtain ⟨i, -, hi, rfl⟩ := mem_laneStores.mp hst
  exact mem_span hi

lemma gemvFp8_within {sc : ℕ → V} {N : ℕ} (hR : covers R .ws x (K / 128 * 128) = true)
    (hW : covers W .ws y (N / 16 * 16) = true) : (gemvFp8 x wt sc y K N).Within (cells R) (cells W) := by
  refine ⟨fun _ _ => span_subset_cells hR, fun t ht => ?_⟩
  have ht : t < N / 16 := ht
  refine (writes_subset fun m st hst => ?_).trans (span_subset_cells hW)
  obtain ⟨i, hi, rfl⟩ := mem_storeRow.mp hst
  exact mem_span (by omega)

lemma hGemvBf16_within {dst : Buffer} {n : ℕ}
    (hR : covers R .ws x (Grouping.blocksFor 256 K * 256) = true) (hW : covers W dst y (n * 16) = true) :
    Call.Within (cells R) (cells W) ⟨n, hGemvBf16 x wt dst y K⟩ := by
  refine ⟨fun _ _ => span_subset_cells hR, fun t ht => ?_⟩
  have ht : t < n := ht
  refine (writes_subset fun m st hst => ?_).trans (span_subset_cells hW)
  obtain ⟨i, hi, rfl⟩ := mem_storeRow.mp hst
  exact mem_span (by omega)

lemma hGemvBf16Small_within {N : ℕ}
    (hR : covers R .ws x (Grouping.blocksFor 256 K * 256) = true) (hW : covers W .ws y N = true) :
    (once (hGemvBf16Small x wt y K N)).Within (cells R) (cells W) := by
  refine once_within (span_subset_cells hR) ((writes_subset fun m st hst => ?_).trans (span_subset_cells hW))
  obtain ⟨i, -, hi, rfl⟩ := mem_laneStores.mp hst
  exact mem_span hi

lemma hAdd_within {a b C BC : ℕ} (ha : covers R .ws a C = true) (hb : covers R .ws b C = true)
    (hW : covers W .ws y C = true) : (once (hAdd (V := V) a b y C BC)).Within (cells R) (cells W) := by
  refine once_within (Set.union_subset (span_subset_cells ha) (span_subset_cells hb))
    ((writes_subset fun m st hst => ?_).trans (span_subset_cells hW))
  obtain ⟨i, -, hi, rfl⟩ := mem_laneStores.mp hst
  exact mem_span hi

lemma hSwiglu_within {gu F : ℕ} (hg : covers R .ws gu F = true) (hu : covers R .ws (gu + F) F = true)
    (hW : covers W .ws y F = true) : (once (hSwiglu f gu y F)).Within (cells R) (cells W) := by
  refine once_within (Set.union_subset (span_subset_cells hg) (span_subset_cells hu))
    ((writes_subset fun m st hst => ?_).trans (span_subset_cells hW))
  dsimp only [hSwiglu] at hst
  rw [mem_blockStores (by omega)] at hst
  obtain ⟨i, hi, rfl⟩ := hst
  exact mem_span hi

lemma hQknorm_stores {qkv : ℕ} {qn kn : ℕ → V} {out : ℕ} {t : ℕ}
    (h : st ∈ (hQknorm f qkv qn kn out H D eps t).stores m) :
    ∃ i < D, st.1 = (.ws, out + t * D + i) ∧ t < H ∨ st.1 = (.ws, out + H * D + t * D + i) ∧ t < H ∨
      st.1 = (.ws, out + 2 * H * D + (t - H) * D + i) ∧ H ≤ t := by
  unfold hQknorm at h
  by_cases ht : t < H
  · rw [if_pos ht] at h
    rcases mem_append.mp h with h | h
    · obtain ⟨i, hi, rfl⟩ := mem_storeRow.mp h
      exact ⟨i, hi, .inl ⟨rfl, ht⟩⟩
    · obtain ⟨i, hi, rfl⟩ := mem_storeRow.mp h
      exact ⟨i, hi, .inr (.inl ⟨rfl, ht⟩)⟩
  · rw [if_neg ht] at h
    obtain ⟨i, hi, rfl⟩ := mem_storeRow.mp h
    exact ⟨i, hi, .inr (.inr ⟨rfl, not_lt.mp ht⟩)⟩

lemma hRopeAppend_stores {post : ℕ} {cos sin : ℕ → V} {vSrc slot ROT t : ℕ} (hrot : ROT / 2 + ROT / 2 ≤ D)
    (h : st ∈ (hRopeAppend post cos sin kCache vSrc vCache pos slot H NKV D ROT t).stores m) :
    (∃ i < ROT / 2 + ROT / 2, st.1 = (.ws, post + t * D + i) ∧ t < H) ∨
    (∃ i < D, st.1 = (.kCache, kCache + (slot * (NKV * D) + ((t - H) * D + i))) ∧ H ≤ t ∧ t < H + NKV) ∨
    ∃ i < D, st.1 = (.vCache, vCache + (slot * (NKV * D) + ((t - H - NKV) * D + i))) ∧ H + NKV ≤ t := by
  unfold hRopeAppend at h
  by_cases ht : t < H
  · rw [if_pos ht] at h
    rcases mem_append.mp h with h | h
    · obtain ⟨i, hi, rfl⟩ := mem_storeRow.mp h
      exact .inl ⟨i, by omega, rfl, ht⟩
    · obtain ⟨i, hi, rfl⟩ := mem_storeRow.mp h
      exact .inl ⟨ROT / 2 + i, by omega, rfl, ht⟩
  · rw [if_neg ht] at h
    have hle : H ≤ t := not_lt.mp ht
    by_cases ht' : t < H + NKV
    · rw [if_pos ht'] at h
      refine .inr (.inl ?_)
      rcases mem_append.mp h with h | h
      · rcases mem_append.mp h with h | h
        · obtain ⟨i, hi, rfl⟩ := mem_storeRow.mp h
          exact ⟨i, by omega, rfl, hle, ht'⟩
        · obtain ⟨i, hi, rfl⟩ := mem_storeRow.mp h
          exact ⟨ROT / 2 + i, by omega, rfl, hle, ht'⟩
      · obtain ⟨i, hi, hst⟩ := mem_flatMap.mp h
        unfold MaskedStores.storeIf at hst
        by_cases hrot : ROT ≤ i
        · rw [if_pos hrot, mem_singleton] at hst
          exact ⟨i, mem_range.mp hi, by rw [hst], hle, ht'⟩
        · rw [if_neg hrot] at hst
          cases hst
    · rw [if_neg ht'] at h
      obtain ⟨i, hi, rfl⟩ := mem_storeRow.mp h
      exact .inr (.inr ⟨i, hi, rfl, not_lt.mp ht'⟩)

lemma hRopeAppend_loads {post : ℕ} {cos sin : ℕ → V} {vSrc slot ROT t : ℕ} {c : Cell}
    (h : c ∈ (hRopeAppend post cos sin kCache vSrc vCache pos slot H NKV D ROT t).loads) :
    c.1 = .ws ∧ (t < H ∧ post + t * D ≤ c.2 ∧ c.2 < post + t * D + (ROT / 2 + ROT / 2) ∨
      H ≤ t ∧ t < H + NKV ∧ post + 2 * H * D + (t - H) * D ≤ c.2 ∧
        c.2 < post + 2 * H * D + (t - H) * D + max (ROT / 2 + ROT / 2) D ∨
      H + NKV ≤ t ∧ vSrc + (t - H - NKV) * D ≤ c.2 ∧ c.2 < vSrc + (t - H - NKV) * D + D) := by
  unfold hRopeAppend at h
  by_cases ht : t < H
  · rw [if_pos ht] at h
    exact ⟨h.1, .inl ⟨ht, h.2.1, h.2.2⟩⟩
  · rw [if_neg ht] at h
    by_cases ht' : t < H + NKV
    · rw [if_pos ht'] at h
      exact ⟨h.1, .inr (.inl ⟨not_lt.mp ht, ht', h.2.1, h.2.2⟩)⟩
    · rw [if_neg ht'] at h
      exact ⟨h.1, .inr (.inr ⟨not_lt.mp ht', h.2.1, h.2.2⟩)⟩

lemma hScores_stores {q BT : ℕ} {scale : V} {h : ℕ}
    (hBT : 0 < BT) (hst : st ∈ (hScores q kCache y pos H NKV D SCAP BT scale h).stores m) :
    ∃ t < pos + 1, st.1 = (.ws, y + h * SCAP + t) := by
  dsimp only [hScores] at hst
  rw [mem_blockStores hBT] at hst
  obtain ⟨t, ht, rfl⟩ := hst
  exact ⟨t, ht, rfl⟩

lemma hValuesGate_stores {probs gate BT h : ℕ}
    (hst : st ∈ (hValuesGate f probs vCache gate y pos H NKV D SCAP BT h).stores m) :
    ∃ i < D, st.1 = (.ws, y + h * D + i) := by
  obtain ⟨i, hi, rfl⟩ := mem_storeRow.mp hst
  exact ⟨i, hi, rfl⟩

lemma tGdnConv_stores {state : ℕ} {out C ELEM KTAPS t : ℕ}
    (hKTAPS : 2 ≤ KTAPS) (hst : st ∈ (tGdnConv f state wt x out C ELEM KTAPS t).stores m) :
    (∃ i < ELEM, st.1 = (.ws, out + t * ELEM + i)) ∨
    ∃ j < KTAPS - 1, ∃ e < ELEM, st.1 = (.conv, state + (j * C + (t * ELEM + e))) := by
  rcases mem_append.mp hst with hst | hst
  · rcases mem_append.mp hst with hst | hst
    · obtain ⟨i, hi, rfl⟩ := mem_storeRow.mp hst
      exact .inl ⟨i, hi, rfl⟩
    · obtain ⟨j, hj, e, he, rfl⟩ := mem_storeRows.mp hst
      exact .inr ⟨j, by omega, e, he, rfl⟩
  · obtain ⟨e, he, rfl⟩ := mem_storeRow.mp hst
    exact .inr ⟨KTAPS - 2, by omega, e, he, rfl⟩

variable [LinearOrder V]

lemma hSoftmax_stores {BTR h : ℕ} (hst : st ∈ (hSoftmax f x pos y SCAP BTR h).stores m) :
    ∃ t < BTR, t < SCAP ∧ st.1 = (.ws, y + h * SCAP + t) := by
  obtain ⟨t, ht, hlt, rfl⟩ := mem_laneStores.mp hst
  exact ⟨t, ht, hlt, rfl⟩

lemma tGdnHeads_stores {q k v z a b : ℕ} {alog dtb normw : ℕ → V} {state out NH NK HV HK : ℕ} {scale : V} {h : ℕ}

    (hst : st ∈ (tGdnHeads f q k v z a b alog dtb normw state out NH NK HV HK eps scale h).stores m) :
    (∃ r < HV, ∃ e < HK, st.1 = (.ssm, state + h * HV * HK + (r * HK + e))) ∨
    ∃ r < HV, st.1 = (.ws, out + h * HV + r) := by
  rcases mem_append.mp hst with hst | hst
  · obtain ⟨r, hr, e, he, rfl⟩ := mem_storeRows.mp hst
    exact .inl ⟨r, hr, e, he, rfl⟩
  · obtain ⟨r, hr, rfl⟩ := mem_storeRow.mp hst
    exact .inr ⟨r, hr, rfl⟩

end

/-! ## The workspace of the host -/

def rHiddenA : Region := .part .ws oHiddenA C

def rHiddenB : Region := .part .ws oHiddenB C

def rRms1 : Region := .part .ws oRms1 C

def rProj : Region := .part .ws oProj 12288

def rZab : Region := .part .ws oZab 6272

def rPost : Region := .part .ws oPost 20480

def rHeads : Region := .part .ws oHeads 12288

def rAttn : Region := .part .ws oAttn C

def rRms2 : Region := .part .ws oRms2 C

def rGu : Region := .part .ws oGu (2 * F)

def rAct : Region := .part .ws oAct F

def rScores : Region := .part .ws oScores (24 * 512)

def rProbs : Region := .part .ws oProbs (24 * 512)

/-- The buffers of the workspace, in order. -/
def workspace : List Region :=
  [rHiddenA, rHiddenB, rRms1, rProj, rZab, rPost, rHeads, rAttn, rRms2, rGu, rAct, rScores, rProbs]

/-- The elements of row `pos` in both caches of a layer whose rows begin at `base`. -/
def rowCells (base pos : ℕ) : Set Cell :=
  {c | (c.1 = .kCache ∨ c.1 = .vCache) ∧ base + pos * 1024 ≤ c.2 ∧ c.2 < base + pos * 1024 + 1024}

/-- Where the rows of full-attention layer `fi` begin. -/
def rowsBase (capacity fi : ℕ) : ℕ := fi * (capacity * 4 * 256)

/-- The cache rows that a layer may store. -/
def layerRows (capacity l pos : ℕ) : Set Cell := if isFull l then rowCells (rowsBase capacity (fullIndex l)) pos else ∅

/-- Race-free, and it stores to the caches inside `S` alone. -/
structure Sound {V : Type} (P : ℕ) (S : Set Cell) (ph : Phase Cell V) : Prop where
  raceFree : RaceFree P ph
  caches : ∀ c ∈ ph.writes, c.1 = .kCache ∨ c.1 = .vCache → c ∈ S

lemma Sound.mono {S T : Set Cell} (h : Sound P S ph) (hST : S ⊆ T) :
    Sound P T ph := ⟨h.raceFree, fun c hc hcache => hST (h.caches c hc hcache)⟩

section

variable {V : Type} {barrier : Option ℤ}

variable {S : Set Cell} {P pos : ℕ}

lemma Separate.sound {R W : List Region} {ph : Phase Cell V} (hP : 0 < P) (h : Separate R W ph)
    (hcaches : regionsApart W [.whole .kCache, .whole .vCache] = true) : Sound P S ph := by
  refine ⟨h.raceFree hP, fun c hc hcache => ?_⟩
  have hnot : c ∉ cells [.whole .kCache, .whole .vCache] := Set.disjoint_left.mp (disjoint_cells hcaches) (h.writes hc)
  rcases hcache with hk | hv
  · exact absurd (mem_cells_whole mem_cons_self hk) hnot
  · exact absurd (mem_cells_whole (mem_cons_of_mem _ mem_cons_self) hv) hnot

lemma sound_single {c : Call Cell V} (hP : 0 < P)
    (h : ∀ t < c.count, ∀ u < c.count, t ≠ u → Disjoint (c.task t).loads (c.task u).writes)
    (hcaches : ∀ t < c.count, ∀ m, ∀ st ∈ (c.task t).stores m, st.1.1 = .kCache ∨ st.1.1 = .vCache → st.1 ∈ S) :
    Sound P S ⟨[c], barrier⟩ := by
  refine ⟨raceFree_single hP h, ?_⟩
  rintro _ ⟨_, hcall, t, ht, m, v, hmem⟩ hcache
  obtain rfl := mem_singleton.mp hcall
  exact hcaches t ht m _ hmem hcache

lemma separate_one {R W : List Region} {c : Call Cell V} (hloads : ∀ t < c.count, (c.task t).loads ⊆ cells R)
    (hwrites : ∀ t < c.count, ∀ m, ∀ st ∈ (c.task t).stores m, st.1 ∈ cells W) (hRW : regionsApart R W = true) :
    Separate R W ⟨[c], barrier⟩ := by
  refine ⟨forall_mem_singleton.mpr ⟨hloads, fun t ht => ?_⟩, hRW⟩
  rintro _ ⟨m, v, hmem⟩
  exact hwrites t ht m _ hmem

lemma mem_part {rs : List Region} {b : Buffer} {start len i : ℕ} (h : part b start len ∈ rs)
    (hlow : start ≤ i) (hhigh : i < start + len) : (b, i) ∈ cells rs := ⟨_, h, rfl, hlow, hhigh⟩

lemma head_row_lt {capacity h t : ℕ} (hcap : capacity ≤ 512) (hh : h < 24) (ht : t < capacity) :
    h * capacity + t < 24 * 512 :=
  calc h * capacity + t < (h + 1) * capacity := by rw [Nat.succ_mul]; omega
    _ ≤ 24 * 512 := Nat.mul_le_mul (by omega) hcap

variable [Field V] {f : Maths V}

/-- Query heads, their gates and key heads. -/
lemma qknorm_separate {qn kn : ℕ → V} {eps : V} :
    Separate [rProj, rZab] [rPost] ⟨[⟨28, hQknorm f oProj qn kn oPost 24 256 eps⟩], barrier⟩ := by
  refine separate_one (fun t ht => ?_) (fun t ht m st hst => ?_) rfl
  · have ht : t < 28 := ht
    show (hQknorm f oProj qn kn oPost 24 256 eps t).loads ⊆ _
    unfold hQknorm
    by_cases hq : t < 24
    · rw [if_pos hq]
      exact part_subset (show part .ws oProj 12288 ∈ _ from mem_cons_self) (by omega) (by omega)
    · rw [if_neg hq]
      have hmem : part .ws oZab 6272 ∈ [rProj, rZab] := mem_cons_of_mem _ mem_cons_self
      refine part_subset hmem ?_ ?_
      · unfold oProj oZab C
        omega
      · unfold oProj oZab C
        omega
  · have ht : t < 28 := ht
    have hst : st ∈ (hQknorm f oProj qn kn oPost 24 256 eps t).stores m := hst
    obtain ⟨i, hi, hst | hst | hst⟩ := hQknorm_stores hst
    all_goals
      rw [hst.1]
      exact mem_part mem_cons_self (by omega) (by omega)

lemma scores_separate {kc capacity : ℕ} {scale : V} (hcap : capacity ≤ 512) (hpos : pos < capacity) :
    Separate [rPost, .whole .kCache] [rScores]
      ⟨[⟨24, hScores oPost kc oScores pos 24 4 256 capacity 64 scale⟩], barrier⟩ := by
  refine separate_one (fun t ht => ?_) (fun t ht m st hst => ?_) rfl
  · have ht : t < 24 := ht
    refine Set.union_subset (part_subset (show part .ws oPost 20480 ∈ _ from mem_cons_self) (by omega) (by omega)) ?_
    rintro c ⟨r, -, e, -, rfl⟩
    exact mem_cells_whole (b := .kCache) (mem_cons_of_mem _ mem_cons_self) rfl
  · have ht : t < 24 := ht
    have hst : st ∈ (hScores oPost kc oScores pos 24 4 256 capacity 64 scale t).stores m := hst
    obtain ⟨i, hi, hst⟩ := hScores_stores (by omega) hst
    have hrow : t * capacity + i < 24 * 512 := head_row_lt hcap ht (by omega)
    rw [hst]
    exact mem_part (show part .ws oScores _ ∈ _ from mem_cons_self) (by omega) (by omega)

/-- The context: probabilities against the value rows, then the gates. -/
lemma values_separate {vc capacity : ℕ} (hcap : capacity ≤ 512) (hpos : pos < capacity) :
    Separate [rProbs, .whole .vCache, rPost] [rHeads]
      ⟨[⟨24, hValuesGate f oProbs vc (oPost + 24 * 256) oHeads pos 24 4 256 capacity 64⟩], barrier⟩ := by
  refine separate_one (fun t ht => ?_) (fun t ht m st hst => ?_) rfl
  · have ht : t < 24 := ht
    have hrow : t * capacity + pos < 24 * 512 := head_row_lt hcap ht hpos
    refine Set.union_subset (Set.union_subset ?_ ?_) ?_
    · exact part_subset (show part .ws oProbs _ ∈ _ from mem_cons_self) (by omega) (by omega)
    · rintro c ⟨r, -, e, -, rfl⟩
      exact mem_cells_whole (b := .vCache) (mem_cons_of_mem _ mem_cons_self) rfl
    · have hmem : part .ws oPost 20480 ∈ [rProbs, .whole .vCache, rPost] :=
        mem_cons_of_mem _ (mem_cons_of_mem _ mem_cons_self)
      exact part_subset hmem (by omega) (by omega)
  · have ht : t < 24 := ht
    have hst : st ∈ (hValuesGate f oProbs vc (oPost + 24 * 256) oHeads pos 24 4 256 capacity 64 t).stores m := hst
    obtain ⟨i, hi, hst⟩ := hValuesGate_stores hst
    rw [hst]
    exact mem_part (show part .ws oHeads 12288 ∈ _ from mem_cons_self) (by omega) (by omega)

lemma conv_sound {state : ℕ} {wt : ℕ → V} (hP : 0 < P) :
    Sound P S ⟨[⟨10, tGdnConv f state wt oProj oPost 10240 1024 4⟩], barrier⟩ := by
  refine sound_single hP (fun t ht u hu hne => ?_) fun t ht m st hst hcache => ?_
  rotate_left
  · have hst : st ∈ (tGdnConv f state wt oProj oPost 10240 1024 4 t).stores m := hst
    rcases tGdnConv_stores (by omega) hst with ⟨e, -, hst⟩ | ⟨j, -, e, -, hst⟩
    all_goals
      rw [hst] at hcache
      simp at hcache
  rw [Set.disjoint_left]
  rintro ⟨b, i⟩ hload ⟨m, v, hmem⟩
  have ht : t < 10 := ht
  have hu : u < 10 := hu
  have hmem : ((b, i), v) ∈ (tGdnConv f state wt oProj oPost 10240 1024 4 u).stores m := hmem
  have hload : (b, i) ∈ span .ws (oProj + t * 1024) 1024 ∪ convRows state 10240 1024 3 t := hload
  have hproj : oProj + 12288 ≤ oPost := by decide
  rcases tGdnConv_stores (by omega) hmem with ⟨e, he, hst⟩ | ⟨j, hj, e, he, hst⟩
  · rcases hload with ⟨-, hlow, hhigh⟩ | ⟨j, -, e', -, hload⟩
    · have hi : i = oPost + u * 1024 + e := congrArg snd hst
      omega
    · have hb : b = .ws := congrArg fst hst
      have hb' : b = .conv := congrArg fst hload
      rw [hb] at hb'
      cases hb'
  · rcases hload with ⟨hb', -, -⟩ | ⟨j', hj', e', he', hload⟩
    · have hb : b = .conv := congrArg fst hst
      have hb' : b = .ws := hb'
      rw [hb] at hb'
      cases hb'
    · have hi : i = state + (j * 10240 + (u * 1024 + e)) := congrArg snd hst
      have hi' : i = state + (j' * 10240 + (t * 1024 + e')) := congrArg snd hload
      omega

/-- Rotation and append: a query head in place, or a head from the workspace into a cache. -/
lemma rope_sound {cos sin : ℕ → V} {base : ℕ} (hP : 0 < P) : Sound P (rowCells base pos)
      ⟨[⟨32, hRopeAppend oPost cos sin base (oZab + 1024) base pos pos 24 4 256 64⟩], barrier⟩ := by
  refine sound_single hP (fun t ht u hu hne => ?_) fun t ht m st hst hcache => ?_
  rotate_left
  · have ht : t < 32 := ht
    have hst : st ∈ (hRopeAppend oPost cos sin base (oZab + 1024) base pos pos 24 4 256 64 t).stores m := hst
    refine ⟨hcache, ?_⟩
    rcases hRopeAppend_stores (by omega) hst with ⟨e, -, hst, -⟩ | ⟨e, he, hst, -, ht'⟩ | ⟨e, he, hst, ht'⟩
    · rw [hst] at hcache
      simp at hcache
    · rw [hst]
      omega
    · rw [hst]
      omega
  rw [Set.disjoint_left]
  rintro ⟨b, i⟩ hload ⟨m, v, hmem⟩
  have ht : t < 32 := ht
  have hu : u < 32 := hu
  have hmem : ((b, i), v) ∈ (hRopeAppend oPost cos sin base (oZab + 1024) base pos pos 24 4 256 64 u).stores m := hmem
  have hload : (b, i) ∈ (hRopeAppend oPost cos sin base (oZab + 1024) base pos pos 24 4 256 64 t).loads := hload
  have hzab : oZab + 6272 ≤ oPost := by decide
  rcases hRopeAppend_stores (by omega) hmem with ⟨e, he, hst, hu⟩ | ⟨e, -, hst, -⟩ | ⟨e, -, hst, -⟩
  · have hi : i = oPost + u * 256 + e := congrArg snd hst
    rcases hRopeAppend_loads hload with ⟨-, ⟨ht, hlow, hhigh⟩ | ⟨ht, ht', hlow, hhigh⟩ | ⟨ht, hlow, hhigh⟩⟩
    · omega
    · omega
    · omega
  · have hb : b = .kCache := congrArg fst hst
    have hb' : b = .ws := (hRopeAppend_loads hload).1
    rw [hb] at hb'
    cases hb'
  · have hb : b = .vCache := congrArg fst hst
    have hb' : b = .ws := (hRopeAppend_loads hload).1
    rw [hb] at hb'
    cases hb'

variable [LinearOrder V]

lemma softmax_separate {capacity BTR : ℕ} (hcap : capacity ≤ 512) (hpos : pos < capacity) :
    Separate [rScores] [rProbs] ⟨[⟨24, hSoftmax f oScores pos oProbs capacity BTR⟩], barrier⟩ := by
  refine separate_one (fun t ht => ?_) (fun t ht m st hst => ?_) rfl
  · have ht : t < 24 := ht
    have hrow : t * capacity + pos < 24 * 512 := head_row_lt hcap ht hpos
    exact part_subset (show part .ws oScores _ ∈ _ from mem_cons_self) (by omega) (by omega)
  · have ht : t < 24 := ht
    have hst : st ∈ (hSoftmax f oScores pos oProbs capacity BTR t).stores m := hst
    obtain ⟨i, -, hi, hst⟩ := hSoftmax_stores hst
    have hrow : t * capacity + i < 24 * 512 := head_row_lt hcap ht hi
    rw [hst]
    exact mem_part (show part .ws oProbs _ ∈ _ from mem_cons_self) (by omega) (by omega)

lemma heads_sound {alog dtb normw : ℕ → V} {state : ℕ} {eps scale : V} (hP : 0 < P) :
    Sound P S ⟨[⟨48, tGdnHeads f oPost (oPost + 16 * 128) (oPost + 2 * 16 * 128) oZab (oZab + 6144)
      (oZab + 6144 + 48) alog dtb normw state oHeads 48 16 128 128 eps scale⟩], barrier⟩ := by
  refine sound_single hP (fun t ht u hu hne => ?_) fun t ht m st hst hcache => ?_
  rotate_left
  · have hst : st ∈ (tGdnHeads f oPost (oPost + 16 * 128) (oPost + 2 * 16 * 128) oZab (oZab + 6144)
      (oZab + 6144 + 48) alog dtb normw state oHeads 48 16 128 128 eps scale t).stores m := hst
    rcases tGdnHeads_stores hst with ⟨r, -, e, -, hst⟩ | ⟨r, -, hst⟩
    all_goals
      rw [hst] at hcache
      simp at hcache
  rw [Set.disjoint_left]
  rintro ⟨b, i⟩ hload ⟨m, v, hmem⟩
  have ht : t < 48 := ht
  have hmem : ((b, i), v) ∈ (tGdnHeads f oPost (oPost + 16 * 128) (oPost + 2 * 16 * 128) oZab (oZab + 6144)
    (oZab + 6144 + 48) alog dtb normw state oHeads 48 16 128 128 eps scale u).stores m := hmem
  have hbelow : (b = .ws ∧ i < oHeads) ∨ ∃ r < 128, ∃ e < 128, (b, i) = (.ssm, state + t * 128 * 128 + (r * 128 + e)) := by
    have hpost : oPost + 20480 = oHeads := rfl
    have hzab : oZab + 6272 = oPost := rfl
    rcases hload with ((((⟨hb, -, hi⟩ | ⟨hb, -, hi⟩) | ⟨hb, -, hi⟩) | ⟨hb, -, hi⟩) | hab) | hstate
    · have hi : i < oPost + t / (48 / 16) * 128 + 128 := hi
      exact .inl ⟨hb, by omega⟩
    · have hi : i < oPost + 16 * 128 + t / (48 / 16) * 128 + 128 := hi
      exact .inl ⟨hb, by omega⟩
    · have hi : i < oPost + 2 * 16 * 128 + t * 128 + 128 := hi
      exact .inl ⟨hb, by omega⟩
    · have hi : i < oZab + t * 128 + 128 := hi
      exact .inl ⟨hb, by omega⟩
    · rcases hab with hab | hab
      · obtain ⟨rfl, rfl⟩ := ext_iff.mp hab
        exact .inl ⟨rfl, by dsimp only; omega⟩
      · obtain ⟨rfl, rfl⟩ := ext_iff.mp hab
        exact .inl ⟨rfl, by dsimp only; omega⟩
    · exact .inr hstate
  rcases tGdnHeads_stores hmem with ⟨r, hr, e, he, hst⟩ | ⟨r, hr, hst⟩
  · have hb' : b = .ssm := congrArg fst hst
    rcases hbelow with ⟨hb, -⟩ | ⟨r', hr', e', he', hload⟩
    · rw [hb] at hb'
      cases hb'
    · have hi : i = state + u * 128 * 128 + (r * 128 + e) := congrArg snd hst
      have hi' : i = state + t * 128 * 128 + (r' * 128 + e') := congrArg snd hload
      omega
  · have hi : i = oHeads + u * 128 + r := congrArg snd hst
    rcases hbelow with ⟨-, hlt⟩ | ⟨_, -, _, -, hload⟩
    · omega
    · have hb : b = .ws := congrArg fst hst
      have hb' : b = .ssm := congrArg fst hload
      rw [hb] at hb'
      cases hb'

end

/-! ## The phases of a launch -/

section

variable {V : Type} [Field V] {f : Maths V} {c : Scales V} {w : Weights V} {P : ℕ} (hP : 0 < P)
include hP

omit [Field V] in
lemma sound_of (R W : List Region) {S : Set Cell} {calls : List (Call Cell V)} {barrier : Option ℤ}
    (h : ∀ call ∈ calls, call.Within (cells R) (cells W))
    (hRW : regionsApart R W = true ∧ regionsApart W [.whole .kCache, .whole .vCache] = true) :
    Sound P S ⟨calls, barrier⟩ := Separate.sound hP ⟨h, hRW.1⟩ hRW.2

variable {bi : ℤ} {S : Set Cell} {pos fi : ℕ}

lemma mlp_sound {capacity l m0 : ℕ} : ∀ ph ∈ mlp f (hybridDims capacity c) w P l bi m0, Sound P S ph := by
  dsimp only [mlp, hybridDims]
  simp only [forall_mem_cons]
  refine ⟨?_, ?_, ?_, ?_, ?_, forall_mem_nil _⟩
  · refine sound_of hP [rHiddenB] [rRms2] (forall_mem_singleton.mpr ?_) ⟨rfl, rfl⟩
    exact hRms_within rfl rfl
  · refine sound_of hP [rRms2] [rGu] (forall_mem_cons.mpr ⟨?_, forall_mem_singleton.mpr ?_⟩) ⟨rfl, rfl⟩
    · exact gemvFp8_within rfl rfl
    · exact gemvFp8_within rfl rfl
  · refine sound_of hP [rGu] [rAct] (forall_mem_singleton.mpr ?_) ⟨rfl, rfl⟩
    exact hSwiglu_within rfl rfl rfl
  · refine sound_of hP [rAct] [rAttn] (forall_mem_singleton.mpr ?_) ⟨rfl, rfl⟩
    exact gemvFp8_within rfl rfl
  · refine sound_of hP [rHiddenB, rAttn] [rHiddenA] (forall_mem_singleton.mpr ?_) ⟨rfl, rfl⟩
    exact hAdd_within rfl rfl rfl

variable [LinearOrder V]

lemma appending_sound {capacity : ℕ} : ∀ ph ∈ (fullAttention f (hybridDims capacity c) w pos pos P fi bi).take 3,
      Sound P (rowCells (rowsBase capacity fi) pos) ph := by
  dsimp only [fullAttention, hybridDims, take]
  simp only [forall_mem_cons]
  refine ⟨?_, qknorm_separate.sound hP rfl, rope_sound hP, forall_mem_nil _⟩
  refine sound_of hP [rRms1] [rProj, rZab] ?_ ⟨rfl, rfl⟩
  refine forall_mem_cons.mpr ⟨?_, forall_mem_cons.mpr ⟨?_, forall_mem_singleton.mpr ?_⟩⟩
  · exact gemvFp8_within rfl rfl
  · exact gemvFp8_within rfl rfl
  · exact gemvFp8_within rfl rfl

lemma attending_sound {capacity : ℕ} (hcap : capacity ≤ 512) (hpos : pos < capacity) :
    ∀ ph ∈ (fullAttention f (hybridDims capacity c) w pos pos P fi bi).drop 3, Sound P S ph := by
  dsimp only [fullAttention, hybridDims, drop]
  simp only [forall_mem_cons]
  refine ⟨(scores_separate hcap hpos).sound hP rfl, (softmax_separate hcap hpos).sound hP rfl,
    (values_separate hcap hpos).sound hP rfl, ?_, ?_, forall_mem_nil _⟩
  · refine sound_of hP [rHeads] [rAttn] (forall_mem_singleton.mpr ?_) ⟨rfl, rfl⟩
    exact gemvFp8_within rfl rfl
  · refine sound_of hP [rHiddenA, rAttn] [rHiddenB] (forall_mem_singleton.mpr ?_) ⟨rfl, rfl⟩
    exact hAdd_within rfl rfl rfl

lemma fullAttention_sound {capacity : ℕ} (hcap : capacity ≤ 512) (hpos : pos < capacity) :
    ∀ ph ∈ fullAttention f (hybridDims capacity c) w pos pos P fi bi, Sound P (rowCells (rowsBase capacity fi) pos) ph := by
  intro ph hph
  rw [← take_append_drop 3 (fullAttention f (hybridDims capacity c) w pos pos P fi bi), mem_append] at hph
  exact hph.elim (appending_sound hP ph) (attending_sound hP hcap hpos ph)

lemma linearAttention_sound {capacity gi : ℕ} :
    ∀ ph ∈ linearAttention f (hybridDims capacity c) w P gi bi, Sound P S ph := by
  dsimp only [linearAttention, Dims.channels, hybridDims]
  simp only [forall_mem_cons]
  refine ⟨?_, conv_sound hP, heads_sound hP, ?_, ?_, forall_mem_nil _⟩
  · refine sound_of hP [rRms1] [rProj, rZab] ?_ ⟨rfl, rfl⟩
    refine forall_mem_cons.mpr ⟨?_, forall_mem_cons.mpr ⟨?_, forall_mem_cons.mpr ⟨?_, forall_mem_singleton.mpr ?_⟩⟩⟩
    · exact gemvFp8_within rfl rfl
    · exact gemvFp8_within rfl rfl
    · exact hGemvBf16Small_within rfl rfl
    · exact hGemvBf16Small_within rfl rfl
  · refine sound_of hP [rHeads] [rAttn] (forall_mem_singleton.mpr ?_) ⟨rfl, rfl⟩
    exact gemvFp8_within rfl rfl
  · refine sound_of hP [rHiddenA, rAttn] [rHiddenB] (forall_mem_singleton.mpr ?_) ⟨rfl, rfl⟩
    exact hAdd_within rfl rfl rfl

omit [Field V] [LinearOrder V] in
lemma embed_sound {token : ℕ} {emb : ℕ → V} {barrier : Option ℤ} {S : Set Cell} :
    Sound P S ⟨[once (hEmbed token emb oHiddenA C 8192)], barrier⟩ := by
  refine sound_of hP [] [rHiddenA] (forall_mem_singleton.mpr ?_) ⟨rfl, rfl⟩
  exact hEmbed_within rfl

omit [LinearOrder V] in
lemma norm_sound {g : ℕ → V} {barrier : Option ℤ} {S : Set Cell} :
    Sound P S ⟨[once (hRms f oHiddenA g oRms1 C 8192 c.eps)], barrier⟩ := by
  refine sound_of hP [rHiddenA] [rRms1] (forall_mem_singleton.mpr ?_) ⟨rfl, rfl⟩
  exact hRms_within rfl rfl

omit [LinearOrder V] in
lemma logits_sound {wt : ℕ → V} {S : Set Cell} :
    Sound P S ⟨[⟨248320 / 16, hGemvBf16 oRms1 wt .logits 0 C⟩], none⟩ := by
  refine sound_of hP [rRms1] [.whole .logits] (forall_mem_singleton.mpr ?_) ⟨rfl, rfl⟩
  exact hGemvBf16_within rfl rfl

lemma layer_sound {capacity l : ℕ} {barBase : ℤ} (hcap : capacity ≤ 512) (hpos : pos < capacity) :
    ∀ ph ∈ layer f (hybridDims capacity c) w pos pos barBase P l, Sound P (layerRows capacity l pos) ph := by
  unfold layer
  simp only [cons_append, forall_mem_cons, forall_mem_append]
  refine ⟨norm_sound hP, ?_, mlp_sound hP⟩
  by_cases hfull : isFull l = true
  · rw [if_pos hfull, layerRows, if_pos hfull]
    exact fullAttention_sound hP hcap hpos
  · rw [if_neg hfull]
    exact linearAttention_sound hP

omit [LinearOrder V] in
lemma final_sound {capacity L : ℕ} {barBase killAfter : ℤ} :
    ∀ ph ∈ final f (hybridDims capacity c) w barBase P L killAfter, Sound P S ph := by
  unfold final
  by_cases hkill : killAfter < 0
  · rw [if_pos hkill]
    exact forall_mem_cons.mpr ⟨norm_sound hP, forall_mem_singleton.mpr (logits_sound hP)⟩
  · rw [if_neg hkill]
    exact forall_mem_nil _

lemma megakernel_sound {capacity token L : ℕ} {barBase killAfter : ℤ} (hcap : capacity ≤ 512) (hpos : pos < capacity) :
    ∀ ph ∈ hybridMegakernel f (hybridDims capacity c) w token pos pos barBase P L killAfter,
      Sound P {cell | ∃ l, Executes killAfter l ∧ cell ∈ layerRows capacity l pos} ph := by
  unfold hybridMegakernel
  rw [cons_append, forall_mem_cons, forall_mem_append]
  refine ⟨embed_sound hP, fun ph hph => ?_, final_sound hP⟩
  obtain ⟨l, -, hph⟩ := mem_flatMap.mp hph
  by_cases hl : Executes killAfter l
  · rw [if_pos hl] at hph
    exact (layer_sound hP hcap hpos ph hph).mono fun cell hcell => ⟨l, hl, hcell⟩
  · rw [if_neg hl] at hph
    cases hph

end

end VKernels.Hybrid
