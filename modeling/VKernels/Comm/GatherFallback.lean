import VKernels.Comm.Gather

/-!
# The Python gather staging beside the host one

`stage_runs_1d` and `stage_runs_2d` of `_fallback.py`, whose integers do not wrap, against the validators of
`comm/p2p_gather.cpp`.

* `stageRuns1dFallback`, `stageRuns2dFallback` — the two fallbacks; `memmoves1d`, `memmoves2d` — their copies.
* `TileFits`, `TileApart` — the rules of a tile that both check, and the one that only the host checks.

## Results

* `stageRuns1d_same` — the 1-D stagings agree on every list of runs.
* `stageRuns2d_fallback`, `stageRuns2d_host` — which tiles each of the 2-D stagings takes.
* `stages_alike_iff` — the stagings agree exactly on the lists where the missing rules do not matter.
-/

namespace VKernels.Comm

open ByteCopies
open List

/-! ## The fallback -/

/-- `if cond: raise ValueError(msg)`. -/
def raiseIf (cond : Prop) [Decidable cond] (msg : String) : Except String Unit :=
  if cond then .error msg else .ok ()

/-- One round of the loop of `stage_runs_1d`. -/
def stageRun1dFallback (base capacity : ℕ) (runs : List StagedRun1D) (run : ℕ × ℕ × ℕ) :
    Except String (List StagedRun1D) :=
  let (s, off, length) := run
  if length = 0 then .ok runs else do
    raiseIf (off > capacity ∨ capacity - off < length) "run exceeds dst capacity"
    raiseIf (s = 0) "src_ptrs[i] must be non-null for a non-empty run"
    let d := base + off
    raiseIf (¬ (s + length ≤ d ∨ s ≥ d + length)) "src and dst ranges must not overlap"
    return runs ++ [⟨s, off, length⟩]

/-- `zip(spans, spans[1:])`. -/
def raiseSpans (spans : List (ℕ × ℕ)) : Except String Unit :=
  (spans.zip spans.tail).foldlM (fun _ pair => raiseIf (pair.1.2 > pair.2.1) "output runs must be disjoint") ()

def stageRuns1dFallback (dst : DstSpan) (srcPtrs dstOffsets lengths : List ℕ) : Except String (List StagedRun1D) := do
  raiseIf (dstOffsets.length ≠ srcPtrs.length ∨ lengths.length ≠ srcPtrs.length)
    "src_ptrs/dst_offsets/lengths must all have the same length"
  let runs ← (srcPtrs.zip (dstOffsets.zip lengths)).foldlM (stageRun1dFallback dst.data dst.size) []
  raiseSpans ((runs.map fun r => (r.dstOffset, r.dstOffset + r.length)).mergeSort spanLe)
  return runs

/-- One round of the loop of `stage_runs_2d`. -/
def stageRun2dFallback (capacity : ℕ) (out : List StagedRun2D) (g : Gather2DRun) : Except String (List StagedRun2D) :=
  if g.width = 0 ∨ g.height = 0 then .ok out else do
    raiseIf (g.width > g.srcStride) "width must not exceed src_stride"
    raiseIf (g.width > g.dstStride) "width must not exceed dst_stride"
    raiseIf (g.src = 0) "src must be non-null for a non-empty tile"
    let off := g.dstOffset
    raiseIf (off > capacity) "2-D run starts past dst capacity"
    let rows := g.height - 1
    raiseIf (rows > (capacity - off) / g.dstStride) "2-D row stride exceeds dst capacity"
    let rowSpan := rows * g.dstStride
    raiseIf (g.width > capacity - off - rowSpan) "2-D run exceeds dst capacity"
    return out ++ [⟨g.src, off, g.srcStride, g.dstStride, g.width, g.height⟩]

def stageRuns2dFallback (dst : DstSpan) (runs : List Gather2DRun) : Except String (List StagedRun2D) :=
  runs.foldlM (stageRun2dFallback dst.size) []

/-- `copy_all` of `p2p_gather_runs`. -/
def memmoves1d (staged : List StagedRun1D) (base : ℕ) (mem : Mem UInt8) : Mem UInt8 :=
  staged.foldl (fun mem r => (⟨base + r.dstOffset, r.src, r.length⟩ : Copy).run mem) mem

/-- `copy_all` of `p2p_gather_runs_2d`. -/
def memmoves2d (staged : List StagedRun2D) (base : ℕ) (mem : Mem UInt8) : Mem UInt8 :=
  staged.foldl (fun mem r => (List.range r.height).foldl (fun mem y =>
    (⟨base + (r.dstOffset + y * r.dstStride), r.src + y * r.srcStride, r.width⟩ : Copy).run mem) mem) mem

/-! ## Outcomes -/

section

variable {α β σ : Type}

/-- Both refuse, or both give the same; the texts may differ. -/
def SameOutcome (x y : Except String α) : Prop := x.toOption = y.toOption

lemma sameOutcome_iff {x y : Except String α} :
    SameOutcome x y ↔ ((∃ e, x = .error e) ↔ ∃ e, y = .error e) ∧ ∀ a, x = .ok a → y = .ok a := by
  cases x <;> cases y <;> simp [SameOutcome, Except.toOption, eq_comm]

@[simp] lemma toOption_bind (x : Except String α) (f : α → Except String β) :
    (x >>= f).toOption = x.toOption.bind fun a => (f a).toOption := by
  cases x <;> rfl

@[simp] lemma toOption_expects (cond : Prop) [Decidable cond] (msg text : String) :
    (expects cond msg text).toOption = if cond then some () else none := by
  unfold expects
  split <;> rfl

@[simp] lemma toOption_raiseIf (cond : Prop) [Decidable cond] (msg : String) :
    (raiseIf cond msg).toOption = if cond then none else some () := by
  unfold raiseIf
  split <;> rfl

lemma sameOutcome_foldlM {f : σ → α → Except String σ} {g : σ → β → Except String σ} {view : β → α} :
    ∀ {l : List β} {s : σ}, (∀ s, ∀ b ∈ l, SameOutcome (f s (view b)) (g s b)) →
      SameOutcome ((l.map view).foldlM f s) (l.foldlM g s)
  | [], s, _ => rfl
  | b :: l, s, h => by
    have hstep := h s b mem_cons_self
    have hrest : ∀ s, SameOutcome ((l.map view).foldlM f s) (l.foldlM g s) := fun s =>
      sameOutcome_foldlM fun s c hc => h s c (mem_cons_of_mem b hc)
    unfold SameOutcome at hstep hrest ⊢
    rw [map_cons, foldlM_cons, foldlM_cons, toOption_bind, toOption_bind, hstep]
    congr 1
    funext s
    exact hrest s

end

/-! ## Spans -/

lemma raiseSpans_cons (a b : ℕ × ℕ) (l : List (ℕ × ℕ)) : raiseSpans (a :: b :: l) =
    (raiseIf (a.2 > b.1) "output runs must be disjoint" >>= fun _ => raiseSpans (b :: l)) := rfl

lemma raiseSpans_same (msg text : String) : ∀ l : List (ℕ × ℕ), SameOutcome (raiseSpans l) (checkSpans msg text l)
  | [] => rfl
  | [_] => rfl
  | a :: b :: l => by
    have ih := raiseSpans_same msg text (b :: l)
    unfold SameOutcome at ih ⊢
    rw [raiseSpans_cons, checkSpans, toOption_bind, toOption_bind, toOption_raiseIf, toOption_expects, ih]
    by_cases h : a.2 ≤ b.1
    · rw [if_pos h, if_neg (Nat.not_lt.mpr h)]
    · rw [if_neg h, if_pos (Nat.lt_of_not_le h)]

lemma checkSpans_of_disjoint {msg text : String} {l : List (ℕ × ℕ)} (hpos : ∀ a ∈ l, a.1 < a.2)
    (h : l.Pairwise fun a b => a.2 ≤ b.1 ∨ b.2 ≤ a.1) : checkSpans msg text (l.mergeSort spanLe) = .ok () := by
  have hp := mergeSort_perm l spanLe
  have hsorted : (l.mergeSort spanLe).Pairwise fun a b => spanLe a b = true := by
    apply pairwise_mergeSort
    · intro a b c hab hbc
      simp only [spanLe, decide_eq_true_eq] at *
      omega
    · intro a b
      simp only [spanLe, Bool.or_eq_true, decide_eq_true_eq]
      omega
  have hdis : (l.mergeSort spanLe).Pairwise fun a b => a.2 ≤ b.1 ∨ b.2 ≤ a.1 :=
    hp.symm.pairwise h fun h => h.symm
  have hpos' : ∀ a ∈ l.mergeSort spanLe, a.1 < a.2 := fun a ha => hpos a (hp.mem_iff.mp ha)
  revert hsorted hdis hpos'
  generalize l.mergeSort spanLe = sorted
  intro hsorted hdis hpos'
  induction sorted with
  | nil => rfl
  | cons a sorted ih =>
    rcases sorted with _ | ⟨b, _⟩
    · rfl
    · have hle := (pairwise_cons.mp hsorted).1 b mem_cons_self
      have hab := (pairwise_cons.mp hdis).1 b mem_cons_self
      have hb := hpos' b (mem_cons_of_mem a mem_cons_self)
      simp only [spanLe, decide_eq_true_eq] at hle
      rw [checkSpans, expects_of (show a.2 ≤ b.1 by omega)]
      apply ih (pairwise_cons.mp hsorted).2 (pairwise_cons.mp hdis).2
      intro c hc
      exact hpos' c (mem_cons_of_mem a hc)

/-! ## 1-D runs -/

section

variable {dst : DstSpan}

/-- The caller's arrays for a list of runs: source, destination offset and length of each. -/
def RunList1D.ofRuns (runs : List (ℕ × ℕ × ℕ)) (real : ∀ run ∈ runs, run.1 + run.2.2 < 2 ^ 64) : RunList1D where
  srcPtrs := some fun i => (runs.getD i (0, 0, 0)).1
  dstOffsets := some fun i => (runs.getD i (0, 0, 0)).2.1
  lengths := some fun i => (runs.getD i (0, 0, 0)).2.2
  numRuns := runs.length
  real := by
    rintro i hi s l ⟨⟩ ⟨⟩
    have hrun := real runs[i] (List.getElem_mem hi)
    simpa [hi] using hrun

lemma stageRun1d_same {g : RunList1D} {i : ℕ} (hreal : g.src i + g.len i < 2 ^ 64) (runs : List StagedRun1D) :
    SameOutcome (stageRun1dFallback dst.data dst.size runs (g.src i, g.off i, g.len i)) (stageRun1d dst g runs i) := by
  have hdst := dst.real
  unfold SameOutcome stageRun1dFallback stageRun1d
  dsimp only
  by_cases hlen : g.len i = 0
  · simp [hlen]
  · rw [if_neg hlen, if_neg hlen]
    simp only [toOption_bind, toOption_raiseIf, toOption_expects]
    by_cases hcap : g.off i ≤ dst.size ∧ g.len i ≤ dst.size - g.off i
    · rw [if_pos hcap, if_neg (by omega), wrap_of_lt hreal, wrap_of_lt (n := dst.data + g.off i) (by omega),
        wrap_of_lt (n := dst.data + g.off i + g.len i) (by omega)]
      by_cases hs : g.src i = 0
      · simp [hs]
      · simp only [hs, Option.bind_some, if_false, if_true, ne_eq, not_false_eq_true, ge_iff_le]
        by_cases hapart : g.src i + g.len i ≤ dst.data + g.off i ∨ dst.data + g.off i + g.len i ≤ g.src i
        · rw [if_neg (not_not.mpr hapart), if_pos hapart]
        · rw [if_pos hapart, if_neg hapart]
    · rw [if_neg hcap, if_pos (by omega)]
      rfl

lemma stageRuns1d_same (dst : DstSpan) (runs : List (ℕ × ℕ × ℕ)) (real : ∀ run ∈ runs, run.1 + run.2.2 < 2 ^ 64) :
    SameOutcome (stageRuns1dFallback dst (runs.map (·.1)) (runs.map (·.2.1)) (runs.map (·.2.2)))
      (stageRuns1d dst (.ofRuns runs real)) := by
  have hzip : (runs.map (·.1)).zip ((runs.map (·.2.1)).zip (runs.map (·.2.2))) = runs := by
    rw [zip_map', zip_map']
    exact map_id' runs
  have hrange : (range runs.length).map (fun i => runs.getD i (0, 0, 0)) = runs := by
    apply ext_getElem
    · simp
    · intro i hi hi'
      simp [hi']
  have hfold : SameOutcome (runs.foldlM (stageRun1dFallback dst.data dst.size) [])
      ((range runs.length).foldlM (stageRun1d dst (.ofRuns runs real)) []) := by
    have hrounds : SameOutcome
        (((range runs.length).map fun i => runs.getD i (0, 0, 0)).foldlM (stageRun1dFallback dst.data dst.size) [])
        ((range runs.length).foldlM (stageRun1d dst (.ofRuns runs real)) []) := by
      apply sameOutcome_foldlM
      intro staged i hi
      exact stageRun1d_same (RunList1D.real_at (.ofRuns runs real) (mem_range.mp hi) rfl rfl) staged
    rwa [hrange] at hrounds
  unfold SameOutcome at hfold ⊢
  unfold stageRuns1dFallback stageRuns1d
  rw [hzip]
  simp only [toOption_bind, toOption_raiseIf, toOption_expects, length_map, ne_eq, not_true_eq_false, or_self,
    if_false, Option.bind_some, hfold]
  simp only [RunList1D.ofRuns, Option.isSome_some, or_true, if_true, Option.bind_some]
  congr 1
  funext staged
  have hspans := raiseSpans_same "output runs must be disjoint" "spans[i - 1].second <= spans[i].first"
    ((staged.map fun r => (r.dstOffset, r.dstOffset + r.length)).mergeSort spanLe)
  rw [hspans]

lemma memmoves1d_eq (staged : List StagedRun1D) (base : ℕ) (mem : Mem UInt8) :
    memmoves1d staged base mem = runAll (copyAll1d staged base) mem := by
  unfold memmoves1d copyAll1d runAll
  rw [foldl_flatMap]
  rfl

end

/-! ## Tiles -/

section

variable {dst : DstSpan} {tiles : List Gather2DRun} {g : Gather2DRun}

/-- Nothing to copy. -/
def Gather2DRun.Empty (g : Gather2DRun) : Prop := g.width = 0 ∨ g.height = 0

instance (g : Gather2DRun) : Decidable g.Empty := inferInstanceAs (Decidable (_ ∨ _))

def Gather2DRun.staged (g : Gather2DRun) : StagedRun2D :=
  ⟨g.src, g.dstOffset, g.srcStride, g.dstStride, g.width, g.height⟩

structure TileFits (size : ℕ) (g : Gather2DRun) : Prop where
  srcStride : g.width ≤ g.srcStride
  dstStride : g.width ≤ g.dstStride
  src : g.src ≠ 0
  offset : g.dstOffset ≤ size
  rows : g.height - 1 ≤ (size - g.dstOffset) / g.dstStride
  width : g.width ≤ size - g.dstOffset - (g.height - 1) * g.dstStride

/-- The rule of a tile that only the host checks: its box is away from the box of its source. -/
def TileApart (dst : DstSpan) (g : Gather2DRun) : Prop :=
  g.src + (g.height - 1) * g.srcStride + g.width ≤ (g.staged.dstBox dst.data).1 ∨
    (g.staged.dstBox dst.data).2 ≤ g.src

def stagedTiles (tiles : List Gather2DRun) : List StagedRun2D :=
  (tiles.filter fun g => ¬ g.Empty).map Gather2DRun.staged

/-- The rule of the list that only the host checks. -/
def BoxesDisjoint (dst : DstSpan) (tiles : List Gather2DRun) : Prop :=
  ((stagedTiles tiles).map (·.dstBox dst.data)).Pairwise fun a b => a.2 ≤ b.1 ∨ b.2 ≤ a.1

lemma raiseIf_bind_ok {α : Type} {cond : Prop} [Decidable cond] {msg : String} {k : Except String α} {x : α} :
    (raiseIf cond msg >>= fun _ => k) = .ok x ↔ ¬ cond ∧ k = .ok x := by
  unfold raiseIf
  by_cases h : cond <;> simp [h, bind, Except.bind]

lemma stageRun2dFallback_ok (hne : ¬ g.Empty) {out out' : List StagedRun2D} :
    stageRun2dFallback dst.size out g = .ok out' ↔ TileFits dst.size g ∧ out' = out ++ [g.staged] := by
  unfold stageRun2dFallback
  rw [if_neg (show ¬ (g.width = 0 ∨ g.height = 0) from hne)]
  simp only [raiseIf_bind_ok, gt_iff_lt, not_lt]
  constructor
  · rintro ⟨hsrc, hdst, hnull, hoff, hrows, hwidth, hout⟩
    cases hout
    exact ⟨⟨hsrc, hdst, hnull, hoff, hrows, hwidth⟩, rfl⟩
  · rintro ⟨h, rfl⟩
    exact ⟨h.srcStride, h.dstStride, h.src, h.offset, h.rows, h.width, rfl⟩

lemma stageRun2d_iff (hne : ¬ g.Empty) {out out' : List StagedRun2D × List (ℕ × ℕ)} :
    stageRun2d dst out g = .ok out' ↔ (TileFits dst.size g ∧ TileApart dst g) ∧
      out' = (out.1 ++ [g.staged], out.2 ++ [g.staged.dstBox dst.data]) := by
  have hdst := dst.real
  have hreal : g.src + (g.height - 1) * g.srcStride + g.width < 2 ^ 64 := by
    rcases g.real with hw | hh | hr
    · exact absurd (.inl hw) hne
    · exact absurd (.inr hh) hne
    · exact hr
  -- under the rules that both check, no arithmetic of the host wraps
  have hwrap : g.dstOffset ≤ dst.size → g.height - 1 ≤ (dst.size - g.dstOffset) / g.dstStride →
      wrap ((g.height - 1) * g.dstStride) = (g.height - 1) * g.dstStride := by
    intro hoff hrows
    have hspan : (g.height - 1) * g.dstStride ≤ dst.size - g.dstOffset :=
      (Nat.mul_le_mul_right _ hrows).trans (Nat.div_mul_le_self _ _)
    exact wrap_of_lt (by omega)
  have hbox : TileFits dst.size g → wrap (dst.data + g.dstOffset) = dst.data + g.dstOffset ∧
      wrap (dst.data + g.dstOffset + (g.height - 1) * g.dstStride + g.width) =
        dst.data + g.dstOffset + (g.height - 1) * g.dstStride + g.width := by
    intro h
    have hoff := h.offset
    have hwidth := h.width
    have hspan : (g.height - 1) * g.dstStride ≤ dst.size - g.dstOffset :=
      (Nat.mul_le_mul_right _ h.rows).trans (Nat.div_mul_le_self _ _)
    exact ⟨wrap_of_lt (by omega), wrap_of_lt (by omega)⟩
  have hsrc : wrap (g.src + wrap ((g.height - 1) * g.srcStride) + g.width) =
      g.src + (g.height - 1) * g.srcStride + g.width := by
    rw [wrap_of_lt (n := (g.height - 1) * g.srcStride) (by omega), wrap_of_lt hreal]
  unfold stageRun2d
  rw [if_neg (show ¬ (g.width = 0 ∨ g.height = 0) from hne)]
  simp only [expects_ok, hsrc]
  constructor
  · rintro ⟨hss, hds, hnull, hoff, hrows, hwidth, hapart, hout⟩
    rw [hwrap hoff hrows] at hwidth hapart hout
    have hfits : TileFits dst.size g := ⟨hss, hds, hnull, hoff, hrows, hwidth⟩
    obtain ⟨hlo, hhi⟩ := hbox hfits
    rw [hlo, hhi] at hapart hout
    cases hout
    exact ⟨⟨hfits, hapart⟩, rfl⟩
  · rintro ⟨⟨h, hapart⟩, rfl⟩
    obtain ⟨hlo, hhi⟩ := hbox h
    rw [hwrap h.offset h.rows, hlo, hhi]
    exact ⟨h.srcStride, h.dstStride, h.src, h.offset, h.rows, h.width, hapart, rfl⟩

lemma foldlM_tiles {σ : Type} {f : σ → Gather2DRun → Except String σ} {rule : Gather2DRun → Prop}
    {put : σ → Gather2DRun → σ} (hempty : ∀ s g, g.Empty → f s g = .ok s)
    (hstep : ∀ s g s', ¬ g.Empty → (f s g = .ok s' ↔ rule g ∧ s' = put s g)) :
    ∀ {tiles : List Gather2DRun} {s s' : σ}, tiles.foldlM f s = .ok s' ↔
      (∀ g ∈ tiles, ¬ g.Empty → rule g) ∧ s' = (tiles.filter fun g => ¬ g.Empty).foldl put s
  | [], s, s' => by simp [pure, Except.pure, eq_comm]
  | g :: tiles, s, s' => by
    rw [foldlM_cons, bind_ok]
    by_cases hg : g.Empty
    · simp [hempty, hg, foldlM_tiles hempty hstep]
    · simp only [hstep, foldlM_tiles hempty hstep, mem_cons, forall_eq_or_imp, hg, not_false_eq_true,
        true_implies, decide_true, filter_cons_of_pos, foldl_cons]
      constructor
      · rintro ⟨_, ⟨hrule, rfl⟩, hrest, rfl⟩
        exact ⟨⟨hrule, hrest⟩, rfl⟩
      · rintro ⟨⟨hrule, hrest⟩, rfl⟩
        exact ⟨_, ⟨hrule, rfl⟩, hrest, rfl⟩

lemma stageRuns2d_fallback {staged : List StagedRun2D} : stageRuns2dFallback dst tiles = .ok staged ↔
    (∀ g ∈ tiles, ¬ g.Empty → TileFits dst.size g) ∧ staged = stagedTiles tiles := by
  have hput : ∀ (tiles : List Gather2DRun) (out : List StagedRun2D),
      tiles.foldl (fun out g => out ++ [g.staged]) out = out ++ tiles.map Gather2DRun.staged := by
    intro tiles
    induction tiles with
    | nil => simp
    | cons g tiles ih => simp [ih]
  have hempty : ∀ (s : List StagedRun2D) (g : Gather2DRun), g.Empty → stageRun2dFallback dst.size s g = .ok s :=
    fun s g hg => if_pos hg
  unfold stageRuns2dFallback
  rw [foldlM_tiles hempty fun s g s' hg => stageRun2dFallback_ok hg, hput, nil_append]
  rfl

lemma stageRuns2d_host {staged : List StagedRun2D} : stageRuns2d dst (some tiles) tiles.length = .ok staged ↔
    (∀ g ∈ tiles, ¬ g.Empty → TileFits dst.size g ∧ TileApart dst g) ∧ BoxesDisjoint dst tiles ∧
      staged = stagedTiles tiles := by
  have hput : ∀ (tiles : List Gather2DRun) (out : List StagedRun2D × List (ℕ × ℕ)),
      tiles.foldl (fun out g => (out.1 ++ [g.staged], out.2 ++ [g.staged.dstBox dst.data])) out =
        (out.1 ++ tiles.map Gather2DRun.staged, out.2 ++ (tiles.map Gather2DRun.staged).map (·.dstBox dst.data)) := by
    intro tiles
    induction tiles with
    | nil => simp
    | cons g tiles ih => simp [ih]
  have hboxes : (∀ g ∈ tiles, ¬ g.Empty → TileFits dst.size g ∧ TileApart dst g) →
      ∀ box ∈ (stagedTiles tiles).map (·.dstBox dst.data), box.1 < box.2 := by
    intro _ _ hbox
    obtain ⟨r, hr, rfl⟩ := mem_map.mp hbox
    obtain ⟨g, hg, rfl⟩ := mem_map.mp hr
    have hne : ¬ g.Empty := by simpa using (mem_filter.mp hg).2
    have hwidth : g.width ≠ 0 := fun hw => hne (.inl hw)
    simp only [StagedRun2D.dstBox, Gather2DRun.staged]
    omega
  have hempty : ∀ (s : List StagedRun2D × List (ℕ × ℕ)) (g : Gather2DRun), g.Empty → stageRun2d dst s g = .ok s :=
    fun s g hg => if_pos hg
  have hfold : ∀ out : List StagedRun2D × List (ℕ × ℕ), tiles.foldlM (stageRun2d dst) ([], []) = .ok out ↔
      (∀ g ∈ tiles, ¬ g.Empty → TileFits dst.size g ∧ TileApart dst g) ∧
        out = (tiles.filter fun g => ¬ g.Empty).foldl
          (fun out g => (out.1 ++ [g.staged], out.2 ++ [g.staged.dstBox dst.data])) _ :=
    fun out => foldlM_tiles hempty fun s g s' hg => stageRun2d_iff hg
  unfold stageRuns2d
  rw [Option.getD_some, take_length]
  constructor
  · intro h
    obtain ⟨-, h⟩ := expects_ok.mp h
    obtain ⟨out, hout, h⟩ := bind_ok.mp h
    obtain ⟨hrules, hout⟩ := (hfold out).mp hout
    obtain ⟨_, hspans, hstaged⟩ := bind_ok.mp h
    rw [hput, nil_append, nil_append] at hout
    subst hout
    cases hstaged
    exact ⟨hrules, spans_disjoint (hboxes hrules) hspans, rfl⟩
  · rintro ⟨hrules, hdisjoint, rfl⟩
    refine expects_ok.mpr ⟨.inr rfl, bind_ok.mpr ⟨_, (hfold _).mpr ⟨hrules, rfl⟩, ?_⟩⟩
    rw [hput, nil_append, nil_append]
    exact bind_ok.mpr ⟨(), checkSpans_of_disjoint (hboxes hrules) hdisjoint, rfl⟩

lemma memmoves2d_eq (staged : List StagedRun2D) (base : ℕ) (mem : Mem UInt8) :
    memmoves2d staged base mem = runAll (copyAll2d staged base) mem := by
  unfold memmoves2d copyAll2d runAll
  rw [foldl_flatMap]
  congr 1
  funext mem r
  unfold StagedRun2D.copies
  rw [foldl_map]
  simp [add_assoc]

end

/-! ## Both stagings -/

section

variable (dst : DstSpan) (runs : List (ℕ × ℕ × ℕ)) (real : ∀ run ∈ runs, run.1 + run.2.2 < 2 ^ 64)
  (tiles : List Gather2DRun)

/-- The fallback raises exactly when the host rejects, and otherwise stages the same copies, which leave the
same bytes. -/
structure StagesAlike : Prop where
  oneD : SameOutcome (stageRuns1dFallback dst (runs.map (·.1)) (runs.map (·.2.1)) (runs.map (·.2.2)))
    (stageRuns1d dst (.ofRuns runs real))
  twoD : SameOutcome (stageRuns2dFallback dst tiles) (stageRuns2d dst (some tiles) tiles.length)
  runBytes : ∀ staged mem, stageRuns1d dst (.ofRuns runs real) = .ok staged →
    memmoves1d staged dst.data mem = runAll (copyAll1d staged dst.data) mem
  tileBytes : ∀ staged mem, stageRuns2d dst (some tiles) tiles.length = .ok staged →
    memmoves2d staged dst.data mem = runAll (copyAll2d staged dst.data) mem

/-- The lists that break a rule of both, or keep the rules that only the host checks. -/
def SharedRulesDecide : Prop :=
  (∃ g ∈ tiles, ¬ g.Empty ∧ ¬ TileFits dst.size g) ∨
    (∀ g ∈ tiles, ¬ g.Empty → TileApart dst g) ∧ BoxesDisjoint dst tiles

lemma tiles_same_iff : SameOutcome (stageRuns2dFallback dst tiles) (stageRuns2d dst (some tiles) tiles.length) ↔
    SharedRulesDecide dst tiles := by
  rw [sameOutcome_iff]
  constructor
  · rintro ⟨-, hsame⟩
    by_cases hfits : ∀ g ∈ tiles, ¬ g.Empty → TileFits dst.size g
    · obtain ⟨hrules, hdisjoint, -⟩ := stageRuns2d_host.mp (hsame _ (stageRuns2d_fallback.mpr ⟨hfits, rfl⟩))
      exact .inr ⟨fun g hg hne => (hrules g hg hne).2, hdisjoint⟩
    · push Not at hfits
      exact .inl hfits
  · rintro (⟨g, hg, hne, hunfit⟩ | ⟨hapart, hdisjoint⟩)
    · -- both refuse
      have hfallback : ∀ staged, stageRuns2dFallback dst tiles ≠ .ok staged := fun staged h =>
        hunfit ((stageRuns2d_fallback.mp h).1 g hg hne)
      have hhost : ∀ staged, stageRuns2d dst (some tiles) tiles.length ≠ .ok staged := fun staged h =>
        hunfit ((stageRuns2d_host.mp h).1 g hg hne).1
      refine ⟨⟨fun _ => ?_, fun _ => ?_⟩, fun staged h => absurd h (hfallback staged)⟩
      · cases h : stageRuns2d dst _ tiles.length with
        | error e => exact ⟨e, rfl⟩
        | ok staged => exact absurd h (hhost staged)
      · cases h : stageRuns2dFallback dst tiles with
        | error e => exact ⟨e, rfl⟩
        | ok staged => exact absurd h (hfallback staged)
    · have hiff : ∀ staged, stageRuns2dFallback dst tiles = .ok staged ↔
          stageRuns2d dst (some tiles) tiles.length = .ok staged := by
        intro staged
        rw [stageRuns2d_fallback, stageRuns2d_host]
        constructor
        · rintro ⟨hfits, rfl⟩
          exact ⟨fun g hg hne => ⟨hfits g hg hne, hapart g hg hne⟩, hdisjoint, rfl⟩
        · rintro ⟨hrules, -, rfl⟩
          exact ⟨fun g hg hne => (hrules g hg hne).1, rfl⟩
      cases hhost : stageRuns2d dst _ tiles.length with
      | ok staged => simp [(hiff staged).mpr hhost]
      | error e =>
        cases hfallback : stageRuns2dFallback dst tiles with
        | error e' => simp
        | ok staged =>
          have hok := (hiff staged).mp hfallback
          rw [hhost] at hok
          cases hok

/-- **The two stagings** agree on runs always, and on tiles exactly when the shared rules decide. -/
theorem stages_alike_iff : StagesAlike dst runs real tiles ↔ SharedRulesDecide dst tiles := by
  constructor
  · intro h
    exact (tiles_same_iff dst tiles).mp h.twoD
  · intro h
    exact {
      oneD := stageRuns1d_same dst runs real
      twoD := (tiles_same_iff dst tiles).mpr h
      runBytes := fun staged mem _ => memmoves1d_eq staged dst.data mem
      tileBytes := fun staged mem _ => memmoves2d_eq staged dst.data mem }

end

/-- A buffer of sixteen bytes, and a tile of one row for its first four. -/
def sixteen : DstSpan := ⟨4096, 16, by decide⟩

def firstFour : Gather2DRun := ⟨8192, 4, 0, 4, 4, 1, by decide⟩

theorem stages_alike_iff_firstFour : StagesAlike sixteen [(8192, 8, 4)] (by decide) [firstFour] :=
  (stages_alike_iff sixteen [(8192, 8, 4)] (by decide) [firstFour]).mpr <| .inr <| by
    constructor
    · intro g hg _
      obtain rfl := mem_singleton.mp hg
      exact .inr (by decide)
    · exact pairwise_singleton _ _

/-- Two tiles for the same bytes: the fallback stages them, the host refuses. -/
theorem same_bytes_twice : ∃ staged, stageRuns2dFallback sixteen [firstFour, firstFour] = .ok staged ∧
    (∀ staged, stageRuns2d sixteen (some [firstFour, firstFour]) 2 ≠ .ok staged) ∧
    ¬ StagesAlike sixteen [] (by decide) [firstFour, firstFour] := by
  have hdisjoint : ¬ BoxesDisjoint sixteen [firstFour, firstFour] := by
    unfold BoxesDisjoint
    decide
  have hhost : ∀ staged, stageRuns2d sixteen (some [firstFour, firstFour]) 2 ≠ .ok staged := fun staged h =>
    hdisjoint (stageRuns2d_host.mp h).2.1
  refine ⟨_, rfl, hhost, fun h => ?_⟩
  exact hhost _ ((sameOutcome_iff.mp h.twoD).2 _ rfl)

end VKernels.Comm
