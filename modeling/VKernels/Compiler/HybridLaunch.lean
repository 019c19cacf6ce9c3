import VKernels.Compiler.GridBarrier
import VKernels.Compiler.HybridAttention

/-!
# Launches of the hybrid megakernel

Where the phases of a layer lie in a launch, and the barriers of a launch.

* `before` — the phases before a layer; `length_before` counts them.

## Results

* `launch_layer` — a launch around the attention phases of an executed layer, which nothing else appends to.
* `launch_skips` — a launch that does not execute a layer leaves its cache alone.
* `megakernel_targets` — the barrier targets of a launch are those the counter passes, one after the other.
-/

namespace VKernels.Hybrid

open BarrierPhases
open GridBarrier (launchTargets)
open List

section

variable {V : Type} [Field V] [LinearOrder V] (f : Maths V) (d : Dims V) (w : Weights V) (token pos slot : ℕ)
  (barBase : ℤ) (P : ℕ)

/-- The phases before layer `l`, when all layers before it are executed. -/
def before (l : ℕ) : List (Phase Cell V) :=
  ⟨[once (hEmbed token w.emb d.O_HIDDEN_A d.C 8192)], some (barBase + P)⟩ ::
    (List.range l).flatMap (layer f d w pos slot barBase P)

lemma length_layer (l : ℕ) : (layer f d w pos slot barBase P l).length = if (l + 1) % 4 = 0 then 14 else 11 := by
  unfold layer isFull
  by_cases h : (l + 1) % 4 = 0
  · simp [h, fullAttention, mlp]
  · simp [h, linearAttention, mlp]

lemma executed_natCast (l : ℕ) :
    executed l = 1 + ((range l).map fun l => if (l + 1) % 4 = 0 then 14 else 11).sum := by
  unfold executed
  rw [if_pos (Int.natCast_nonneg l), Int.toNat_natCast]

lemma executed_succ (l : ℕ) : executed (l + 1 : ℕ) = executed l + if (l + 1) % 4 = 0 then 14 else 11 := by
  rw [executed_natCast, executed_natCast, range_succ, map_append, sum_append]
  simp [add_assoc]

lemma executed_eq (l : ℕ) : executed l = 11 * l + 3 * (l / 4) + 1 := by
  induction l with
  | zero => rfl
  | succ l ih =>
    rw [executed_succ, ih]
    by_cases h : (l + 1) % 4 = 0
    · rw [if_pos h]
      omega
    · rw [if_neg h]
      omega

lemma length_before (l : ℕ) : (before f d w token pos slot barBase P l).length = executed l := by
  unfold before
  simp only [length_cons, length_flatMap, length_layer, executed_natCast]
  omega

variable {f d w token pos slot barBase P} {L : ℕ} {killAfter : ℤ}

lemma flatMap_executed {l : ℕ} (h : Executes killAfter l) :
    ((range l).flatMap fun l => if Executes killAfter l then layer f d w pos slot barBase P l else []) =
      (range l).flatMap (layer f d w pos slot barBase P) := by
  refine flatMap_congr fun l' hl' => if_pos ?_
  have hlt := mem_range.mp hl'
  unfold Executes at h ⊢
  omega

/-- What follows layer `l`, when `k` more layers do. -/
def after (f : Maths V) (d : Dims V) (w : Weights V) (pos slot : ℕ) (barBase : ℤ) (P L : ℕ) (killAfter : ℤ) (l k : ℕ) :
    List (Phase Cell V) :=
  ((List.range k).map fun i => l + 1 + i).flatMap (fun l =>
    if Executes killAfter l then layer f d w pos slot barBase P l else []) ++ final f d w barBase P L killAfter

lemma megakernel_split {l : ℕ} (hl : l < L) (hex : Executes killAfter l) :
    ∃ k, hybridMegakernel f d w token pos slot barBase P L killAfter =
      before f d w token pos slot barBase P l ++ layer f d w pos slot barBase P l ++
        after f d w pos slot barBase P L killAfter l k := by
  obtain ⟨k, rfl⟩ := Nat.exists_eq_add_of_le (Nat.succ_le_of_lt hl)
  refine ⟨k, ?_⟩
  unfold hybridMegakernel before after
  rw [show l.succ + k = l + 1 + k from rfl, range_add, flatMap_append, range_succ, flatMap_append,
    flatMap_executed hex, flatMap_singleton, if_pos hex]
  simp

/-! ## Barriers -/

lemma layer_barriers (l : ℕ) : (layer f d w pos slot barBase P l).filterMap Phase.barrier =
    (range (if (l + 1) % 4 = 0 then 14 else 11)).map fun j : ℕ => layerBase barBase P l + ((j : ℤ) + 1) * P := by
  unfold layer isFull
  by_cases h : (l + 1) % 4 = 0
  · simp [h, fullAttention, mlp, range_succ]
  · simp [h, linearAttention, mlp, range_succ]

lemma before_barriers (l : ℕ) : (before f d w token pos slot barBase P l).filterMap Phase.barrier =
    (range (executed l)).map fun j : ℕ => barBase + ((j : ℤ) + 1) * P := by
  induction l with
  | zero =>
    have hone : executed (0 : ℕ) = 1 := rfl
    rw [hone]
    simp [before]
  | succ l ih =>
    have hsplit : before f d w token pos slot barBase P (l + 1) =
        before f d w token pos slot barBase P l ++ layer f d w pos slot barBase P l := by
      unfold before
      rw [range_succ, flatMap_append, flatMap_singleton, cons_append]
    rw [hsplit, filterMap_append, ih, layer_barriers, executed_succ, range_add, map_append, map_map]
    refine congrArg _ (map_congr_left fun j _ => ?_)
    unfold layerBase
    simp only [Function.comp_apply]
    rw [executed_eq]
    push_cast
    ring

lemma megakernel_targets (hlow : -1 ≤ killAfter) (hhigh : killAfter ≤ 64) :
    (hybridMegakernel f d w token pos slot barBase P 64 killAfter).filterMap Phase.barrier =
      launchTargets (Fin P) barBase (executed killAfter) := by
  have htargets (n : ℕ) : launchTargets (Fin P) barBase n = (range n).map fun j : ℕ => barBase + ((j : ℤ) + 1) * P := by
    unfold launchTargets SpinBarrier.target
    rw [Fintype.card_fin]
  rw [htargets]
  unfold hybridMegakernel final
  by_cases hkill : killAfter < 0
  · have hall : executed killAfter = executed (64 : ℕ) + 1 := by
      unfold executed
      rw [if_neg (not_le.mpr hkill)]
      rfl
    rw [if_pos hkill, flatMap_executed (.inl hkill), hall]
    change (before f d w token pos slot barBase P 64 ++ _).filterMap Phase.barrier = _
    rw [filterMap_append, before_barriers, range_succ, map_append, executed_eq 64]
    simp [add_mul]
    ring
  · obtain ⟨k, rfl⟩ := Int.eq_ofNat_of_zero_le (not_lt.mp hkill)
    have hk : k ≤ 64 := by omega
    have hout : ∀ l, k ≤ l →
        (if Executes (k : ℤ) l then layer f d w pos slot barBase P l else []) = ([] : List (Phase Cell V)) := by
      intro l hl
      refine if_neg ?_
      unfold Executes
      omega
    have hex : (range k).flatMap (fun l => if Executes (k : ℤ) l then layer f d w pos slot barBase P l else []) =
        (range k).flatMap (layer f d w pos slot barBase P) := by
      refine flatMap_congr fun l hl => if_pos (.inr ?_)
      exact_mod_cast mem_range.mp hl
    rw [if_neg hkill, append_nil, Blocks.flatMap_bounded hk hout, hex]
    exact before_barriers k

end

/-! ## The caches -/

/-- The cache elements of full-attention layer `l`. -/
def layerCache (capacity l : ℕ) : Set Cell :=
  {c | (c.1 = .kCache ∨ c.1 = .vCache) ∧ rowsBase capacity (fullIndex l) ≤ c.2 ∧
    c.2 < rowsBase capacity (fullIndex l) + capacity * 1024}

lemma isFull_iff {l : ℕ} : isFull l = true ↔ (l + 1) % 4 = 0 := by
  unfold isFull
  rw [beq_iff_eq]

lemma layerRows_apart {capacity l l' pos : ℕ} (hpos : pos < capacity) (hfull : isFull l = true) (hne : l' ≠ l) :
    layerRows capacity l' pos ⊆ Set.compl (layerCache capacity l) := by
  rintro c hc ⟨-, hlow, hhigh⟩
  unfold layerRows at hc
  by_cases hfull' : isFull l' = true
  · rw [if_pos hfull'] at hc
    obtain ⟨-, hlow', hhigh'⟩ := hc
    have hbase (fi : ℕ) : rowsBase capacity fi = fi * (capacity * 1024) := by
      unfold rowsBase
      rw [Nat.mul_assoc]
    rw [hbase] at hlow hhigh hlow' hhigh'
    have hindex : fullIndex l' = fullIndex l :=
      LaneLaunch.rows_apart (show c.2 - fullIndex l' * (capacity * 1024) < capacity * 1024 by omega)
        (show c.2 - fullIndex l * (capacity * 1024) < capacity * 1024 by omega) (by omega)
    have h := isFull_iff.mp hfull
    have h' := isFull_iff.mp hfull'
    unfold fullIndex at hindex
    omega
  · rw [if_neg hfull'] at hc
    exact hc

section

variable {V : Type} [Field V] [LinearOrder V] {f : Maths V} {c : Scales V} {w : Weights V} {token pos : ℕ} {barBase : ℤ}
  {P capacity L : ℕ} {killAfter : ℤ}

/-- **A launch around an executed full-attention layer**: its attention phases begin after `executed l + 1` others,
and only they touch its rows. -/
theorem launch_layer {l : ℕ} (hl : l < L) (hex : Executes killAfter l) (hfull : isFull l = true) :
    ∃ pre post, hybridMegakernel f (hybridDims capacity c) w token pos pos barBase P L killAfter =
        pre ++ fullAttention f (hybridDims capacity c) w pos pos P (fullIndex l) (layerBase barBase P l) ++ post ∧
      pre.length = executed l + 1 ∧
      (0 < P → capacity ≤ 512 → pos < capacity → ∀ ph ∈ pre ++ post, Sound P (Set.compl (layerCache capacity l)) ph) := by
  obtain ⟨k, hsplit⟩ := @megakernel_split V _ _ f _ w token pos pos barBase P L killAfter l hl hex
  have hlayer : layer f (hybridDims capacity c) w pos pos barBase P l =
      ⟨[once (hRms f oHiddenA (advance w.ln1 (l * C)) oRms1 C 8192 c.eps)], some (layerBase barBase P l + P)⟩ ::
        fullAttention f (hybridDims capacity c) w pos pos P (fullIndex l) (layerBase barBase P l) ++
        mlp f (hybridDims capacity c) w P l (layerBase barBase P l) 10 := by
    unfold layer
    dsimp only
    rw [if_pos hfull, if_pos hfull]
    rfl
  have hphases : hybridMegakernel f (hybridDims capacity c) w token pos pos barBase P L killAfter =
      (before f (hybridDims capacity c) w token pos pos barBase P l ++
        [⟨[once (hRms f oHiddenA (advance w.ln1 (l * C)) oRms1 C 8192 c.eps)], some (layerBase barBase P l + P)⟩]) ++
      fullAttention f (hybridDims capacity c) w pos pos P (fullIndex l) (layerBase barBase P l) ++
      (mlp f (hybridDims capacity c) w P l (layerBase barBase P l) 10 ++
        after f (hybridDims capacity c) w pos pos barBase P L killAfter l k) := by
    rw [hsplit, hlayer]
    simp
  refine ⟨_, _, hphases, ?_, fun hP hcap hpos => ?_⟩
  · rw [length_append, length_before]
    rfl
  have hother (l' : ℕ) (hne : l' ≠ l) : ∀ ph ∈ layer f (hybridDims capacity c) w pos pos barBase P l',
      Sound P (Set.compl (layerCache capacity l)) ph := fun ph hph =>
    (layer_sound hP hcap hpos ph hph).mono (layerRows_apart hpos hfull hne)
  simp only [forall_mem_append]
  refine ⟨⟨?_, forall_mem_singleton.mpr (norm_sound hP)⟩, mlp_sound hP, ?_⟩
  · refine forall_mem_cons.mpr ⟨embed_sound hP, fun ph hph => ?_⟩
    obtain ⟨l', hl', hph⟩ := mem_flatMap.mp hph
    exact hother l' (mem_range.mp hl').ne ph hph
  · refine forall_mem_append.mpr ⟨fun ph hph => ?_, final_sound hP⟩
    obtain ⟨_, hl', hph⟩ := mem_flatMap.mp hph
    obtain ⟨i, -, rfl⟩ := mem_map.mp hl'
    by_cases hex' : Executes killAfter (l + 1 + i)
    · rw [if_pos hex'] at hph
      exact hother _ (by omega) ph hph
    · rw [if_neg hex'] at hph
      cases hph

lemma launch_skips {l : ℕ} (hP : 0 < P) (hcap : capacity ≤ 512) (hpos : pos < capacity) (hfull : isFull l = true)
    (hex : ¬Executes killAfter l) {s : ℕ → Mem V}
    (htrace : IsTrace P (hybridMegakernel f (hybridDims capacity c) w token pos pos barBase P L killAfter) s) {cell : Cell}
    (hcell : cell ∈ layerCache capacity l) :
    s (hybridMegakernel f (hybridDims capacity c) w token pos pos barBase P L killAfter).length cell = s 0 cell := by
  refine htrace.unchanged hP fun ph hph hmem => ?_
  obtain ⟨l', hex', hrow⟩ := (megakernel_sound hP hcap hpos ph hph).caches cell hmem hcell.1
  have hne : l' ≠ l := fun heq => hex (heq ▸ hex')
  exact layerRows_apart hpos hfull hne hrow hcell

end

end VKernels.Hybrid
