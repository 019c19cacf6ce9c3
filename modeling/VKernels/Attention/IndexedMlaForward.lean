import VKernels.Attention.IndexedMla

/-!
# Gathered-key attention: the forward kernel

* `columns` — the valid columns of a row; `reference_eq_attention`: the reference is the softmax-weighted mean over them.
* `gather_holds` — the loop over the blocks gathers them.
* `Forward.Returned.out_at`, `lse_at` — what the call returns.
-/

namespace VKernels.IndexedMla

open Finset SplitSoftmax WorkerTasks
open OnlineSoftmax (expFrom)
open Grouping (blocksFor le_blocksFor)
open LaneLaunch (int32 rows_apart)
open Wavefront (sum_bounded)
open Blocks (range_blocks flatMap_blocks)

/-! ## Valid columns -/

section

variable {V : Type} (s : Shape) (x : Data V) (i : ℕ × ℕ × ℕ)

def columns : Finset ℕ := (range s.K).filter (ValidIndex s x i)

/-- The row of the latent at a column. -/
def latent (j r : ℕ) : V := x.kv (s.kvOff i.1 (safe s x i j) r)

variable {s x i}

variable {j : ℕ}

lemma mem_columns : j ∈ columns s x i ↔ j < s.K ∧ ValidIndex s x i j := by
  rw [columns, mem_filter, mem_range]

lemma nonempty_iff : Nonempty s x i ↔ (columns s x i).Nonempty := by
  constructor
  · rintro ⟨j, hj, hvalid⟩
    exact ⟨j, mem_columns.mpr ⟨List.mem_range.mp hj, hvalid⟩⟩
  · rintro ⟨j, hj⟩
    exact ⟨j, List.mem_range.mpr (mem_columns.mp hj).1, (mem_columns.mp hj).2⟩

lemma safe_eq (h : ValidIndex s x i j) : safe s x i j = (index s x i j).toNat := by
  obtain ⟨hlo, hhi⟩ := h
  rw [safe, min_eq_left (by omega), max_eq_right hlo]

lemma safe_lt (h : ValidIndex s x i j) : safe s x i j < s.S := by
  rw [safe_eq h]
  obtain ⟨hlo, hhi⟩ := h
  omega

end

variable {V : Type} [Field V] [LinearOrder V]

section

variable {exp : V → V} {s : Shape} {x : Data V} {i : ℕ × ℕ × ℕ}

omit [LinearOrder V] in
lemma expFrom_masked (m : V) (j : ℕ) :
    expFrom exp (maskedScore s x i j) m = if ValidIndex s x i j then exp (score s x i j - m) else 0 := by
  unfold maskedScore
  split <;> rfl

lemma reference_eq_attention (hE : Exponential exp) (r : ℕ) :
    reference exp s x i r = attention exp (score s x i) (latent s x i) (columns s x i) r := by
  by_cases hne : Nonempty s x i
  · obtain ⟨m, hm⟩ : ∃ m, ((maxOver s.K fun j => maskedScore s x i j).getD 0) = m := ⟨_, rfl⟩
    have hden : ∑ j ∈ range s.K, expFrom exp (maskedScore s x i j) m = mass exp (score s x i) (columns s x i) m := by
      rw [mass, columns, sum_filter]
      exact sum_congr rfl fun j _ => expFrom_masked m j
    rw [← moment_div_mass hE, moment, sum_div, columns, sum_filter]
    refine sum_congr rfl fun j _ => ?_
    unfold prob softmax
    simp only [hne, if_true, hm, hden]
    split
    · rename_i hvalid
      rw [expFrom_masked, if_pos hvalid, div_mul_eq_mul_div]
      rfl
    · exact zero_mul _
  · have hempty : columns s x i = ∅ := not_nonempty_iff_eq_empty.mp fun h => hne (nonempty_iff.mpr h)
    rw [hempty, attention_empty]
    refine sum_eq_zero fun j hj => ?_
    have hinvalid : ¬ValidIndex s x i j := fun h => hne ⟨j, List.mem_range.mpr (mem_range.mp hj), h⟩
    rw [prob, if_neg hinvalid, zero_mul]

end

/-! ## Lanes -/

section

variable {V : Type} [Field V] {s : Shape} {x : Data V} (hfits : x.Fits) {w : Lanes s} {b q h : ℕ}

omit [Field V] in
lemma int32_index (hfits : x.Fits) (o : ℕ) : int32 (x.indices o) = x.indices o := by
  obtain ⟨hlo, hhi⟩ := hfits o
  exact Int.bmod_eq_of_le (by norm_num; omega) (by norm_num; omega)

include hfits

omit [Field V] in
lemma laneKey_eq {col : ℕ} (hcol : col < s.K) : laneKey s x b q col = index s x (b, q, h) col := by
  rw [laneKey, if_pos hcol, int32_index hfits]
  rfl

omit [Field V] in
lemma laneValid_iff {col : ℕ} : LaneValid s x b q col ↔ col ∈ columns s x (b, q, h) := by
  rw [mem_columns]
  refine and_congr_right fun hcol => ?_
  rw [laneKey_eq (h := h) hfits hcol]
  rfl

omit [Field V] in
lemma laneKey_toNat {col : ℕ} (hcol : col ∈ columns s x (b, q, h)) :
    (laneKey s x b q col).toNat = safe s x (b, q, h) col := by
  rw [laneKey_eq (h := h) hfits (mem_columns.mp hcol).1, safe_eq (mem_columns.mp hcol).2]

lemma laneKv_eq {col r : ℕ} (hcol : col ∈ columns s x (b, q, h)) (hr : r < s.R) :
    laneKv s x b q col r = latent s x (b, q, h) col r := by
  rw [laneKv, if_pos ⟨(laneValid_iff hfits).mpr hcol, hr⟩, laneKey_toNat (h := h) hfits hcol]
  rfl

lemma laneKr_eq {col p : ℕ} (hcol : col ∈ columns s x (b, q, h)) (hp : p < s.P) :
    laneKr s x b q col p = x.kr (s.krOff b (safe s x (b, q, h) col) p) := by
  rw [laneKr, if_pos ⟨(laneValid_iff hfits).mpr hcol, hp⟩, laneKey_toNat (h := h) hfits hcol]

omit hfits in
lemma sum_padded {n lanes : ℕ} (hn : n ≤ lanes) {f g : ℕ → V} (hin : ∀ r < n, f r = g r) (hout : ∀ r, n ≤ r → f r = 0) :
    ∑ r ∈ range lanes, f r = ∑ r ∈ range n, g r := by
  rw [← sum_bounded hn]
  refine sum_congr rfl fun r _ => ?_
  split
  · exact hin r ‹_›
  · exact hout r (by omega)

omit hfits in
lemma laneRow_eq {f : ℕ → V} {r : ℕ} (hh : h < s.H) (hr : r < s.R) : laneRow s b q f h r = f (s.qOff (b, q, h) r) :=
  if_pos ⟨hh, hr⟩

omit hfits in
lemma laneRow_out {f : ℕ → V} {r : ℕ} (hr : s.R ≤ r) : laneRow s b q f h r = 0 := if_neg fun hin => by omega

/-- **The score of a lane** is that of the reference. -/
theorem laneRow_dot {col : ℕ} (hh : h < s.H) (hcol : col ∈ columns s x (b, q, h)) (f : ℕ → V) :
    ∑ r ∈ range w.BR, laneRow s b q f h r * laneKv s x b q col r =
      ∑ r ∈ range s.R, f (s.qOff (b, q, h) r) * latent s x (b, q, h) col r := by
  refine sum_padded w.R_le (fun r hr => ?_) fun r hr => ?_
  · rw [laneRow_eq hh hr, laneKv_eq hfits hcol hr]
  · rw [laneRow_out hr, zero_mul]

lemma laneScaled_eq {col : ℕ} (hh : h < s.H) (hcol : col ∈ columns s x (b, q, h)) :
    laneScaled s x b q w h col = score s x (b, q, h) col := by
  have hranks : (if 0 < s.P then ∑ p ∈ range w.BP, laneQr s x b q h p * laneKr s x b q col p else 0) =
      ∑ p ∈ range s.P, x.qr (s.qrOff (b, q, h) p) * x.kr (s.krOff b (safe s x (b, q, h) col) p) := by
    split
    · refine sum_padded w.P_le (fun p hp => ?_) fun p hp => ?_
      · rw [laneQr, if_pos ⟨hh, hp⟩, laneKr_eq hfits hcol hp]
      · rw [laneQr, if_neg fun hin => by omega, zero_mul]
    · rename_i hp
      rw [Nat.eq_zero_of_not_pos hp, range_zero, sum_empty]
  rw [laneScaled, laneDot, laneRow_dot hfits hh hcol, hranks, laneBias, if_pos (mem_columns.mp hcol).1]
  rfl

end

/-! ## Programs -/

section

variable {exp log : V → V} (hE : Exponential exp) {s : Shape} {x : Data V} (hfits : x.Fits)
    {w : Lanes s} {b q h : ℕ}
include hE hfits

lemma gather_holds (hh : h < s.H) :
    (gather exp s x w b q h).Holds exp (score s x (b, q, h)) (laneKv s x b q) (columns s x (b, q, h)) := by
  have hmasked (col : ℕ) : laneScore s x w b q h col =
      if LaneValid s x b q col then some (laneScaled s x b q w h col) else none := by
    simp [laneScore, hh, and_true]
  have hblocks : (gather exp s x w b q h).Holds exp (laneScaled s x b q w h) (laneKv s x b q)
      ((range (blocksFor w.BN s.K * w.BN)).filter (LaneValid s x b q)) :=
    Gathered.holds_blocks hE hmasked _
  have hset : (range (blocksFor w.BN s.K * w.BN)).filter (LaneValid s x b q) = columns s x (b, q, h) := by
    ext col
    rw [mem_filter, mem_range, laneValid_iff (h := h) hfits]
    constructor
    · exact fun hin => hin.2
    · intro hcol
      exact ⟨(mem_columns.mp hcol).1.trans_le (le_blocksFor w.BN_pos s.K), hcol⟩
  rw [hset] at hblocks
  exact hblocks.congr (fun col hcol => laneScaled_eq hfits hh hcol) fun _ _ _ => rfl

variable [IsStrictOrderedRing V]

/-- **A stored element** is that of the reference. -/
theorem laneResult_eq {r : ℕ} (hh : h < s.H) (hr : r < s.R) :
    laneResult exp s x w b q h r = reference exp s x (b, q, h) r := by
  rw [laneResult, (gather_holds hE hfits hh).quotient hE r, reference_eq_attention hE]
  exact attention_congr (fun _ _ => rfl) fun col hcol => laneKv_eq hfits hcol hr

/-- **The stored log-sum-exp** of a row with a valid column. -/
theorem laneLse_eq (hlog : ∀ y, 0 < y → exp (log y) = y) (hh : h < s.H) (hne : (columns s x (b, q, h)).Nonempty) :
    ∃ l, laneLse exp log s x w b q h = some l ∧ exp l = ∑ j ∈ columns s x (b, q, h), exp (score s x (b, q, h) j) := by
  have hholds : (gather exp s x w b q h).Holds exp (score s x (b, q, h)) (laneKv s x b q) (columns s x (b, q, h)) :=
    gather_holds hE hfits hh
  have hmass := hholds.logMass hE hlog
  rw [if_pos (hholds.denom_pos hE hne)] at hmass
  unfold laneLse
  cases hmax : (gather exp s x w b q h).max with
  | none =>
    rw [hmax] at hmass
    exact absurd hmass hne.ne_empty
  | some m =>
    rw [hmax] at hmass
    refine ⟨m + log (gather exp s x w b q h).denom, by simp [hmax], ?_⟩
    have hexp : exp (m + log (gather exp s x w b q h).denom) = mass exp (score s x (b, q, h)) (columns s x (b, q, h)) 0 :=
      hmass
    simpa [mass] using hexp

end

/-! ## What the forward call returns -/

section

variable {s : Shape}

lemma row_inj {i i' : ℕ × ℕ × ℕ} (hi : i ∈ s.queries) (hi' : i' ∈ s.queries) (h : s.row i = s.row i') : i = i' := by
  obtain ⟨b, q, h₀⟩ := i
  obtain ⟨_, _, h₀'⟩ := i'
  simp only [Shape.queries, mem_product, mem_range] at hi hi'
  simp only [Shape.row] at h
  have hrow := rows_apart hi.2.2 hi'.2.2 h
  rw [hrow] at h
  have hb := rows_apart hi.2.1 hi'.2.1 hrow
  rw [hb] at hrow
  simp only [Prod.mk.injEq]
  omega

lemma exists_row {k : ℕ} (hk : k < s.B * s.S * s.H) : ∃ i ∈ s.queries, s.row i = k := by
  have hmem : k ∈ programs s fun b q => (List.range s.H).map fun h => s.row (b, q, h) := by
    have hrows : (programs s fun b q => (List.range s.H).map fun h => s.row (b, q, h)) = List.range (s.B * s.S * s.H) := by
      rw [← range_blocks, ← flatMap_blocks]
      rfl
    rw [hrows]
    exact List.mem_range.mpr hk
  simp only [programs, List.mem_flatMap, List.mem_map, List.mem_range] at hmem
  obtain ⟨b, hb, q, hq, h, hh, hk⟩ := hmem
  exact ⟨(b, q, h), by simp [Shape.queries, hb, hq, hh], hk⟩

lemma element_inj {width : ℕ} {i i' : ℕ × ℕ × ℕ} {r r' : ℕ} (hi : i ∈ s.queries) (hi' : i' ∈ s.queries) (hr : r < width)
    (hr' : r' < width) (h : s.row i * width + r = s.row i' * width + r') : i = i' ∧ r = r' := by
  have hrow := rows_apart hr hr' h
  rw [hrow] at h
  exact ⟨row_inj hi hi' hrow, add_left_cancel h⟩

lemma exists_element {width o : ℕ} (ho : o < s.B * s.S * s.H * width) :
    ∃ i ∈ s.queries, ∃ r < width, s.row i * width + r = o := by
  have hwidth : 0 < width := pos_of_ne_zero fun hzero => by simp [hzero] at ho
  obtain ⟨i, hi, hrow⟩ := exists_row (Nat.div_lt_of_lt_mul (by rwa [mul_comm] at ho) : o / width < s.B * s.S * s.H)
  refine ⟨i, hi, o % width, Nat.mod_lt o hwidth, ?_⟩
  rw [hrow, mul_comm]
  exact Nat.div_add_mod o width

end

section

variable {V : Type} {s : Shape}

lemma tile_keys {lanes lanes' width : ℕ} (hH : s.H ≤ lanes) (hwidth : width ≤ lanes') (f : ℕ → ℕ → ℕ → ℕ → V) :
    (programs s fun b q => tileStores lanes lanes' s.H width fun h r => (s.row (b, q, h) * width + r, f b q h r)).map
      Prod.fst = List.range (s.B * s.S * s.H * width) := by
  rw [← range_blocks, ← flatMap_blocks, ← flatMap_blocks, programs, List.map_flatMap]
  refine List.flatMap_congr fun b _ => ?_
  rw [List.map_flatMap]
  refine List.flatMap_congr fun q _ => ?_
  rw [tileStores_eq hH hwidth, List.map_flatMap]
  refine List.flatMap_congr fun h _ => ?_
  rw [List.map_map]
  rfl

/-- **Rows stored by the programs**, in any order. -/
theorem tile_at {lanes lanes' width : ℕ} (hH : s.H ≤ lanes) (hwidth : width ≤ lanes') {f : ℕ → ℕ → ℕ → ℕ → V}
    {m m' : ℕ → V} (h : AnyOrder (programs s fun b q => tileStores lanes lanes' s.H width fun h r =>
      (s.row (b, q, h) * width + r, f b q h r)) m m') {i : ℕ × ℕ × ℕ} (hi : i ∈ s.queries) {r : ℕ} (hr : r < width) :
    m' (s.row i * width + r) = f i.1 i.2.1 i.2.2 r := by
  obtain ⟨b, q, h₀⟩ := i
  simp only [Shape.queries, mem_product, mem_range] at hi
  refine h.at ?_ ?_
  · rw [tile_keys hH hwidth]
    exact List.nodup_range
  · refine List.mem_flatMap.mpr ⟨b, List.mem_range.mpr hi.1, List.mem_flatMap.mpr ⟨q, List.mem_range.mpr hi.2.1, ?_⟩⟩
    show _ ∈ tileStores lanes lanes' s.H width _
    rw [tileStores_eq hH hwidth]
    exact List.mem_flatMap.mpr ⟨h₀, List.mem_range.mpr hi.2.2, List.mem_map.mpr ⟨r, List.mem_range.mpr hr, rfl⟩⟩

end

section

variable [IsStrictOrderedRing V] {exp log : V → V} (hE : Exponential exp) {s : Shape} {x : Data V}
    (hfits : x.Fits) {w : Lanes s} {fresh f : Forward V}
    (hf : Forward.Returned exp log s x w fresh f)
include hE hfits hf

lemma Forward.Returned.out_at {i : ℕ × ℕ × ℕ} (hi : i ∈ s.queries) {r : ℕ} (hr : r < s.R) :
    f.out (s.qOff i r) = reference exp s x i r ∧ f.out32 (s.qOff i r) = reference exp s x i r := by
  have hh : i.2.2 < s.H := by
    simp only [Shape.queries, mem_product, mem_range] at hi
    exact hi.2.2
  have hlane := laneResult_eq (w := w) (b := i.1) (q := i.2.1) hE hfits hh hr
  exact ⟨(tile_at w.H_le w.R_le hf.out hi hr).trans hlane, (tile_at w.H_le w.R_le hf.out32 hi hr).trans hlane⟩

omit [IsStrictOrderedRing V] hE hfits in
lemma Forward.Returned.lse_at {i : ℕ × ℕ × ℕ} (hi : i ∈ s.queries) :
    f.lse (s.row i) = laneLse exp log s x w i.1 i.2.1 i.2.2 := by
  obtain ⟨b, q, h⟩ := i
  simp only [Shape.queries, mem_product, mem_range] at hi
  refine hf.lse.at ?_ ?_
  · have hkeys : (programs s (forwardLse exp log s x w)).map Prod.fst = List.range (s.B * s.S * s.H) := by
      rw [← range_blocks, ← flatMap_blocks, programs, List.map_flatMap]
      refine List.flatMap_congr fun b _ => ?_
      rw [List.map_flatMap]
      refine List.flatMap_congr fun q _ => ?_
      rw [forwardLse, laneStores_eq w.H_le, List.map_map]
      rfl
    rw [hkeys]
    exact List.nodup_range
  · refine List.mem_flatMap.mpr ⟨b, List.mem_range.mpr hi.1, List.mem_flatMap.mpr ⟨q, List.mem_range.mpr hi.2.1, ?_⟩⟩
    rw [forwardLse, laneStores_eq w.H_le]
    exact List.mem_map.mpr ⟨h, List.mem_range.mpr hi.2.2, rfl⟩

end

end VKernels.IndexedMla
