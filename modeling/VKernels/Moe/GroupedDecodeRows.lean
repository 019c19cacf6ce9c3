import VKernels.Moe.GroupedDecode

/-!
# Rows of the grouped MoE decode

What one row of each kernel loads and computes, with offsets that fit in 32 bits.

* `value_eq` — the byte decodes of the kernels are those of the storage formats.
* `RowLanes.Reads`, `rowDot`, `dot_of_reads` — a dot product whose loads are those of a row.
* `gemvLanes_reads`, `panelLanes_reads`, `downLanes_reads` — the loads of the kernels; the last without padded columns.
* `gateUpRow_eq`, `downRow_eq`, `gemvRow_eq`, `swigluRow_eq`, `weightedSumRow_eq` — the rows.
-/

namespace VKernels.GroupedDecode

open Float8 Grouping LaneLaunch
open List
open Option (bind_eq_bind bind_some map_some)
open Buffer (load_at load_masked)
open Decode (storage value)

variable {α V : Type}

/-! ## The bytes of all decodes -/

lemma magnitude_nonneg (bias : ℤ) (raw : ℕ) : 0 ≤ magnitude bias raw := by
  unfold magnitude
  split
  · positivity
  · positivity

lemma withSign_of_nonneg {raw : ℕ} {v : ℚ} (h : 0 ≤ v) : withSign raw v = signed raw v := by
  rw [withSign, signed, abs_of_nonneg h]

lemma withSign_signed {raw : ℕ} {v : ℚ} (h : 0 ≤ v) : withSign raw (signed raw v) = signed raw v := by
  unfold withSign signed
  split
  · rfl
  · rw [abs_neg, abs_of_nonneg h]

/-- The bits that are put together are those of the value. -/
lemma manual_eq {bias : ℕ} {b : ℤ} {subnormal : ℚ} (hbias : (bias : ℤ) - 127 = -b) (hle : bias ≤ 240)
    (hsub : subnormal * 8 = 2 ^ (1 - b)) (raw : ℕ) : manual bias subnormal raw = magnitude b raw := by
  unfold manual magnitude
  split
  · rw [← hsub]
    ring
  · have hexponent := exponent_lt raw
    rw [float32_assembled (by omega) (mantissa_lt raw)]
    congr 2
    omega

lemma value_eq (d : Decode) (raw : ℕ) : d.value raw = d.storage.value raw := by
  cases d with
  | nv => rfl
  | manualFn =>
    have hmanual : manual 120 0.001953125 raw = magnitude 7 raw := manual_eq (by norm_num) (by norm_num) (by norm_num) raw
    simp [value, storage, Storage.value, e4m3fn, hmanual, withSign_of_nonneg (magnitude_nonneg 7 raw)]
  | manualFnuz =>
    have hmanual : manual 119 0.0009765625 raw = magnitude 8 raw := manual_eq (by norm_num) (by norm_num) (by norm_num) raw
    simp [value, storage, Storage.value, e4m3fnuz, hmanual, withSign_of_nonneg (magnitude_nonneg 8 raw)]
  | fnuzNative =>
    simp only [value, storage, Storage.value, e4m3fnuz]
    split
    · rfl
    · rw [map_some, withSign_signed (magnitude_nonneg 8 raw)]
  | fnNative =>
    simp only [value, storage, Storage.value]
    split
    · rename_i hnan
      rw [e4m3fn, if_pos hnan]
    · rename_i hnan
      by_cases hz : raw = 128
      · -- the negative zero is decoded as zero
        rw [if_pos hz, e4m3fnuz_zero, hz, e4m3fn_negative_zero, map_some, zero_mul, withSign_of_nonneg le_rfl]
        rfl
      · rw [if_neg hz, e4m3fn, if_neg hnan, e4m3fnuz, if_neg hz, map_some, signed_mul, two_mul_magnitude,
          withSign_signed (magnitude_nonneg 7 raw)]

lemma value_zero (d : Decode) : d.value 0 = some 0 := by
  rw [value_eq]
  cases d.storage with
  | e4m3fn => simp [Storage.value, e4m3fn, magnitude, exponent, mantissa, signed]
  | e4m3fnuz => exact e4m3fnuz_zero

/-! ## Dot products of a row -/

/-- The lanes load the elements of row `w` of the stack, `s` of the scales, `x` of the input, and nothing else. -/
structure RowLanes.Reads (l : RowLanes) (w s x n : ℕ) : Prop where
  weight : ∀ c < n, l.weight c = ⟨(w * n + c : ℕ), true⟩
  scale : ∀ c < n, l.scale c = ⟨(s * (n / 128) + c / 128 : ℕ), true⟩
  input : ∀ c < n, l.input c = ⟨(x * n + c : ℕ), true⟩
  padded : ∀ c, n ≤ c → c < l.cols → (l.weight c).mask = false ∧ (l.scale c).mask = false ∧ (l.input c).mask = false

section

variable [AddCommMonoid V] [Mul V] (fl : Floats V)

/-- The weight at element `j`, with the scale at `b`. -/
def Stack.at (s : Stack V) (j b : ℕ) : V :=
  match s with
  | .fp8 bytes scales decode => fl.bf16 (fl.ofFp8 (decode.value (bytes.get j).toNat) * scales.get b)
  | .bf16 w => w.get j

/-- Row `w` of a stack has its elements, row `s` of its scales too. -/
def Stack.Holds (s : Stack V) (w b n : ℕ) : Prop :=
  match s with
  | .fp8 bytes scales _ => (w + 1) * n ≤ bytes.size ∧ (b + 1) * (n / 128) ≤ scales.size
  | .bf16 buf => (w + 1) * n ≤ buf.size

def rowDot (s : Stack V) (x : ℕ → V) (w b n cols : ℕ) : V :=
  ((range cols).map fun c => if c < n then s.at fl (w * n + c) (b * (n / 128) + c / 128) * x c else 0 * 0).sum

variable {fl} {s : Stack V} {x : Buffer V} {l : RowLanes} {w b xr n : ℕ}

variable {c : ℕ}

lemma row_end {size : ℕ} (h : (w + 1) * n ≤ size) (hc : c < n) : w * n + c < size := by
  rw [add_one_mul] at h
  omega

lemma weight_of_reads (hl : l.Reads w b xr n) (hn : 128 ∣ n) (hs : s.Holds w b n) (hc : c < n) :
    s.weight fl l c = some (s.at fl (w * n + c) (b * (n / 128) + c / 128)) := by
  cases s with
  | fp8 bytes scales decode =>
    have hscale : c / 128 < n / 128 := Nat.div_lt_div_of_lt_of_dvd hn hc
    rw [Stack.weight, hl.weight c hc, hl.scale c hc, load_at rfl rfl (row_end hs.1 hc),
      load_at rfl rfl (row_end hs.2 hscale)]
    rfl
  | bf16 buf =>
    rw [Stack.weight, hl.weight c hc, load_at rfl rfl (row_end hs hc)]
    rfl

lemma weight_of_masked (hw : (l.weight c).mask = false) (hb : (l.scale c).mask = false) :
    s.weight fl l c = some 0 := by
  cases s with
  | fp8 bytes scales decode =>
    rw [Stack.weight, load_masked hw, load_masked hb]
    show some (fl.bf16 (fl.ofFp8 (decode.value 0) * 0)) = some 0
    rw [value_zero, fl.masked]
  | bf16 buf =>
    rw [Stack.weight, load_masked hw]

lemma dot_of_reads (hl : l.Reads w b xr n) (hn : 128 ∣ n) (hs : s.Holds w b n) (hx : (xr + 1) * n ≤ x.size) :
    dot fl s x l = some (rowDot fl s (fun c => x.get (xr * n + c)) w b n l.cols) := by
  rw [dot, rowDot]
  refine sumOver_eq fun c hc => ?_
  by_cases hcn : c < n
  · rw [weight_of_reads hl hn hs hcn, hl.input c hcn, load_at rfl rfl (row_end hx hcn), if_pos hcn]
    rfl
  · obtain ⟨hw, hb, hi⟩ := hl.padded c (Nat.le_of_not_lt hcn) hc
    rw [weight_of_masked hw hb, load_masked hi, if_neg hcn]
    rfl

lemma rowDot_congr {s' : Stack V} {x x' : ℕ → V} {cols : ℕ}
    (hs : ∀ c < n, s.at fl (w * n + c) (b * (n / 128) + c / 128) = s'.at fl (w * n + c) (b * (n / 128) + c / 128))
    (hx : ∀ c < n, x c = x' c) : rowDot fl s x w b n cols = rowDot fl s' x' w b n cols := by
  unfold rowDot
  congr 1
  refine map_congr_left fun c _ => ?_
  split
  · rename_i hc
    rw [hs c hc, hx c hc]
  · rfl

lemma owns_of_reads (hl : l.Reads w b xr n) (hn : 128 ∣ n) (scaled : Bool) : l.Owns scaled w b xr n := by
  intro c hc
  by_cases hcn : c < n
  · rw [hl.weight c hcn, hl.scale c hcn, hl.input c hcn]
    refine ⟨fun _ => ?_, fun _ _ => ?_, fun _ => ?_⟩
    · push_cast
      constructor <;> omega
    · push_cast
      constructor <;> omega
    · push_cast
      constructor <;> omega
  · obtain ⟨hw, hb, hi⟩ := hl.padded c (Nat.le_of_not_lt hcn) hc
    refine ⟨fun h => ?_, fun _ h => ?_, fun h => ?_⟩
    · rw [hw] at h
      cases h
    · rw [hb] at h
      cases h
    · rw [hi] at h
      cases h

end

/-! ## The loads of the kernels -/

section

variable {ex o i ia h k cols selected token j row : ℕ}

lemma int32_mul {a b : ℕ} (hab : a * b < 2 ^ 31) : int32 ((a : ℤ) * b) = (a * b : ℕ) := by
  rw [← Nat.cast_mul, int32_natCast hab]

lemma scale_masked {n c : ℕ} (hc : n ≤ c) : ¬ c / 128 < n / 128 :=
  Nat.not_lt.mpr (Nat.div_le_div_right hc)

lemma gemvLanes_reads (hi : 128 ∣ i) (hrow : row < o) (hstack : row * i < 2 ^ 31) (broadcast compact : Bool)
    (hinput : (if broadcast then selected / k else selected) * i < 2 ^ 31) :
    (gemvLanes o i k cols broadcast compact ex selected row).Reads (ex * o + row) (ex * (o / 128) + row / 128)
      (if broadcast then selected / k else selected) i where
  weight c hc := by
    have hmask : (decide ((row : ℤ) < o) && decide (c < i)) = true := by simp [hrow, hc]
    simp only [gemvLanes, hmask, int32_mul hstack, Lane.mk.injEq, and_true]
    push_cast
    ring
  scale c hc := by
    have hscale : c / 128 < i / 128 := Nat.div_lt_div_of_lt_of_dvd hi hc
    have hmask : (decide ((row : ℤ) < o) && if compact then decide (c / 128 < i / 128) else decide (c < i)) = true := by
      simp [hrow, hc, hscale]
    simp only [gemvLanes, hmask, Lane.mk.injEq, and_true]
    push_cast
    ring
  input c hc := by
    simp only [gemvLanes, int32_mul hinput, hc, decide_true, Lane.mk.injEq, and_true]
    push_cast
    ring
  padded c hc _ := by
    have hcol : ¬ c < i := Nat.not_lt.mpr hc
    simp [gemvLanes, hcol, scale_masked hc]

lemma panelLanes_reads (hi : 128 ∣ i) {panel : ℕ} (hrow : row < ia) (hstack : panel * i < 2 ^ 31)
    (hinput : selected / k * i < 2 ^ 31) :
    (panelLanes ia i k cols ex selected row panel).Reads (ex * (2 * ia) + panel) (ex * (2 * ia / 128) + panel / 128)
      (selected / k) i where
  weight c hc := by
    have hmask : (decide ((row : ℤ) < ia) && decide (c < i)) = true := by simp [hrow, hc]
    simp only [panelLanes, hmask, int32_mul hstack, Lane.mk.injEq, and_true]
    push_cast
    ring
  scale c hc := by
    have hscale : c / 128 < i / 128 := Nat.div_lt_div_of_lt_of_dvd hi hc
    have hmask : (decide ((row : ℤ) < ia) && decide (c / 128 < i / 128)) = true := by simp [hrow, hscale]
    simp only [panelLanes, hmask, Lane.mk.injEq, and_true]
    push_cast
    ring
  input c hc := by
    simp only [panelLanes, int32_mul hinput, hc, decide_true, Lane.mk.injEq, and_true]
    push_cast
    ring
  padded c hc _ := by
    have hcol : ¬ c < i := Nat.not_lt.mpr hc
    simp [panelLanes, hcol, scale_masked hc]

lemma downLanes_reads (ex : ℕ) (hia : 128 ∣ ia) (hcols : cols ≤ ia) (hrow : row < h) (hstack : row * ia < 2 ^ 31)
    (htoken : token * k * ia < 2 ^ 31) (hslot : j * ia < 2 ^ 31) (hia0 : 0 < ia) :
    (downLanes ia h k cols ex token j row).Reads (ex * h + row) (ex * (h / 128) + row / 128) (token * k + j) ia where
  weight c _ := by
    have hmask : decide ((row : ℤ) < h) = true := by simp [hrow]
    simp only [downLanes, hmask, int32_mul hstack, Lane.mk.injEq, and_true]
    push_cast
    ring
  scale c hc := by
    have hscale : c / 128 < ia / 128 := Nat.div_lt_div_of_lt_of_dvd hia hc
    have hmask : (decide ((row : ℤ) < h) && decide (c / 128 < ia / 128)) = true := by simp [hrow, hscale]
    simp only [downLanes, hmask, Lane.mk.injEq, and_true]
    push_cast
    ring
  input c hc := by
    have hsmall : token * k < 2 ^ 31 := lt_of_le_of_lt (Nat.le_mul_of_pos_right _ hia0) htoken
    simp only [downLanes, int32_mul hsmall, int32_mul htoken, int32_mul hslot, hc, decide_true, Lane.mk.injEq, and_true]
    push_cast
    ring
  padded _ hc hlt := absurd hlt (Nat.not_lt.mpr (hcols.trans hc))

end

/-! ## One row of each kernel -/

section

variable [AddCommMonoid V] [Mul V] {fl : Floats V}

variable {s : Stack V} {idx : Buffer ℤ} {p : ℕ} {wts : Buffer V}

lemma gemvRow_eq (broadcast compact : Bool) {x : Buffer V} {o i k cols row ex : ℕ}
    (hidx : idx.load ⟨p, true⟩ 0 = some (ex : ℤ)) (hi : 128 ∣ i) (hrow : row < o) (hstack : row * i < 2 ^ 31)
    (hinput : (if broadcast then p / k else p) * i < 2 ^ 31) (hstore : p * o < 2 ^ 31)
    (hs : s.Holds (ex * o + row) (ex * (o / 128) + row / 128) i)
    (hx : ((if broadcast then p / k else p) + 1) * i ≤ x.size) :
    gemvRow fl s x idx o i k cols broadcast compact p row = some (⟨(p * o + row : ℕ), decide (row < o)⟩,
      fl.bf16 (rowDot fl s (fun c => x.get ((if broadcast then p / k else p) * i + c)) (ex * o + row)
        (ex * (o / 128) + row / 128) i cols)) := by
  rw [gemvRow, hidx, bind_eq_bind, bind_some,
    dot_of_reads (gemvLanes_reads hi hrow hstack broadcast compact hinput) hi hs hx, int32_mul hstore]
  simp [gemvLanes]

lemma gateUpRow_eq {x : Buffer V} {limit : V} {ia i k cols row ex : ℕ}
    (hidx : idx.load ⟨p, true⟩ 0 = some (ex : ℤ)) (hi : 128 ∣ i) (hi0 : 0 < i) (hrow : row < ia)
    (hgate : row * i < 2 ^ 31) (hup : (row + ia) * i < 2 ^ 31) (hinput : p / k * i < 2 ^ 31) (hstore : p * ia < 2 ^ 31)
    (hs : s.Holds (ex * (2 * ia) + row) (ex * (2 * ia / 128) + row / 128) i)
    (hs' : s.Holds (ex * (2 * ia) + (row + ia)) (ex * (2 * ia / 128) + (row + ia) / 128) i)
    (hx : (p / k + 1) * i ≤ x.size) :
    gateUpRow fl s x idx limit ia i k cols p row = some (⟨(p * ia + row : ℕ), decide (row < ia)⟩, swiglu fl limit
        (fl.bf16 (rowDot fl s (fun c => x.get (p / k * i + c)) (ex * (2 * ia) + row) (ex * (2 * ia / 128) + row / 128) i cols))
        (fl.bf16 (rowDot fl s (fun c => x.get (p / k * i + c)) (ex * (2 * ia) + (row + ia))
          (ex * (2 * ia / 128) + (row + ia) / 128) i cols))) := by
  have hpanel : int32 ((row : ℤ) + ia) = (row + ia : ℕ) := by
    rw [← Nat.cast_add, int32_natCast (lt_of_le_of_lt (Nat.le_mul_of_pos_right _ hi0) hup)]
  have hupReads : (upLanes ia i k cols ex p row).Reads (ex * (2 * ia) + (row + ia))
      (ex * (2 * ia / 128) + (row + ia) / 128) (p / k) i := by
    rw [upLanes, hpanel]
    exact panelLanes_reads hi hrow hup hinput
  rw [gateUpRow, hidx, bind_eq_bind, bind_some,
    dot_of_reads (l := gateLanes ia i k cols ex p row) (panelLanes_reads hi hrow hgate hinput) hi hs hx,
    bind_eq_bind, bind_some, dot_of_reads hupReads hi hs' hx, int32_mul hstore]
  simp [gateLanes, upLanes, panelLanes]

lemma foldlM_some {β : Type} {f : β → ℕ → Option β} {g : β → ℕ → β} {l : List ℕ} {b : β}
    (h : ∀ acc, ∀ j ∈ l, f acc j = some (g acc j)) : l.foldlM f b = some (l.foldl g b) := by
  induction l generalizing b with
  | nil => rfl
  | cons j l ih =>
    rw [foldlM_cons, h b j mem_cons_self, bind_eq_bind, bind_some, foldl_cons]
    exact ih fun acc j' hj' => h acc j' (mem_cons_of_mem _ hj')

/-- The weighted sum of a token's rows, slot by slot. -/
def combined (fl : Floats V) (k : ℕ) (w out : ℕ → V) : V := fl.bf16 ((range k).foldl (fun acc j => acc + w j * out j) 0)

lemma downRow_eq (ex : ℕ → ℕ) {act : Buffer V} {ia h k cols token row : ℕ} (hslots : token * k < 2 ^ 31)
    (hidx : ∀ j < k, idx.load ⟨(token * k + j : ℕ), true⟩ 0 = some (ex j : ℤ))
    (hwts : ∀ j < k, token * k + j < wts.size) (hia : 128 ∣ ia) (hia0 : 0 < ia) (hcols : cols ≤ ia) (hrow : row < h)
    (hstack : row * ia < 2 ^ 31) (htoken : token * k * ia < 2 ^ 31) (hslot : ∀ j < k, j * ia < 2 ^ 31)
    (hstore : token * h < 2 ^ 31) (hs : ∀ j < k, s.Holds (ex j * h + row) (ex j * (h / 128) + row / 128) ia)
    (hx : ∀ j < k, (token * k + j + 1) * ia ≤ act.size) :
    downRow fl s act idx wts false ia h k cols token row = some (⟨(token * h + row : ℕ), decide (row < h)⟩,
      combined fl k (fun j => wts.get (token * k + j)) fun j =>
        fl.bf16 (rowDot fl s (fun c => act.get ((token * k + j) * ia + c)) (ex j * h + row)
          (ex j * (h / 128) + row / 128) ia cols)) := by
  have hstep : ∀ acc : V, ∀ j ∈ range k, (do
      let expert ← idx.load ⟨int32 ((token : ℤ) * k) + (j : ℕ), true⟩ 0
      let dot ← dot fl s act (downLanes ia h k cols expert token j row)
      let w ← wts.load ⟨int32 ((token : ℤ) * k) + (j : ℕ), true⟩ 0
      let v := fl.bf16 dot
      return if false = true then acc + fl.bf16 (fl.bf16 w * v) else acc + w * v) =
        some (acc + wts.get (token * k + j) * fl.bf16 (rowDot fl s (fun c => act.get ((token * k + j) * ia + c))
          (ex j * h + row) (ex j * (h / 128) + row / 128) ia cols)) := by
    intro _ j hj
    have hj : j < k := mem_range.mp hj
    have hw : wts.load ⟨(token * k + j : ℕ), true⟩ 0 = some (wts.get (token * k + j)) := load_at rfl rfl (hwts j hj) 0
    rw [int32_mul hslots, ← Nat.cast_add, hidx j hj, bind_eq_bind, bind_some,
      dot_of_reads (downLanes_reads (ex j) hia hcols hrow hstack htoken (hslot j hj) hia0) hia (hs j hj) (hx j hj),
      bind_eq_bind, bind_some, hw]
    rfl
  rw [downRow, foldlM_some hstep, int32_mul hstore]
  simp [combined]

lemma swigluRow_eq {gu : Buffer V} {limit : V} {o d col : ℕ} (hcol : col < d) (hload : p * o < 2 ^ 31)
    (hstore : p * d < 2 ^ 31) (hup : p * o + (col + d) < gu.size) :
    swigluRow fl gu limit o d p col = some (⟨(p * d + col : ℕ), decide (col < d)⟩,
      swiglu fl limit (gu.get (p * o + col)) (gu.get (p * o + (col + d)))) := by
  have hg : gu.load ⟨(p * o : ℕ) + (col : ℤ), decide ((col : ℤ) < d)⟩ 0 = some (gu.get (p * o + col)) :=
    load_at (by simpa using hcol) (by push_cast; ring) (by omega) 0
  have hu : gu.load ⟨d + (p * o : ℕ) + (col : ℤ), decide ((col : ℤ) < d)⟩ 0 = some (gu.get (p * o + (col + d))) :=
    load_at (by simpa using hcol) (by push_cast; ring) hup 0
  rw [swigluRow, int32_mul hload, hg, bind_eq_bind, bind_some, hu, int32_mul hstore]
  simp

/-- A lane past the width stores nothing. -/
lemma swigluRow_masked {gu : Buffer V} {limit : V} {o d col : ℕ} (hcol : d ≤ col) :
    swigluRow fl gu limit o d p col = some (⟨int32 (p * d) + col, decide (col < d)⟩, swiglu fl limit 0 0) := by
  have hmask : decide ((col : ℤ) < d) = false := by simpa using hcol
  rw [swigluRow, load_masked hmask, bind_eq_bind, bind_some, load_masked hmask]
  simp

lemma weightedSumRow_tiles {out : Buffer V} {k h token col : ℕ} {tile : ℕ → V}
    (hwts : ∀ j < k, token * k + j < wts.size) (htile : ∀ j < k, out.load
      ⟨(token : ℤ) * (k * h) + (j : ℕ) * h + (col : ℤ), decide ((col : ℤ) < h)⟩ 0 = some (tile j)) :
    weightedSumRow fl out wts k h token col = some (⟨(token * h + col : ℕ), decide (col < h)⟩,
      combined fl k (fun j => wts.get (token * k + j)) tile) := by
  have hstep : ∀ acc : V, ∀ j ∈ List.range k, (do
      let w ← wts.load ⟨(token : ℤ) * k + (j : ℕ), true⟩ 0
      let tile ← out.load ⟨(token : ℤ) * (k * h) + (j : ℕ) * h + (col : ℤ), decide ((col : ℤ) < h)⟩ 0
      return acc + w * tile) = some (acc + wts.get (token * k + j) * tile j) := by
    intro _ j hj
    have hj : j < k := List.mem_range.mp hj
    rw [load_at rfl (show (token : ℤ) * k + (j : ℕ) = (token * k + j : ℕ) by push_cast; rfl) (hwts j hj),
      bind_eq_bind, bind_some, htile j hj]
    rfl
  rw [weightedSumRow, foldlM_some hstep]
  simp [combined]

lemma weightedSumRow_eq {out : Buffer V} {k h token col : ℕ} (hcol : col < h)
    (hwts : ∀ j < k, token * k + j < wts.size) (hout : ∀ j < k, (token * k + j) * h + col < out.size) :
    weightedSumRow fl out wts k h token col = some (⟨(token * h + col : ℕ), decide (col < h)⟩,
      combined fl k (fun j => wts.get (token * k + j)) fun j => out.get ((token * k + j) * h + col)) :=
  weightedSumRow_tiles hwts fun j hj => by
    rw [load_at (n := (token * k + j) * h + col) (by simpa using hcol) (by push_cast; ring) (hout j hj)]

lemma weightedSumRow_masked {out : Buffer V} {k h token col : ℕ} (hcol : h ≤ col)
    (hwts : ∀ j < k, token * k + j < wts.size) :
    weightedSumRow fl out wts k h token col = some (⟨(token * h + col : ℕ), decide (col < h)⟩,
      combined fl k (fun j => wts.get (token * k + j)) fun _ => 0) := by
  have hmask : decide ((col : ℤ) < h) = false := by simpa using hcol
  exact weightedSumRow_tiles hwts fun _ _ => by rw [load_masked hmask]

end

end VKernels.GroupedDecode
