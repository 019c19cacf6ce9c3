import VKernels.Comm.Host
import VKernels.Lib.Blocks
import VKernels.Lib.MaskedStores
import VKernels.Moe.MxFp4

/-!
# The packed rows of the MXFP4 kernels

`quant_row` and `mxfp4_moe_quant`, and the rows of `mxfp4_moe_scatter_reduce_q`, of `kernels/moe_aux.cpp`, with every
access that they make. The `int` products are exact.

* `Access`, `quantRow`, `mxfp4MoeQuant` — what the quantiser reads and stores.
* `ReduceAccess`, `reduceRow`, `mxfp4MoeScatterReduceQ` — what the reduction reads and adds.
* `RowStored`, `QuantExact`, `ReduceExact` — element `k` is in nibble `k % 2` of byte `k / 2`, its scale is that of
  group `k / group_size`, and no access leaves the row.

## Results

* `quantRow_within`, `quantRow_stored` — a row of groups of even size.
* `reduceRow_exact` — the reduction of such a row.
* `mxfp4_rows_iff` — the calls are exact for even group sizes only: with an odd one the last pair of a row straddles
  its end.
-/

namespace VKernels.Moe.MxFp4

open Comm (expects expects_of expects_ok)
open MaskedStores LocalActions Binary32
open List

/-! ## The quantiser -/

/-- A byte of the packed rows, or a scale. -/
inductive Place where
  | packed (i : ℕ)
  | scale (i : ℕ)
  deriving DecidableEq

inductive Access where
  | read (i : ℕ)
  | store (p : Place) (byte : ℕ)

open Access (store)

/-- The scale of group `g` of a row. -/
def scaleAt (A : ℕ → ℕ) (row groupSize g : ℕ) : ℕ × Single :=
  groupScale (groupAmax (fun i => bf16ToFloat (A (row + (g * groupSize + i)))) groupSize)

/-- Two nibbles, the upper one first. -/
def pair (hi lo : ℕ) : ℕ := (hi <<< 4) ||| (lo &&& 15)

/-- Group `g` of `quant_row`. -/
def quantGroup (A : ℕ → ℕ) (row pk sc groupSize g : ℕ) : List Access :=
  let base := g * groupSize
  let (sb, scale) := scaleAt A row groupSize g
  (List.range groupSize).map (fun i => Access.read (row + (base + i))) ++ store (.scale (sc + g)) sb ::
    if sb = 0xFF then (List.range (groupSize / 2)).map fun kp => store (.packed (pk + (base / 2 + kp))) 0
    else
      -- two elements a step
      (List.range ((groupSize + 1) / 2)).flatMap fun p =>
        let i := 2 * p
        let lo := floatToFp4Nib (quotient (bf16ToFloat (A (row + (base + i)))) scale)
        let hi := floatToFp4Nib (quotient (bf16ToFloat (A (row + (base + i + 1)))) scale)
        [.read (row + (base + i)), .read (row + (base + i + 1)),
          .store (.packed (pk + (base / 2 + i / 2))) (pair hi lo)]

/-- `quant_row`: the row starts at `row`, its bytes at `pk` and its scales at `sc`. -/
def quantRow (A : ℕ → ℕ) (row pk sc hidden groupSize : ℕ) : List Access :=
  (List.range (hidden / groupSize)).flatMap (quantGroup A row pk sc groupSize)

/-- The rows of a call, each at its stride. -/
def quantRows (A : ℕ → ℕ) (M hidden groupSize : ℕ) : List (List Access) :=
  (List.range M).map fun m => quantRow A (m * hidden) (m * (hidden / 2)) (m * (hidden / groupSize)) hidden groupSize

/-- `mxfp4_moe_quant`. -/
def mxfp4MoeQuant (A : ℕ → ℕ) (M hidden groupSize : ℤ) : Except String (List (List Access)) := do
  expects (M ≥ 0 ∧ hidden ≥ 0) "M and hidden must be non-negative" "M >= 0 && hidden >= 0"
  expects (groupSize > 0) "group_size must be positive" "group_size > 0"
  expects (hidden.tmod groupSize = 0) "hidden must be a multiple of group_size" "hidden % group_size == 0"
  expects (hidden.tmod 2 = 0) "hidden must be even (two nibbles per byte)" "hidden % 2 == 0"
  return quantRows A M.toNat hidden.toNat groupSize.toNat

def storesOf (l : List Access) : List (Place × ℕ) :=
  l.filterMap fun
    | .read _ => none
    | .store p byte => some (p, byte)

/-! ## What is promised of the quantiser -/

/-- The access is to the row, its bytes or its scales. -/
def Access.Within (row pk sc hidden groupSize : ℕ) : Access → Prop
  | .read i => row ≤ i ∧ i < row + hidden
  | .store (.packed i) _ => pk ≤ i ∧ i < pk + hidden / 2
  | .store (.scale i) _ => sc ≤ i ∧ i < sc + hidden / groupSize

/-- The nibble of element `k`, at the scale of its group. -/
def codeAt (A : ℕ → ℕ) (row groupSize k : ℕ) : ℕ :=
  groupNibble (scaleAt A row groupSize (k / groupSize)) (bf16ToFloat (A (row + k)))

/-- Nibble `j` of a byte. -/
def nibbleOf (byte j : ℕ) : ℕ := if j = 0 then byte &&& 15 else (byte >>> 4) &&& 15

def RowStored (A : ℕ → ℕ) (row pk sc hidden groupSize : ℕ) (m : Place → ℕ) : Prop :=
  ∀ k < hidden, nibbleOf (m (.packed (pk + k / 2))) (k % 2) = codeAt A row groupSize k ∧
    m (.scale (sc + k / groupSize)) = (scaleAt A row groupSize (k / groupSize)).1

/-- A call of the quantiser that stays inside its rows and stores them. -/
structure QuantExact (A : ℕ → ℕ) (M hidden groupSize : ℕ) (rows : List (List Access)) : Prop where
  within : ∀ m < M, ∀ a ∈ rows.getD m [],
    a.Within (m * hidden) (m * (hidden / 2)) (m * (hidden / groupSize)) hidden groupSize
  stored : ∀ mem, ∀ m < M, RowStored A (m * hidden) (m * (hidden / 2)) (m * (hidden / groupSize)) hidden groupSize
    (assign (storesOf rows.flatten) mem)

/-! ## The reduction -/

inductive ReduceAccess where
  | packed (i : ℕ)
  | scale (i : ℕ)
  /-- `out[i] += term` -/
  | add (i : ℕ) (term : Single)

/-- `x * y` without rounding. -/
def product (x y : Single) : Single :=
  ⟨x.negative != y.negative,
    match x.magnitude, y.magnitude with
    | .fin a, .fin b => .fin (a * b)
    | .posInf, .fin b => if b = 0 then .nan else .posInf
    | .fin a, .posInf => if a = 0 then .nan else .posInf
    | .posInf, .posInf => .posInf
    | _, _ => .nan⟩

/-- Group `g` of a sorted row. -/
def reduceGroup (P S : ℕ → ℕ) (w : Single) (pq ps dst groupSize g : ℕ) : List ReduceAccess :=
  let scale := ue8m0ToFloat (S (ps + g))
  let base := g * groupSize
  .scale (ps + g) :: (List.range ((groupSize + 1) / 2)).flatMap fun p =>
    let i := 2 * p
    let byte := P (pq + (base / 2 + i / 2))
    let lo := product (fp4NibbleToFloat (byte &&& 15)) scale
    let hi := product (fp4NibbleToFloat ((byte >>> 4) &&& 15)) scale
    [.packed (pq + (base / 2 + i / 2)), .add (dst + (base + i)) (product lo w),
      .add (dst + (base + i + 1)) (product hi w)]

/-- A sorted row of `mxfp4_moe_scatter_reduce_q`. -/
def reduceRow (P S : ℕ → ℕ) (w : Single) (pq ps dst width groupSize : ℕ) : List ReduceAccess :=
  (List.range (width / groupSize)).flatMap (reduceGroup P S w pq ps dst groupSize)

/-- A sorted row that is no padding. -/
def IsReal (ids : ℕ → ℤ) (N : ℤ) (r : ℕ) : Prop := ¬(ids r < 0 ∨ ids r ≥ N)

instance (ids : ℕ → ℤ) (N : ℤ) (r : ℕ) : Decidable (IsReal ids N r) := inferInstanceAs (Decidable (¬_))

def reduceRows (P S : ℕ → ℕ) (W : ℕ → Single) (ids : ℕ → ℤ) (N : ℤ) (width topK EM groupSize : ℕ) :
    List (List ReduceAccess) :=
  (List.range EM).map fun r =>
    if IsReal ids N r then
      reduceRow P S (W r) (r * (width / 2)) (r * (width / groupSize)) ((ids r).toNat / topK * width) width groupSize
    else []

/-- `mxfp4_moe_scatter_reduce_q`. -/
def mxfp4MoeScatterReduceQ (P S : ℕ → ℕ) (W : ℕ → Single) (ids : ℕ → ℤ) (M width topK EM groupSize : ℤ) :
    Except String (List (List ReduceAccess)) := do
  expects (M ≥ 0 ∧ width ≥ 0 ∧ topK > 0 ∧ EM ≥ 0) "M, width, top_k, EM must be valid"
    "M >= 0 && width >= 0 && top_k > 0 && EM >= 0"
  expects (groupSize > 0) "group_size must be positive" "group_size > 0"
  expects (width.tmod 2 = 0) "width must be even (two nibbles per byte)" "width % 2 == 0"
  expects (width.tmod groupSize = 0) "width must be a multiple of group_size" "width % group_size == 0"
  return reduceRows P S W ids (M * topK) width.toNat topK.toNat EM.toNat groupSize.toNat

/-- The access is to the bytes and the scales of the row, or to its row of the output. -/
def ReduceAccess.Within (pq ps dst width groupSize : ℕ) : ReduceAccess → Prop
  | .packed i => pq ≤ i ∧ i < pq + width / 2
  | .scale i => ps ≤ i ∧ i < ps + width / groupSize
  | .add i _ => dst ≤ i ∧ i < dst + width

def addsOf (l : List ReduceAccess) : List (ℕ × Single) :=
  l.filterMap fun
    | .add i term => some (i, term)
    | _ => none

/-- The term of element `k`: nibble `k % 2` of byte `k / 2`, at the scale of group `k / groupSize`. -/
def termAt (P S : ℕ → ℕ) (w : Single) (pq ps groupSize k : ℕ) : Single :=
  product (product (fp4NibbleToFloat (nibbleOf (P (pq + k / 2)) (k % 2))) (ue8m0ToFloat (S (ps + k / groupSize)))) w

/-- A row of the reduction that stays inside the row and adds every element once, in order. -/
structure RowReduced (P S : ℕ → ℕ) (w : Single) (pq ps dst width groupSize : ℕ) (l : List ReduceAccess) : Prop where
  within : ∀ a ∈ l, a.Within pq ps dst width groupSize
  adds : addsOf l = (List.range width).map fun k => (dst + k, termAt P S w pq ps groupSize k)

/-- A call of the reduction that does so for every row that is no padding. -/
def ReduceExact (P S : ℕ → ℕ) (W : ℕ → Single) (ids : ℕ → ℤ) (N : ℤ) (width topK EM groupSize : ℕ)
    (rows : List (List ReduceAccess)) : Prop :=
  ∀ r < EM, IsReal ids N r → RowReduced P S (W r) (r * (width / 2)) (r * (width / groupSize))
    ((ids r).toNat / topK * width) width groupSize (rows.getD r [])

/-! ## Places of a row of even groups -/

lemma mem_storesOf {l : List Access} {p : Place} {v : ℕ} : (p, v) ∈ storesOf l ↔ store p v ∈ l := by
  unfold storesOf
  rw [mem_filterMap]
  constructor
  · rintro ⟨a, ha, heq⟩
    cases a with
    | read i => cases heq
    | store p' v' =>
      obtain ⟨rfl, rfl⟩ := Prod.mk.inj (Option.some.inj heq)
      exact ha
  · intro h
    exact ⟨_, h, rfl⟩

variable {A : ℕ → ℕ} {gs hidden M : ℕ}

lemma mem_quantGroup {row pk sc g : ℕ} {a : Access} : a ∈ quantGroup A row pk sc gs g ↔
    (∃ i < gs, a = .read (row + (g * gs + i))) ∨ a = .store (.scale (sc + g)) (scaleAt A row gs g).1 ∨
    ((scaleAt A row gs g).1 = 0xFF ∧ ∃ kp < gs / 2, a = .store (.packed (pk + (g * gs / 2 + kp))) 0) ∨
    ((scaleAt A row gs g).1 ≠ 0xFF ∧ ∃ p < (gs + 1) / 2, a = .read (row + (g * gs + 2 * p)) ∨
      a = .read (row + (g * gs + 2 * p + 1)) ∨ a = .store (.packed (pk + (g * gs / 2 + 2 * p / 2)))
        (pair (floatToFp4Nib (quotient (bf16ToFloat (A (row + (g * gs + 2 * p + 1)))) (scaleAt A row gs g).2))
          (floatToFp4Nib (quotient (bf16ToFloat (A (row + (g * gs + 2 * p)))) (scaleAt A row gs g).2)))) := by
  unfold quantGroup
  rw [mem_append, mem_map, mem_cons]
  refine or_congr (exists_congr fun i => and_congr mem_range eq_comm) (or_congr Iff.rfl ?_)
  by_cases hsb : (scaleAt A row gs g).1 = 0xFF
  · rw [if_pos hsb, mem_map]
    simp only [hsb, true_and, ne_eq, not_true_eq_false, false_and, or_false]
    exact exists_congr fun i => and_congr mem_range eq_comm
  · rw [if_neg hsb, mem_flatMap]
    simp only [hsb, false_and, ne_eq, not_false_eq_true, true_and, false_or]
    refine exists_congr fun i => and_congr mem_range ?_
    rw [mem_cons, mem_cons, mem_singleton]

lemma mem_quantRow {row pk sc : ℕ} {a : Access} :
    a ∈ quantRow A row pk sc hidden gs ↔ ∃ g < hidden / gs, a ∈ quantGroup A row pk sc gs g := by
  unfold quantRow
  rw [mem_flatMap]
  exact exists_congr fun g => and_congr mem_range Iff.rfl

/-- Byte `j` of a row. -/
def byteAt (A : ℕ → ℕ) (row gs j : ℕ) : ℕ := pair (codeAt A row gs (2 * j + 1)) (codeAt A row gs (2 * j))

section

variable {h n : ℕ}

lemma half_base (g : ℕ) : g * (2 * h) / 2 = g * h := by
  rw [Nat.mul_left_comm, Nat.mul_div_cancel_left _ two_pos]

variable {g gs v : ℕ}

lemma group_of {i : ℕ} (hi : i < 2 * h) : (g * (2 * h) + i) / (2 * h) = g := Blocks.block_div _ hi

lemma group_end (hg : g < n) : g * (2 * h) + 2 * h ≤ n * (2 * h) ∧ g * h + h ≤ n * h := by
  have hle := Blocks.block_le hg h
  have hdouble (x : ℕ) : x * (2 * h) = 2 * (x * h) := mul_left_comm x 2 h
  rw [hdouble, hdouble]
  omega

variable {A : ℕ → ℕ} {row pk sc : ℕ}

lemma codeAt_of {k : ℕ} (hk : k / gs = g) : codeAt A row gs k = if (scaleAt A row gs g).1 = 0xFF then 0
    else floatToFp4Nib (quotient (bf16ToFloat (A (row + k))) (scaleAt A row gs g).2) := by
  unfold codeAt groupNibble
  rw [hk]

lemma packed_mem_quantGroup {i : ℕ} : store (.packed i) v ∈ quantGroup A row pk sc (2 * h) g ↔
    ∃ p < h, i = pk + (g * h + p) ∧ v = byteAt A row (2 * h) (g * h + p) := by
  have hbyte (p : ℕ) (hp : p < h) : byteAt A row (2 * h) (g * h + p) =
      if (scaleAt A row (2 * h) g).1 = 0xFF then 0
      else pair (floatToFp4Nib (quotient (bf16ToFloat (A (row + (g * (2 * h) + 2 * p + 1)))) (scaleAt A row (2 * h) g).2))
          (floatToFp4Nib (quotient (bf16ToFloat (A (row + (g * (2 * h) + 2 * p)))) (scaleAt A row (2 * h) g).2)) := by
    have hindex : 2 * (g * h + p) = g * (2 * h) + 2 * p := by ring
    unfold byteAt
    rw [hindex, codeAt_of (group_of (by omega : 2 * p < 2 * h)), add_assoc,
      codeAt_of (group_of (by omega : 2 * p + 1 < 2 * h))]
    split <;> rfl
  have hsteps : (2 * h + 1) / 2 = h := by omega
  have hhalf : 2 * h / 2 = h := by omega
  have hstep (p : ℕ) : 2 * p / 2 = p := by omega
  rw [mem_quantGroup, hsteps, hhalf, half_base]
  constructor
  · rintro (⟨_, _, heq⟩ | heq | ⟨hsb, p, hp, heq⟩ | ⟨hsb, p, hp, heq | heq | heq⟩)
    · cases heq
    · cases heq
    · obtain ⟨hplace, hv⟩ := store.inj heq
      exact ⟨p, hp, Place.packed.inj hplace, by rw [hv, hbyte p hp, if_pos hsb]⟩
    · cases heq
    · cases heq
    · obtain ⟨hplace, hv⟩ := store.inj heq
      rw [hstep] at hplace
      exact ⟨p, hp, Place.packed.inj hplace, by rw [hv, hbyte p hp, if_neg hsb]⟩
  · rintro ⟨p, hp, rfl, rfl⟩
    rw [hbyte p hp]
    by_cases hsb : (scaleAt A row (2 * h) g).1 = 0xFF
    · exact .inr (.inr (.inl ⟨hsb, p, hp, by rw [if_pos hsb]⟩))
    · exact .inr (.inr (.inr ⟨hsb, p, hp, .inr (.inr (by rw [if_neg hsb, hstep]))⟩))

lemma scale_mem_quantGroup {i : ℕ} : store (.scale i) v ∈ quantGroup A row pk sc gs g ↔
    i = sc + g ∧ v = (scaleAt A row gs g).1 := by
  rw [mem_quantGroup]
  constructor
  · rintro (⟨_, _, heq⟩ | heq | ⟨_, _, _, heq⟩ | ⟨_, _, _, heq | heq | heq⟩)
    · cases heq
    · obtain ⟨hplace, hv⟩ := store.inj heq
      exact ⟨Place.scale.inj hplace, hv⟩
    all_goals cases heq
  · rintro ⟨rfl, rfl⟩
    exact .inr (.inl rfl)

lemma read_mem_quantGroup {i : ℕ} (hread : Access.read i ∈ quantGroup A row pk sc (2 * h) g) :
    ∃ j < 2 * h, i = row + (g * (2 * h) + j) := by
  obtain ⟨j, hj, heq⟩ | heq | ⟨_, _, _, heq⟩ | ⟨_, p, hp, heq | heq | heq⟩ := mem_quantGroup.mp hread
  · exact ⟨j, hj, Access.read.inj heq⟩
  · cases heq
  · cases heq
  · exact ⟨2 * p, by omega, Access.read.inj heq⟩
  · exact ⟨2 * p + 1, by omega, by rw [Access.read.inj heq, add_assoc]⟩
  · cases heq

lemma row_widths (hh : 0 < h) : n * (2 * h) / (2 * h) = n ∧ n * (2 * h) / 2 = n * h :=
  ⟨Nat.mul_div_cancel _ (by omega), half_base n⟩

lemma packed_mem_quantRow (hh : 0 < h) {i : ℕ} :
    store (.packed i) v ∈ quantRow A row pk sc (n * (2 * h)) (2 * h) ↔
      ∃ j < n * h, i = pk + j ∧ v = byteAt A row (2 * h) j := by
  rw [mem_quantRow, (row_widths hh).1]
  constructor
  · rintro ⟨g, hg, hmem⟩
    obtain ⟨p, hp, hi, hv⟩ := packed_mem_quantGroup.mp hmem
    have := (group_end (h := h) hg).2
    exact ⟨g * h + p, by omega, hi, hv⟩
  · rintro ⟨j, hj, hi, hv⟩
    have hsplit : j / h * h + j % h = j := Nat.div_add_mod' j h
    exact ⟨j / h, Nat.div_lt_of_lt_mul (by rwa [mul_comm]),
      packed_mem_quantGroup.mpr ⟨j % h, Nat.mod_lt j hh, by rw [hsplit, hi], by rw [hsplit, hv]⟩⟩

lemma scale_mem_quantRow {hidden i : ℕ} : store (.scale i) v ∈ quantRow A row pk sc hidden gs ↔
    ∃ g < hidden / gs, i = sc + g ∧ v = (scaleAt A row gs g).1 := by
  rw [mem_quantRow]
  exact exists_congr fun g => and_congr Iff.rfl scale_mem_quantGroup

lemma quantRow_within (hh : 0 < h) {a : Access} (ha : a ∈ quantRow A row pk sc (n * (2 * h)) (2 * h)) :
    a.Within row pk sc (n * (2 * h)) (2 * h) := by
  obtain ⟨hgroups, hbytes⟩ := row_widths (n := n) hh
  cases a with
  | read i =>
    obtain ⟨g, hg, hmem⟩ := mem_quantRow.mp ha
    rw [hgroups] at hg
    obtain ⟨j, hj, rfl⟩ := read_mem_quantGroup hmem
    have := (group_end (h := h) hg).1
    exact ⟨by omega, by omega⟩
  | store p v =>
    cases p with
    | packed i =>
      obtain ⟨j, hj, rfl, -⟩ := (packed_mem_quantRow hh).mp ha
      exact ⟨by omega, by rw [hbytes]; omega⟩
    | scale i =>
      obtain ⟨g, hg, rfl, -⟩ := scale_mem_quantRow.mp ha
      exact ⟨by omega, by omega⟩

end

/-! ## Rows of a call -/

lemma mem_storesOf_flatten {rows : List (List Access)} {p : Place} {v : ℕ} :
    (p, v) ∈ storesOf rows.flatten ↔ ∃ r < rows.length, store p v ∈ rows.getD r [] := by
  rw [mem_storesOf, mem_flatten]
  constructor
  · rintro ⟨l, hl, hin⟩
    obtain ⟨r, hr, rfl⟩ := mem_iff_getElem.mp hl
    exact ⟨r, hr, by rwa [getD_eq_getElem]⟩
  · rintro ⟨r, hr, hin⟩
    rw [getD_eq_getElem _ _ hr] at hin
    exact ⟨_, getElem_mem hr, hin⟩

lemma magnitudeCode_le (v : Fp ℚ) : magnitudeCode v ≤ 5 := by
  unfold magnitudeCode
  split_ifs <;> omega

lemma groupNibble_lt (scale : ℕ × Single) (x : Single) : groupNibble scale x < 16 := by
  have hle := magnitudeCode_le (quotient x scale.2).magnitude
  have hor : magnitudeCode (quotient x scale.2).magnitude ||| 8 < 2 ^ 4 := Nat.or_lt_two_pow (by omega) (by norm_num)
  unfold groupNibble floatToFp4Nib
  dsimp only
  split_ifs <;> omega

lemma codeAt_lt (A : ℕ → ℕ) (row gs k : ℕ) : codeAt A row gs k < 16 := groupNibble_lt _ _

lemma pair_nibbles {hi lo : ℕ} (hhi : hi < 16) (hlo : lo < 16) :
    nibbleOf (pair hi lo) 0 = lo ∧ nibbleOf (pair hi lo) 1 = hi := by
  have hall : ∀ hi < 16, ∀ lo < 16, nibbleOf (pair hi lo) 0 = lo ∧ nibbleOf (pair hi lo) 1 = hi := by
    decide
  exact hall hi hhi lo hlo

lemma nibbleOf_byteAt (A : ℕ → ℕ) (row gs k : ℕ) :
    nibbleOf (byteAt A row gs (k / 2)) (k % 2) = codeAt A row gs k := by
  obtain ⟨hlo, hhi⟩ := pair_nibbles (codeAt_lt A row gs (2 * (k / 2) + 1)) (codeAt_lt A row gs (2 * (k / 2)))
  rcases Nat.mod_two_eq_zero_or_one k with hparity | hparity
  · have hk : 2 * (k / 2) = k := by omega
    rw [hparity, byteAt, hlo, hk]
  · have hk : 2 * (k / 2) + 1 = k := by omega
    rw [hparity, byteAt, hhi, hk]

lemma getD_quantRows {m : ℕ} (hm : m < M) : (quantRows A M hidden gs).getD m [] =
    quantRow A (m * hidden) (m * (hidden / 2)) (m * (hidden / gs)) hidden gs := by
  unfold quantRows
  rw [getD_eq_getElem _ _ (by simpa using hm), getElem_map, getElem_range]

lemma quantRows_bytes {n h : ℕ} (hh : 0 < h) (mem : Place → ℕ) {m : ℕ} (hm : m < M) :
    (∀ j < n * h, assign (storesOf (quantRows A M (n * (2 * h)) (2 * h)).flatten) mem (.packed (m * (n * h) + j)) =
      byteAt A (m * (n * (2 * h))) (2 * h) j) ∧
    ∀ g < n, assign (storesOf (quantRows A M (n * (2 * h)) (2 * h)).flatten) mem (.scale (m * n + g)) =
      (scaleAt A (m * (n * (2 * h))) (2 * h) g).1 := by
  obtain ⟨hgroups, hbytes⟩ := row_widths (n := n) hh
  have hlength : (quantRows A M (n * (2 * h)) (2 * h)).length = M := by simp [quantRows]
  constructor
  · intro j hj
    refine assign_grid Place.packed (fun m j => byteAt A (m * (n * (2 * h))) (2 * h) j) (fun i v => ?_) hm hj mem
    rw [mem_storesOf_flatten, hlength]
    refine exists_congr fun r => and_congr_right fun hr => ?_
    rw [getD_quantRows hr, hbytes]
    exact packed_mem_quantRow hh
  · intro g hg
    refine assign_grid Place.scale (fun m g => (scaleAt A (m * (n * (2 * h))) (2 * h) g).1) (fun i v => ?_) hm hg mem
    rw [mem_storesOf_flatten, hlength]
    refine exists_congr fun r => and_congr_right fun hr => ?_
    rw [getD_quantRows hr, scale_mem_quantRow, hgroups]

/-- **The quantiser with groups of even size.** -/
theorem quantRows_exact (A : ℕ → ℕ) (M n : ℕ) {h : ℕ} (hh : 0 < h) :
    QuantExact A M (n * (2 * h)) (2 * h) (quantRows A M (n * (2 * h)) (2 * h)) := by
  obtain ⟨hgroups, hbytes⟩ := row_widths (n := n) hh
  refine ⟨fun m hm a ha => ?_, fun mem m hm k hk => ?_⟩
  · rw [getD_quantRows hm] at ha
    exact quantRow_within hh ha
  · obtain ⟨hpacked, hscale⟩ := quantRows_bytes (A := A) (n := n) hh mem hm
    have hdouble : n * (2 * h) = 2 * (n * h) := mul_left_comm n 2 h
    rw [hbytes, hgroups]
    refine ⟨?_, hscale _ (Nat.div_lt_of_lt_mul (by rwa [mul_comm]))⟩
    rw [hpacked (k / 2) (by omega), nibbleOf_byteAt]

lemma scaleAt_ones {row g : ℕ} (hgs : 0 < gs) : (scaleAt (fun _ => 127 <<< 7) row gs g).1 ≠ 0xFF := by
  have hone : ∀ i < gs, (bf16ToFloat (127 <<< 7)).Finite 1 := fun _ _ => by
    have h := ofBits_power (e := 127) (by norm_num) (by norm_num)
    exact congrArg Single.magnitude h
  obtain ⟨_, hamax, -, hle, -⟩ := groupAmax_fin hone
  obtain ⟨_, _, hsb, hscale, -⟩ := groupScale_spec (lt_of_lt_of_le one_pos (hle 0 hgs))
  unfold scaleAt
  rw [hamax, hscale]
  exact hsb.ne

/-- **The last pair of a row straddles its end** when the groups have odd size. -/
theorem quantRow_straddles (row pk sc : ℕ) (hgs : gs % 2 = 1) (hhidden : 0 < hidden) (hdiv : gs ∣ hidden) :
    Access.read (row + hidden) ∈ quantRow (fun _ => 127 <<< 7) row pk sc hidden gs := by
  have hpos : 0 < gs := by omega
  obtain ⟨n, rfl⟩ := hdiv
  have hn : 0 < n := Nat.pos_of_mul_pos_left hhidden
  have hgroups : gs * n / gs = n := Nat.mul_div_cancel_left n hpos
  have hend : (n - 1) * gs + gs = gs * n := by
    rw [← Nat.succ_mul, Nat.succ_eq_add_one, Nat.sub_add_cancel hn, Nat.mul_comm]
  refine mem_quantRow.mpr ⟨n - 1, by omega, mem_quantGroup.mpr (.inr (.inr (.inr ⟨scaleAt_ones hpos,
    (gs - 1) / 2, by omega, .inr (.inl ?_)⟩)))⟩
  congr 1
  omega

/-! ## The reduction -/

section

variable {P S : ℕ → ℕ} {w : Single} {pq ps dst h n : ℕ}

lemma addsOf_reduceGroup (g : ℕ) : addsOf (reduceGroup P S w pq ps dst (2 * h) g) =
    (range (2 * h)).map fun i => (dst + (g * (2 * h) + i), termAt P S w pq ps (2 * h) (g * (2 * h) + i)) := by
  have hsteps : (2 * h + 1) / 2 = h := by omega
  have hbase : g * (2 * h) = 2 * (g * h) := mul_left_comm g 2 h
  rw [mul_comm 2 h, ← Blocks.map_blocks, mul_comm h 2]
  unfold reduceGroup addsOf
  rw [filterMap_cons, filterMap_flatMap, hsteps]
  refine flatMap_congr fun p hp => ?_
  have hp := mem_range.mp hp
  have hlo : termAt P S w pq ps (2 * h) (g * (2 * h) + 2 * p) = product (product
      (fp4NibbleToFloat (P (pq + (g * (2 * h) / 2 + 2 * p / 2)) &&& 15)) (ue8m0ToFloat (S (ps + g)))) w := by
    unfold termAt
    rw [group_of (by omega), show (g * (2 * h) + 2 * p) / 2 = g * (2 * h) / 2 + 2 * p / 2 by omega,
      show (g * (2 * h) + 2 * p) % 2 = 0 by omega]
    rfl
  have hhi : termAt P S w pq ps (2 * h) (g * (2 * h) + (2 * p + 1)) = product (product
      (fp4NibbleToFloat ((P (pq + (g * (2 * h) / 2 + 2 * p / 2)) >>> 4) &&& 15)) (ue8m0ToFloat (S (ps + g)))) w := by
    unfold termAt
    rw [group_of (by omega), show (g * (2 * h) + (2 * p + 1)) / 2 = g * (2 * h) / 2 + 2 * p / 2 by omega,
      show (g * (2 * h) + (2 * p + 1)) % 2 = 1 by omega]
    rfl
  show [(dst + (g * (2 * h) + 2 * p), _), (dst + (g * (2 * h) + 2 * p + 1), _)] =
    [(dst + (g * (2 * h) + (p * 2 + 0)), _), (dst + (g * (2 * h) + (p * 2 + 1)), _)]
  rw [Nat.mul_comm p 2, Nat.add_zero (2 * p), hlo, hhi]
  rfl

lemma mem_reduceGroup {g : ℕ} {a : ReduceAccess} (ha : a ∈ reduceGroup P S w pq ps dst (2 * h) g) :
    a = .scale (ps + g) ∨ (∃ p < h, a = .packed (pq + (g * h + p))) ∨
      ∃ i < 2 * h, ∃ term, a = .add (dst + (g * (2 * h) + i)) term := by
  unfold reduceGroup at ha
  dsimp only at ha
  rcases mem_cons.mp ha with rfl | hin
  · exact .inl rfl
  · obtain ⟨p, hp, hin⟩ := mem_flatMap.mp hin
    have hp : p < h := by
      have := mem_range.mp hp
      omega
    rw [half_base, Nat.mul_div_cancel_left p two_pos] at hin
    rcases mem_cons.mp hin with rfl | hin
    · exact .inr (.inl ⟨p, hp, rfl⟩)
    rcases mem_cons.mp hin with rfl | hin
    · exact .inr (.inr ⟨2 * p, by omega, _, rfl⟩)
    · rw [mem_singleton.mp hin, Nat.add_assoc]
      exact .inr (.inr ⟨2 * p + 1, by omega, _, rfl⟩)

lemma reduceRow_exact (hh : 0 < h) : RowReduced P S w pq ps dst (n * (2 * h)) (2 * h)
    (reduceRow P S w pq ps dst (n * (2 * h)) (2 * h)) := by
  obtain ⟨hgroups, hbytes⟩ := row_widths (n := n) hh
  constructor
  · intro a ha
    obtain ⟨g, hg, hin⟩ := mem_flatMap.mp ha
    rw [hgroups, mem_range] at hg
    obtain ⟨hend, hbytesEnd⟩ := group_end (h := h) hg
    obtain rfl | ⟨p, hp, rfl⟩ | ⟨i, hi, term, rfl⟩ := mem_reduceGroup hin
    · exact ⟨by omega, by omega⟩
    · exact ⟨by omega, by rw [hbytes]; omega⟩
    · exact ⟨by omega, by omega⟩
  · unfold reduceRow
    rw [hgroups, ← Blocks.map_blocks, addsOf, filterMap_flatMap]
    exact flatMap_congr fun g _ => addsOf_reduceGroup g

lemma add_mem_reduceGroup {gs g p : ℕ} (hp : p < (gs + 1) / 2) :
    ∃ term, ReduceAccess.add (dst + (g * gs + 2 * p + 1)) term ∈ reduceGroup P S w pq ps dst gs g := by
  unfold reduceGroup
  simp only [mem_cons, mem_flatMap, mem_range]
  exact ⟨_, .inr ⟨p, hp, .inr (.inr (.inl rfl))⟩⟩

lemma reduceRow_straddles {width gs : ℕ} (hgs : gs % 2 = 1) (hwidth : 0 < width) (hdiv : gs ∣ width) :
    ∃ term, ReduceAccess.add (dst + width) term ∈ reduceRow P S w pq ps dst width gs := by
  have hpos : 0 < gs := by omega
  obtain ⟨n, rfl⟩ := hdiv
  have hn : 0 < n := Nat.pos_of_mul_pos_left hwidth
  have hgroups : gs * n / gs = n := Nat.mul_div_cancel_left n hpos
  have hend : (n - 1) * gs + gs = gs * n := by
    rw [← Nat.succ_mul, Nat.succ_eq_add_one, Nat.sub_add_cancel hn, Nat.mul_comm]
  have hlast : dst + gs * n = dst + ((n - 1) * gs + 2 * ((gs - 1) / 2) + 1) := by omega
  have hgroup : ∃ term, ReduceAccess.add (dst + gs * n) term ∈ reduceGroup P S w pq ps dst gs (n - 1) := by
    rw [hlast]
    exact add_mem_reduceGroup (by omega)
  obtain ⟨term, hterm⟩ := hgroup
  exact ⟨term, mem_flatMap.mpr ⟨n - 1, mem_range.mpr (by omega), hterm⟩⟩

end

/-! ## The calls -/

lemma getD_reduceRows {P S : ℕ → ℕ} {W : ℕ → Single} {ids : ℕ → ℤ} {N : ℤ} {width topK EM r : ℕ} (hr : r < EM)
    (hreal : IsReal ids N r) : (reduceRows P S W ids N width topK EM gs).getD r [] =
      reduceRow P S (W r) (r * (width / 2)) (r * (width / gs)) ((ids r).toNat / topK * width) width gs := by
  unfold reduceRows
  rw [getD_eq_getElem _ _ (by simpa using hr), getElem_map, getElem_range, if_pos hreal]

lemma accepted_sizes {hidden gs : ℤ} (hhidden : 0 ≤ hidden) (hgs : 0 < gs) (hdiv : hidden.tmod gs = 0)
    (heven : hidden.tmod 2 = 0) : 0 < gs.toNat ∧ gs.toNat ∣ hidden.toNat ∧ 2 ∣ hidden.toNat := by
  have hdvd : gs ∣ hidden := Int.dvd_of_tmod_eq_zero hdiv
  have hdvd2 : (2 : ℤ) ∣ hidden := Int.dvd_of_tmod_eq_zero heven
  refine ⟨by omega, ?_, by omega⟩
  rw [← Int.natCast_dvd_natCast, Int.toNat_of_nonneg hgs.le, Int.toNat_of_nonneg hhidden]
  exact hdvd

lemma even_sizes (hdiv : gs ∣ hidden) (heven : gs % 2 = 0) : ∃ h n, gs = 2 * h ∧ hidden = n * (2 * h) := by
  obtain ⟨n, rfl⟩ := hdiv
  exact ⟨gs / 2, n, by omega, by rw [show 2 * (gs / 2) = gs by omega, mul_comm]⟩

/-- **The quantiser** is exact, whatever the rows hold, exactly without rows, without elements or with groups of even
size. -/
theorem quant_exact_iff (hpos : 0 < gs) (hdiv : gs ∣ hidden) :
    (∀ A, QuantExact A M hidden gs (quantRows A M hidden gs)) ↔ M = 0 ∨ hidden = 0 ∨ gs % 2 = 0 := by
  constructor
  · intro hexact
    by_contra hnot
    have hread := quantRow_straddles (0 * hidden) (0 * (hidden / 2)) (0 * (hidden / gs))
      (show gs % 2 = 1 by omega) (show 0 < hidden by omega) hdiv
    rw [← getD_quantRows (show 0 < M by omega)] at hread
    have hwithin := ((hexact _).within 0 (by omega) _ hread).2
    omega
  · rintro (rfl | rfl | heven) A
    · exact ⟨fun m hm => absurd hm (Nat.not_lt_zero m), fun _ m hm => absurd hm (Nat.not_lt_zero m)⟩
    · refine ⟨fun m hm a ha => ?_, fun _ m _ k hk => absurd hk (Nat.not_lt_zero k)⟩
      rw [getD_quantRows hm, quantRow, Nat.zero_div gs] at ha
      cases ha
    · obtain ⟨h, n, rfl, rfl⟩ := even_sizes hdiv heven
      exact quantRows_exact A M n (by omega)

/-- **The reduction** is exact, whatever the rows hold, exactly if all of them are padding, or without elements, or with
groups of even size. -/
theorem reduce_exact_iff (ids : ℕ → ℤ) (N : ℤ) (topK EM : ℕ) {width : ℕ} (hpos : 0 < gs) (hdiv : gs ∣ width) :
    (∀ P S W, ReduceExact P S W ids N width topK EM gs (reduceRows P S W ids N width topK EM gs)) ↔
      (∀ r < EM, ¬IsReal ids N r) ∨ width = 0 ∨ gs % 2 = 0 := by
  constructor
  · intro hexact
    by_contra hnot
    obtain ⟨hsome, hnot⟩ := not_or.mp hnot
    push Not at hsome
    obtain ⟨r, hr, hreal⟩ := hsome
    have hrow := (hexact (fun _ => 0) (fun _ => 0) (fun _ => ⟨false, .fin 0⟩)) r hr hreal
    rw [getD_reduceRows hr hreal] at hrow
    obtain ⟨_, hterm⟩ := reduceRow_straddles (show gs % 2 = 1 by omega) (show 0 < width by omega) hdiv
    have hwithin := (hrow.within _ hterm).2
    omega
  · rintro (hpadding | rfl | heven) P S W r hr hreal
    · exact absurd hreal (hpadding r hr)
    · rw [getD_reduceRows hr hreal, reduceRow, Nat.zero_div gs]
      exact ⟨fun _ ha => absurd ha not_mem_nil, rfl⟩
    · obtain ⟨h, n, rfl, rfl⟩ := even_sizes hdiv heven
      rw [getD_reduceRows hr hreal]
      exact reduceRow_exact (by omega)

/-- **The rows of the two kernels.** For every hidden size, group size and number of rows that a call accepts, the rows
are stored and reduced exactly, whatever they hold, if and only if the groups have even size or there is nothing to do. -/
theorem mxfp4_rows_iff (M hidden gs : ℤ) (ids : ℕ → ℤ) (tokens width topK EM size : ℤ) :
    ((∃ A rows, mxfp4MoeQuant A M hidden gs = .ok rows) →
      ((∀ A, ∃ rows, mxfp4MoeQuant A M hidden gs = .ok rows ∧ QuantExact A M.toNat hidden.toNat gs.toNat rows) ↔
        M = 0 ∨ hidden = 0 ∨ gs % 2 = 0)) ∧
    ((∃ P S W rows, mxfp4MoeScatterReduceQ P S W ids tokens width topK EM size = .ok rows) →
      ((∀ P S W, ∃ rows, mxfp4MoeScatterReduceQ P S W ids tokens width topK EM size = .ok rows ∧
          ReduceExact P S W ids (tokens * topK) width.toNat topK.toNat EM.toNat size.toNat rows) ↔
        (∀ r < EM.toNat, ¬IsReal ids (tokens * topK) r) ∨ width = 0 ∨ size % 2 = 0)) := by
  constructor
  · rintro ⟨_, rows₀, hok⟩
    obtain ⟨hnonneg, hok⟩ := expects_ok.mp hok
    obtain ⟨hgs, hok⟩ := expects_ok.mp hok
    obtain ⟨hdiv, hok⟩ := expects_ok.mp hok
    obtain ⟨heven, -⟩ := expects_ok.mp hok
    have hcall (A : ℕ → ℕ) : mxfp4MoeQuant A M hidden gs = .ok (quantRows A M.toNat hidden.toNat gs.toNat) :=
      expects_ok.mpr ⟨hnonneg, expects_ok.mpr ⟨hgs, expects_ok.mpr ⟨hdiv,
        expects_ok.mpr ⟨heven, rfl⟩⟩⟩⟩
    obtain ⟨hpos, hdvd, -⟩ := accepted_sizes hnonneg.2 hgs hdiv heven
    have hiff := quant_exact_iff (M := M.toNat) hpos hdvd
    have hcond : (M.toNat = 0 ∨ hidden.toNat = 0 ∨ gs.toNat % 2 = 0) ↔ (M = 0 ∨ hidden = 0 ∨ gs % 2 = 0) := by
      obtain ⟨hM, hhidden⟩ := hnonneg
      omega
    rw [← hcond, ← hiff]
    refine forall_congr' fun A => ?_
    rw [hcall A]
    constructor
    · rintro ⟨rows, heq, hexact⟩
      obtain rfl := Except.ok.inj heq
      exact hexact
    · exact fun hexact => ⟨_, rfl, hexact⟩
  · rintro ⟨_, _, _, _, hok⟩
    obtain ⟨hnonneg, hok⟩ := expects_ok.mp hok
    obtain ⟨hgs, hok⟩ := expects_ok.mp hok
    obtain ⟨heven, hok⟩ := expects_ok.mp hok
    obtain ⟨hdiv, -⟩ := expects_ok.mp hok
    have hcall (P S : ℕ → ℕ) (W : ℕ → Single) : mxfp4MoeScatterReduceQ P S W ids tokens width topK EM size =
        .ok (reduceRows P S W ids (tokens * topK) width.toNat topK.toNat EM.toNat size.toNat) :=
      expects_ok.mpr ⟨hnonneg, expects_ok.mpr ⟨hgs, expects_ok.mpr ⟨heven,
        expects_ok.mpr ⟨hdiv, rfl⟩⟩⟩⟩
    obtain ⟨hpos, hdvd, -⟩ := accepted_sizes hnonneg.2.1 hgs hdiv heven
    have hiff := reduce_exact_iff ids (tokens * topK) topK.toNat EM.toNat hpos hdvd
    have hcond : ((∀ r < EM.toNat, ¬IsReal ids (tokens * topK) r) ∨ width.toNat = 0 ∨ size.toNat % 2 = 0) ↔
        ((∀ r < EM.toNat, ¬IsReal ids (tokens * topK) r) ∨ width = 0 ∨ size % 2 = 0) := by
      exact or_congr Iff.rfl (by omega)
    rw [← hcond, ← hiff]
    refine forall_congr' fun P => forall_congr' fun S => forall_congr' fun W => ?_
    rw [hcall P S W]
    constructor
    · rintro ⟨_, heq, hexact⟩
      obtain rfl := Except.ok.inj heq
      exact hexact
    · exact fun hexact => ⟨_, rfl, hexact⟩

/-- One row of two elements in one group. -/
theorem mxfp4_rows_two : ∀ A, ∃ rows, mxfp4MoeQuant A 1 2 2 = .ok rows ∧ QuantExact A 1 2 2 rows :=
  ((mxfp4_rows_iff 1 2 2 (fun _ => 0) 0 0 1 0 1).1 ⟨fun _ => 0, _, rfl⟩).mpr (by norm_num)

/-- One row of two elements in groups of one: accepted, but it reads past its end. -/
theorem mxfp4_rows_odd : (∃ rows, mxfp4MoeQuant (fun _ => 127 <<< 7) 1 2 1 = .ok rows) ∧
    ∀ rows, mxfp4MoeQuant (fun _ => 127 <<< 7) 1 2 1 = .ok rows → ¬QuantExact (fun _ => 127 <<< 7) 1 2 1 rows := by
  refine ⟨⟨_, rfl⟩, fun rows heq hexact => ?_⟩
  have hrows : rows = quantRows (fun _ => 127 <<< 7) 1 2 1 := (Except.ok.inj heq).symm
  have hread := quantRow_straddles (0 * 2) (0 * (2 / 2)) (0 * (2 / 1)) (show 1 % 2 = 1 from rfl)
    (show 0 < 2 by norm_num) (one_dvd 2)
  rw [← getD_quantRows (show 0 < 1 by norm_num), ← hrows] at hread
  have hwithin := (hexact.within 0 (by norm_num) _ hread).2
  omega

end VKernels.Moe.MxFp4
