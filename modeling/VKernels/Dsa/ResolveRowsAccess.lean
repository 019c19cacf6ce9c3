import VKernels.Dsa.ResolveRowsProgram
import VKernels.Lib.LaneLaunch

/-!
# The accesses of the resolver

Every index at which `_resolve_rows_fast` reads or writes its tables, its state, its outputs and its scratch.

* `Tensor`, `Access` — the tensors and an index of one.  The KV rows, the host rows and the fence are not among them.
* `Fits32`, `TablesFit`, `SizesCover` — no product of 32 bits wraps, and the tensors are as large as the grid needs.

The state number and the products of a state, a request or a position with a constant are 32-bit; what is then added to
a pointer is not.

## Results

* `programAccesses_inside` — with room every access of a program is inside its tensor, and the tags stay inside the
  pages; `launchAccesses_inside` — every access of a launch.
* `needs_of_inside` — the room that the accesses of every program need; `tables_of_inside` — that of the tables, when
  some token misses.
-/

namespace VKernels.Dsa

open VKernels.VectorLanes
open LaneLaunch (Reaches int32 int32_of_lt reaches_of_nonneg)
open List

/-- The tensors a launch addresses. -/
inductive Tensor where
  | lengths
  | selected
  | resident
  | generations
  | backing
  | hotSlots
  | tags
  | tagGenerations
  | ages
  | clock
  | output
  | counters
  | errors
  | fill
  | bitmap
  | worklist
  deriving DecidableEq, Repr

abbrev Access := Tensor × ℤ

def touch (mask : Bool) (t : Tensor) (i : ℤ) : List Access := if mask then [(t, i)] else []

lemma mem_touch {mask : Bool} {t : Tensor} {i : ℤ} {acc : Access} : acc ∈ touch mask t i ↔ mask = true ∧ acc = (t, i) := by
  unfold touch
  split <;> simp [*]

section

variable (g : Geometry) (T : Tables) (request : ℤ)

/-- `state`, in 32 bits. -/
def state32 (layer : ℤ) : ℤ := int32 (int32 (layer * g.batch) + request)

/-- Phase 0. -/
def clearAccesses (st : ℤ) : List Access :=
  (List.range ((g.words + 1023) / 1024)).flatMap fun c => (List.range 1024).flatMap fun w =>
    touch (c * 1024 + w < g.words) .bitmap (int32 (st * g.words) + (c * 1024 : ℕ) + w)

/-- Phase 1, one chunk, with the count of the misses before it. -/
def selectAccesses (st : ℤ) (workcnt c : ℕ) : List Access :=
  (List.range g.blockK).flatMap fun l =>
    let jv := c * g.blockK + l
    let tok := token g T request jv
    let miss := fun l => isMiss g T request (c * g.blockK + l)
    touch (jv < g.k) .selected (int32 (request * g.k) + jv) ++
      touch (valid g T request jv) .bitmap (int32 (st * g.words) + tok / 32) ++
      touch (valid g T request jv) .resident (int32 (request * g.pages) + tok / g.page) ++
      touch (isRes g T request jv) .output (int32 (st * g.k) + jv) ++
      touch (miss l) .worklist (int32 (st * g.k) + workcnt + cumsum miss l - 1) ++
      touch (jv < g.k && !valid g T request jv) .output (int32 (st * g.k) + jv)

/-- Phase 2, from the tags of the state. -/
def tierAccesses (st : ℤ) (tags : ℕ → ℤ) : List Access :=
  (List.range g.blockH).flatMap fun h =>
    touch (h < g.h) .tags (int32 (st * g.h) + h) ++ touch (h < g.h) .tagGenerations (int32 (st * g.h) + h) ++
      touch (h < g.h) .ages (int32 (st * g.h) + h) ++
      touch (h < g.h && 0 ≤ tags h) .generations (int32 (request * g.pages) + tags h / g.page) ++
      touch (h < g.h && 0 ≤ tags h) .bitmap (int32 (st * g.words) + tags h / 32)

/-- A walk step takes a slot for a token that is not in the hot tier. -/
def evicts (w : Walk) (mi : ℤ) : Bool :=
  let tok := T.selected (request * g.k + mi)
  let (slot, isHit) := claimSlot g w tok (T.generations (request * g.pages + tok / g.page))
  let claim : Bool := slot < g.h
  let hotPage := if claim then T.hotSlots (request * g.hotPages + (slot / g.page : ℕ)) else 0
  let fenced :=
    if g.hasFence then
      (if claim then T.fence hotPage else 0) == (if claim then T.expected hotPage else -1)
    else claim
  claim && fenced && !isHit

/-- Phase 3, turn `i`, at the missed position `mi`. -/
def walkAccesses (st : ℤ) (w : Walk) (i : ℕ) (mi : ℤ) : List Access :=
  let tok := T.selected (request * g.k + mi)
  let page := tok / g.page
  let slot := (claimSlot g w tok (T.generations (request * g.pages + page))).1
  [(.worklist, int32 (st * g.k) + i), (.selected, int32 (request * g.k) + mi),
    (.generations, int32 (request * g.pages) + page)] ++
    touch (slot < g.h) .hotSlots (int32 (request * g.hotPages) + (slot / g.page : ℕ)) ++
    touch (evicts g T request w mi) .backing (int32 (request * g.pages) + page) ++
    touch (evicts g T request w mi) .fill ((int32 (st * g.k) + w.missCount) * 2) ++
    touch (evicts g T request w mi) .fill ((int32 (st * g.k) + w.missCount) * 2 + 1) ++
    [(.output, int32 (st * g.k) + mi)]

/-- Phase 4. -/
def storeAccesses (st : ℤ) : List Access :=
  ((List.range g.blockH).flatMap fun h =>
    touch (h < g.h) .tags (int32 (st * g.h) + h) ++ touch (h < g.h) .tagGenerations (int32 (st * g.h) + h) ++
      touch (h < g.h) .ages (int32 (st * g.h) + h)) ++
    [(.clock, st), (.counters, int32 (st * 3)), (.counters, int32 (st * 3) + 1), (.counters, int32 (st * 3) + 2),
      (.errors, st)]

/-- Phase 5: every fill is read or cleared. -/
def copyAccesses (st : ℤ) (missCount : ℕ) : List Access :=
  (List.range ((g.k + g.fillChunk - 1) / g.fillChunk)).flatMap fun c => (List.range g.fillChunk).flatMap fun l =>
    let jv := c * g.fillChunk + l
    let place := int32 (int32 (int32 (st * g.k) + jv) * 2)
    let live := decide (jv < missCount)
    let dead := decide (missCount ≤ jv) && decide (jv < g.k)
    touch live .fill place ++ touch live .fill (place + 1) ++ touch dead .fill place ++ touch dead .fill (place + 1)

variable {V : Type}

def programAccesses (layer : ℤ) (m : Mem V) : List Access :=
  let st := layer * g.batch + request
  let st32 := state32 g request layer
  let s₀ : Selection :=
    { bitmap := clearBitmap g st m.bitmap, output := m.output, worklist := m.worklist,
      residentCount := 0, errCount := 0, workcnt := 0 }
  let s := programSelect g T m request st
  let w₀ := loadWalk g T request st m s
  let clock := m.clock st + 1
  [(.lengths, request)] ++ clearAccesses g st32 ++
    ((List.range ((g.k + g.blockK - 1) / g.blockK)).flatMap fun c =>
      selectAccesses g T request st32 ((List.range c).foldl (selectChunk g T request st) s₀).workcnt c) ++
    tierAccesses g request st32 w₀.tags ++ [(.clock, st32)] ++
    ((List.range s.workcnt).flatMap fun i =>
      walkAccesses g T request st32 (walk g T request st clock s.worklist i w₀) i (s.worklist (st * g.k + i))) ++
    storeAccesses g st32 ++ copyAccesses g st32 (walk g T request st clock s.worklist s.workcnt w₀).missCount

/-- Programs `(request, layer)` of the grid, one after the other. -/
def launchAccesses (host : Buffer V) : List (ℤ × ℤ) → Mem V → List Access
  | [], _ => []
  | rl :: order, m =>
    programAccesses g T rl.1 rl.2 m ++ launchAccesses host order (program g T host rl.1 rl.2 m)

end

/-! ## Room -/

/-- The products that the programs of `n` states form do not wrap. -/
structure Fits32 (g : Geometry) (n : ℕ) : Prop where
  states : n ≤ 2 ^ 31
  counters : Reaches n 3
  fills : n * g.k ≤ 2 ^ 30
  tier : Reaches n g.h
  words : Reaches n g.words

structure TablesFit (g : Geometry) : Prop where
  pages : Reaches g.batch g.pages
  hotPages : 0 < g.k → 0 < g.pages → Reaches g.batch g.hotPages

/-- The tensors are as large as a grid of `n` states needs. -/
structure SizesCover (g : Geometry) (n : ℕ) (size : Tensor → ℕ) : Prop where
  lengths : g.batch ≤ size .lengths
  selected : g.batch * g.k ≤ size .selected
  resident : g.batch * g.pages ≤ size .resident
  generations : g.batch * g.pages ≤ size .generations
  backing : g.batch * g.pages ≤ size .backing
  hotSlots : g.batch * g.hotPages ≤ size .hotSlots
  tags : n * g.h ≤ size .tags
  tagGenerations : n * g.h ≤ size .tagGenerations
  ages : n * g.h ≤ size .ages
  clock : n ≤ size .clock
  output : n * g.k ≤ size .output
  counters : n * 3 ≤ size .counters
  errors : n ≤ size .errors
  fill : n * g.k * 2 ≤ size .fill
  bitmap : n * g.words ≤ size .bitmap
  worklist : n * g.k ≤ size .worklist

def Inside (size : Tensor → ℕ) (acc : Access) : Prop := 0 ≤ acc.2 ∧ acc.2 < size acc.1

section

variable {size : Tensor → ℕ} {t : Tensor} {n c : ℕ} {s i : ℤ}

lemma row_lt (hs : 0 ≤ s ∧ s < n) (hi : 0 ≤ i ∧ i < c) : 0 ≤ s * c + i ∧ s * c + i < (n * c : ℕ) := by
  obtain ⟨s, rfl⟩ := Int.eq_ofNat_of_zero_le hs.1
  obtain ⟨i, rfl⟩ := Int.eq_ofNat_of_zero_le hi.1
  have hrows := Blocks.block_le (show s < n by omega) c
  have hlt : s * c + i < n * c := by omega
  exact ⟨by positivity, by exact_mod_cast hlt⟩

lemma inside_row (hs : 0 ≤ s ∧ s < n) (hreach : Reaches n c) (hsize : n * c ≤ size t) (hi : 0 ≤ i ∧ i < c) :
    Inside size (t, int32 (s * c) + i) := by
  have hrow := row_lt hs hi
  rw [Inside, Reaches.int32_mul hreach hs]
  exact ⟨hrow.1, hrow.2.trans_le (by exact_mod_cast hsize)⟩

end

/-! ## The phases of a program with room -/

/-- A program of a grid of `n` states that has room, with its request's length within the pages. -/
structure Ready (g : Geometry) (T : Tables) (n : ℕ) (size : Tensor → ℕ) (request st : ℤ) : Prop where
  fits : Fits32 g n
  tables : TablesFit g
  covers : SizesCover g n size
  batch_le : g.batch ≤ n
  inBatch : 0 ≤ request ∧ request < g.batch
  inStates : 0 ≤ st ∧ st < n
  length : T.lengths request ≤ (g.pages * g.page : ℕ)

section

variable {g : Geometry} {T : Tables} {n : ℕ} {size : Tensor → ℕ} {request st : ℤ} (h : Ready g T n size request st)

lemma Fits32.positions (h : Fits32 g n) : Reaches n g.k := fun s hs => by
  have hle : s * g.k ≤ n * g.k := Nat.mul_le_mul_right _ hs.le
  have := h.fills
  omega

lemma Ready.selections (h : Ready g T n size request st) : Reaches g.batch g.k := fun s hs =>
  h.fits.positions s (hs.trans_le h.batch_le)

lemma token_places {tok : ℤ} (h0 : 0 ≤ tok) (hlt : tok < (g.pages * g.page : ℕ)) :
    (0 ≤ tok / g.page ∧ tok / g.page < g.pages) ∧ 0 ≤ tok / 32 ∧ tok / 32 < g.words := by
  have hpage : (0 : ℤ) < g.page := by exact_mod_cast g.page_pos
  have hwords : g.words = (g.pages * g.page + 31) / 32 := rfl
  refine ⟨⟨Int.ediv_nonneg h0 hpage.le, Int.ediv_lt_of_lt_mul hpage (by exact_mod_cast hlt)⟩, by omega, by omega⟩

include h

lemma Ready.token_of_valid {j : ℕ} (hv : valid g T request j = true) :
    j < g.k ∧ 0 ≤ token g T request j ∧ token g T request j < (g.pages * g.page : ℕ) := by
  have hrange : valid g T request j = true ↔ (j < g.k ∧ 0 ≤ token g T request j) ∧
      token g T request j < T.lengths request := by
    simp [valid]
  obtain ⟨⟨hj, h0⟩, hlt⟩ := hrange.mp hv
  exact ⟨hj, h0, hlt.trans_le h.length⟩

lemma Ready.clear : ∀ acc ∈ clearAccesses g st, Inside size acc := by
  intro _ hacc
  simp only [clearAccesses, mem_flatMap, mem_range, mem_touch] at hacc
  obtain ⟨c, -, w, -, hw, rfl⟩ := hacc
  have hw := of_decide_eq_true hw
  rw [add_assoc]
  exact inside_row h.inStates h.fits.words h.covers.bitmap ⟨by positivity, by exact_mod_cast hw⟩

lemma Ready.select {s₀ : Selection} {c : ℕ} {s : Selection} (hs : Selected g T request st (c * g.blockK) s₀ s) :
    ∀ acc ∈ selectAccesses g T request st s.workcnt c, Inside size acc := by
  intro _ hacc
  simp only [selectAccesses, mem_flatMap, mem_range, mem_append, mem_touch] at hacc
  obtain ⟨l, hl, ((((⟨hj, rfl⟩ | ⟨hv, rfl⟩) | ⟨hv, rfl⟩) | ⟨hr, rfl⟩) | ⟨hm, rfl⟩) | ⟨hj, rfl⟩⟩ := hacc
  · have hj := of_decide_eq_true hj
    exact inside_row h.inBatch h.selections h.covers.selected ⟨by positivity, by exact_mod_cast hj⟩
  · obtain ⟨-, h0, hlt⟩ := h.token_of_valid hv
    exact inside_row h.inStates h.fits.words h.covers.bitmap (token_places h0 hlt).2
  · obtain ⟨-, h0, hlt⟩ := h.token_of_valid hv
    exact inside_row h.inBatch h.tables.pages h.covers.resident (token_places h0 hlt).1
  · have hj := lt_of_isRes g T request hr
    exact inside_row h.inStates h.fits.positions h.covers.output ⟨by positivity, by exact_mod_cast hj⟩
  · -- the misses up to this lane, itself included, are positions of the selection
    have hcount : s.workcnt + cumsum (fun l => isMiss g T request (c * g.blockK + l)) l =
        (misses g T request (c * g.blockK + (l + 1))).length := by
      rw [misses_add, length_append, length_map, ← hs.workcnt, ← countP_eq_length_filter]
      rfl
    have hle := misses_length_le g T request (c * g.blockK + (l + 1))
    have hpos : 0 < cumsum (fun l => isMiss g T request (c * g.blockK + l)) l :=
      countP_pos_iff.mpr ⟨l, mem_range.mpr (Nat.lt_succ_self l), hm⟩
    generalize cumsum (fun l => isMiss g T request _) l = count at *
    have hplace : int32 (st * g.k) + s.workcnt + count - 1 = int32 (st * g.k) + (s.workcnt + count - 1 : ℕ) := by
      omega
    rw [hplace]
    exact inside_row h.inStates h.fits.positions h.covers.worklist ⟨by positivity, by omega⟩
  · simp only [Bool.and_eq_true, decide_eq_true_eq] at hj
    exact inside_row h.inStates h.fits.positions h.covers.output ⟨by positivity, by exact_mod_cast hj.1⟩

lemma Ready.tier {tags : ℕ → ℤ} (htags : ∀ i < g.h, tags i < (g.pages * g.page : ℕ)) :
    ∀ acc ∈ tierAccesses g request st tags, Inside size acc := by
  intro _ hacc
  simp only [tierAccesses, mem_flatMap, mem_range, mem_append, mem_touch, Bool.and_eq_true, decide_eq_true_eq] at hacc
  obtain ⟨i, -, (((⟨hi, rfl⟩ | ⟨hi, rfl⟩) | ⟨hi, rfl⟩) | ⟨hi, rfl⟩) | ⟨hi, rfl⟩⟩ := hacc
  · exact inside_row h.inStates h.fits.tier h.covers.tags ⟨by positivity, by exact_mod_cast hi⟩
  · exact inside_row h.inStates h.fits.tier h.covers.tagGenerations ⟨by positivity, by exact_mod_cast hi⟩
  · exact inside_row h.inStates h.fits.tier h.covers.ages ⟨by positivity, by exact_mod_cast hi⟩
  · exact inside_row h.inBatch h.tables.pages h.covers.generations (token_places hi.2 (htags i hi.1)).1
  · exact inside_row h.inStates h.fits.words h.covers.bitmap (token_places hi.2 (htags i hi.1)).2

lemma Ready.walk {w : Walk} {i j : ℕ} (hmiss : isMiss g T request j = true) (hi : i < g.k) (hfills : w.missCount ≤ i)
    (hhot : g.h ≤ g.hotPages * g.page) : ∀ acc ∈ walkAccesses g T request st w i j, Inside size acc := by
  have hj := lt_of_isMiss g T request hmiss
  have hv : valid g T request j = true := by
    simp only [isMiss, Bool.and_eq_true] at hmiss
    exact hmiss.1
  obtain ⟨-, h0, hlt⟩ := h.token_of_valid hv
  rw [token_eq g T request hj] at h0 hlt
  have hpage := (token_places h0 hlt).1
  have hfill : Inside size (.fill, (int32 (st * g.k) + w.missCount) * 2) ∧
      Inside size (.fill, (int32 (st * g.k) + w.missCount) * 2 + 1) := by
    have hcount : (0 : ℤ) ≤ w.missCount ∧ (w.missCount : ℤ) < g.k := ⟨by positivity, by omega⟩
    have hrow := row_lt h.inStates hcount
    have hsize := h.covers.fill
    rw [Reaches.int32_mul h.fits.positions h.inStates]
    constructor <;> constructor <;> dsimp only <;> omega
  intro _ hacc
  simp only [walkAccesses, mem_append, mem_cons, not_mem_nil, or_false, mem_touch, decide_eq_true_eq] at hacc
  obtain (((((rfl | rfl | rfl) | ⟨hslot, rfl⟩) | ⟨-, rfl⟩) | ⟨-, rfl⟩) | ⟨-, rfl⟩) | rfl := hacc
  · exact inside_row h.inStates h.fits.positions h.covers.worklist ⟨by positivity, by exact_mod_cast hi⟩
  · exact inside_row h.inBatch h.selections h.covers.selected ⟨by positivity, by exact_mod_cast hj⟩
  · exact inside_row h.inBatch h.tables.pages h.covers.generations hpage
  · have hslot := Nat.div_lt_of_lt_mul (by rw [mul_comm]; exact hslot.trans_le hhot)
    have hk : 0 < g.k := Nat.zero_lt_of_lt hj
    have hpages : 0 < g.pages := pos_of_ne_zero fun hzero => by
      omega
    exact inside_row h.inBatch (h.tables.hotPages hk hpages) h.covers.hotSlots ⟨by positivity, by exact_mod_cast hslot⟩
  · exact inside_row h.inBatch h.tables.pages h.covers.backing hpage
  · exact hfill.1
  · exact hfill.2
  · exact inside_row h.inStates h.fits.positions h.covers.output ⟨by positivity, by exact_mod_cast hj⟩

lemma Ready.store : ∀ acc ∈ storeAccesses g st, Inside size acc := by
  intro _ hacc
  have hcounter (i : ℕ) (hi : i < 3) : Inside size (.counters, int32 (st * (3 : ℕ)) + i) :=
    inside_row h.inStates h.fits.counters h.covers.counters ⟨by positivity, by exact_mod_cast hi⟩
  have hstate {t : Tensor} (hsize : n ≤ size t) : Inside size (t, st) := by
    obtain ⟨h0, hlt⟩ := h.inStates
    exact ⟨h0, hlt.trans_le (by exact_mod_cast hsize)⟩
  simp only [storeAccesses, mem_append, mem_flatMap, mem_range, mem_cons, not_mem_nil, or_false,
    mem_touch, decide_eq_true_eq] at hacc
  obtain ⟨i, -, (⟨hi, rfl⟩ | ⟨hi, rfl⟩) | ⟨hi, rfl⟩⟩ | rfl | rfl | rfl | rfl | rfl := hacc
  · exact inside_row h.inStates h.fits.tier h.covers.tags ⟨by positivity, by exact_mod_cast hi⟩
  · exact inside_row h.inStates h.fits.tier h.covers.tagGenerations ⟨by positivity, by exact_mod_cast hi⟩
  · exact inside_row h.inStates h.fits.tier h.covers.ages ⟨by positivity, by exact_mod_cast hi⟩
  · exact hstate h.covers.clock
  · simpa using hcounter 0 (by decide)
  · exact hcounter 1 (by decide)
  · exact hcounter 2 (by decide)
  · exact hstate h.covers.errors

lemma Ready.copy {missCount : ℕ} (hmiss : missCount ≤ g.k) : ∀ acc ∈ copyAccesses g st missCount, Inside size acc := by
  have hplace (jv : ℕ) (hjv : jv < g.k) : Inside size (.fill, int32 (int32 (int32 (st * g.k) + jv) * 2)) ∧
      Inside size (.fill, int32 (int32 (int32 (st * g.k) + jv) * 2) + 1) := by
    have hpos : (0 : ℤ) ≤ jv ∧ (jv : ℤ) < g.k := ⟨by positivity, by exact_mod_cast hjv⟩
    have hrow := row_lt h.inStates hpos
    have hfit := h.fits.fills
    have hsize := h.covers.fill
    rw [Reaches.int32_mul h.fits.positions h.inStates, int32_of_lt hrow.1 (by omega), int32_of_lt (by omega) (by omega)]
    constructor <;> constructor <;> dsimp only <;> omega
  intro _ hacc
  simp only [copyAccesses, mem_flatMap, mem_range, mem_append, mem_touch, Bool.and_eq_true, decide_eq_true_eq] at hacc
  obtain ⟨c, -, l, -, ((⟨hlive, rfl⟩ | ⟨hlive, rfl⟩) | ⟨hdead, rfl⟩) | ⟨hdead, rfl⟩⟩ := hacc
  · exact (hplace _ (by omega)).1
  · exact (hplace _ (by omega)).2
  · exact (hplace _ hdead.2).1
  · exact (hplace _ hdead.2).2

end

/-! ## A program -/

section

variable {g : Geometry} {T : Tables} {request st clock : ℤ}

variable (g T request st clock) in
lemma walkStep_missCount (w : Walk) (mi : ℤ) : (walkStep g T request st clock w mi).missCount ≤ w.missCount + 1 := by
  exact Nat.add_le_add_left (Bool.toNat_le _) _

variable (g T request st clock) in
lemma walkStep_tags (w : Walk) (mi : ℤ) (i : ℕ) : (walkStep g T request st clock w mi).tags i = w.tags i ∨
    (walkStep g T request st clock w mi).tags i = T.selected (request * g.k + mi) := by
  exact (ite_eq_or_eq _ _ _).symm

variable (worklist : Buffer ℤ) (w : Walk)

lemma walk_succ (i : ℕ) : walk g T request st clock worklist (i + 1) w =
    walkStep g T request st clock (walk g T request st clock worklist i w) (worklist (st * g.k + i)) := by
  unfold walk
  rw [range_succ, foldl_concat]

variable (g T request st clock) in
lemma walk_missCount (i : ℕ) : (walk g T request st clock worklist i w).missCount ≤ w.missCount + i := by
  induction i with
  | zero => exact le_rfl
  | succ i ih =>
    rw [walk_succ]
    exact (walkStep_missCount g T request st clock _ _).trans (by omega)

variable {worklist w} in
lemma walk_tags {bound : ℤ} {count : ℕ} (hw : ∀ i, w.tags i < bound)
    (hlist : ∀ i < count, T.selected (request * g.k + worklist (st * g.k + i)) < bound) (i : ℕ) :
    (walk g T request st clock worklist count w).tags i < bound := by
  induction count with
  | zero => exact hw i
  | succ count ih =>
    rw [walk_succ]
    obtain heq | heq := walkStep_tags g T request st clock
      (walk g T request st clock worklist count w) _ i
    · rw [heq]
      exact ih fun j hj => hlist j (by omega)
    · rw [heq]
      exact hlist count (Nat.lt_succ_self count)

lemma storeLanes_cases {α : Type} (buf : Buffer α) (n : ℕ) (mask : ℕ → Bool) (addr : ℕ → ℤ) (val : ℕ → α) (a : ℤ) :
    storeLanes buf n mask addr val a = buf a ∨ ∃ l, storeLanes buf n mask addr val a = val l := by
  induction n with
  | zero => exact .inl rfl
  | succ n ih =>
    rw [storeLanes_succ]
    split
    · by_cases ha : a = addr n
      · subst ha
        exact .inr ⟨n, Function.update_self _ _ _⟩
      · rw [Function.update_of_ne ha]
        exact ih
    · exact ih

end

variable {V : Type} {g : Geometry} {T : Tables} {n : ℕ} {size : Tensor → ℕ}

section

variable {request layer st : ℤ} {m : Mem V}

/-- Every tag of the grid is a token of the pages, or none. -/
def TagsWithin (g : Geometry) (n : ℕ) (m : Mem V) : Prop :=
  ∀ a : ℤ, 0 ≤ a → a < (n * g.h : ℕ) → m.tags a < (g.pages * g.page : ℕ)

lemma walk_fills (clock : ℤ) (i : ℕ) : (walk g T request st clock (programSelect g T m request st).worklist i
    (loadWalk g T request st m (programSelect g T m request st))).missCount ≤ i := by
  have hfills := walk_missCount g T request st clock (programSelect g T m request st).worklist
    (loadWalk g T request st m (programSelect g T m request st)) i
  have hzero : (loadWalk g T request st m (programSelect g T m request st)).missCount = 0 := rfl
  omega

lemma Ready.state32_eq (h : Ready g T n size request (layer * g.batch + request)) (hlayer : 0 ≤ layer) :
    state32 g request layer = layer * g.batch + request := by
  have hstates := h.fits.states
  have hin := h.inBatch
  have hst := h.inStates
  have hrows : 0 ≤ layer * g.batch := by positivity
  rw [state32, int32_of_lt hrows (by omega), int32_of_lt hst.1 (by omega)]

lemma programSelect_worklist {i : ℕ} (hi : i < (programSelect g T m request st).workcnt) :
    i < g.k ∧ ∃ j : ℕ, isMiss g T request j = true ∧ (programSelect g T m request st).worklist (st * g.k + i) = j := by
  have hspec := programSelect_spec g T m request st
  rw [hspec.workcnt] at hi
  have hle := misses_length_le g T request g.k
  have hheld := hspec.worklist i (by rwa [length_map])
  rw [getElem_map] at hheld
  exact ⟨by omega, _, (mem_filter.mp (getElem_mem hi)).2, hheld⟩

lemma Ready.loaded (h : Ready g T n size request st) (htags : TagsWithin g n m) (i : ℕ) :
    (loadWalk g T request st m (programSelect g T m request st)).tags i < (g.pages * g.page : ℕ) := by
  show (if i < g.h then m.tags (st * g.h + i) else -1) < ((g.pages * g.page : ℕ) : ℤ)
  split
  · rename_i hi
    have hpos : (0 : ℤ) ≤ i ∧ (i : ℤ) < g.h := ⟨by positivity, by exact_mod_cast hi⟩
    have hrow := row_lt h.inStates hpos
    exact htags _ hrow.1 hrow.2
  · omega

lemma programAccesses_inside (h : Ready g T n size request (layer * g.batch + request)) (hlayer : 0 ≤ layer)
    (htags : TagsWithin g n m) (hhot : g.h ≤ g.hotPages * g.page) :
    ∀ acc ∈ programAccesses g T request layer m, Inside size acc := by
  intro acc hacc
  simp only [programAccesses, h.state32_eq hlayer, mem_append] at hacc
  obtain ((((((hacc | hacc) | hacc) | hacc) | hacc) | hacc) | hacc) | hacc := hacc
  · obtain rfl := mem_singleton.mp hacc
    exact ⟨h.inBatch.1, h.inBatch.2.trans_le (by exact_mod_cast h.covers.lengths)⟩
  · exact h.clear acc hacc
  · obtain ⟨c, -, hacc⟩ := mem_flatMap.mp hacc
    exact h.select (select_chunks g T request _ _ rfl rfl rfl c) acc hacc
  · exact h.tier (fun i _ => h.loaded htags i) acc hacc
  · obtain rfl := mem_singleton.mp hacc
    exact ⟨h.inStates.1, h.inStates.2.trans_le (by exact_mod_cast h.covers.clock)⟩
  · obtain ⟨i, hi, hacc⟩ := mem_flatMap.mp hacc
    obtain ⟨hik, j, hmiss, hj⟩ := programSelect_worklist (mem_range.mp hi)
    rw [hj] at hacc
    exact h.walk hmiss hik (walk_fills _ i) hhot acc hacc
  · exact h.store acc hacc
  · have hcount := (programSelect_spec g T m request (layer * g.batch + request)).workcnt
    have hle := misses_length_le g T request g.k
    exact h.copy ((walk_fills _ _).trans (by omega)) acc hacc

lemma program_tagsWithin (host : Buffer V) (h : Ready g T n size request (layer * g.batch + request))
    (htags : TagsWithin g n m) : TagsWithin g n (program g T host request layer m) := by
  intro a h0 hlt
  have hcases := storeLanes_cases m.tags g.blockH (fun i => decide (i < g.h))
    (fun i => (layer * g.batch + request) * g.h + i) (programWalk g T m request (layer * g.batch + request)).tags a
  have hstored : (program g T host request layer m).tags a = storeLanes m.tags g.blockH (fun i => decide (i < g.h))
    (fun i => (layer * g.batch + request) * g.h + i) (programWalk g T m request (layer * g.batch + request)).tags a := rfl
  rw [hstored]
  obtain heq | ⟨l, heq⟩ := hcases
  · rw [heq]
    exact htags a h0 hlt
  · rw [heq]
    refine walk_tags (h.loaded htags) (fun i hi => ?_) l
    obtain ⟨-, j, hmiss, hj⟩ := programSelect_worklist hi
    have hv : valid g T request j = true := by
      simp only [isMiss, Bool.and_eq_true] at hmiss
      exact hmiss.1
    rw [hj, ← token_eq g T request (lt_of_isMiss g T request hmiss)]
    exact (h.token_of_valid hv).2.2

lemma launchAccesses_inside (host : Buffer V) {order : List (ℤ × ℤ)} (htags : TagsWithin g n m)
    (hhot : g.h ≤ g.hotPages * g.page)
    (horder : ∀ rl ∈ order, 0 ≤ rl.2 ∧ Ready g T n size rl.1 (rl.2 * g.batch + rl.1)) :
    ∀ acc ∈ launchAccesses g T host order m, Inside size acc := by
  induction order generalizing m with
  | nil => exact fun acc hacc => absurd hacc not_mem_nil
  | cons rl order ih =>
    obtain ⟨hlayer, hready⟩ := horder rl mem_cons_self
    intro acc hacc
    obtain hacc | hacc := mem_append.mp hacc
    · exact programAccesses_inside hready hlayer htags hhot acc hacc
    · exact ih (program_tagsWithin host hready htags) (fun rl' hrl' => horder rl' (mem_cons_of_mem _ hrl')) acc hacc

end

/-! ## Accesses that every program makes -/

section

variable {request layer : ℤ} {m : Mem V}

lemma state32_wrap (request layer : ℤ) : state32 g request layer = int32 (layer * g.batch + request) := by
  unfold state32 int32
  rw [Int.bmod_add_bmod]

lemma chunk_position {j k w : ℕ} (hj : j < k) (hw : 0 < w) :
    j / w < (k + w - 1) / w ∧ j % w < w ∧ j / w * w + j % w = j :=
  ⟨Blocks.div_lt_blocks hw hj, Nat.mod_lt _ hw, Nat.div_add_mod' j w⟩

variable {st : ℤ}

lemma mem_clearAccesses {w : ℕ} (hw : w < g.words) : (.bitmap, int32 (st * g.words) + w) ∈ clearAccesses g st := by
  obtain ⟨hc, hl, heq⟩ := chunk_position hw (show 0 < 1024 by decide)
  simp only [clearAccesses, mem_flatMap, mem_range, mem_touch, decide_eq_true_eq]
  refine ⟨w / 1024, hc, w % 1024, hl, by omega, ?_⟩
  rw [add_assoc, ← Nat.cast_add, heq]

lemma mem_copyAccesses {j : ℕ} (hj : j < g.k) (missCount : ℕ) :
    (.fill, int32 (int32 (int32 (st * g.k) + j) * 2)) ∈ copyAccesses g st missCount := by
  obtain ⟨hc, hl, heq⟩ := chunk_position hj g.fillChunk_pos
  simp only [copyAccesses, mem_flatMap, mem_range, mem_append, mem_touch, Bool.and_eq_true, decide_eq_true_eq]
  refine ⟨j / g.fillChunk, hc, j % g.fillChunk, hl, ?_⟩
  rw [heq]
  by_cases hlive : j < missCount
  · exact .inl (.inl (.inl ⟨hlive, rfl⟩))
  · exact .inl (.inr ⟨⟨Nat.not_lt.mp hlive, hj⟩, rfl⟩)

lemma mem_storeAccesses {i : ℕ} (hi : i < g.h) :
    (.tagGenerations, int32 (st * g.h) + i) ∈ storeAccesses g st ∧ (.ages, int32 (st * g.h) + i) ∈ storeAccesses g st := by
  have hblock : i < g.blockH := hi.trans_le g.h_le_blockH
  simp only [storeAccesses, mem_append, mem_flatMap, mem_range, mem_touch, decide_eq_true_eq]
  exact ⟨.inl ⟨i, hblock, .inl (.inr ⟨hi, rfl⟩)⟩, .inl ⟨i, hblock, .inr ⟨hi, rfl⟩⟩⟩

/-- **What every program touches**: its clock, counters and errors, its words, its fills and its rows of the hot tier. -/
theorem mem_programAccesses {acc : Access}
    (h : acc ∈ clearAccesses g (state32 g request layer) ∨ acc ∈ storeAccesses g (state32 g request layer) ∨
      ∀ missCount, acc ∈ copyAccesses g (state32 g request layer) missCount) :
    acc ∈ programAccesses g T request layer m := by
  simp only [programAccesses, mem_append]
  obtain h | h | h := h
  · exact .inl (.inl (.inl (.inl (.inl (.inl (.inr h))))))
  · exact .inl (.inr h)
  · exact .inr (h _)

/-! ### A launch that stays inside -/

/-- The products of the states do not wrap, and the tensors that only the state indexes are large enough. -/
structure Needs (g : Geometry) (n : ℕ) (size : Tensor → ℕ) : Prop where
  fits : Fits32 g n
  errors : n ≤ size .errors
  clock : n ≤ size .clock
  tagGenerations : n * g.h ≤ size .tagGenerations
  ages : n * g.h ≤ size .ages

variable {layers s : ℕ} (hinside : ∀ request < g.batch, ∀ layer < layers, ∀ acc ∈ programAccesses g T request layer m,
  Inside size acc)
include hinside

lemma inside_state (hs : s < layers * g.batch) {acc : Access} (hacc : acc ∈ clearAccesses g (int32 s) ∨
    acc ∈ storeAccesses g (int32 s) ∨ ∀ missCount, acc ∈ copyAccesses g (int32 s) missCount) : Inside size acc := by
  have hbatch : 0 < g.batch := pos_of_ne_zero fun hzero => by
    rw [hzero, Nat.mul_zero] at hs
    exact Nat.not_lt_zero _ hs
  have hlayer : s / g.batch < layers := Nat.div_lt_of_lt_mul (by rwa [mul_comm])
  have heq : ((s / g.batch : ℕ) : ℤ) * g.batch + (s % g.batch : ℕ) = s := by
    rw [← Nat.cast_mul, ← Nat.cast_add, mul_comm, Nat.div_add_mod]
  refine hinside (s % g.batch) (Nat.mod_lt _ hbatch) _ hlayer acc (mem_programAccesses ?_)
  rw [state32_wrap, heq]
  exact hacc

/-- The number of state `2 ^ 31` is negative. -/
lemma states_le : layers * g.batch ≤ 2 ^ 31 := by
  by_contra hlt
  have hmem : (.errors, int32 (2 ^ 31 : ℕ)) ∈ storeAccesses g (int32 (2 ^ 31 : ℕ)) := by simp [storeAccesses]
  have hin := inside_state hinside (s := 2 ^ 31) (by omega) (.inr (.inl hmem))
  exact absurd hin.1 (by decide)

lemma int32_state (hs : s < layers * g.batch) : int32 (s : ℤ) = s := by
  have hstates := states_le hinside
  exact int32_of_lt (by positivity) (by omega)

lemma inside_store (hs : s < layers * g.batch) {acc : Access} (hacc : acc ∈ storeAccesses g (s : ℤ)) :
    Inside size acc :=
  inside_state hinside hs (.inr (.inl (by rwa [int32_state hinside hs])))

lemma states_le_size {t : Tensor} (hmem : ∀ s : ℤ, (t, s) ∈ storeAccesses g s) : layers * g.batch ≤ size t := by
  obtain hzero | hpos := eq_zero_or_pos (layers * g.batch)
  · omega
  · have hin := (inside_store hinside (s := layers * g.batch - 1) (by omega) (hmem _)).2
    dsimp only at hin
    omega

lemma tier_reaches (hh : g.h < 2 ^ 31) : Reaches (layers * g.batch) g.h := by
  refine reaches_of_nonneg hh fun s hs => ?_
  simpa [Inside] using (inside_store hinside hs (mem_storeAccesses g.h_pos).1).1

lemma tier_le_size {t : Tensor} (hh : g.h < 2 ^ 31)
    (hmem : ∀ s : ℤ, ∀ i < g.h, (t, int32 (s * g.h) + (i : ℕ)) ∈ storeAccesses g s) : layers * g.batch * g.h ≤ size t := by
  obtain hzero | hpos := eq_zero_or_pos (layers * g.batch)
  · rw [hzero, Nat.zero_mul]
    exact Nat.zero_le _
  -- the last lane of the last state
  have hlane := g.h_pos
  have hin := (inside_store hinside (s := layers * g.batch - 1) (by omega) (hmem _ (g.h - 1) (by omega))).2
  have hst : 0 ≤ ((layers * g.batch - 1 : ℕ) : ℤ) ∧ ((layers * g.batch - 1 : ℕ) : ℤ) < (layers * g.batch : ℕ) := by
    omega
  dsimp only at hin
  rw [Reaches.int32_mul (tier_reaches hinside hh) hst, ← Nat.cast_mul, ← Nat.cast_add] at hin
  have hrow : (layers * g.batch - 1) * g.h + (g.h - 1) + 1 = layers * g.batch * g.h := by
    obtain ⟨r, hr⟩ := Nat.exists_eq_add_of_le' hpos
    rw [hr, Nat.add_sub_cancel, Nat.add_one_mul]
    omega
  omega

/-- The fill at position `2 ^ 30` has a negative place. -/
lemma fills_le : layers * g.batch * g.k ≤ 2 ^ 30 := by
  by_contra hlt
  have hk : 0 < g.k := pos_of_ne_zero fun hzero => by
    rw [hzero, Nat.mul_zero] at hlt
    exact hlt (Nat.zero_le _)
  have hs : 2 ^ 30 / g.k < layers * g.batch := Nat.div_lt_of_lt_mul (by rw [mul_comm]; omega)
  have hin := inside_state hinside hs (.inr (.inr fun missCount => mem_copyAccesses (Nat.mod_lt (2 ^ 30) hk) missCount))
  have hwrap : int32 (int32 (int32 (int32 ((2 ^ 30 / g.k : ℕ) : ℤ) * g.k) + (2 ^ 30 % g.k : ℕ)) * 2) = int32 (2 ^ 31) := by
    rw [int32_state hinside hs]
    unfold int32
    rw [Int.bmod_add_bmod, Int.bmod_mul_bmod, ← Nat.cast_mul, ← Nat.cast_add, Nat.mul_comm, Nat.div_add_mod]
    rfl
  rw [hwrap] at hin
  exact absurd hin.1 (by decide)

lemma needs_of_inside (hh : g.h < 2 ^ 31) (hwords : g.words < 2 ^ 31) : Needs g (layers * g.batch) size := by
  refine ⟨⟨states_le hinside, ?_, fills_le hinside, tier_reaches hinside hh, ?_⟩, ?_, ?_, ?_, ?_⟩
  · refine reaches_of_nonneg (by decide) fun s hs => ?_
    have hmem : (.counters, int32 ((s : ℤ) * 3)) ∈ storeAccesses g (s : ℤ) := by simp [storeAccesses]
    simpa using (inside_store hinside hs hmem).1
  · obtain hzero | hpos := eq_zero_or_pos g.words
    · intro s _
      rw [hzero, Nat.mul_zero]
      decide
    · refine reaches_of_nonneg hwords fun s hs => ?_
      have hin := inside_state hinside hs (.inl (mem_clearAccesses hpos))
      rw [int32_state hinside hs] at hin
      simpa [Inside] using hin.1
  · exact states_le_size hinside fun s => by simp [storeAccesses]
  · exact states_le_size hinside fun s => by simp [storeAccesses]
  · exact tier_le_size hinside hh fun s i hi => (mem_storeAccesses hi).1
  · exact tier_le_size hinside hh fun s i hi => (mem_storeAccesses hi).2

end

/-! ## A launch that reaches its tables -/

section

variable {V : Type} [Inhabited V] {g : Geometry} {size : Tensor → ℕ} {request : ℤ}

/-- Every selection is token 0, which is not resident. -/
def missTables (g : Geometry) : Tables where
  resident := fun _ => -1
  backing := fun _ => 0
  generations := fun _ => 0
  lengths := fun _ => (g.pages * g.page : ℕ)
  hotSlots := fun _ => 0
  selected := fun _ => 0
  fence := fun _ => 0
  expected := fun _ => 0

/-- The hot tier holds one tag everywhere. -/
def tierOf (tag : ℤ) : Mem V where
  kv := fun _ => default
  fill := fun _ => 0
  tags := fun _ => tag
  tagGenerations := fun _ => 0
  ages := fun _ => 0
  clock := fun _ => 0
  output := fun _ => 0
  counters := fun _ => 0
  errors := fun _ => 0
  bitmap := fun _ => 0
  worklist := fun _ => 0

lemma mem_generations : (.generations, int32 (request * g.pages)) ∈
    programAccesses g (missTables g) request 0 (tierOf 0 : Mem V) := by
  have htag : (loadWalk g (missTables g) request (0 * g.batch + request) (tierOf 0 : Mem V)
      (programSelect g (missTables g) (tierOf 0 : Mem V) request (0 * g.batch + request))).tags 0 = 0 := if_pos g.h_pos
  have hblock : 0 < g.blockH := g.h_pos.trans_le g.h_le_blockH
  simp only [programAccesses, tierAccesses, mem_append, mem_flatMap, mem_range, mem_touch]
  refine .inl (.inl (.inl (.inl (.inr ⟨0, hblock, .inl (.inr ⟨?_, ?_⟩)⟩))))
  · rw [htag]
    simpa using g.h_pos
  · rw [htag]
    simp

/-- A tier that holds token 0 everywhere is hit in lane 0. -/
lemma claim_first {w : Walk} (htags : ∀ i < g.h, w.tags i = 0) (hgen : ∀ i < g.h, w.tagGenerations i = 0) :
    claimSlot g w 0 0 = (0, true) := by
  have hblock : 0 < g.blockH := g.h_pos.trans_le g.h_le_blockH
  have hslot : vecMin (fun i => if i < g.h && w.tags i == 0 && w.tagGenerations i == 0 then i else g.blockH) g.blockH =
      0 := by
    refine vecMin_eq (fun i _ => Nat.zero_le _) ⟨0, hblock, ?_⟩
    rw [htags 0 g.h_pos, hgen 0 g.h_pos]
    simp [g.h_pos]
  simp only [claimSlot, hslot, if_pos g.h_pos]

/-- A turn of the walk that hits lane 0 looks up its slot. -/
lemma mem_walkAccesses {st mi : ℤ} {w : Walk} {i : ℕ} (htags : ∀ i < g.h, w.tags i = 0)
    (hgen : ∀ i < g.h, w.tagGenerations i = 0) :
    (.hotSlots, int32 (request * g.hotPages)) ∈ walkAccesses g (missTables g) request st w i mi := by
  have hselected (a : ℤ) : (missTables g).selected a = 0 := rfl
  have hgenerations (a : ℤ) : (missTables g).generations a = 0 := rfl
  simp only [walkAccesses, hselected, hgenerations, claim_first htags hgen, mem_append, mem_touch]
  refine .inl (.inl (.inl (.inl (.inr ⟨?_, ?_⟩))))
  · exact decide_eq_true g.h_pos
  · rw [Nat.zero_div, Nat.cast_zero, add_zero]

/-- Where a selection misses, the slot of lane 0 is looked up. -/
lemma mem_hotSlots (hk : 0 < g.k) (hpages : 0 < g.pages) : (.hotSlots, int32 (request * g.hotPages)) ∈
    programAccesses g (missTables g) request 0 (tierOf 0 : Mem V) := by
  have htoken : token g (missTables g) request 0 = 0 := if_pos hk
  have hvalid : valid g (missTables g) request 0 = true := by
    have hlength : (0 : ℤ) < (g.pages * g.page : ℕ) := by exact_mod_cast mul_pos hpages g.page_pos
    rw [valid, htoken]
    simpa [missTables, hk] using hlength
  have hresident : residentPage g (missTables g) request 0 = -1 := if_pos hvalid
  have hmiss : isMiss g (missTables g) request 0 = true := by simp [isMiss, isRes, hvalid, hresident]
  have hcount : 0 < (programSelect g (missTables g) (tierOf 0 : Mem V) request (0 * g.batch + request)).workcnt := by
    rw [(programSelect_spec g _ (tierOf 0 : Mem V) request _).workcnt]
    exact length_pos_of_mem (mem_filter.mpr ⟨mem_range.mpr hk, hmiss⟩)
  simp only [programAccesses, mem_append, mem_flatMap, mem_range]
  exact .inl (.inl (.inr ⟨0, hcount, mem_walkAccesses (fun i hi => if_pos hi) fun i hi => if_pos hi⟩))

lemma tables_of_inside (hpages : 0 < g.pages) (hsmall : g.pages < 2 ^ 31) (hhot : g.hotPages < 2 ^ 31)
    (hinside : ∀ request < g.batch, ∀ acc ∈ programAccesses g (missTables g) request 0 (tierOf 0 : Mem V),
      Inside size acc) : TablesFit g where
  pages := by
    refine reaches_of_nonneg hsmall fun s hs => ?_
    have hin := hinside s hs _ mem_generations
    simpa only [Inside] using hin.1
  hotPages := by
    intro hk _
    refine reaches_of_nonneg hhot fun s hs => ?_
    have hin := hinside s hs _ (mem_hotSlots hk hpages)
    simpa only [Inside] using hin.1

end

end VKernels.Dsa
