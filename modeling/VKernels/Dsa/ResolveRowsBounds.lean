import VKernels.Comm.Host
import VKernels.Dsa.ResolveRowsAccess

/-!
# The bounds of the resolver

`dsa_resolve_rows` and `dsa_resolve_rows_batched`: what they check of their tensors, what they allocate, and whether the
launch stays inside.

* `Args.Bounded` — whatever the tensors hold, every access of the launch is inside its tensor, in every order of the
  programs.

## Results

* `covers_of_resolve` — the shapes that the checks promise.
* `resolver_bounds` — a launch is bounded exactly where it fits.
* `second_layer_outside` — two layers at the entry for one.
-/

namespace VKernels.Dsa

open VKernels.VectorLanes
open LaneLaunch (Reaches)
open List hiding lt_of_le_of_lt

/-! ## Tensors and checks -/

inductive Dtype where
  | float16
  | bfloat16
  | float32
  | int32
  | int64
  | other
  deriving DecidableEq, Repr

/-- What the entry points look at of a tensor.  `device` is `none` on the CPU. -/
structure TensorInfo where
  shape : List ℕ
  dtype : Dtype
  device : Option ℕ
  contiguous : Bool
  pinned : Bool

namespace TensorInfo

def dim (t : TensorInfo) : ℕ := t.shape.length

def size (t : TensorInfo) (i : ℕ) : ℕ := t.shape.getD i 0

def numel (t : TensorInfo) : ℕ := t.shape.prod

end TensorInfo

/-- The arguments of an entry point. -/
structure Args where
  kv : TensorInfo
  host : TensorInfo
  resident : TensorInfo
  backing : TensorInfo
  generations : TensorInfo
  lengths : TensorInfo
  hotSlots : TensorInfo
  selected : TensorInfo
  tags : TensorInfo
  tagGenerations : TensorInfo
  ages : TensorInfo
  clock : TensorInfo
  pageTokens : ℕ
  allowPadding : Bool
  fence : Bool
  blockK : ℕ
  fillChunk : ℕ

/-- `_req`. -/
def req (cond : Prop) [Decidable cond] (msg : String) : Except String Unit := if cond then .ok () else .error msg

/-- A contiguous int64 tensor on the device, of so many dimensions. -/
def TensorInfo.Int64On (t : TensorInfo) (dev : Option ℕ) (nd : ℕ) : Prop :=
  t.device.isSome ∧ t.device = dev ∧ t.dtype = .int64 ∧ t.contiguous = true ∧ t.dim = nd

instance (t : TensorInfo) (dev : Option ℕ) (nd : ℕ) : Decidable (t.Int64On dev nd) := inferInstanceAs (Decidable (_ ∧ _))

def reqTable (dev : Option ℕ) (name : String) (t : TensorInfo) : Except String Unit :=
  req (t.Int64On dev 2) ("dsa_resolve_rows contract: " ++ name ++ " must be contiguous CUDA int64")

def reqState (dev : Option ℕ) (name : String) (t : TensorInfo) : Except String Unit :=
  req (t.Int64On dev 3)
    ("dss_resolve_rows contract: " ++ name ++ " must be contiguous CUDA int64 [layers, batch, hot_rows]")

/-- `_validate_common`. -/
def validateCommon (a : Args) (selected : TensorInfo) : Except String Unit := do
  req (a.kv.device.isSome ∧ a.kv.contiguous = true ∧ a.kv.dim = 3)
    "dsa_resolve_rows contract: contiguous CUDA kv [layers, rows, width]"
  req (a.host.device.isNone ∧ a.host.pinned = true ∧ a.host.contiguous = true ∧ a.host.dim = 3)
    "dsa_resolve_rows contract: contiguous PINNED CPU host [layers, host_rows, width]"
  req (a.host.size 0 = a.kv.size 0 ∧ a.host.size 2 = a.kv.size 2)
    "dsa_resolve_rows contract: host/KV layer and width must match"
  req (a.host.dtype = a.kv.dtype ∧ a.kv.dtype ∈ [Dtype.float16, Dtype.bfloat16, Dtype.float32])
    "dsa_resolve_rows contract: matching fp16/bf16/fp32 kv+host dtype"
  let dev := a.kv.device
  reqTable dev "resident" a.resident
  reqTable dev "backing" a.backing
  reqTable dev "generations" a.generations
  reqTable dev "hot_slots" a.hotSlots
  req (a.resident.shape = a.backing.shape ∧ a.backing.shape = a.generations.shape)
    "dsa_resolve_rows contract: resident/backing/generations shapes must match"
  req (a.lengths.device.isSome ∧ a.lengths.device = dev ∧ a.lengths.dtype = .int64 ∧
      a.lengths.shape = [a.resident.size 0])
    "dsa_resolve_rows contract: lengths must be CUDA int64 [batch]"
  req (a.hotSlots.size 0 = a.resident.size 0) "dsa_resolve_rows contract: hot_slots batch must match"
  reqState dev "tags" a.tags
  reqState dev "tag_generations" a.tagGenerations
  reqState dev "ages" a.ages
  req (a.clock.Int64On dev 2) "dsa_resolve_rows contract: clock must be contiguous CUDA int64 [layers, batch]"
  req (selected.Int64On dev 2) "dsa_resolve_rows contract: selected must be contiguous CUDA int64 [batch, topk]"
  req (selected.size 0 = a.resident.size 0) "dsa_resolve_rows contract: selected batch must match tables"
  req (a.tags.size 0 = a.kv.size 0 ∧ a.tags.size 1 = a.resident.size 0)
    "dsa_resolve_rows contract: tag state layers/batch must match kv/tables"

namespace Args

def layers (a : Args) : ℕ := a.kv.size 0

def gpuRows (a : Args) : ℕ := a.kv.size 1

def width (a : Args) : ℕ := a.kv.size 2

def batch (a : Args) : ℕ := a.resident.size 0

def pages (a : Args) : ℕ := a.resident.size 1

def hotRows (a : Args) : ℕ := a.tags.shape.getLastD 0

def hotPages (a : Args) : ℕ := a.hotSlots.size 1

def k (a : Args) : ℕ := a.selected.shape.getLastD 0

def words (a : Args) : ℕ := (a.pages * a.pageTokens + 31) / 32

/-- The shapes of the tensors of a launch; those that are allocated begin with `lead`. -/
def shapes (a : Args) (lead : List ℕ) : Tensor → List ℕ
  | .lengths => a.lengths.shape
  | .selected => a.selected.shape
  | .resident => a.resident.shape
  | .generations => a.generations.shape
  | .backing => a.backing.shape
  | .hotSlots => a.hotSlots.shape
  | .tags => a.tags.shape
  | .tagGenerations => a.tagGenerations.shape
  | .ages => a.ages.shape
  | .clock => a.clock.shape
  | .output => lead ++ [a.batch, a.k]
  | .counters => lead ++ [a.batch, 3]
  | .errors => lead ++ [a.batch]
  | .fill => lead ++ [a.batch, a.k, 2]
  | .bitmap => lead ++ [a.batch, a.words]
  | .worklist => lead ++ [a.batch, a.k]

end Args

/-- The two entry points. -/
inductive Entry where
  /-- `dsa_resolve_rows`. -/
  | layer
  /-- `dsa_resolve_rows_batched`. -/
  | batched
  deriving DecidableEq

/-- What an entry point launches with, where it accepts its arguments.  A cached buffer of another shape is not used. -/
def Entry.resolve (e : Entry) (a : Args) : Except String (Tensor → List ℕ) :=
  match e with
  | .layer => do
    validateCommon a a.selected
    return a.shapes []
  | .batched =>
    match a.selected.shape with
    | [] => .error "IndexError"
    | 0 :: _ => .error "IndexError"
    | (_ + 1) :: rest => do
      validateCommon a { a.selected with shape := rest }
      return a.shapes [a.layers]

/-! ## The launch -/

namespace Args

/-- The launch is made: lanes and tiles of at most `2 ^ 20` elements, constants that fit the 32-bit values they are
combined with, and a grid that the device takes. -/
structure Compiles (a : Args) : Prop where
  layers : a.layers < 2 ^ 16
  page : 0 < a.pageTokens
  hotRows : 0 < a.hotRows ∧ a.hotRows ≤ 2 ^ 20
  blockK : 0 < a.blockK ∧ a.blockK = 2 ^ Nat.log2 a.blockK ∧ a.blockK ≤ 2 ^ 20
  fillChunk : 0 < a.fillChunk ∧ a.fillChunk = 2 ^ Nat.log2 a.fillChunk ∧ a.fillChunk * nextPowerOf2 a.width ≤ 2 ^ 20
  width : 0 < a.width
  constants : ∀ c ∈ [a.pageTokens, a.gpuRows, a.host.size 1, a.pages, a.batch, a.k, a.hotPages, a.words], c < 2 ^ 31

/-- The constants of the launch. -/
def geometry (a : Args) (h : a.Compiles) : Geometry where
  page := a.pageTokens
  width := a.width
  gpuRows := a.gpuRows
  hostRows := a.host.size 1
  pages := a.pages
  batch := a.batch
  k := a.k
  h := a.hotRows
  hotPages := a.hotPages
  blockK := a.blockK
  fillChunk := a.fillChunk
  allowPadding := a.allowPadding
  hasFence := a.fence
  page_pos := h.page
  h_pos := h.hotRows.1
  blockK_pos := h.blockK.1
  fillChunk_pos := h.fillChunk.1

/-- `(batch, layers)`. -/
def grid (a : Args) : List (ℤ × ℤ) :=
  (range a.batch).flatMap fun request => (range a.layers).map fun layer => ((request : ℤ), (layer : ℤ))

variable (V : Type) (a : Args)

def Bounded (shape : Tensor → List ℕ) : Prop :=
  ∀ (h : a.Compiles) (T : Tables) (host : Buffer V) (m : Mem V),
    (∀ request < a.batch, T.lengths request ≤ (a.pages * a.pageTokens : ℕ)) →
    (∀ i < a.layers * a.batch * a.hotRows, m.tags i < (a.pages * a.pageTokens : ℕ)) →
    ∀ order, order.Perm a.grid →
      ∀ acc ∈ launchAccesses (a.geometry h) T host order m, Inside (fun t => (shape t).prod) acc

/-- What the checks leave out. -/
structure Fits (e : Entry) : Prop where
  states : a.layers * a.batch ≤ 2 ^ 31
  counters : Reaches (a.layers * a.batch) 3
  fills : a.layers * a.batch * a.k ≤ 2 ^ 30
  tier : Reaches (a.layers * a.batch) a.hotRows
  words : Reaches (a.layers * a.batch) a.words
  pages : 0 < a.layers → Reaches a.batch a.pages
  hotPages : 0 < a.layers → 0 < a.k → 0 < a.pages → Reaches a.batch a.hotPages
  clock : a.layers * a.batch ≤ a.clock.numel
  tagGenerations : a.layers * a.batch * a.hotRows ≤ a.tagGenerations.numel
  ages : a.layers * a.batch * a.hotRows ≤ a.ages.numel
  oneLayer : e = .layer → a.layers ≤ 1 ∨ a.batch = 0

end Args

/-! ## What the checks promise -/

lemma req_bind_ok {cond : Prop} [Decidable cond] {msg : String} {B : Type} {k : Unit → Except String B} {b : B} :
    (req cond msg >>= k) = .ok b ↔ cond ∧ k () = .ok b := by
  unfold req
  by_cases h : cond <;> simp [h, bind, Except.bind]

lemma req_ok {cond : Prop} [Decidable cond] {msg : String} : req cond msg = .ok () ↔ cond := by
  unfold req
  by_cases h : cond <;> simp [h]

lemma TensorInfo.shape_two {t : TensorInfo} (h : t.dim = 2) : t.shape = [t.size 0, t.size 1] := by
  obtain ⟨x, y, hxy⟩ := length_eq_two.mp h
  simp [TensorInfo.size, hxy]

lemma TensorInfo.shape_three {t : TensorInfo} (h : t.dim = 3) : t.shape = [t.size 0, t.size 1, t.shape.getLastD 0] := by
  obtain ⟨x, y, z, hxyz⟩ := length_eq_three.mp h
  simp [TensorInfo.size, hxyz]

structure Checked (a : Args) (selected : TensorInfo) : Prop where
  lengths : a.lengths.shape = [a.batch]
  resident : a.resident.shape = [a.batch, a.pages]
  backing : a.backing.shape = [a.batch, a.pages]
  generations : a.generations.shape = [a.batch, a.pages]
  hotSlots : a.hotSlots.shape = [a.batch, a.hotPages]
  selected : selected.shape = [a.batch, selected.size 1]
  tags : a.tags.shape = [a.layers, a.batch, a.hotRows]

lemma checked_of_validate {a : Args} {selected : TensorInfo} (h : validateCommon a selected = .ok ()) :
    Checked a selected := by
  unfold validateCommon reqTable reqState at h
  simp only [req_bind_ok, req_ok] at h
  obtain ⟨-, -, -, -, hresident, -, -, hhotSlots, ⟨hbacking, hgenerations⟩, ⟨-, -, -, hlengths⟩, hhotBatch, htags, -, -,
    -, hselected, hselectedBatch, htagLayers, htagBatch⟩ := h
  have hresident := TensorInfo.shape_two hresident.2.2.2.2
  have hhotSlots := TensorInfo.shape_two hhotSlots.2.2.2.2
  have hselected := TensorInfo.shape_two hselected.2.2.2.2
  have htags := TensorInfo.shape_three htags.2.2.2.2
  rw [hhotBatch] at hhotSlots
  rw [hselectedBatch] at hselected
  rw [htagLayers, htagBatch] at htags
  exact ⟨hlengths, hresident, hbacking ▸ hresident, hgenerations ▸ hbacking ▸ hresident, hhotSlots, hselected, htags⟩

namespace Args

variable {a : Args} {e : Entry} {shape : Tensor → List ℕ}

lemma resolve_ok (h : e.resolve a = .ok shape) : ∃ selected lead, Checked a selected ∧ shape = a.shapes lead ∧
    a.batch * a.k ≤ a.selected.numel ∧ (e = .layer ∧ lead = [] ∨ e = .batched ∧ lead = [a.layers]) := by
  cases e with
  | layer =>
    obtain ⟨u, hvalid, h⟩ := Comm.bind_ok.mp h
    obtain rfl := Except.ok.inj h
    have hchecked := checked_of_validate hvalid
    refine ⟨a.selected, [], hchecked, rfl, ?_, .inl ⟨rfl, rfl⟩⟩
    rw [k, TensorInfo.numel, hchecked.selected]
    simp
  | batched =>
    simp only [Entry.resolve] at h
    split at h
    · cases h
    · cases h
    · rename_i layers _ hshape
      obtain ⟨u, hvalid, h⟩ := Comm.bind_ok.mp h
      obtain rfl := Except.ok.inj h
      have hchecked := checked_of_validate hvalid
      refine ⟨_, [a.layers], hchecked, rfl, ?_, .inr ⟨rfl, rfl⟩⟩
      have hrest := hchecked.selected
      dsimp only at hrest
      rw [k, TensorInfo.numel, hshape, hrest]
      simp only [getLastD_cons, getLastD_nil, prod_cons, prod_nil, mul_one]
      exact Nat.le_mul_of_pos_left _ (Nat.succ_pos layers)

/-- **The tensors of an accepted call** that fits are as large as its grid needs. -/
theorem covers_of_resolve (h : e.resolve a = .ok shape) (hcompiles : a.Compiles) (hfits : a.Fits e) :
    SizesCover (a.geometry hcompiles) (a.layers * a.batch) fun t => (shape t).prod := by
  obtain ⟨_, lead, hchecked, rfl, hselected, hlead⟩ := resolve_ok h
  have hrows (c : ℕ) : a.layers * a.batch * c ≤ (lead ++ [a.batch, c]).prod := by
    obtain ⟨he, rfl⟩ | ⟨-, rfl⟩ := hlead
    · obtain hone | hzero := hfits.oneLayer he
      · simpa using Nat.mul_le_mul_right c (Nat.mul_le_mul_right a.batch hone)
      · simp [hzero]
    · simp [mul_assoc]
  have hone := hrows 1
  have hfills := hrows (a.k * 2)
  have htags : a.layers * a.batch * a.hotRows ≤ a.tags.shape.prod := by
    rw [hchecked.tags]
    simp [mul_assoc]
  constructor
  · simp [shapes, hchecked.lengths, geometry]
  · exact hselected
  · simp [shapes, hchecked.resident, geometry]
  · simp [shapes, hchecked.generations, geometry]
  · simp [shapes, hchecked.backing, geometry]
  · simp [shapes, hchecked.hotSlots, geometry]
  · exact htags
  · exact hfits.tagGenerations
  · exact hfits.ages
  · exact hfits.clock
  · exact hrows a.k
  · exact hrows 3
  · simpa [shapes] using hone
  · simpa [shapes, geometry, mul_assoc] using hfills
  · exact hrows a.words
  · exact hrows a.k

lemma mem_grid {rl : ℤ × ℤ} : rl ∈ a.grid ↔ ∃ request < a.batch, ∃ layer < a.layers, rl = ((request : ℤ), (layer : ℤ)) := by
  simp [grid, eq_comm]

variable {V : Type}

lemma bounded_of_fits (haccepted : e.resolve a = .ok shape) (hhot : a.hotRows ≤ a.hotPages * a.pageTokens)
    (hfits : a.Fits e) : a.Bounded V shape := by
  intro hcompiles T host m hlengths htags _ horder
  have hcovers := covers_of_resolve haccepted hcompiles hfits
  have htagsWithin : TagsWithin (a.geometry hcompiles) (a.layers * a.batch) m := by
    intro i h0 hlt
    obtain ⟨i, rfl⟩ := Int.eq_ofNat_of_zero_le h0
    exact htags i (by exact_mod_cast hlt)
  refine launchAccesses_inside host htagsWithin hhot fun rl hrl => ?_
  rw [horder.mem_iff, mem_grid] at hrl
  obtain ⟨request, hrequest, layer, hlayer, rfl⟩ := hrl
  have hlayers : 0 < a.layers := Nat.zero_lt_of_lt hlayer
  have hstate : layer * a.batch + request < a.layers * a.batch := Blocks.block_lt hlayer hrequest
  have hbatch : a.batch ≤ a.layers * a.batch := Nat.le_mul_of_pos_left _ hlayers
  have hinBatch : (request : ℤ) < a.batch := by exact_mod_cast hrequest
  have hinStates : (layer : ℤ) * a.batch + request < (a.layers * a.batch : ℕ) := by exact_mod_cast hstate
  exact ⟨by positivity, ⟨⟨hfits.states, hfits.counters, hfits.fills, hfits.tier, hfits.words⟩,
    ⟨hfits.pages hlayers, hfits.hotPages hlayers⟩, hcovers, hbatch, ⟨by positivity, hinBatch⟩,
    ⟨by positivity, hinStates⟩, hlengths request hrequest⟩⟩

lemma Bounded.program (hbounded : a.Bounded V shape) (hcompiles : a.Compiles) {T : Tables} {m : Mem V}
    (hlengths : ∀ request < a.batch, T.lengths request ≤ (a.pages * a.pageTokens : ℕ))
    (htags : ∀ i < a.layers * a.batch * a.hotRows, m.tags i < (a.pages * a.pageTokens : ℕ))
    {request layer : ℕ} (hrequest : request < a.batch) (hlayer : layer < a.layers) :
    ∀ acc ∈ programAccesses (a.geometry hcompiles) T request layer m, Inside (fun t => (shape t).prod) acc := by
  have hmem : ((request : ℤ), (layer : ℤ)) ∈ a.grid := mem_grid.mpr ⟨request, hrequest, layer, hlayer, rfl⟩
  have hperm := (perm_cons_erase hmem).symm
  exact fun acc hacc => hbounded hcompiles T m.kv m hlengths htags _ hperm acc (mem_append_left _ hacc)

lemma fits_of_bounded [Inhabited V] (haccepted : e.resolve a = .ok shape) (hcompiles : a.Compiles)
    (hbounded : a.Bounded V shape) : a.Fits e := by
  obtain ⟨_, lead, -, rfl, -, hlead⟩ := resolve_ok haccepted
  have hlengths : ∀ request < a.batch,
      (missTables (a.geometry hcompiles)).lengths (request : ℕ) ≤ (a.pages * a.pageTokens : ℕ) := fun _ _ => le_rfl
  have hneeds : Needs (a.geometry hcompiles) (a.layers * a.batch) fun t => (a.shapes lead t).prod := by
    -- any tier within the pages will do
    have htags : ∀ i < a.layers * a.batch * a.hotRows, (tierOf (-1) : Mem V).tags (i : ℕ) < (a.pages * a.pageTokens : ℕ) :=
      fun _ _ => (by decide : (-1 : ℤ) < 0).trans_le (Int.natCast_nonneg _)
    refine needs_of_inside (fun request hrequest layer hlayer =>
      hbounded.program hcompiles hlengths htags hrequest hlayer) ?_ (hcompiles.constants a.words (by simp))
    exact lt_of_le_of_lt hcompiles.hotRows.2 (by decide)
  have htables (hlayers : 0 < a.layers) (hpages : 0 < a.pages) : TablesFit (a.geometry hcompiles) := by
    have htags : ∀ i < a.layers * a.batch * a.hotRows, (tierOf 0 : Mem V).tags (i : ℕ) < (a.pages * a.pageTokens : ℕ) :=
      fun _ _ => Int.natCast_pos.mpr (Nat.mul_pos hpages hcompiles.page)
    have hinside : ∀ request < a.batch,
        ∀ acc ∈ programAccesses (a.geometry hcompiles) (missTables (a.geometry hcompiles)) request 0 (tierOf 0 : Mem V),
          Inside (fun t => (a.shapes lead t).prod) acc := by
      intro _ hrequest
      have hprogram := hbounded.program hcompiles hlengths htags hrequest hlayers
      rwa [Nat.cast_zero] at hprogram
    exact tables_of_inside hpages (hcompiles.constants a.pages (by simp)) (hcompiles.constants a.hotPages (by simp))
      hinside
  refine ⟨hneeds.fits.states, hneeds.fits.counters, hneeds.fits.fills, hneeds.fits.tier, hneeds.fits.words,
    fun hlayers => ?_, fun hlayers hk hpages => (htables hlayers hpages).hotPages hk hpages, hneeds.clock,
    hneeds.tagGenerations, hneeds.ages, fun he => ?_⟩
  · obtain hzero | hpages := Nat.eq_zero_or_pos a.pages
    · intro s _
      rw [hzero, Nat.mul_zero]
      decide
    · exact (htables hlayers hpages).pages
  · obtain ⟨-, rfl⟩ | ⟨he', -⟩ := hlead
    · -- one error count for every request: a second layer has none
      have herrors := hneeds.errors
      simp only [shapes, nil_append, prod_cons, prod_nil, Nat.mul_one] at herrors
      by_contra hnot
      have htwo : 2 * a.batch ≤ a.layers * a.batch := Nat.mul_le_mul_right _ (by omega)
      omega
    · rw [he] at he'
      cases he'

/-- **The bounds of an accepted call**, with hot rows within the hot pages: every access is inside, whatever the tensors
hold, exactly where there is no launch or the call fits. -/
theorem resolver_bounds [Inhabited V] (haccepted : e.resolve a = .ok shape)
    (hhot : a.hotRows ≤ a.hotPages * a.pageTokens) : a.Bounded V shape ↔ ¬a.Compiles ∨ a.Fits e := by
  constructor
  · intro hbounded
    by_cases hcompiles : a.Compiles
    · exact .inr (fits_of_bounded haccepted hcompiles hbounded)
    · exact .inl hcompiles
  · rintro (hnot | hfits)
    · exact fun hcompiles => absurd hcompiles hnot
    · exact bounded_of_fits haccepted hhot hfits

/-- One request, one token, one hot row. -/
def single (layers : ℕ) : Args :=
  let table (shape : List ℕ) : TensorInfo := ⟨shape, .int64, some 0, true, false⟩
  { kv := ⟨[layers, 1, 1], .float32, some 0, true, false⟩
    host := ⟨[layers, 1, 1], .float32, none, true, true⟩
    resident := table [1, 1]
    backing := table [1, 1]
    generations := table [1, 1]
    lengths := table [1]
    hotSlots := table [1, 1]
    selected := table [1, 1]
    tags := table [layers, 1, 1]
    tagGenerations := table [layers, 1, 1]
    ages := table [layers, 1, 1]
    clock := table [layers, 1]
    pageTokens := 1
    allowPadding := false
    fence := false
    blockK := 1024
    fillChunk := 32 }

lemma single_compiles : (single 2).Compiles :=
  ⟨by decide, by decide, by decide, by decide, by decide, by decide, by decide⟩

/-- Its bounds with one layer. -/
theorem single_bounded : (single 1).Bounded ℤ ((single 1).shapes []) :=
  (resolver_bounds (show Entry.layer.resolve (single 1) = .ok _ from rfl) (by decide)).mpr
    (.inr ⟨by decide, by decide, by decide, by decide, by decide, fun _ => by decide, fun _ _ _ => by decide, by decide,
      by decide, by decide, fun _ => .inl le_rfl⟩)

/-- **Two layers at the entry for one**: every check holds, and the error count of the second layer is outside. -/
theorem second_layer_outside : Entry.layer.resolve (single 2) = .ok ((single 2).shapes []) ∧
    (single 2).hotRows ≤ (single 2).hotPages * (single 2).pageTokens ∧ ¬(single 2).Bounded ℤ ((single 2).shapes []) := by
  refine ⟨rfl, by decide, fun hbounded => ?_⟩
  have hfits := fits_of_bounded (show Entry.layer.resolve (single 2) = .ok _ from rfl) single_compiles hbounded
  exact absurd (hfits.oneLayer rfl) (by decide)

end Args

end VKernels.Dsa
