import VKernels.Comm.KvPlan

/-!
# Donating indexed KV to peer pages

Model of the host reference `comm/p2p_kv_donate.cpp`.

* `p2pKvDonateLayer` — the fused one-shot; `p2pKvDonateLayerTwostage` — gather to scratch, then a
  copy per page.  `stream = false` is a null stream.
* `P2PKvDonatePlan` — the prepared plan with its three constructors, `execute` and
  `executeViaScratch`.
* `donateCopies` — the copies a donation stands for.

## Results

* `stagedDonatePage_implements` — a page through scratch is the page directly.
* `DonatePath.implements` — on valid arguments every path does what `donateCopies` does, outside
  the staging memory.
* `donateTransfer_visible` — with buffers apart, the copies of a page can be seen; the atomicity
  theorems of `Transfer` then apply to both calls.
-/

namespace VKernels.Comm

open ByteCopies
open List

def fusedDonatePage (pageBase kSrc vSrc : ℕ) (slotIds : ℕ → ℤ) (pageSize slotBytes tokenStride : ℕ) : List Copy :=
  gatherPage pageBase kSrc vSrc slotIds pageSize slotBytes tokenStride

def gatherKvToScratch (scratchPage kSrc vSrc : ℕ) (slotIds : ℕ → ℤ) (pageSize slotBytes tokenStride : ℕ) : List Copy :=
  gatherPage scratchPage kSrc vSrc slotIds pageSize slotBytes tokenStride

/-- The copies of page `p`. -/
def donatePage (a : KvArgs) (p : ℕ) : List Copy :=
  fusedDonatePage (a.pageBase p) a.k a.v (a.pageSlots p) a.pageSize a.slotBytes a.tokenStride

/-- The slot check of the one-shot and of the two-stage call: repeats are allowed. -/
def donateSlots (a : KvArgs) : Except String Unit :=
  expectsAll (a.numPages * a.pageSize) fun i =>
    expects (0 ≤ a.slot i) "slot_ids must be non-negative" "slot_ids[i] >= 0"

/-- The checks and copies of a donate call. -/
def donateTransfer (a : KvArgs) : Transfer where
  geometry := kvGeometry "k_src" "v_src" "peer_dst_ptrs" "dst_page_offsets" a
  slots := donateSlots a
  numPages := a.numPages
  peer := peerCheck "peer_dst_ptrs" a
  page := donatePage a

def p2pKvDonateLayer (a : KvArgs) (stream : Bool) : Call := (donateTransfer a).fused stream

/-- Gather page `p` to scratch, then copy it out. -/
def stagedDonatePage (a : KvArgs) (scratch p : ℕ) : List Copy :=
  gatherKvToScratch scratch a.k a.v (a.pageSlots p) a.pageSize a.slotBytes a.tokenStride ++
    [⟨a.pageBase p, scratch, a.pageBytes⟩]

def p2pKvDonateLayerTwostage (a : KvArgs) (scratch : ℕ) (stream : Bool) : Call :=
  (donateTransfer a).staged (allocate scratch a.pageBytes) (stagedDonatePage a scratch) stream

def donateCopies (a : KvArgs) : List Copy := (donateTransfer a).copies

/-! ## The plan -/

structure P2PKvDonatePlan extends KvPlan where
  layerBytes : ℕ
  scratchBytes : ℕ

namespace P2PKvDonatePlan

/-- The member initialisers. -/
def initialFields (numSlots : ℕ) (a : KvArgs) (slotIds : Arr ℤ) : P2PKvDonatePlan where
  toKvPlan := KvPlan.initialFields numSlots a slotIds
  layerBytes := a.pageSize * tokenStrideBytes a.numKvHeads a.headDim a.elemSize
  scratchBytes := 0

/-- The last statements of the constructors. -/
def ownMetadata (self : P2PKvDonatePlan) (a : KvArgs) : P2PKvDonatePlan where
  toKvPlan := self.toKvPlan.ownPeers a
  layerBytes := self.layerBytes
  scratchBytes := self.numPages * self.layerBytes

def validateShape (self : P2PKvDonatePlan) (peerDstPtrs : Arr ℕ) : Except String Unit :=
  self.toKvPlan.validateShape "peer_dst_ptrs" peerDstPtrs

/-- The slot check of the host-input constructor. -/
def validateSlots (numSlots : ℕ) (a : KvArgs) : Except String Unit :=
  expectsAll (a.numPages * a.pageSize) fun i => do
    expects (0 ≤ a.slot i) "slot_ids must be non-negative" "slot >= 0"
    expects ((a.slot i).toNat < numSlots) "slot_ids must be < num_slots"
      "static_cast<std::size_t>(slot) < num_slots_"

/-- The three constructors.  The device ones validate no slot. -/
def construct (numSlots : ℕ) (a : KvArgs) : PlanSlots → Except String P2PKvDonatePlan
  | .host =>
    let self := initialFields numSlots a a.slotIds
    constructPlan (self.validateShape a.peerPtrs) (validateSlots numSlots a) a.numPages self
      (self.ownMetadata a)
  | .device =>
    let self := initialFields numSlots a a.slotIds
    constructPlan (self.validateShape a.peerPtrs) (.ok ()) a.numPages
      { self with slotIds := none } (self.ownMetadata a)
  | .deviceInt64 =>
    let self := initialFields numSlots a (KvPlan.narrowSlots a)
    constructPlan (self.validateShape a.peerPtrs) (.ok ()) a.numPages self (self.ownMetadata a)

variable (self : P2PKvDonatePlan)

/-- The checks of `execute`. -/
def executeChecks (kSrc vSrc : ℕ) : Except String Unit := do
  expects (self.numPages = 0 ∨ kSrc ≠ 0) "k_src must be non-null"
    "num_pages_ == 0 || k_src != nullptr"
  expects (self.numPages = 0 ∨ vSrc ≠ 0) "v_src must be non-null"
    "num_pages_ == 0 || v_src != nullptr"

def execute (kSrc vSrc destinationLayerOffsetBytes : ℕ) (stream : Bool) : Call := do
  check (self.executeChecks kSrc vSrc)
  if self.numPages = 0 then pure () else
    KvPlan.runOrSubmit ((range self.numPages).flatMap fun p =>
      fusedDonatePage (self.peerBases p + destinationLayerOffsetBytes) kSrc vSrc (self.pageSlots p)
        self.pageSize self.slotBytes self.tokenStride) stream

def executeViaScratch (kSrc vSrc scratch destinationLayerOffsetBytes : ℕ) (stream : Bool) :
    Call := do
  check (self.executeChecks kSrc vSrc)
  check (expects (self.numPages = 0 ∨ scratch ≠ 0) "scratch must be non-null"
    "num_pages_ == 0 || scratch != nullptr")
  if self.numPages = 0 then pure () else
    let spp := self.pageSize * self.tokenStride
    KvPlan.runOrSubmit ((range self.numPages).flatMap fun p =>
      gatherKvToScratch (scratch + p * spp) kSrc vSrc (self.pageSlots p) self.pageSize
        self.slotBytes self.tokenStride ++
      [⟨self.peerBases p + destinationLayerOffsetBytes, scratch + p * spp, spp⟩]) stream

end P2PKvDonatePlan

/-! ## Pages -/

section

variable {a : KvArgs} {S : ℕ → Prop}

variable {p x : ℕ}

lemma donatePage_reads (hp : p < a.numPages) (h : Reads (donatePage a p) x) : a.InSlots x := by
  obtain ⟨t, ht, hx⟩ := gatherPage_reads h
  exact ⟨p * a.pageSize + t, KvArgs.token_lt hp ht, hx⟩

lemma donatePage_writes (h : Writes (donatePage a p) x) : a.InPage p x :=
  gatherPage_writes h

lemma donateCopies_reads (h : Reads (donateCopies a) x) : a.InSlots x := by
  obtain ⟨c, hc, hx⟩ := h
  obtain ⟨p, hp, hc⟩ := mem_flatMap.mp hc
  exact donatePage_reads (mem_range.mp hp) ⟨c, hc, hx⟩

lemma donateCopies_writes (h : Writes (donateCopies a) x) : a.InPages x := by
  obtain ⟨c, hc, hx⟩ := h
  obtain ⟨p, hp, hc⟩ := mem_flatMap.mp hc
  exact ⟨p, mem_range.mp hp, donatePage_writes ⟨c, hc, hx⟩⟩

lemma stagedDonatePage_implements {scratch : ℕ} (hp : p < a.numPages)
    (hslots : ∀ x, a.InSlots x → ¬ a.InPage p x ∧ ¬ S x) (hscratch : ∀ j < a.pageBytes, S (scratch + j)) :
    Implements (β := UInt8) S (runAll (stagedDonatePage a scratch p)) (donatePage a p) := by
  intro m m' h x hx
  have hbytes : a.pageBytes = a.pageSize * (2 * a.slotBytes) := rfl
  have hreads : ∀ y, Reads (gatherPage scratch a.k a.v (a.pageSlots p) a.pageSize a.slotBytes
      (2 * a.slotBytes)) y → a.InSlots y := by
    intro y hy
    obtain ⟨t, ht, hy⟩ := gatherPage_reads hy
    exact ⟨p * a.pageSize + t, KvArgs.token_lt hp ht, hy⟩
  have hout : ∀ y, a.InSlots y → ¬ (scratch ≤ y ∧ y < scratch + a.pageSize * (2 * a.slotBytes)) := by
    intro y hy hbox
    have := hscratch (y - scratch) (by omega)
    rw [Nat.add_sub_cancel' hbox.1] at this
    exact (hslots y hy).2 this
  unfold stagedDonatePage
  rw [runAll_append, runAll_cons, runAll_nil]
  by_cases hpage : a.InPage p x
  · -- the byte came through scratch from its slot
    obtain ⟨hle, hlt⟩ := hpage
    obtain ⟨j, rfl⟩ := Nat.exists_eq_add_of_le hle
    have hj : j < a.pageSize * (2 * a.slotBytes) := by omega
    have hsource : a.InSlots (gatherSource a.k a.v (a.pageSlots p) a.slotBytes j) := by
      obtain ⟨c, hc, i, hi, _, hsrc⟩ := gatherPage_at scratch a.k a.v _ hj
      exact hreads _ ⟨c, hc, by rw [hsrc]; constructor <;> omega⟩
    rw [Copy.run_of_writes ⟨hle, hlt⟩]
    rw [Nat.add_sub_cancel_left]
    have hvia := gatherPage_value (m := m) (fun y hy => hout y (hreads y hy)) hj
    have hdirect : runAll (donatePage a p) m' (a.pageBase p + j) =
        m' (gatherSource a.k a.v (a.pageSlots p) a.slotBytes j) :=
      gatherPage_value (fun y hy => (hslots y (donatePage_reads hp hy)).1) hj
    exact hvia.trans ((h _ (hslots _ hsource).2).trans hdirect.symm)
  · have hcopy : ¬ (⟨a.pageBase p, scratch, a.pageBytes⟩ : Copy).Writes x := hpage
    have hgather : ¬ Writes (gatherKvToScratch scratch a.k a.v (a.pageSlots p) a.pageSize
        a.slotBytes a.tokenStride) x := by
      intro hw
      obtain ⟨hle, hlt⟩ := gatherPage_writes hw
      have := hscratch (x - scratch) (by omega)
      rw [Nat.add_sub_cancel' hle] at this
      exact hx this
    rw [Copy.run_of_not_writes hcopy, runAll_frame hgather, runAll_frame fun hw => hpage (donatePage_writes hw)]
    exact h x hx

end

/-! ## The paths on valid arguments -/

section

variable {a : KvArgs} {numSlots : ℕ} {S : ℕ → Prop}

lemma donateTransfer_accepts (hv : a.Valid numSlots S) : (donateTransfer a).Accepts :=
  ⟨kvGeometry_ok hv, fun _ => expectsAll_of fun i hi => expects_of (hv.slots i hi).1 _ _⟩

lemma donateTransfer_peers (hv : a.Valid numSlots S) : ∀ p < a.numPages, (donateTransfer a).peer p = .ok () :=
  fun p hp => peerCheck_ok.mpr (hv.peers p hp)

lemma stagedDonatePage_valid (hv : a.Valid numSlots S) {scratch p : ℕ} (hp : p < a.numPages)
    (hscratch : ∀ j < a.pageBytes, S (scratch + j)) :
    Implements (β := UInt8) S (runAll (stagedDonatePage a scratch p)) (donatePage a p) := by
  refine stagedDonatePage_implements hp (fun x hx => ?_) hscratch
  have hx := hv.slots_cache hx
  exact ⟨fun hxp => hv.cache_pages x hx ⟨p, hp, hxp⟩, hv.cache_staging x hx⟩

namespace P2PKvDonatePlan

/-- **Every constructor** accepts valid arguments and carries them. -/
theorem construct_ok (hv : a.Valid numSlots S) (slots : PlanSlots) :
    ∃ self, construct numSlots a slots = .ok self ∧ self.Carries a := by
  have hptr := hv.pointers
  have hslots : validateSlots numSlots a = .ok () := by
    refine expectsAll_of fun i hi => ?_
    obtain ⟨h0, hlt, _⟩ := hv.slots i hi
    rw [expects_of h0, expects_of (by omega)]
    rfl
  cases slots with
  | host =>
    exact KvPlan.constructPlan_carries (KvPlan.validateShape_ok _ hv (by tauto)) hslots rfl rfl fun _ _ => rfl
  | device =>
    exact KvPlan.constructPlan_carries (KvPlan.validateShape_ok _ hv (by tauto)) rfl rfl rfl fun _ _ => rfl
  | deviceInt64 =>
    exact KvPlan.constructPlan_carries (KvPlan.validateShape_ok _ hv (KvPlan.narrowSlots_isSome hv)) rfl rfl rfl
      (KvPlan.narrowSlots_eq hv)

variable {self : P2PKvDonatePlan} {offset : ℕ}

lemma executeChecks_ok (hv : a.Valid numSlots S) (hc : self.Carries a) : self.executeChecks a.k a.v = .ok () := by
  have hptr := hv.pointers
  unfold executeChecks
  rw [hc.numPages, expects_of (by tauto), expects_of (by tauto)]
  rfl

lemma finish_execute (hv : a.Valid numSlots S) (hc : self.Carries a)
    (hoff : ∀ p < a.numPages, a.pageOffset p = offset) (stream : Bool) (m : Mem UInt8) :
    finish (self.execute a.k a.v offset stream) m = some (runAll (donateCopies a) m) := by
  have hcopies : ((range self.numPages).flatMap fun p =>
      fusedDonatePage (self.peerBases p + offset) a.k a.v (self.pageSlots p) self.pageSize
        self.slotBytes self.tokenStride) = donateCopies a := by
    rw [hc.numPages, hc.pageSize, hc.slotBytes, hc.tokenStride]
    refine flatMap_congr fun p hp => ?_
    have hp := mem_range.mp hp
    rw [hc.peers p hp, ← hoff p hp]
    exact gatherPage_congr (hc.slots p hp)
  unfold execute
  rw [finish_checked (executeChecks_ok hv hc), hcopies]
  by_cases hpages : self.numPages = 0
  · rw [if_pos hpages, ← hcopies, hpages]
    rfl
  · rw [if_neg hpages]
    exact KvPlan.finish_runOrSubmit _ stream m

lemma finish_executeViaScratch (hv : a.Valid numSlots S) (hc : self.Carries a) {scratch : ℕ}
    (hoff : ∀ p < a.numPages, a.pageOffset p = offset) (hnull : scratch ≠ 0)
    (hscratch : ∀ j < a.numPages * a.pageBytes, S (scratch + j)) (stream : Bool) :
    ∃ f, (∀ m, finish (self.executeViaScratch a.k a.v scratch offset stream) m = some (f m)) ∧
      Implements S f (donateCopies a) := by
  have hcopies : ((range self.numPages).flatMap fun p =>
      gatherKvToScratch (scratch + p * (self.pageSize * self.tokenStride)) a.k a.v
        (self.pageSlots p) self.pageSize self.slotBytes self.tokenStride ++
      [⟨self.peerBases p + offset, scratch + p * (self.pageSize * self.tokenStride),
        self.pageSize * self.tokenStride⟩]) =
      (range a.numPages).flatMap fun p =>
        stagedDonatePage a (scratch + p * a.pageBytes) p := by
    rw [hc.numPages, hc.pageSize, hc.slotBytes, hc.tokenStride]
    refine flatMap_congr fun p hp => ?_
    have hp := mem_range.mp hp
    rw [hc.peers p hp, ← hoff p hp]
    exact congrArg (· ++ _) (gatherPage_congr (hc.slots p hp))
  refine ⟨runAll ((range a.numPages).flatMap fun p =>
    stagedDonatePage a (scratch + p * a.pageBytes) p), fun m => ?_, ?_⟩
  · unfold executeViaScratch
    rw [finish_checked (executeChecks_ok hv hc), finish_checked (expects_of (.inr hnull) _ _)]
    dsimp only
    rw [hcopies]
    by_cases hpages : self.numPages = 0
    · rw [if_pos hpages, ← hc.numPages, hpages]
      rfl
    · rw [if_neg hpages]
      exact KvPlan.finish_runOrSubmit _ stream m
  · refine Implements.flatMap fun p hp => ?_
    have hp := mem_range.mp hp
    refine stagedDonatePage_valid hv hp fun j hj => ?_
    have hle := Blocks.block_le hp a.pageBytes
    rw [add_assoc]
    exact hscratch _ (by omega)

end P2PKvDonatePlan

/-- The ways to donate one layer. -/
inductive DonatePath where
  | oneShot
  | twoStage
  | plan (slots : PlanSlots)
  | planViaScratch (slots : PlanSlots)
  deriving DecidableEq, Repr

namespace DonatePath

/-- A plan adds one offset to every page. -/
def usesPlan : DonatePath → Bool
  | .oneShot => false
  | .twoStage => false
  | .plan _ => true
  | .planViaScratch _ => true

/-- The call of a path.  `scratch` is the staging memory: the two-stage call's vector, or the
    caller's buffer. -/
def call (a : KvArgs) (numSlots scratch : ℕ) (stream : Bool) : DonatePath → Call
  | .oneShot => p2pKvDonateLayer a stream
  | .twoStage => p2pKvDonateLayerTwostage a scratch stream
  | .plan slots => withPlan (P2PKvDonatePlan.construct numSlots a slots) fun self =>
      self.execute a.k a.v (a.pageOffset 0) stream
  | .planViaScratch slots => withPlan (P2PKvDonatePlan.construct numSlots a slots) fun self =>
      self.executeViaScratch a.k a.v scratch (a.pageOffset 0) stream

lemma implements {scratch : ℕ} (hv : a.Valid numSlots S) (hnull : scratch ≠ 0)
    (hscratch : ∀ j < a.numPages * a.pageBytes, S (scratch + j)) (path : DonatePath)
    (hoff : path.usesPlan → ∀ p < a.numPages, a.pageOffset p = a.pageOffset 0) (stream : Bool) :
    ∃ f, (∀ m, finish (path.call a numSlots scratch stream) m = some (f m)) ∧ Implements S f (donateCopies a) := by
  have hdirect : Implements (β := UInt8) S _ _ :=
    implements_runAll fun x hx => hv.cache_staging x (hv.slots_cache (donateCopies_reads hx))
  have hacc := donateTransfer_accepts hv
  have hpeers := donateTransfer_peers hv
  cases path with
  | oneShot => exact ⟨_, Transfer.finish_fused hacc hpeers stream, hdirect⟩
  | twoStage =>
    have hbox : a.numPages ≠ 0 → ∀ j < a.pageBytes, S (scratch + j) := by
      intro hpages j hj
      have : 1 * a.pageBytes ≤ a.numPages * a.pageBytes := Nat.mul_le_mul_right _ (by omega)
      exact hscratch j (by omega)
    refine Transfer.finish_staged hacc hpeers (fun hpages => allocate_eqOff (hbox hpages)) (fun p hp => ?_) stream
    have hp : p < a.numPages := hp
    exact stagedDonatePage_valid hv hp (hbox (by omega))
  | plan slots =>
    obtain ⟨self, hself, hc⟩ := P2PKvDonatePlan.construct_ok hv slots
    refine ⟨_, fun m => ?_, hdirect⟩
    show finish (withPlan _ _) m = _
    rw [withPlan_ok hself]
    exact P2PKvDonatePlan.finish_execute hv hc (hoff rfl) stream m
  | planViaScratch slots =>
    obtain ⟨_, hself, hc⟩ := P2PKvDonatePlan.construct_ok hv slots
    show ∃ f : Mem UInt8 → Mem UInt8, (∀ m, finish (withPlan _ _) m = some (f m)) ∧ _
    rw [withPlan_ok hself]
    exact P2PKvDonatePlan.finish_executeViaScratch hv hc (hoff rfl) hnull hscratch stream

end DonatePath

end

lemma donateTransfer_visible {a : KvArgs} {S : ℕ → Prop} (happ : a.Apart S) : (donateTransfer a).Visible S where
  clean q hq hpre := by
    rintro x ⟨c, hc, hr⟩ ⟨d, hd, hw⟩
    obtain ⟨p, hp, hc⟩ := mem_flatMap.mp hc
    obtain ⟨r, hr', hd⟩ := mem_flatMap.mp hd
    have hq : q ≤ a.numPages := hq
    have hp := mem_range.mp hp
    have hr' := mem_range.mp hr'
    exact happ.pages_slots r (by omega) (peerCheck_ok.mp (hpre r hr')) x
      (donatePage_writes ⟨d, hd, hw⟩) (donatePage_reads (by omega) ⟨c, hc, hr⟩)
  writes hacc hpages hpeer := by
    have hpages : 0 < a.numPages := hpages
    obtain ⟨hsize, hbytes⟩ := kvGeometry_pos hacc.1 (by omega)
    have hw : Writes (donatePage a 0) (a.pageBase 0) := by
      refine ⟨_, mem_gatherPage.mpr ⟨0, hsize, .inl rfl⟩, ?_, ?_⟩
      · show a.pageBase 0 + 0 * (2 * a.slotBytes) ≤ a.pageBase 0
        omega
      · show a.pageBase 0 < a.pageBase 0 + 0 * (2 * a.slotBytes) + a.slotBytes
        omega
    exact ⟨a.pageBase 0, hw, happ.pages_staging 0 hpages (peerCheck_ok.mp hpeer) _ (donatePage_writes hw)⟩

end VKernels.Comm
