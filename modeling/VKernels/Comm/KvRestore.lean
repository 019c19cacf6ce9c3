import VKernels.Comm.KvPlan

/-!
# Restoring peer pages into indexed KV

Model of the host reference `comm/p2p_kv_restore.cpp`.

* `p2pKvRestoreLayer` — the fused one-shot; `p2pKvRestoreLayerTwostage` — peer page to scratch,
  then scatter, with no check at all.  `stream = false` is a null stream.
* `P2PKvRestorePlan` — the prepared plan with its three constructors and `execute`.
* `restoreCopies` — the copies a restore stands for.

## Results

* `slotRounds_ok` — the uniqueness loop accepts exactly what it should on valid slots.
* `RestorePath.implements` — on valid arguments with unique slots every path does what
  `restoreCopies` does, outside the staging memory.
* `restoreTransfer_visible` — with buffers apart, the copies of a page can be seen.
* `restoreTwostage_never_throws` — the two-stage call has nothing to throw.
-/

namespace VKernels.Comm

open ByteCopies
open List

def fusedCopyPage (base kDst vDst : ℕ) (slots : ℕ → ℤ) (pageSize slotBytes : ℕ) : List Copy :=
  scatterPage base kDst vDst slots pageSize slotBytes

def scatterKvFromScratch (scratch kDst vDst : ℕ) (slotIds : ℕ → ℤ) (pageSize slotBytes : ℕ) :
    List Copy := scatterPage scratch kDst vDst slotIds pageSize slotBytes

/-- The copies of page `p`. -/
def restorePage (a : KvArgs) (p : ℕ) : List Copy :=
  fusedCopyPage (a.pageBase p) a.k a.v (a.pageSlots p) a.pageSize a.slotBytes

/-- One round of the slot loop over the slots seen so far; `bound` is the plan's extra check. -/
def slotRound (slot : ℕ → ℤ) (bound : ℤ → Except String Unit) (seen : List ℤ) (i : ℕ) :
    Except String (List ℤ) := do
  expects (0 ≤ slot i) "slot_ids must be non-negative" "slot >= 0"
  bound (slot i)
  expects (slot i ∉ seen) "slot_ids must be unique" "seen.insert(slot).second"
  return slot i :: seen

/-- The slot loop over `n` tokens. -/
def slotRounds (slot : ℕ → ℤ) (bound : ℤ → Except String Unit) (n : ℕ) : Except String Unit :=
  (List.range n).foldlM (slotRound slot bound) [] >>= fun _ => .ok ()

/-- The slot check of the one-shot call. -/
def restoreSlots (a : KvArgs) : Except String Unit :=
  slotRounds a.slot (fun _ => .ok ()) (a.numPages * a.pageSize)

/-- The checks and copies of the one-shot call. -/
def restoreTransfer (a : KvArgs) : Transfer where
  geometry := kvGeometry "k_dst" "v_dst" "peer_src_ptrs" "src_page_offsets" a
  slots := restoreSlots a
  numPages := a.numPages
  peer := peerCheck "peer_src_ptrs" a
  page := restorePage a

def p2pKvRestoreLayer (a : KvArgs) (stream : Bool) : Call := (restoreTransfer a).fused stream

def restoreCopies (a : KvArgs) : List Copy := (restoreTransfer a).copies

/-- Copy page `p` to the scratch vector, then scatter it. -/
def stagedRestorePage (a : KvArgs) (scratch p : ℕ) : List Copy :=
  ⟨scratch, a.pageBase p, a.pageBytes⟩ ::
    scatterKvFromScratch scratch a.k a.v (a.pageSlots p) a.pageSize a.slotBytes

/-- The task of page `p` of the two-stage call. -/
def stagedRestoreTask (a : KvArgs) (scratch p : ℕ) (m : Mem UInt8) : Mem UInt8 :=
  runAll (stagedRestorePage a scratch p) (allocate scratch a.pageBytes m)

def p2pKvRestoreLayerTwostage (a : KvArgs) (scratch : ℕ) (stream : Bool) : Call :=
  if a.numPages = 0 then pure () else
    if stream = false then do
      update (allocate scratch a.pageBytes)
      forEach (List.range a.numPages) fun p => copies (stagedRestorePage a scratch p)
    else
      forEach (List.range a.numPages) fun p => submit (stagedRestoreTask a scratch p)

/-! ## The plan -/

structure P2PKvRestorePlan extends KvPlan

namespace P2PKvRestorePlan

/-- The member initialisers. -/
def initialFields (numSlots : ℕ) (a : KvArgs) (slotIds : Arr ℤ) : P2PKvRestorePlan where
  toKvPlan := KvPlan.initialFields numSlots a slotIds

/-- The last statements of the constructors. -/
def ownMetadata (self : P2PKvRestorePlan) (a : KvArgs) : P2PKvRestorePlan where
  toKvPlan := self.toKvPlan.ownPeers a

def validateShape (self : P2PKvRestorePlan) (peerSrcPtrs : Arr ℕ) : Except String Unit :=
  self.toKvPlan.validateShape "peer_src_ptrs" peerSrcPtrs

/-- The slot check of the host-input constructor. -/
def validateSlots (numSlots : ℕ) (a : KvArgs) : Except String Unit :=
  slotRounds a.slot (fun slot => expects (slot.toNat < numSlots) "slot_ids must be < num_slots"
    "static_cast<std::size_t>(slot) < num_slots_") (a.numPages * a.pageSize)

/-- The three constructors.  The device ones validate no slot. -/
def construct (numSlots : ℕ) (a : KvArgs) : PlanSlots → Except String P2PKvRestorePlan
  | .host =>
    let self := initialFields numSlots a a.slotIds
    constructPlan (self.validateShape a.peerPtrs) (validateSlots numSlots a) a.numPages self
      (self.ownMetadata a)
  | .device =>
    let self := initialFields numSlots a a.slotIds
    constructPlan (self.validateShape a.peerPtrs) (.ok ()) a.numPages
      { self with slotIds := none } (self.ownMetadata a)
  | .deviceInt64 =>
    let self := initialFields numSlots a (KvPlan.narrowSlots a)
    constructPlan (self.validateShape a.peerPtrs) (.ok ()) a.numPages self (self.ownMetadata a)

def execute (self : P2PKvRestorePlan) (kDst vDst sourceLayerOffsetBytes : ℕ) (stream : Bool) : Call :=
  if self.numPages = 0 then pure () else do
    check (expects (kDst ≠ 0) "k_dst must be non-null" "k_dst != nullptr")
    check (expects (vDst ≠ 0) "v_dst must be non-null" "v_dst != nullptr")
    KvPlan.runOrSubmit ((List.range self.numPages).flatMap fun p =>
      fusedCopyPage (self.peerBases p + sourceLayerOffsetBytes) kDst vDst (self.pageSlots p)
        self.pageSize self.slotBytes) stream

end P2PKvRestorePlan

/-! ## Slots -/

lemma slotRounds_ok {slot : ℕ → ℤ} {bound : ℤ → Except String Unit} {n : ℕ}
    (hnonneg : ∀ i < n, 0 ≤ slot i) (hbound : ∀ i < n, bound (slot i) = .ok ())
    (huniq : ∀ i < n, ∀ j < n, slot i = slot j → i = j) : slotRounds slot bound n = .ok () := by
  -- after `k` rounds the seen slots are the first `k`
  have hrun : ∀ k ≤ n, (range k).foldlM (slotRound slot bound) [] =
      .ok ((range k).map slot).reverse := by
    intro k
    induction k with
    | zero => exact fun _ => rfl
    | succ k ih =>
      intro hk
      have hfresh : slot k ∉ ((range k).map slot).reverse := by
        intro hmem
        obtain ⟨j, hj, hjk⟩ := mem_map.mp (mem_reverse.mp hmem)
        have := mem_range.mp hj
        have := huniq j (by omega) k (by omega) hjk
        omega
      rw [range_succ, foldlM_append, ih (by omega)]
      show (slotRound slot bound _ k >>= fun s => pure s) = _
      unfold slotRound
      rw [expects_of (hnonneg k (by omega)), hbound k (by omega), expects_of hfresh]
      simp [bind, Except.bind, pure, Except.pure]
  unfold slotRounds
  rw [hrun n le_rfl]
  rfl

lemma slotRounds_accepted {slot : ℕ → ℤ} {bound : ℤ → Except String Unit} {n : ℕ}
    (h : slotRounds slot bound n = .ok ()) : (∀ i < n, 0 ≤ slot i ∧ bound (slot i) = .ok ()) ∧
      ∀ i < n, ∀ j < n, slot i = slot j → i = j := by
  have hrun : ∀ (n : ℕ) (seen : List ℤ),
      (range n).foldlM (slotRound slot bound) [] = .ok seen →
      (∀ i < n, slot i ∈ seen ∧ 0 ≤ slot i ∧ bound (slot i) = .ok ()) ∧
        ∀ i < n, ∀ j < n, slot i = slot j → i = j := by
    intro n
    induction n with
    | zero => exact fun _ _ => ⟨fun i hi => by omega, fun i hi => by omega⟩
    | succ n ih =>
      intro seen hseen
      rw [range_succ, foldlM_append] at hseen
      obtain ⟨before, hbefore, hround⟩ := bind_ok.mp hseen
      obtain ⟨hall, huniq⟩ := ih before hbefore
      obtain ⟨_, hround, hlast⟩ := bind_ok.mp hround
      cases hlast
      obtain ⟨hnonneg, hround⟩ := expects_ok.mp hround
      obtain ⟨_, hbound, hround⟩ := bind_ok.mp hround
      obtain ⟨hnew, hround⟩ := expects_ok.mp hround
      cases hround
      have hfresh : ∀ i < n, slot i ≠ slot n := fun i hi he => hnew (he ▸ (hall i hi).1)
      refine ⟨fun i hi => ?_, fun i hi j hj he => ?_⟩
      · rcases Nat.lt_succ_iff_lt_or_eq.mp hi with hlt | rfl
        · exact ⟨mem_cons_of_mem _ (hall i hlt).1, (hall i hlt).2⟩
        · exact ⟨mem_cons_self, hnonneg, hbound⟩
      · rcases Nat.lt_succ_iff_lt_or_eq.mp hi with hi | rfl <;>
          rcases Nat.lt_succ_iff_lt_or_eq.mp hj with hj | rfl
        · exact huniq i hi j hj he
        · exact absurd he (hfresh i hi)
        · exact absurd he.symm (hfresh j hj)
        · rfl
  obtain ⟨seen, hseen, _⟩ := bind_ok.mp h
  obtain ⟨hall, huniq⟩ := hrun n seen hseen
  exact ⟨fun i hi => (hall i hi).2, huniq⟩

/-! ## Pages -/

section

variable {a : KvArgs} {S : ℕ → Prop}

variable {p x : ℕ}

lemma restorePage_writes (hp : p < a.numPages) (h : Writes (restorePage a p) x) : a.InSlots x := by
  obtain ⟨t, ht, hx⟩ := scatterPage_writes h
  exact ⟨p * a.pageSize + t, KvArgs.token_lt hp ht, hx⟩

lemma restorePage_reads (h : Reads (restorePage a p) x) : a.InPage p x :=
  scatterPage_reads h

lemma restoreCopies_writes (h : Writes (restoreCopies a) x) : a.InSlots x := by
  obtain ⟨c, hc, hx⟩ := h
  obtain ⟨p, hp, hc⟩ := mem_flatMap.mp hc
  exact restorePage_writes (mem_range.mp hp) ⟨c, hc, hx⟩

lemma restoreCopies_reads (h : Reads (restoreCopies a) x) : a.InPages x := by
  obtain ⟨c, hc, hx⟩ := h
  obtain ⟨p, hp, hc⟩ := mem_flatMap.mp hc
  exact ⟨p, mem_range.mp hp, restorePage_reads ⟨c, hc, hx⟩⟩

/-- **One page through scratch** is one page directly, outside the scratch. -/
theorem stagedRestorePage_implements {scratch : ℕ} (hp : p < a.numPages)
    (hslots : ∀ x, a.InSlots x → ¬ a.InPage p x ∧ ¬ S x) (hpage : ∀ x, a.InPage p x → ¬ S x)
    (hscratch : ∀ j < a.pageBytes, S (scratch + j)) :
    Implements (β := UInt8) S (runAll (stagedRestorePage a scratch p)) (restorePage a p) := by
  intro m m' h
  have himage : ∀ j < a.pageBytes,
      (⟨scratch, a.pageBase p, a.pageBytes⟩ : Copy).run m (scratch + j) =
        m' (a.pageBase p + j) := by
    intro j hj
    rw [Copy.run_of_writes ⟨by show scratch ≤ scratch + j; omega,
      by show scratch + j < scratch + a.pageBytes; omega⟩]
    show m (a.pageBase p + (scratch + j - scratch)) = _
    rw [Nat.add_sub_cancel_left]
    exact h _ (hpage _ ⟨by omega, by omega⟩)
  have hoff : EqOff S ((⟨scratch, a.pageBase p, a.pageBytes⟩ : Copy).run m) m' := by
    intro x hx
    have hnot : ¬ (⟨scratch, a.pageBase p, a.pageBytes⟩ : Copy).Writes x := by
      rintro ⟨hle, hlt⟩
      have := hscratch (x - scratch) (by simp only at hle hlt; omega)
      rw [Nat.add_sub_cancel' hle] at this
      exact hx this
    rw [Copy.run_of_not_writes hnot]
    exact h x hx
  unfold stagedRestorePage scatterKvFromScratch
  rw [runAll_cons, scatterPage_relocate]
  exact runAll_relocate (fun x hx => restorePage_reads hx)
    (fun x hx => (hslots x (restorePage_writes hp hx)).2) hscratch
    (fun x hx => (hslots x (restorePage_writes hp hx)).1) hoff himage

end

/-! ## The paths on valid arguments -/

section

variable {a : KvArgs} {numSlots : ℕ} {S : ℕ → Prop}

/-- No slot is named twice. -/
def KvArgs.UniqueSlots (a : KvArgs) : Prop :=
  ∀ i < a.numPages * a.pageSize, ∀ j < a.numPages * a.pageSize, a.slot i = a.slot j → i = j

section

variable (hv : a.Valid numSlots S)
include hv

lemma restoreTransfer_accepts (huniq : a.UniqueSlots) : (restoreTransfer a).Accepts :=
  ⟨kvGeometry_ok hv, fun _ => slotRounds_ok (fun i hi => (hv.slots i hi).1) (fun _ _ => rfl) huniq⟩

lemma restoreTransfer_peers : ∀ p < a.numPages, (restoreTransfer a).peer p = .ok () :=
  fun p hp => peerCheck_ok.mpr (hv.peers p hp)

lemma stagedRestorePage_valid {scratch p : ℕ} (hp : p < a.numPages) (hscratch : ∀ j < a.pageBytes, S (scratch + j)) :
    Implements (β := UInt8) S (runAll (stagedRestorePage a scratch p)) (restorePage a p) := by
  refine stagedRestorePage_implements hp (fun x hx => ?_)
    (fun x hx => hv.pages_staging x ⟨p, hp, hx⟩) hscratch
  have hx := hv.slots_cache hx
  exact ⟨fun hxp => hv.cache_pages x hx ⟨p, hp, hxp⟩, hv.cache_staging x hx⟩

lemma finish_restoreTwostage {scratch : ℕ}
    (hscratch : a.numPages ≠ 0 → ∀ j < a.pageBytes, S (scratch + j)) (stream : Bool) :
    ∃ f, (∀ m, finish (p2pKvRestoreLayerTwostage a scratch stream) m = some (f m)) ∧
      Implements S f (restoreCopies a) := by
  unfold p2pKvRestoreLayerTwostage
  by_cases hpages : a.numPages = 0
  · refine ⟨id, fun m => ?_, ?_⟩
    · rw [if_pos hpages]
      rfl
    · unfold restoreCopies Transfer.copies restoreTransfer
      simp only [hpages]
      exact fun _ _ h => h
  · rw [if_neg hpages]
    have hsteps : ∀ p ∈ range a.numPages,
        Implements (β := UInt8) S (runAll (stagedRestorePage a scratch p)) (restorePage a p) :=
      fun p hp => stagedRestorePage_valid hv (mem_range.mp hp) (hscratch hpages)
    have halloc := allocate_eqOff (hscratch hpages)
    cases stream with
    | false =>
      refine ⟨fun m => runAll _
        (allocate scratch a.pageBytes m), fun m => ?_, (Implements.flatMap hsteps).after halloc⟩
      have hrun : exec (do
          update (allocate scratch a.pageBytes)
          forEach (range a.numPages) fun p => copies (stagedRestorePage a scratch p))
          ⟨m, []⟩ = (.ok (), ⟨runAll ((range a.numPages).flatMap
            (stagedRestorePage a scratch)) (allocate scratch a.pageBytes m), []⟩) := by
        exact (exec_forEach_ok (fun p _ h => exec_copies _ h)
          _).trans (congrArg _ (foldl_copies _ _ _))
      exact finish_of_exec hrun
    | true =>
      refine ⟨fun m => (range a.numPages).foldl
        (fun m p => stagedRestoreTask a scratch p m) m, fun m => ?_,
        Implements.foldl fun p hp => (hsteps p hp).after halloc⟩
      have hrun : exec (forEach (range a.numPages) fun p =>
          submit (stagedRestoreTask a scratch p)) ⟨m, []⟩ =
          (.ok (), ⟨m, [] ++ (range a.numPages).map (stagedRestoreTask a scratch)⟩) :=
        (exec_forEach_ok (fun p _ h => exec_submit _ h) _).trans
          (congrArg _ (foldl_submit _ _ _))
      rw [if_neg (by simp), finish_of_exec hrun]
      show some (((range a.numPages).map _).foldl _ m) = _
      rw [foldl_map]

end

namespace P2PKvRestorePlan

/-- **Every constructor** accepts valid arguments and carries them. -/
theorem construct_ok (hv : a.Valid numSlots S) (huniq : a.UniqueSlots) (slots : PlanSlots) :
    ∃ self, construct numSlots a slots = .ok self ∧ self.Carries a := by
  have hptr := hv.pointers
  have hslots : validateSlots numSlots a = .ok () := by
    refine slotRounds_ok (fun i hi => (hv.slots i hi).1) (fun i hi => expects_of ?_ _ _) huniq
    have := hv.slots i hi
    omega
  cases slots with
  | host =>
    exact KvPlan.constructPlan_carries (KvPlan.validateShape_ok _ hv (by tauto)) hslots rfl rfl fun _ _ => rfl
  | device =>
    exact KvPlan.constructPlan_carries (KvPlan.validateShape_ok _ hv (by tauto)) rfl rfl rfl fun _ _ => rfl
  | deviceInt64 =>
    exact KvPlan.constructPlan_carries (KvPlan.validateShape_ok _ hv (KvPlan.narrowSlots_isSome hv)) rfl rfl rfl
      (KvPlan.narrowSlots_eq hv)

lemma finish_execute {self : P2PKvRestorePlan} {offset : ℕ} (hv : a.Valid numSlots S)
    (hc : self.Carries a) (hoff : ∀ p < a.numPages, a.pageOffset p = offset) (stream : Bool) (m : Mem UInt8) :
    finish (self.execute a.k a.v offset stream) m = some (runAll (restoreCopies a) m) := by
  have hcopies : ((range self.numPages).flatMap fun p =>
      fusedCopyPage (self.peerBases p + offset) a.k a.v (self.pageSlots p) self.pageSize
        self.slotBytes) = restoreCopies a := by
    rw [hc.numPages, hc.pageSize, hc.slotBytes]
    refine flatMap_congr fun p hp => ?_
    have hp := mem_range.mp hp
    rw [hc.peers p hp, ← hoff p hp]
    exact scatterPage_congr (hc.slots p hp)
  have hptr := hv.pointers
  unfold execute
  by_cases hpages : self.numPages = 0
  · rw [if_pos hpages, ← hcopies, hpages]
    rfl
  · have hpages' : a.numPages ≠ 0 := hc.numPages ▸ hpages
    rw [if_neg hpages, finish_checked (expects_of (by tauto) _ _),
      finish_checked (expects_of (by tauto) _ _), hcopies]
    exact KvPlan.finish_runOrSubmit _ stream m

end P2PKvRestorePlan

/-- The ways to restore one layer. -/
inductive RestorePath where
  | oneShot
  | twoStage
  | plan (slots : PlanSlots)
  deriving DecidableEq, Repr

namespace RestorePath

/-- A plan adds one offset to every page. -/
def usesPlan : RestorePath → Bool
  | .oneShot => false
  | .twoStage => false
  | .plan _ => true

/-- The call of a path.  `scratch` is the two-stage call's vector. -/
def call (a : KvArgs) (numSlots scratch : ℕ) (stream : Bool) : RestorePath → Call
  | .oneShot => p2pKvRestoreLayer a stream
  | .twoStage => p2pKvRestoreLayerTwostage a scratch stream
  | .plan slots => withPlan (P2PKvRestorePlan.construct numSlots a slots) fun self =>
      self.execute a.k a.v (a.pageOffset 0) stream

lemma implements {scratch : ℕ} (hv : a.Valid numSlots S) (huniq : a.UniqueSlots)
    (hscratch : ∀ j < a.numPages * a.pageBytes, S (scratch + j)) (path : RestorePath)
    (hoff : path.usesPlan → ∀ p < a.numPages, a.pageOffset p = a.pageOffset 0) (stream : Bool) :
    ∃ f, (∀ m, finish (path.call a numSlots scratch stream) m = some (f m)) ∧ Implements S f (restoreCopies a) := by
  have hdirect : Implements (β := UInt8) S _ _ :=
    implements_runAll fun x hx => hv.pages_staging x (restoreCopies_reads hx)
  cases path with
  | oneShot =>
    exact ⟨_, Transfer.finish_fused (restoreTransfer_accepts hv huniq) (restoreTransfer_peers hv)
      stream, hdirect⟩
  | twoStage =>
    refine finish_restoreTwostage hv (fun hpages j hj => hscratch j ?_) stream
    have : 1 * a.pageBytes ≤ a.numPages * a.pageBytes := Nat.mul_le_mul_right _ (by omega)
    omega
  | plan slots =>
    obtain ⟨_, hself, hc⟩ := P2PKvRestorePlan.construct_ok hv huniq slots
    refine ⟨_, fun m => ?_, hdirect⟩
    show finish (withPlan _ _) m = _
    rw [withPlan_ok hself]
    exact P2PKvRestorePlan.finish_execute hv hc (hoff rfl) stream m

end RestorePath

end

lemma restoreTransfer_visible {a : KvArgs} {S : ℕ → Prop} (happ : a.Apart S) : (restoreTransfer a).Visible S where
  clean q hq hpre := by
    rintro x ⟨c, hc, hr⟩ ⟨d, hd, hw⟩
    obtain ⟨p, hp, hc⟩ := mem_flatMap.mp hc
    obtain ⟨r, hr', hd⟩ := mem_flatMap.mp hd
    have hq : q ≤ a.numPages := hq
    have hp := mem_range.mp hp
    have hr' := mem_range.mp hr'
    exact happ.pages_slots p (by omega) (peerCheck_ok.mp (hpre p hp)) x
      (restorePage_reads ⟨c, hc, hr⟩) (restorePage_writes (by omega) ⟨d, hd, hw⟩)
  writes hacc hpages hpeer := by
    have hpages : 0 < a.numPages := hpages
    obtain ⟨hsize, hbytes⟩ := kvGeometry_pos hacc.1 (by omega)
    have hw : Writes (restorePage a 0) (a.k + (a.pageSlots 0 0).toNat * a.slotBytes) := by
      refine ⟨_, mem_scatterPage.mpr ⟨0, hsize, .inl rfl⟩, ?_, ?_⟩
      · exact le_rfl
      · show _ < a.k + (a.pageSlots 0 0).toNat * a.slotBytes + a.slotBytes
        omega
    exact ⟨_, hw, happ.slots_staging _ (restorePage_writes hpages hw)⟩

lemma restoreTwostage_never_throws (a : KvArgs) (scratch : ℕ) (stream : Bool) (h : Host) :
    (exec (p2pKvRestoreLayerTwostage a scratch stream) h).1 = .ok () := by
  unfold p2pKvRestoreLayerTwostage
  split
  · rfl
  · split
    · exact congrArg Prod.fst
        (exec_forEach_ok (fun p _ h => exec_copies _ h) _)
    · exact congrArg Prod.fst
        (exec_forEach_ok (fun p _ h => exec_submit _ h) _)

end VKernels.Comm
