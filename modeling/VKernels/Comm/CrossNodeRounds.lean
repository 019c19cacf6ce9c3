import VKernels.Comm.CrossNodeLanes
import VKernels.Comm.FabricBounds

/-!
# Donate and restore across nodes

Rounds of a donation and its restore over the direct path, and all transports together.

## Results

* `donate_exported`, `donate_mirror` — what a donation leaves in the handle and in the mirrors.
* `DirectRound.lossless_iff` — a round is lossless exactly when the restore reads live bytes: the
  restore's import aliases the handle, is the donor's own, was made after the donation, or happens
  to hold the donated bytes.
* `cross_node_lossless_iff` — transfers over channels are always lossless, direct rounds exactly
  when each of them reads live bytes.
* `stale_import` — a mapped import made before the donation restores the old bytes.
-/

namespace VKernels.Comm

open ByteCopies Effects
open List hiding le_refl
open FabricImport (hasDevicePtr ofHandle populate)

/-! ## A round -/

/-- What a region of memory is to a round. -/
def Within (base size x : ℕ) : Prop := base ≤ x ∧ x < base + size

/-- An import's own vector; a same-node import has none. -/
def OwnVector (transport : FabricImportTransport) (mirror size x : ℕ) : Prop :=
  transport ≠ .sameNodePeer ∧ Within mirror size x

/-- A donation and the restore that matches it, over imports of one handle.  The handle's bytes,
    the imports' vectors and the slots are apart, as allocations are; the layer fits the handle. -/
structure DirectRound where
  out : CrossNodeArgs
  back : CrossNodeArgs
  geometry : SameGeometry out back
  kSrc : ℕ
  vSrc : ℕ
  kDst : ℕ
  vDst : ℕ
  nonnull : kSrc ≠ 0 ∧ vSrc ≠ 0 ∧ kDst ≠ 0 ∧ vDst ≠ 0
  caches_apart : back.CachesApart kDst vDst
  handle : FabricHandle
  outImport : FabricImportTransport
  outMirror : ℕ
  backImport : FabricImportTransport
  backMirror : ℕ
  offset : ℕ
  donor : CrossNodeKvDonatePlan
  donorTransport : FabricImportTransport
  donor_capturable : isImportGraphCapturable donorTransport = true
  donor_accepted : CrossNodeKvDonatePlan.construct out donorTransport
    (some (ofHandle outImport handle outMirror)) = .ok donor
  restorer : CrossNodeKvRestorePlan
  restorerTransport : FabricImportTransport
  restorer_capturable : isImportGraphCapturable restorerTransport = true
  restorer_accepted : CrossNodeKvRestorePlan.construct back restorerTransport
    (some (ofHandle backImport handle backMirror)) = .ok restorer
  fits : offset + out.totalBytes ≤ handle.size
  out_apart : ∀ x, Within handle.bytes handle.size x → ¬ OwnVector outImport outMirror handle.size x
  back_apart : ∀ x, Within handle.bytes handle.size x →
    ¬ OwnVector backImport backMirror handle.size x
  imports_apart : (outImport = backImport ∧ outMirror = backMirror) ∨
    ∀ x, OwnVector outImport outMirror handle.size x → ¬ OwnVector backImport backMirror handle.size x
  source_apart : ∀ x, out.InSlots kSrc vSrc x → ¬ Within handle.bytes handle.size x ∧
    ¬ OwnVector outImport outMirror handle.size x
  target_apart : ∀ x, back.InSlots kDst vDst x → ¬ Within handle.bytes handle.size x ∧
    ¬ OwnVector backImport backMirror handle.size x

namespace DirectRound

variable (r : DirectRound)

def outFabric : FabricImport := ofHandle r.outImport r.handle r.outMirror

def backFabric : FabricImport := ofHandle r.backImport r.handle r.backMirror

/-- What happens between the donation and the restore: the restore's import is made (again), or
    work that leaves the handle and the imports alone. -/
inductive Between where
  | reimport
  | work (f : Mem UInt8 → Mem UInt8) (keeps : ∀ m x,
      Within r.handle.bytes r.handle.size x ∨ OwnVector r.outImport r.outMirror r.handle.size x ∨
        OwnVector r.backImport r.backMirror r.handle.size x → f m x = m x)

variable {r} in
def Between.after : r.Between → Mem UInt8 → Mem UInt8
  | .reimport => runAll (r.backFabric.populate r.handle)
  | .work f _ => f

variable {r} in
def Between.run (b : r.Between) : Eff (Node UInt8) Unit := runNow (deviceOp b.after)

def donate : Eff (Node UInt8) Unit :=
  r.donor.execute r.kSrc r.vSrc r.handle r.offset false false none

def restore : Eff (Node UInt8) Unit :=
  r.restorer.execute r.kDst r.vDst r.offset false false none

/-- The restore that follows puts the donated bytes into the addressed slots and changes nothing
    else. -/
def Lossless (between : List r.Between) (n : Node UInt8) : Prop :=
  ∃ n₁ n₂, perform (do r.donate; each between Between.run) n = (.ok (), n₁) ∧
    perform r.restore n₁ = (.ok (), n₂) ∧
    Restored r.out r.back r.kSrc r.vSrc r.kDst r.vDst (some n.world.mem) n₁.world.mem n₂.world.mem

/-- The restore reads live bytes: through an alias of the handle, through the donor's own import,
    through an import made after the donation, or through one that holds the donated bytes. -/
def ReadsLive (between : List r.Between) (m : Mem UInt8) : Prop :=
  r.backImport = .sameNodePeer ∨ (r.outImport = r.backImport ∧ r.outMirror = r.backMirror) ∨
    .reimport ∈ between ∨ ∀ j < r.out.totalBytes,
      m (r.backMirror + r.offset + j) = m (r.out.packedSource r.kSrc r.vSrc j)

/-! ### The memory, step by step -/

def donateMoves : List Copy :=
  (DirectPlan.donate r.donor r.donorTransport r.donor_capturable r.donor_accepted).moves r.kSrc
    r.vSrc r.handle r.offset

def restoreMoves : List Copy :=
  (DirectPlan.restore r.restorer r.restorerTransport r.restorer_capturable
    r.restorer_accepted).moves r.kDst r.vDst r.handle r.offset

lemma perform_donate {n : Node UInt8} (hn : n.graph.inCapture = false) :
    perform r.donate n = (.ok (), { n with
      world := { n.world with mem := runAll r.donateMoves n.world.mem } }) := by
  obtain ⟨hk, hv, _, _⟩ := r.nonnull
  refine (DirectPlan.donate r.donor r.donorTransport r.donor_capturable
    r.donor_accepted).perform_execute hk hv (fun f hf => ?_) r.offset false none hn
  cases hf
  exact le_refl r.handle.size

lemma perform_restore {n : Node UInt8} (hn : n.graph.inCapture = false) :
    perform r.restore n = (.ok (), { n with
      world := { n.world with mem := runAll r.restoreMoves n.world.mem } }) := by
  obtain ⟨_, _, hk, hv⟩ := r.nonnull
  refine (DirectPlan.restore r.restorer r.restorerTransport r.restorer_capturable
    r.restorer_accepted).perform_execute hk hv (fun f hf => ?_) r.offset false none hn
  cases hf
  exact le_refl r.handle.size

lemma perform_between (between : List r.Between) (n : Node UInt8) :
    perform (each between Between.run) n = (.ok (), { n with
      world := { n.world with mem := between.foldl (fun m b => b.after m) n.world.mem } }) := by
  induction between generalizing n with
  | nil => rfl
  | cons b between ih =>
    show perform (b.run >>= fun _ => each between Between.run) n = _
    exact ih _

section

variable {r} {m : Mem UInt8} {j x : ℕ}

lemma pages_of_byte (hj : j < r.out.totalBytes) : r.out.numPages ≠ 0 := by
  rintro h0
  unfold CrossNodeArgs.totalBytes at hj
  rw [h0, Nat.zero_mul] at hj
  omega

section

variable (hpages : r.out.numPages ≠ 0)
include hpages

lemma out_not_bounce : r.outImport ≠ .hostBounce := by
  intro hbounce
  have hany := ((DirectPlan.donate r.donor r.donorTransport r.donor_capturable r.donor_accepted).checked hpages).2
  rw [hbounce] at hany
  simp [ofHandle, hasDevicePtr] at hany

lemma back_not_bounce : r.backImport ≠ .hostBounce := by
  intro hbounce
  have hany := ((DirectPlan.restore r.restorer r.restorerTransport r.restorer_capturable
    r.restorer_accepted).checked (r.geometry.numPages ▸ hpages)).2
  rw [hbounce] at hany
  simp [ofHandle, hasDevicePtr] at hany

lemma donateMoves_eq : r.donateMoves = donateCopies (r.out.direct r.outFabric.devicePtr r.kSrc r.vSrc r.offset) ++
      DirectPlan.writeBackMoves r.outFabric r.handle := by
  unfold donateMoves DirectPlan.moves
  rw [if_neg hpages]
  exact congrArg _ (append_nil _)

lemma donateMoves_mapped (hmapped : r.outImport = .fabricMapped) :
    r.donateMoves = donateCopies (r.out.direct r.outMirror r.kSrc r.vSrc r.offset) ++
      [⟨r.handle.bytes, r.outMirror, r.handle.size⟩] := by
  rw [donateMoves_eq hpages]
  unfold outFabric
  rw [hmapped]
  rfl

lemma donateMoves_sameNode (hsame : r.outImport = .sameNodePeer) :
    r.donateMoves = donateCopies (r.out.direct r.handle.bytes r.kSrc r.vSrc r.offset) := by
  rw [donateMoves_eq hpages]
  unfold outFabric
  rw [hsame]
  exact append_nil _

lemma restoreMoves_eq : r.restoreMoves =
    restoreCopies (r.back.direct r.backFabric.devicePtr r.kDst r.vDst r.offset) := by
  unfold restoreMoves DirectPlan.moves
  rw [if_neg (r.geometry.numPages ▸ hpages)]
  rfl

end

lemma store_value (hj : j < r.out.totalBytes) (hmapped : r.outImport = .fabricMapped) :
    runAll (donateCopies (r.out.direct r.outMirror r.kSrc r.vSrc r.offset)) m
      (r.outMirror + r.offset + j) = m (r.out.packedSource r.kSrc r.vSrc j) := by
  have hfits := r.fits
  refine donateCopies_value (fun x hx hin => (r.source_apart x hx).2 ⟨?_, ?_⟩) hj
  · rw [hmapped]
    decide
  · exact ⟨by omega, by omega⟩

lemma donate_exported (hj : j < r.out.totalBytes) : runAll r.donateMoves m (r.handle.bytes + r.offset + j) =
      m (r.out.packedSource r.kSrc r.vSrc j) := by
  have hfits := r.fits
  have hpages := pages_of_byte hj
  rcases himport : r.outImport with _ | _ | _
  · have hw : (⟨r.handle.bytes, r.outMirror, r.handle.size⟩ : Copy).Writes
        (r.handle.bytes + r.offset + j) := ⟨by simp only; omega, by simp only; omega⟩
    rw [donateMoves_mapped hpages himport, runAll_append, runAll_cons, runAll_nil,
      Copy.run_of_writes hw, ← store_value (m := m) hj himport]
    congr 1
    show r.outMirror + (r.handle.bytes + r.offset + j - r.handle.bytes) = _
    omega
  · rw [donateMoves_sameNode hpages himport]
    refine donateCopies_value (fun x hx hin => (r.source_apart x hx).1 ?_) hj
    exact ⟨by omega, by omega⟩
  · exact absurd himport (out_not_bounce hpages)

lemma donate_mirror (hj : j < r.out.totalBytes) (hmapped : r.outImport = .fabricMapped) :
    runAll r.donateMoves m (r.outMirror + r.offset + j) = m (r.out.packedSource r.kSrc r.vSrc j) := by
  have hfits := r.fits
  have hw : ¬ (⟨r.handle.bytes, r.outMirror, r.handle.size⟩ : Copy).Writes (r.outMirror + r.offset + j) := by
    intro hw
    refine r.out_apart _ hw ⟨?_, by omega, by omega⟩
    rw [hmapped]
    decide
  rw [donateMoves_mapped (pages_of_byte hj) hmapped, runAll_append, runAll_cons, runAll_nil,
    Copy.run_of_not_writes hw, store_value hj hmapped]

lemma donate_other (hpages : r.out.numPages ≠ 0)
    (hother : ¬ (r.outImport = r.backImport ∧ r.outMirror = r.backMirror))
    (hx : OwnVector r.backImport r.backMirror r.handle.size x) : runAll r.donateMoves m x = m x := by
  have hfits := r.fits
  have hhandle : ¬ Within r.handle.bytes r.handle.size x := fun h => r.back_apart x h hx
  have hmirror : ¬ OwnVector r.outImport r.outMirror r.handle.size x :=
    fun h => r.imports_apart.resolve_left hother x h hx
  refine runAll_frame (fun hw => ?_) m
  rcases himport : r.outImport with _ | _ | _
  · rw [donateMoves_mapped hpages himport] at hw
    obtain ⟨c, hc, hw⟩ := hw
    rcases mem_append.mp hc with hc | hc
    · have hw := donateCopies_writes_iff.mp ⟨c, hc, hw⟩
      refine hmirror ⟨by rw [himport]; decide, by omega, by omega⟩
    · cases mem_singleton.mp hc
      exact hhandle hw
  · rw [donateMoves_sameNode hpages himport] at hw
    have hw := donateCopies_writes_iff.mp hw
    exact hhandle ⟨by omega, by omega⟩
  · exact out_not_bounce hpages himport

lemma between_exported (b : r.Between) (hx : Within r.handle.bytes r.handle.size x) : b.after m x = m x := by
  cases b with
  | work f keeps => exact keeps m x (.inl hx)
  | reimport =>
    refine runAll_frame (fun hw => ?_) m
    obtain ⟨c, hc, hw⟩ := hw
    rcases himport : r.backImport with _ | _ | _
    all_goals
      unfold populate backFabric ofHandle at hc
      rw [himport] at hc
    · cases mem_singleton.mp hc
      exact r.back_apart x hx ⟨by rw [himport]; decide, hw⟩
    · exact absurd hc not_mem_nil
    · cases mem_singleton.mp hc
      exact r.back_apart x hx ⟨by rw [himport]; decide, hw⟩

lemma reimport_mirror (hx : x < r.handle.size) (hmapped : r.backImport = .fabricMapped) :
    (Between.reimport (r := r)).after m (r.backMirror + x) = m (r.handle.bytes + x) := by
  have hw : (⟨r.backMirror, r.handle.bytes, r.handle.size⟩ : Copy).Writes (r.backMirror + x) :=
    ⟨Nat.le_add_right _ _, by simp only; omega⟩
  have hpopulate : r.backFabric.populate r.handle = [⟨r.backMirror, r.handle.bytes, r.handle.size⟩] := by
    unfold populate backFabric ofHandle
    rw [hmapped]
  show runAll (r.backFabric.populate r.handle) m _ = _
  rw [hpopulate, runAll_cons, runAll_nil, Copy.run_of_writes hw, Nat.add_sub_cancel_left]

lemma foldl_exported (between : List r.Between) (hx : Within r.handle.bytes r.handle.size x) :
    between.foldl (fun m b => b.after m) m x = m x := by
  induction between generalizing m with
  | nil => rfl
  | cons b between ih =>
    rw [foldl_cons, ih, between_exported b hx]

lemma foldl_mirror {between : List r.Between} (hnone : .reimport ∉ between)
    (hx : OwnVector r.backImport r.backMirror r.handle.size x) : between.foldl (fun m b => b.after m) m x = m x := by
  induction between generalizing m with
  | nil => rfl
  | cons b between ih =>
    cases b with
    | reimport => exact absurd mem_cons_self hnone
    | work f keeps =>
      rw [foldl_cons, ih fun h => hnone (mem_cons_of_mem _ h)]
      exact keeps m x (.inr (.inr hx))

lemma foldl_reimport {between : List r.Between} (hmem : .reimport ∈ between)
    (hx : x < r.handle.size) (hmapped : r.backImport = .fabricMapped) :
    between.foldl (fun m b => b.after m) m (r.backMirror + x) = m (r.handle.bytes + x) := by
  induction between generalizing m with
  | nil => exact absurd hmem not_mem_nil
  | cons b between ih =>
    have hin : Within r.handle.bytes r.handle.size (r.handle.bytes + x) := ⟨Nat.le_add_right _ _, by omega⟩
    rw [foldl_cons]
    by_cases hlater : .reimport ∈ between
    · rw [ih hlater, between_exported b hin]
    · -- the first of `between` is the last import made
      have hfirst : b = .reimport := by
        rcases mem_cons.mp hmem with h | h
        · exact h.symm
        · exact absurd h hlater
      subst hfirst
      have hown : OwnVector r.backImport r.backMirror r.handle.size (r.backMirror + x) :=
        ⟨by rw [hmapped]; decide, Nat.le_add_right _ _, by omega⟩
      rw [foldl_mirror hlater hown, reimport_mirror hx hmapped]

/-- **A restore** puts the layer its pointer names into the slots, and changes nothing else. -/
theorem restore_bytes (hpages : r.out.numPages ≠ 0) :
    (∀ j < r.out.totalBytes, runAll r.restoreMoves m (r.back.packedSource r.kDst r.vDst j) =
      m (r.backFabric.devicePtr + r.offset + j)) ∧
    ∀ x, ¬ r.back.InSlots r.kDst r.vDst x → runAll r.restoreMoves m x = m x := by
  have hfits := r.fits
  have htotal := r.geometry.totalBytes
  rw [restoreMoves_eq hpages]
  have hslots : r.back.SlotsInRange ∧ r.back.UniqueSlots := by
    have haccepted := r.restorer_accepted
    obtain ⟨p, hp, _⟩ := bind_ok.mp haccepted
    rcases CrossNodeArgs.prepare_ok hp with ⟨h0, _⟩ | ⟨_, _, _, _, hslots⟩
    · exact absurd (r.geometry.numPages.trans h0) hpages
    · exact CrossNodeArgs.validateUniqueSlots_passed hslots
  constructor
  · intro j hj
    refine restoreCopies_value hslots.1 hslots.2 r.caches_apart (fun x hx hin => ?_) (htotal ▸ hj)
    obtain ⟨hhandle, hmirror⟩ := r.target_apart x hx
    rcases himport : r.backImport with _ | _ | _
    · have hptr : r.backFabric.devicePtr = r.backMirror := by
        unfold backFabric ofHandle
        rw [himport]
      refine hmirror ⟨by rw [himport]; decide, ?_⟩
      exact ⟨by omega, by omega⟩
    · have hptr : r.backFabric.devicePtr = r.handle.bytes := by
        unfold backFabric ofHandle
        rw [himport]
      exact hhandle ⟨by omega, by omega⟩
    · exact back_not_bounce hpages himport
  · intro x hx
    refine runAll_frame (fun hw => hx ?_) m
    obtain ⟨t, ht, hxt⟩ := restoreCopies_writes hw
    exact ⟨t, ht, hxt⟩

end

/-! ### The round -/

section

variable (between : List r.Between) {n : Node UInt8}

def beforeRestore (m : Mem UInt8) : Mem UInt8 :=
  between.foldl (fun m b => b.after m) (runAll r.donateMoves m)

lemma perform_donate_between (hn : n.graph.inCapture = false) :
    perform (do r.donate; each between Between.run) n = (.ok (), { n with
      world := { n.world with mem := r.beforeRestore between n.world.mem } }) := by
  rw [perform_bind_ok (r.perform_donate hn)]
  exact r.perform_between between _

lemma lossless_iff_bytes (hn : n.graph.inCapture = false) : r.Lossless between n ↔
    ∀ j < r.out.totalBytes, r.beforeRestore between n.world.mem (r.backFabric.devicePtr + r.offset + j) =
        n.world.mem (r.out.packedSource r.kSrc r.vSrc j) := by
  have htotal := r.geometry.totalBytes
  have hrun := r.perform_donate_between between hn
  constructor
  · rintro ⟨_, _, h₁, h₂, hbytes, _⟩ j hj
    rw [hrun] at h₁
    cases h₁
    rw [r.perform_restore (by exact hn)] at h₂
    cases h₂
    obtain ⟨m, hm, hvalue⟩ := hbytes j (htotal ▸ hj)
    cases hm
    rw [← hvalue]
    exact ((restore_bytes (pages_of_byte hj)).1 j hj).symm
  · intro hlive
    refine ⟨_, _, hrun, r.perform_restore hn, fun j hj => ?_, fun x hx => ?_⟩
    · have hj : j < r.out.totalBytes := htotal ▸ hj
      exact ⟨_, rfl, ((restore_bytes (pages_of_byte hj)).1 j hj).trans (hlive j hj)⟩
    · by_cases hpages : r.out.numPages = 0
      · have hnone : r.restoreMoves = [] := by
          unfold restoreMoves DirectPlan.moves
          rw [if_pos (r.geometry.numPages ▸ hpages)]
        rw [hnone]
        rfl
      · exact (restore_bytes hpages).2 x hx

lemma lossless_iff (hn : n.graph.inCapture = false) : r.Lossless between n ↔ r.ReadsLive between n.world.mem := by
  rw [r.lossless_iff_bytes between hn]
  have hfits := r.fits
  have hin : ∀ j < r.out.totalBytes, Within r.handle.bytes r.handle.size (r.handle.bytes + r.offset + j) :=
    fun j hj => ⟨by omega, by omega⟩
  rcases himport : r.backImport with _ | _ | _
  · -- a mapped import
    have hptr : r.backFabric.devicePtr = r.backMirror := by
      unfold backFabric ofHandle
      rw [himport]
    have hown : ∀ j < r.out.totalBytes,
        OwnVector r.backImport r.backMirror r.handle.size (r.backMirror + r.offset + j) :=
      fun j hj => ⟨by rw [himport]; decide, by omega, by omega⟩
    rw [hptr]
    unfold ReadsLive beforeRestore
    by_cases hagain : .reimport ∈ between
    · refine iff_of_true (fun j hj => ?_) (.inr (.inr (.inl hagain)))
      rw [add_assoc, foldl_reimport hagain (by omega) himport, ← add_assoc, donate_exported hj]
    by_cases hsame : r.outImport = r.backImport ∧ r.outMirror = r.backMirror
    · refine iff_of_true (fun j hj => ?_) (.inr (.inl hsame))
      rw [foldl_mirror hagain (hown j hj), ← hsame.2, donate_mirror hj (hsame.1.trans himport)]
    · have hkept : ∀ j < r.out.totalBytes, between.foldl (fun m b => b.after m)
          (runAll r.donateMoves n.world.mem) (r.backMirror + r.offset + j) =
            n.world.mem (r.backMirror + r.offset + j) := by
        intro j hj
        rw [foldl_mirror hagain (hown j hj), donate_other (pages_of_byte hj) hsame (hown j hj)]
      constructor
      · intro h
        exact .inr (.inr (.inr fun j hj => (hkept j hj).symm.trans (h j hj)))
      · rintro (h | h | h | h) j hj
        · rw [himport] at h
          cases h
        · exact absurd h hsame
        · exact absurd h hagain
        · exact (hkept j hj).trans (h j hj)
  · -- an alias of the handle
    have hptr : r.backFabric.devicePtr = r.handle.bytes := by
      unfold backFabric ofHandle
      rw [himport]
    refine iff_of_true (fun j hj => ?_) (.inl himport)
    rw [hptr]
    unfold beforeRestore
    rw [foldl_exported between (hin j hj), donate_exported hj]
  · -- no plan with pages has such an import
    by_cases hpages : r.out.numPages = 0
    · have hnone : ∀ j, ¬ j < r.out.totalBytes := fun j hj => pages_of_byte hj hpages
      exact iff_of_true (fun j hj => absurd hj (hnone j)) (.inr (.inr (.inr fun j hj => absurd hj (hnone j))))
    · exact absurd himport (back_not_bounce hpages)

end

end DirectRound

/-! ## All transports -/

/-- A round with what happens between its donation and its restore. -/
structure RoundRun where
  round : DirectRound
  between : List round.Between

def RoundRun.run (r : RoundRun) : Eff (Node UInt8) Unit := do
  r.round.donate
  each r.between DirectRound.Between.run
  r.round.restore

/-- A sequence of donations, each with the restore that matches it. -/
inductive Exchange where
  | lanes (transfers : List LaneTransfer)
  | direct (rounds : List RoundRun)

/-- A property of every round, in the state it starts in. -/
def EveryRound (P : RoundRun → Node UInt8 → Prop) : List RoundRun → Node UInt8 → Prop
  | [], _ => True
  | r :: rounds, n => P r n ∧ EveryRound P rounds (perform r.run n).2

/-- The `i`-th restore writes exactly the bytes of the `i`-th donation into the addressed slots. -/
def Exchange.Lossless (n : Node UInt8) : Exchange → Prop
  | .lanes transfers => LanesLossless transfers
  | .direct rounds => EveryRound (fun r n => r.round.Lossless r.between n) rounds n

/-- Channels always deliver; a direct restore must read live bytes. -/
def Exchange.Live (n : Node UInt8) : Exchange → Prop
  | .lanes _ => True
  | .direct rounds => EveryRound (fun r n => r.round.ReadsLive r.between n.world.mem) rounds n

lemma RoundRun.keeps_capture (r : RoundRun) {n : Node UInt8} (hn : n.graph.inCapture = false) :
    (perform r.run n).2.graph.inCapture = false := by
  unfold RoundRun.run
  rw [perform_bind_ok (r.round.perform_donate hn),
    perform_bind_ok (r.round.perform_between r.between _), r.round.perform_restore (by exact hn)]
  exact hn

lemma everyRound_congr {P Q : RoundRun → Node UInt8 → Prop}
    (hPQ : ∀ r n, n.graph.inCapture = false → (P r n ↔ Q r n)) : ∀ (rounds : List RoundRun)
    {n : Node UInt8}, n.graph.inCapture = false → (EveryRound P rounds n ↔ EveryRound Q rounds n)
  | [], _, _ => Iff.rfl
  | r :: rounds, _, hn =>
    and_congr (hPQ r _ hn) (everyRound_congr hPQ rounds (r.keeps_capture hn))

/-- **Donate and restore across nodes.**  Over channels, one or striped, every exchange is lossless
    under every interleaving; over the direct path it is exactly when every restore reads live
    bytes. -/
theorem cross_node_lossless_iff (x : Exchange) (n : Node UInt8) (hn : n.graph.inCapture = false) :
    x.Lossless n ↔ x.Live n := by
  cases x with
  | lanes transfers => exact iff_of_true (lanes_lossless transfers) trivial
  | direct rounds =>
    exact everyRound_congr (fun r n hn => r.round.lossless_iff r.between hn) rounds hn

lemma exists_mappedRound : ∃ r : DirectRound, r.out = oneToken ∧ r.kSrc = 1000 ∧ r.vSrc = 2000 ∧
    r.outImport = .fabricMapped ∧ r.backImport = .fabricMapped ∧ r.outMirror = 200 ∧
    r.backMirror = 300 ∧ r.offset = 0 := by
  obtain ⟨donor, hdonor⟩ : ∃ donor, CrossNodeKvDonatePlan.construct oneToken .fabricMapped
    (some (ofHandle .fabricMapped ⟨100, 4⟩ 200)) = .ok donor := ⟨_, rfl⟩
  obtain ⟨restorer, hrestorer⟩ : ∃ restorer, CrossNodeKvRestorePlan.construct oneToken
    .fabricMapped (some (ofHandle .fabricMapped ⟨100, 4⟩ 300)) = .ok restorer :=
      ⟨_, rfl⟩
  have hvector : ∀ mirror x, OwnVector .fabricMapped mirror 4 x → mirror ≤ x ∧ x < mirror + 4 :=
    fun mirror x h => h.2
  refine ⟨{
    out := oneToken, back := oneToken, geometry := ⟨rfl, rfl, rfl, rfl, rfl⟩
    kSrc := 1000, vSrc := 2000, kDst := 3000, vDst := 4000
    nonnull := by decide
    caches_apart := .inl (by decide)
    handle := ⟨100, 4⟩, outImport := .fabricMapped, outMirror := 200
    backImport := .fabricMapped, backMirror := 300, offset := 0
    donor := donor, donorTransport := .fabricMapped, donor_capturable := rfl
    donor_accepted := hdonor
    restorer := restorer, restorerTransport := .fabricMapped, restorer_capturable := rfl
    restorer_accepted := hrestorer
    fits := by decide
    out_apart := ?_, back_apart := ?_, imports_apart := .inr ?_
    source_apart := ?_, target_apart := ?_ }, rfl, rfl, rfl, rfl, rfl, rfl, rfl, rfl⟩
  · rintro x ⟨_, hlt⟩ hx
    have := hvector 200 x hx
    change x < 100 + 4 at hlt
    omega
  · rintro x ⟨_, hlt⟩ hx
    have := hvector 300 x hx
    change x < 100 + 4 at hlt
    omega
  · intro x hx hx'
    have := hvector 200 x hx
    have := hvector 300 x hx'
    omega
  · intro x hx
    refine ⟨?_, fun h => ?_⟩
    · rintro ⟨_, hlt⟩
      change x < 100 + 4 at hlt
      rcases oneToken_inSlots hx with h | h <;> omega
    · have := hvector 200 x h
      rcases oneToken_inSlots hx with h | h <;> omega
  · intro x hx
    refine ⟨?_, fun h => ?_⟩
    · rintro ⟨_, hlt⟩
      change x < 100 + 4 at hlt
      rcases oneToken_inSlots hx with h | h <;> omega
    · have := hvector 300 x h
      rcases oneToken_inSlots hx with h | h <;> omega

/-- Ones in the source slots, zeroes everywhere else; nothing captured, nothing queued. -/
def sourceOnes : Node UInt8 :=
  ⟨⟨fun x => if 1000 ≤ x ∧ x < 3000 then 1 else 0, fun _ => []⟩, .fresh UInt8, .idle UInt8⟩

/-- A round whose restore makes its import after the donation. -/
theorem cross_node_lossless_iff_fresh_import : ∃ r : DirectRound, r.backImport = .fabricMapped ∧
    (Exchange.direct [⟨r, [.reimport]⟩]).Lossless sourceOnes := by
  obtain ⟨r, _, _, _, _, hback, _⟩ := exists_mappedRound
  exact ⟨r, hback, (cross_node_lossless_iff (.direct [⟨r, [.reimport]⟩]) sourceOnes rfl).mpr
    ⟨.inr (.inr (.inl mem_cons_self)), trivial⟩⟩

/-- **A stale import**: made before the donation, it restores the bytes that were there. -/
theorem stale_import : ∃ r : DirectRound, r.outImport = .fabricMapped ∧
    r.backImport = .fabricMapped ∧ ¬ (Exchange.direct [⟨r, []⟩]).Lossless sourceOnes := by
  obtain ⟨r, hout, hk, hv, houtImport, hback, houtMirror, hbackMirror, hoffset⟩ := exists_mappedRound
  refine ⟨r, houtImport, hback, fun hlossless => ?_⟩
  rcases (r.lossless_iff [] rfl).mp hlossless.1 with h | h | h | h
  · rw [hback] at h
    cases h
  · rw [houtMirror, hbackMirror] at h
    exact absurd h.2 (by decide)
  · exact absurd h not_mem_nil
  · have hbyte := h 0 (by rw [hout]; decide)
    rw [hout, hk, hv, hbackMirror, hoffset] at hbyte
    exact absurd hbyte (by decide)

end VKernels.Comm
