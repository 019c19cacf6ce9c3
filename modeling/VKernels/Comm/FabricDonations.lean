import VKernels.Comm.FabricBounds

/-!
# Donations to a shared fabric region

Several importers, each with its own mapped import of one handle, donate to the handle's memory.

* `expected` — what the donations are to leave in the exported memory: every donated layer, last
  donation last, and nothing else.

## Results

* `mirror_byte` — what a mirror holds after any run: the importer's own donations, and the bytes
  exported when the import was made everywhere else.
* `donations_kept_iff` — a complete run leaves the expected bytes exactly when every importer but
  the last to ship donated what was exported before.
* `lost_donation` — two donations to disjoint pages of which one is lost.
-/

namespace VKernels.Comm

open ByteCopies Effects
open List hiding le_refl

/-- Importers `ι` of one handle, with their mirrors; no two of these vectors overlap. -/
structure FabricSite (ι : Type) where
  handle : FabricHandle
  mirror : ι → ℕ
  handle_mirror : ∀ i, handle.bytes + handle.size ≤ mirror i ∨ mirror i + handle.size ≤ handle.bytes
  mirror_mirror : ∀ i j, i ≠ j →
    mirror i + handle.size ≤ mirror j ∨ mirror j + handle.size ≤ mirror i

namespace FabricSite

variable {ι : Type} (s : FabricSite ι)

/-- The import that `i` holds. -/
def fabric (i : ι) : FabricImport := FabricImport.ofHandle .fabricMapped s.handle (s.mirror i)

/-- The handle's bytes and the mirrors. -/
def Region (x : ℕ) : Prop :=
  (s.handle.bytes ≤ x ∧ x < s.handle.bytes + s.handle.size) ∨
    ∃ i, s.mirror i ≤ x ∧ x < s.mirror i + s.handle.size

/-- A donation of importer `i`: an accepted plan, and arguments of `execute` for which the layer
    lies in the region and the slots outside every vector of the site. -/
structure Donation (i : ι) where
  args : CrossNodeArgs
  plan : CrossNodeKvDonatePlan
  accepted : CrossNodeKvDonatePlan.construct args .fabricMapped (some (s.fabric i)) = .ok plan
  pages : args.numPages ≠ 0
  k : ℕ
  v : ℕ
  k_nonnull : k ≠ 0
  v_nonnull : v ≠ 0
  offset : ℕ
  fits : offset + args.totalBytes ≤ s.handle.size
  slots_apart : ∀ x, args.InSlots k v x → ¬ s.Region x

variable {s} in
/-- Position `x` of the exported memory is a byte of the donated layer. -/
def Donation.Covers {i : ι} (d : s.Donation i) (x : ℕ) : Prop :=
  d.offset ≤ x ∧ x < d.offset + d.args.totalBytes

variable {s} in
instance {i : ι} (d : s.Donation i) (x : ℕ) : Decidable (d.Covers x) :=
  inferInstanceAs (Decidable (_ ∧ _))

/-- A step of a run.  `store` and `ship` are the two statements of `execute`'s closure. -/
inductive Event where
  | store (i : ι) (d : s.Donation i)
  | ship (i : ι)
  | compute (f : Mem UInt8 → Mem UInt8) (keeps : ∀ m x, s.Region x → f m x = m x)

namespace Event

variable {s}

def run : s.Event → Eff (World UInt8) Unit
  | store _ d => d.plan.store d.k d.v d.offset
  | ship i => (s.fabric i).writeBack s.handle
  | compute f _ => deviceOp f

def after : s.Event → Mem UInt8 → Mem UInt8
  | store i d, m => runAll (donateCopies (d.args.direct (s.mirror i) d.k d.v d.offset)) m
  | ship i, m => (⟨s.handle.bytes, s.mirror i, s.handle.size⟩ : Copy).run m
  | compute f _, m => f m

/-- What the event makes of the expected exported bytes, in memory `m`. -/
def expect : s.Event → Mem UInt8 → (ℕ → UInt8) → ℕ → UInt8
  | store _ d, m, bytes => fun x =>
    if d.Covers x then m (d.args.packedSource d.k d.v (x - d.offset)) else bytes x
  | ship _, _, bytes => bytes
  | compute _ _, _, bytes => bytes

lemma perform_run (e : s.Event) (w : World UInt8) :
    perform e.run w = (.ok (), { w with mem := e.after w.mem }) := by
  cases e with
  | store i d =>
    exact CrossNodeKvDonatePlan.perform_store d.accepted rfl d.pages d.k_nonnull d.v_nonnull d.offset w
  | ship i =>
    show perform ((s.fabric i).writeBack s.handle) w = _
    have hfits : (s.fabric i).size ≤ s.handle.size := le_refl s.handle.size
    unfold FabricImport.writeBack
    rw [if_neg (by simp [fabric, FabricImport.ofHandle]), perform_require_bind hfits]
    rfl
  | compute f keeps => rfl

end Event

def run (es : List s.Event) : Eff (World UInt8) Unit := each es Event.run

def exported (m : Mem UInt8) : ℕ → UInt8 := fun x => m (s.handle.bytes + x)

/-- Memory and expected bytes, event by event. -/
def trace : List s.Event → Mem UInt8 → (ℕ → UInt8) → Mem UInt8 × (ℕ → UInt8)
  | [], m, bytes => (m, bytes)
  | e :: es, m, bytes => trace es (e.after m) (e.expect m bytes)

def expected (es : List s.Event) (m : Mem UInt8) : ℕ → UInt8 := (s.trace es m (s.exported m)).2

/-- Different importers donate to different pages. -/
def DisjointPages (es : List s.Event) : Prop :=
  ∀ i j, i ≠ j → ∀ (d : s.Donation i) (d' : s.Donation j), .store i d ∈ es → .store j d' ∈ es →
    ∀ x, d.Covers x → ¬ d'.Covers x

/-- Every donation of the run is complete: what is stored is shipped later. -/
def Complete (es : List s.Event) : Prop :=
  ∀ pre i d post, es = pre ++ .store i d :: post → .ship i ∈ post

/-- Every importer holds an import made from the exported bytes. -/
def Imports (m : Mem UInt8) : Prop :=
  ∀ i, ∀ x < s.handle.size, m (s.mirror i + x) = s.exported m x

/-- `i` is the last to ship. -/
def LastToShip (es : List s.Event) (i : ι) : Prop :=
  ∃ pre post, es = pre ++ .ship i :: post ∧ ∀ j, .ship j ∉ post

/-- No donation is lost: the run returns, and leaves the expected bytes. -/
def Kept (es : List s.Event) (w : World UInt8) : Prop :=
  ∃ w', perform (s.run es) w = (.ok (), w') ∧
    ∀ x < s.handle.size, s.exported w'.mem x = s.expected es w.mem x

/-! ## One event -/

section

variable {s} {i j : ι} {m : Mem UInt8} {bytes : ℕ → UInt8} {x : ℕ}

lemma store_frame (d : s.Donation i) (hx : ¬ (s.mirror i ≤ x ∧ x < s.mirror i + s.handle.size)) :
    (Event.store i d).after m x = m x := by
  have hfits := d.fits
  refine runAll_frame (fun hw => hx ?_) m
  have hw := donateCopies_writes_iff.mp hw
  omega

lemma store_mirror (d : s.Donation i) : (Event.store i d).after m (s.mirror i + x) =
    if d.Covers x then m (d.args.packedSource d.k d.v (x - d.offset)) else m (s.mirror i + x) := by
  have hfits := d.fits
  by_cases hcov : d.Covers x
  · obtain ⟨hle, hlt⟩ := hcov
    have hsep : ∀ y, d.args.InSlots d.k d.v y →
        ¬ (s.mirror i + d.offset ≤ y ∧ y < s.mirror i + d.offset + d.args.totalBytes) :=
      fun y hy hin => d.slots_apart y hy (.inr ⟨i, by omega, by omega⟩)
    have hvalue := donateCopies_value (m := m) hsep (j := x - d.offset) (by omega)
    rw [if_pos ⟨hle, hlt⟩, ← hvalue]
    show runAll _ m _ = runAll _ m _
    congr 1
    omega
  · rw [if_neg hcov]
    refine runAll_frame (fun hw => hcov ?_) m
    have hw := donateCopies_writes_iff.mp hw
    exact ⟨by omega, by omega⟩

lemma ship_frame (hx : ¬ (s.handle.bytes ≤ x ∧ x < s.handle.bytes + s.handle.size)) :
    (Event.ship (s := s) i).after m x = m x := if_neg hx

lemma ship_exported (hx : x < s.handle.size) :
    s.exported ((Event.ship (s := s) i).after m) x = m (s.mirror i + x) := by
  have hrun : s.exported ((Event.ship (s := s) i).after m) x = m _ :=
    if_pos ⟨Nat.le_add_right _ _, Nat.add_lt_add_left hx _⟩
  rw [hrun, Nat.add_sub_cancel_left]

lemma exported_after {e : s.Event} (he : ∀ i, e ≠ .ship i) (hx : x < s.handle.size) :
    s.exported (e.after m) x = s.exported m x := by
  cases e with
  | store i d =>
    refine store_frame d ?_
    rcases s.handle_mirror i with h | h <;> omega
  | ship i => exact absurd rfl (he i)
  | compute f keeps => exact keeps m _ (.inl ⟨by omega, by omega⟩)

lemma mirror_after {e : s.Event} (he : ∀ d : s.Donation i, e = .store i d → ¬ d.Covers x)
    (hx : x < s.handle.size) : e.after m (s.mirror i + x) = m (s.mirror i + x) := by
  cases e with
  | store j d =>
    by_cases hij : j = i
    · subst hij
      rw [store_mirror, if_neg (he d rfl)]
    · refine store_frame d ?_
      rcases s.mirror_mirror j i hij with h | h <;> omega
  | ship j =>
    refine ship_frame ?_
    rcases s.handle_mirror i with h | h <;> omega
  | compute f keeps => exact keeps m _ (.inr ⟨i, by omega, by omega⟩)

lemma expect_after {e : s.Event} (he : ∀ j, ∀ d : s.Donation j, e = .store j d → ¬ d.Covers x) :
    e.expect m bytes x = bytes x := by
  cases e with
  | store j d => exact if_neg (he j d rfl)
  | ship j => rfl
  | compute f keeps => rfl

end

/-! ## Runs -/

section

variable {s}

/-- Importer `i` stores position `x` somewhere in the run. -/
def Stored (es : List s.Event) (i : ι) (x : ℕ) : Prop :=
  ∃ d : s.Donation i, .store i d ∈ es ∧ d.Covers x

lemma perform_run : ∀ (es : List s.Event) (w : World UInt8) (bytes : ℕ → UInt8),
    perform (s.run es) w = (.ok (), { w with mem := (s.trace es w.mem bytes).1 })
  | [], _, _ => rfl
  | e :: es, w, bytes => by
    unfold run
    rw [each, perform_bind, e.perform_run w]
    exact perform_run es _ _

lemma trace_append : ∀ (es es' : List s.Event) (m : Mem UInt8) (bytes : ℕ → UInt8),
    s.trace (es ++ es') m bytes = s.trace es' (s.trace es m bytes).1 (s.trace es m bytes).2
  | [], _, _, _ => rfl
  | e :: es, es', m, bytes => trace_append es es' (e.after m) (e.expect m bytes)

lemma DisjointPages.tail {e : s.Event} {es : List s.Event} (h : s.DisjointPages (e :: es)) : s.DisjointPages es :=
  fun i j hij d d' hd hd' => h i j hij d d' (mem_cons_of_mem _ hd) (mem_cons_of_mem _ hd')

lemma expected_frame {x : ℕ} : ∀ {es : List s.Event}, (∀ j, ¬ Stored es j x) →
    ∀ (m : Mem UInt8) (bytes : ℕ → UInt8), (s.trace es m bytes).2 x = bytes x
  | [], _, _, _ => rfl
  | e :: es, h, m, bytes => by
    have hes : ∀ j, ¬ Stored es j x := fun j ⟨d, hd, hcov⟩ => h j ⟨d, mem_cons_of_mem _ hd, hcov⟩
    show (s.trace es (e.after m) (e.expect m bytes)).2 x = _
    rw [expected_frame hes]
    exact expect_after fun j d he hcov => h j ⟨d, he ▸ mem_cons_self, hcov⟩

lemma exported_frame {x : ℕ} (hx : x < s.handle.size) : ∀ {es : List s.Event},
    (∀ j, .ship j ∉ es) → ∀ (m : Mem UInt8) (bytes : ℕ → UInt8), s.exported (s.trace es m bytes).1 x = s.exported m x
  | [], _, _, _ => rfl
  | e :: es, h, m, bytes => by
    have hes : ∀ j, .ship j ∉ es := fun j hj => h j (mem_cons_of_mem _ hj)
    show s.exported (s.trace es (e.after m) (e.expect m bytes)).1 x = _
    rw [exported_frame hx hes]
    exact exported_after (fun j he => h j (he ▸ mem_cons_self)) hx

lemma mirror_frame {i : ι} {x : ℕ} (hx : x < s.handle.size) : ∀ {es : List s.Event},
    ¬ Stored es i x → ∀ (m : Mem UInt8) (bytes : ℕ → UInt8),
      (s.trace es m bytes).1 (s.mirror i + x) = m (s.mirror i + x)
  | [], _, _, _ => rfl
  | e :: es, h, m, bytes => by
    have hes : ¬ Stored es i x := fun ⟨d, hd, hcov⟩ => h ⟨d, mem_cons_of_mem _ hd, hcov⟩
    show (s.trace es (e.after m) (e.expect m bytes)).1 _ = _
    rw [mirror_frame hx hes]
    exact mirror_after (fun d he hcov => h ⟨d, he ▸ mem_cons_self, hcov⟩) hx

lemma mirror_byte {i : ι} {x : ℕ} (hx : x < s.handle.size) : ∀ {es : List s.Event},
    s.DisjointPages es → Stored es i x → ∀ (m : Mem UInt8) (bytes : ℕ → UInt8),
      (s.trace es m bytes).1 (s.mirror i + x) = (s.trace es m bytes).2 x
  | [], _, h, _, _ => by
    obtain ⟨_, hd, _⟩ := h
    exact absurd hd not_mem_nil
  | e :: es, hdisj, h, m, bytes => by
    show (s.trace es (e.after m) (e.expect m bytes)).1 _ =
      (s.trace es _ _).2 x
    by_cases hes : Stored es i x
    · exact mirror_byte hx hdisj.tail hes _ _
    · -- the first event is the last store of `x`
      obtain ⟨d, hd, hcov⟩ := h
      rcases mem_cons.mp hd with rfl | hd
      · have hnone : ∀ j, ¬ Stored es j x := by
          rintro j ⟨d', hd', hcov'⟩
          by_cases hij : i = j
          · subst hij
            exact hes ⟨d', hd', hcov'⟩
          · exact hdisj i j hij d d' mem_cons_self (mem_cons_of_mem _ hd') x hcov hcov'
        rw [mirror_frame hx hes, expected_frame hnone, store_mirror, if_pos hcov]
        exact (if_pos hcov).symm
      · exact absurd ⟨d, hd, hcov⟩ hes

end

/-! ## What is left of the donations -/

section

variable {s} {es : List s.Event} {w : World UInt8}

lemma kept_iff : s.Kept es w ↔ ∀ x < s.handle.size,
    s.exported (s.trace es w.mem (s.exported w.mem)).1 x = s.expected es w.mem x := by
  constructor
  · rintro ⟨_, hrun, hkept⟩
    rw [perform_run es w (s.exported w.mem)] at hrun
    cases hrun
    exact hkept
  · exact fun h => ⟨_, perform_run es w _, h⟩

lemma kept_of_no_ship (hcomplete : s.Complete es) (hnone : ∀ i, .ship i ∉ es) : s.Kept es w := by
  refine kept_iff.mpr fun x hx => ?_
  have hstored : ∀ j, ¬ Stored es j x := by
    rintro j ⟨d, hd, _⟩
    obtain ⟨pre, post, rfl⟩ := append_of_mem hd
    have hship := hcomplete pre j d post rfl
    exact hnone j (by simp [hship])
  unfold expected
  rw [exported_frame hx hnone, expected_frame hstored]

lemma kept_iff_of_last {i : ι} {pre post : List s.Event} (hes : es = pre ++ .ship i :: post)
    (hlast : ∀ j, .ship j ∉ post) (hdisj : s.DisjointPages es) (hcomplete : s.Complete es)
    (himports : s.Imports w.mem) : s.Kept es w ↔ ∀ j ≠ i, ∀ d : s.Donation j, .store j d ∈ es →
      ∀ x, d.Covers x → s.expected es w.mem x = s.exported w.mem x := by
  -- nothing is stored after the last ship
  have hpost : ∀ j, ∀ d : s.Donation j, .store j d ∉ post := by
    intro j d hd
    obtain ⟨mid, rest, rfl⟩ := append_of_mem hd
    have hship := hcomplete (pre ++ .ship i :: mid) j d rest (by simp [hes])
    exact hlast j (by simp [hship])
  have hstored : ∀ j x, Stored es j x ↔ Stored pre j x := by
    intro j x
    have hmem : ∀ d : s.Donation j, .store j d ∈ es ↔ .store j d ∈ pre := by
      intro d
      rw [hes]
      simp [hpost j d]
    unfold Stored
    simp [hmem]
  have hpre : s.DisjointPages pre := by
    intro j k hjk d d' hd hd'
    exact hdisj j k hjk d d' (by simp [hes, hd]) (by simp [hes, hd'])
  have hexported : ∀ x < s.handle.size, s.exported (s.trace es w.mem (s.exported w.mem)).1 x =
      (s.trace pre w.mem (s.exported w.mem)).1 (s.mirror i + x) := by
    intro x hx
    rw [hes, trace_append]
    exact (exported_frame hx hlast _ _).trans (ship_exported hx)
  have hexpected : ∀ x, s.expected es w.mem x = (s.trace pre w.mem (s.exported w.mem)).2 x := by
    intro x
    unfold expected
    rw [hes, trace_append]
    have hnone : ∀ j, ¬ Stored post j x := fun j ⟨d, hd, _⟩ => hpost j d hd
    exact expected_frame hnone _ _
  have hmine : ∀ x < s.handle.size, Stored es i x →
      s.exported (s.trace es w.mem (s.exported w.mem)).1 x = s.expected es w.mem x := by
    intro x hx hst
    rw [hexported x hx, hexpected x, mirror_byte hx hpre ((hstored i x).mp hst)]
  have hother : ∀ x < s.handle.size, ¬ Stored es i x →
      s.exported (s.trace es w.mem (s.exported w.mem)).1 x = s.exported w.mem x := by
    intro x hx hst
    rw [hexported x hx, mirror_frame hx (fun h => hst ((hstored i x).mpr h)), himports i x hx]
  rw [kept_iff]
  constructor
  · intro hkept j hji d hd x hcov
    have hx : x < s.handle.size := by
      have := d.fits
      have := hcov.2
      omega
    have hst : ¬ Stored es i x := fun ⟨d', hd', hcov'⟩ => hdisj j i hji d d' hd hd' x hcov hcov'
    rw [← hkept x hx, hother x hx hst]
  · intro hsame x hx
    by_cases hst : Stored es i x
    · exact hmine x hx hst
    · rw [hother x hx hst]
      by_cases hany : ∃ j, Stored es j x
      · obtain ⟨j, d, hd, hcov⟩ := hany
        have hji : j ≠ i := by
          rintro rfl
          exact hst ⟨d, hd, hcov⟩
        exact (hsame j hji d hd x hcov).symm
      · unfold expected
        rw [expected_frame (fun j hj => hany ⟨j, hj⟩)]

lemma exists_lastToShip : ∀ {es : List s.Event} {i : ι}, .ship i ∈ es → ∃ j, s.LastToShip es j
  | [], _, h => absurd h not_mem_nil
  | e :: es, i, h => by
    by_cases hes : ∃ j, .ship j ∈ es
    · obtain ⟨j, hj⟩ := hes
      obtain ⟨k, pre, post, rfl, hlast⟩ := exists_lastToShip hj
      exact ⟨k, e :: pre, post, rfl, hlast⟩
    · rcases mem_cons.mp h with rfl | h
      · exact ⟨i, [], es, rfl, fun j hj => hes ⟨j, hj⟩⟩
      · exact absurd ⟨i, h⟩ hes

end

/-- **Donations of several importers.**  A complete run of donations to disjoint pages keeps every
    one of them exactly when the importers other than the last to ship donated bytes that were
    exported before. -/
theorem donations_kept_iff (es : List s.Event) (w : World UInt8) (hdisj : s.DisjointPages es)
    (hcomplete : s.Complete es) (himports : s.Imports w.mem) :
    s.Kept es w ↔ ∀ i, s.LastToShip es i → ∀ j ≠ i, ∀ d : s.Donation j, .store j d ∈ es →
      ∀ x, d.Covers x → s.expected es w.mem x = s.exported w.mem x := by
  constructor
  · rintro hkept i ⟨pre, post, hes, hlast⟩
    exact (kept_iff_of_last hes hlast hdisj hcomplete himports).mp hkept
  · intro hsame
    by_cases hship : ∃ i, .ship i ∈ es
    · obtain ⟨i, hi⟩ := hship
      obtain ⟨j, hj⟩ := exists_lastToShip hi
      obtain ⟨pre, post, hes, hlast⟩ := hj
      exact (kept_iff_of_last hes hlast hdisj hcomplete himports).mpr (hsame j ⟨pre, post, hes, hlast⟩)
    · exact kept_of_no_ship hcomplete fun i hi => hship ⟨i, hi⟩

lemma Complete.donate {s : FabricSite ι} {i : ι} {es : List s.Event} (h : s.Complete es)
    (d : s.Donation i) : s.Complete (.store i d :: .ship i :: es) := by
  intro pre j e post heq
  cases pre with
  | nil =>
    cases heq
    exact mem_cons_self
  | cons a pre =>
    have heq := (List.cons.inj heq).2
    cases pre with
    | nil => cases (List.cons.inj heq).1
    | cons b pre => exact h pre j e post (List.cons.inj heq).2

lemma complete_nil (s : FabricSite ι) : s.Complete [] := by
  intro _ i d _ heq
  simp at heq

end FabricSite

/-! ## Two importers -/

/-- Eight exported bytes with two importers. -/
def twoImporters : FabricSite Bool where
  handle := ⟨100, 8⟩
  mirror i := if i then 300 else 200
  handle_mirror i := by cases i <;> decide
  mirror_mirror i j hij := by cases i <;> cases j <;> simp_all

/-- Importer `i` donates four bytes, at 0 or at 4. -/
lemma exists_halfDonation (i : Bool) :
    ∃ d : twoImporters.Donation i, d.args = oneToken ∧ d.offset = (if i then 4 else 0) ∧ d.k = 1000 ∧ d.v = 2000 := by
  obtain ⟨plan, hplan⟩ : ∃ plan, CrossNodeKvDonatePlan.construct oneToken .fabricMapped
      (some (twoImporters.fabric i)) = .ok plan := by
    cases i
    · exact ⟨_, rfl⟩
    · exact ⟨_, rfl⟩
  refine ⟨⟨oneToken, plan, hplan, by decide, 1000, 2000, by decide, by decide,
    if i then 4 else 0, ?_, ?_⟩, rfl, rfl, rfl, rfl⟩
  · cases i <;> decide
  · rintro x hx (⟨_, hlt⟩ | ⟨j, _, hlt⟩)
    · change x < 100 + 8 at hlt
      rcases oneToken_inSlots hx with h | h <;> omega
    · change x < (if j then 300 else 200) + 8 at hlt
      rcases oneToken_inSlots hx with h | h <;> cases j <;> simp at hlt <;> omega

/-- Ones in the caches, zeroes everywhere else. -/
def onesAbove : World UInt8 := ⟨fun x => if 1000 ≤ x then 1 else 0, fun _ => []⟩

lemma onesAbove_imports : twoImporters.Imports onesAbove.mem := by
  intro i x hx
  change x < 8 at hx
  have hmirror : twoImporters.mirror i + x < 1000 := by
    cases i <;> simp [twoImporters] <;> omega
  have hhandle : twoImporters.handle.bytes + x < 1000 := by
    simp only [twoImporters]
    omega
  show (if 1000 ≤ twoImporters.mirror i + x then (1 : UInt8) else 0) =
    if 1000 ≤ twoImporters.handle.bytes + x then 1 else 0
  rw [if_neg (by omega), if_neg (by omega)]

/-- One donation of one importer is kept. -/
theorem donations_kept_iff_single : ∃ d : twoImporters.Donation false,
    twoImporters.Kept [.store false d, .ship false] onesAbove := by
  obtain ⟨d, _⟩ := exists_halfDonation false
  have hdisj : twoImporters.DisjointPages [.store false d, .ship false] := by
    intro i j hij e _ he he'
    cases i <;> cases j <;> simp at *
  refine ⟨d, (FabricSite.donations_kept_iff _ _ _ hdisj
    ((FabricSite.complete_nil _).donate d) onesAbove_imports).mpr ?_⟩
  rintro i ⟨_, _, heq, _⟩ j hji e he
  have hship : FabricSite.Event.ship i ∈ [.store false d, .ship false] := by
    rw [heq]
    simp
  have hi : i = false := by simpa using hship
  have hj : j = true := by
    cases j
    · exact absurd hi.symm hji
    · rfl
  subst hj
  simp at he

/-- **A lost donation**: both importers donate ones to pages of their own, and the write-back of
    the second puts the zeroes back that were exported when its import was made. -/
theorem lost_donation : ∃ (d : twoImporters.Donation false) (d' : twoImporters.Donation true)
    (es : List twoImporters.Event), es = [.store false d, .ship false, .store true d', .ship true] ∧
      twoImporters.DisjointPages es ∧ twoImporters.Complete es ∧
      twoImporters.Imports onesAbove.mem ∧ ¬ twoImporters.Kept es onesAbove := by
  obtain ⟨d, hargs, hoff, hk, hv⟩ := exists_halfDonation false
  obtain ⟨d', hargs', hoff', _⟩ := exists_halfDonation true
  have hcov : ∀ x, d.Covers x ↔ x < 4 := by
    intro x
    unfold FabricSite.Donation.Covers
    rw [hargs, hoff]
    show 0 ≤ x ∧ x < 0 + 4 ↔ x < 4
    omega
  have hcov' : ∀ x, d'.Covers x ↔ 4 ≤ x ∧ x < 8 := by
    intro x
    unfold FabricSite.Donation.Covers
    rw [hargs', hoff']
    exact Iff.rfl
  have hdisj : twoImporters.DisjointPages [.store false d, .ship false, .store true d', .ship true] := by
    intro i j hij e e' he he' x hx hx'
    cases i <;> cases j
    · exact hij rfl
    · obtain rfl : e = d := by simpa using he
      obtain rfl : e' = d' := by simpa using he'
      have := (hcov x).mp hx
      have := (hcov' x).mp hx'
      omega
    · obtain rfl : e = d' := by simpa using he
      obtain rfl : e' = d := by simpa using he'
      have := (hcov' x).mp hx
      have := (hcov x).mp hx'
      omega
    · exact hij rfl
  have hcomplete := ((FabricSite.complete_nil twoImporters).donate d').donate d
  refine ⟨d, d', _, rfl, hdisj, hcomplete, onesAbove_imports, fun hkept => ?_⟩
  have hsplit : ([.store false d, .ship false, .store true d', .ship true] : List twoImporters.Event) =
      [.store false d, .ship false, .store true d'] ++ .ship true :: [] := rfl
  have hsame := (FabricSite.kept_iff_of_last hsplit (by simp) hdisj hcomplete onesAbove_imports).mp hkept
  have hbyte : onesAbove.mem (d.args.packedSource d.k d.v (0 - d.offset)) = twoImporters.exported onesAbove.mem 0 := by
    rw [← hsame false (by decide) d (by simp) 0 ((hcov 0).mpr (by omega))]
    show _ = if d'.Covers 0 then _ else if d.Covers 0 then _ else _
    rw [if_neg (by rw [hcov']; omega), if_pos ((hcov 0).mpr (by omega))]
  rw [hargs, hoff, hk, hv] at hbyte
  exact absurd hbyte (by decide)

end VKernels.Comm
