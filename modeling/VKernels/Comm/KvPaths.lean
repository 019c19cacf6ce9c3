import VKernels.Comm.KvDonate
import VKernels.Comm.KvRestore

/-!
# Agreement, round trip and failure of the KV paths

## Results

* `kv_paths_agree` — the paths of a donation agree, the paths of a restore agree, neither touches
  anything else, and a restore of a donation gives back the bytes.
* `kv_atomic_failure_iff` — a throwing call has done nothing exactly when the throw comes before
  the first page is copied or enqueued.
* `partial_donation` — a null page behind a good one leaves the good one written.
-/

namespace VKernels.Comm

open ByteCopies
open List
open UInt8 (ofNat)

/-- The bytes a path may use for staging. -/
def KvArgs.InScratch (a : KvArgs) (scratch x : ℕ) : Prop :=
  scratch ≤ x ∧ x < scratch + a.numPages * a.pageBytes

lemma KvArgs.inScratch_at (a : KvArgs) {scratch j : ℕ} (hj : j < a.numPages * a.pageBytes) :
    a.InScratch scratch (scratch + j) := ⟨by omega, by omega⟩

/-! ## Copies that disturb nothing -/

section

variable {a : KvArgs} {numSlots : ℕ} {S : ℕ → Prop}

/-- Pages of one layer do not overlap. -/
def KvArgs.PagesDisjoint (a : KvArgs) : Prop :=
  ∀ p < a.numPages, ∀ q < a.numPages, p ≠ q → ∀ x, a.InPage p x → ¬ a.InPage q x

/-- The K cache and the V cache do not overlap. -/
def KvArgs.CachesDisjoint (a : KvArgs) (numSlots : ℕ) : Prop :=
  ∀ x, a.k ≤ x → x < a.k + numSlots * a.slotBytes →
    ¬ (a.v ≤ x ∧ x < a.v + numSlots * a.slotBytes)

lemma donateCopies_exclusive (hpages : a.PagesDisjoint) : Exclusive (donateCopies a) := by
  refine pairwise_flatMap.mpr ⟨fun p _ => gatherPage_exclusive, ?_⟩
  refine (pairwise_lt_range).imp_of_mem fun {p q} hp hq hpq c hc d hd x hcx hdx => ?_
  exact hpages p (mem_range.mp hp) q (mem_range.mp hq) hpq.ne x
    (donatePage_writes ⟨c, hc, hcx⟩) (donatePage_writes ⟨d, hd, hdx⟩)

lemma slot_ranges_disjoint {base sb s t x : ℕ} (hst : s ≠ t) (hs : base + s * sb ≤ x ∧ x < base + s * sb + sb) :
    ¬ (base + t * sb ≤ x ∧ x < base + t * sb + sb) := by
  intro ht
  rcases lt_or_gt_of_ne hst with h | h
  · have := Blocks.block_le h sb
    omega
  · have := Blocks.block_le h sb
    omega

lemma slot_in_cache (hv : a.Valid numSlots S) {base i x : ℕ} (hi : i < a.numPages * a.pageSize)
    (hx : base + (a.slot i).toNat * a.slotBytes ≤ x ∧ x < base + (a.slot i).toNat * a.slotBytes + a.slotBytes) :
    base ≤ x ∧ x < base + numSlots * a.slotBytes := by
  obtain ⟨h0, hlt, _⟩ := hv.slots i hi
  have hle := Blocks.block_le (show (a.slot i).toNat < numSlots by omega) a.slotBytes
  omega

/-- `c` writes the K or the V slot of token `i`. -/
def KvArgs.TokenCopy (a : KvArgs) (i : ℕ) (c : Copy) : Prop :=
  (c.dst = a.k + (a.slot i).toNat * a.slotBytes ∨ c.dst = a.v + (a.slot i).toNat * a.slotBytes) ∧
    c.len = a.slotBytes

variable {c : Copy} {p : ℕ}

/-- The copies of two tokens write no common byte. -/
lemma tokens_apart (hv : a.Valid numSlots S) (huniq : a.UniqueSlots)
    (hkv : a.CachesDisjoint numSlots) {i j : ℕ} (hi : i < a.numPages * a.pageSize)
    (hj : j < a.numPages * a.pageSize) (hij : i ≠ j) {d : Copy} (hc : a.TokenCopy i c)
    (hd : a.TokenCopy j d) : c.Apart d := by
  have hne : (a.slot i).toNat ≠ (a.slot j).toNat := by
    intro he
    have := (hv.slots i hi).1
    have := (hv.slots j hj).1
    exact hij (huniq i hi j hj (by omega))
  intro x hcx hdx
  unfold Copy.Writes at hcx hdx
  rw [hc.2] at hcx
  rw [hd.2] at hdx
  rcases hc.1 with hck | hcv <;> rcases hd.1 with hdk | hdv
  · rw [hck] at hcx
    rw [hdk] at hdx
    exact slot_ranges_disjoint hne hcx hdx
  · rw [hck] at hcx
    rw [hdv] at hdx
    exact hkv x (slot_in_cache hv hi hcx).1 (slot_in_cache hv hi hcx).2 (slot_in_cache hv hj hdx)
  · rw [hcv] at hcx
    rw [hdk] at hdx
    exact hkv x (slot_in_cache hv hj hdx).1 (slot_in_cache hv hj hdx).2 (slot_in_cache hv hi hcx)
  · rw [hcv] at hcx
    rw [hdv] at hdx
    exact slot_ranges_disjoint hne hcx hdx

lemma restorePage_token (hc : c ∈ restorePage a p) : ∃ t < a.pageSize, a.TokenCopy (p * a.pageSize + t) c := by
  obtain ⟨t, ht, rfl | rfl⟩ := mem_scatterPage.mp hc
  · exact ⟨t, ht, .inl rfl, rfl⟩
  · exact ⟨t, ht, .inr rfl, rfl⟩

lemma token_ne {q t u : ℕ} (hpq : p < q) (ht : t < a.pageSize) : p * a.pageSize + t ≠ q * a.pageSize + u := by
  have := Blocks.block_le hpq a.pageSize
  omega

lemma restoreCopies_exclusive (hv : a.Valid numSlots S) (huniq : a.UniqueSlots)
    (hkv : a.CachesDisjoint numSlots) : Exclusive (restoreCopies a) := by
  refine pairwise_flatMap.mpr ⟨fun p hp => ?_, ?_⟩
  · have hp := mem_range.mp hp
    refine pairwise_flatMap.mpr ⟨fun t ht => ?_, ?_⟩
    · have hi := KvArgs.token_lt hp (mem_range.mp ht)
      refine pairwise_pair.mpr fun x hx hy => ?_
      exact hkv x (slot_in_cache hv hi hx).1 (slot_in_cache hv hi hx).2 (slot_in_cache hv hi hy)
    · refine (pairwise_lt_range).imp_of_mem fun {t u} ht hu htu c hc d hd => ?_
      have ht := mem_range.mp ht
      have hu := mem_range.mp hu
      have htok : ∀ {t c}, c ∈ [(⟨a.k + (a.pageSlots p t).toNat * a.slotBytes,
          a.pageBase p + t * (2 * a.slotBytes), a.slotBytes⟩ : Copy), ⟨a.v + (a.pageSlots p t).toNat * a.slotBytes,
            a.pageBase p + t * (2 * a.slotBytes) + a.slotBytes, a.slotBytes⟩] → a.TokenCopy (p * a.pageSize + t) c := by
        intro t c hc
        simp only [mem_cons, not_mem_nil, or_false] at hc
        rcases hc with rfl | rfl
        · exact ⟨.inl rfl, rfl⟩
        · exact ⟨.inr rfl, rfl⟩
      exact tokens_apart hv huniq hkv (KvArgs.token_lt hp ht) (KvArgs.token_lt hp hu) (by omega) (htok hc) (htok hd)
  · refine (pairwise_lt_range).imp_of_mem fun {p q} hp hq hpq c hc d hd => ?_
    obtain ⟨t, ht, hct⟩ := restorePage_token hc
    obtain ⟨u, hu, hdu⟩ := restorePage_token hd
    exact tokens_apart hv huniq hkv (KvArgs.token_lt (mem_range.mp hp) ht)
      (KvArgs.token_lt (mem_range.mp hq) hu) (token_ne hpq ht) hct hdu

lemma donatePage_mem (hp : p < a.numPages) (hc : c ∈ donatePage a p) :
    c ∈ donateCopies a := mem_flatMap.mpr ⟨p, mem_range.mpr hp, hc⟩

lemma restorePage_mem (hp : p < a.numPages) (hc : c ∈ restorePage a p) :
    c ∈ restoreCopies a := mem_flatMap.mpr ⟨p, mem_range.mpr hp, hc⟩

end

/-! ## There and back -/

/-- Layers of one slot map and page map, donated from `k`, `v` and restored into `k2`, `v2`, each
    layer through its own path.  Layer `l` of a page lies at `l * page_bytes`. -/
structure RoundTrip where
  layers : ℕ
  numSlots : ℕ
  scratch : ℕ
  shape : KvArgs
  k : ℕ → ℕ
  v : ℕ → ℕ
  k2 : ℕ → ℕ
  v2 : ℕ → ℕ
  donatePath : ℕ → DonatePath
  donateStream : ℕ → Bool
  restorePath : ℕ → RestorePath
  restoreStream : ℕ → Bool

namespace RoundTrip

variable (r : RoundTrip)

/-- The arguments of the donation of layer `l`. -/
def out (l : ℕ) : KvArgs :=
  { r.shape with
    k := r.k l
    v := r.v l
    pageOffsets := some fun _ => l * r.shape.pageBytes }

/-- The arguments of the restore of layer `l`. -/
def back (l : ℕ) : KvArgs :=
  { r.shape with
    k := r.k2 l
    v := r.v2 l
    pageOffsets := some fun _ => l * r.shape.pageBytes }

def donations : List Call := (List.range r.layers).map fun l =>
  (r.donatePath l).call (r.out l) r.numSlots r.scratch (r.donateStream l)

def restores : List Call := (List.range r.layers).map fun l =>
  (r.restorePath l).call (r.back l) r.numSlots r.scratch (r.restoreStream l)

/-- Every call is valid, no slot repeats, and sources, pages and targets of all layers are apart. -/
structure Separate : Prop where
  scratch_ne : r.scratch ≠ 0
  unique : r.shape.UniqueSlots
  out_valid : ∀ l < r.layers, (r.out l).Valid r.numSlots (r.shape.InScratch r.scratch)
  back_valid : ∀ l < r.layers, (r.back l).Valid r.numSlots (r.shape.InScratch r.scratch)
  sources : ∀ l < r.layers, ∀ j < r.layers, ∀ x,
    (r.out l).InCache r.numSlots x → ¬ (r.out j).InPages x
  targets : ∀ l < r.layers, ∀ j < r.layers, ∀ x,
    (r.back l).InCache r.numSlots x → ¬ (r.back j).InPages x
  pages : ∀ l < r.layers, (r.out l).PagesDisjoint
  pages_layers : ∀ l < r.layers, ∀ j < r.layers, l ≠ j → ∀ x,
    (r.out l).InPages x → ¬ (r.out j).InPages x
  caches : ∀ l < r.layers, (r.back l).CachesDisjoint r.numSlots
  caches_layers : ∀ l < r.layers, ∀ j < r.layers, l ≠ j → ∀ x,
    (r.back l).InCache r.numSlots x → ¬ (r.back j).InCache r.numSlots x

def donated : List Copy := (List.range r.layers).flatMap fun l => donateCopies (r.out l)
def restored : List Copy := (List.range r.layers).flatMap fun l => restoreCopies (r.back l)

variable {r}

variable {c : Copy}

lemma mem_donated (h : c ∈ r.donated) : ∃ l < r.layers, c ∈ donateCopies (r.out l) := by
  obtain ⟨l, hl, hc⟩ := mem_flatMap.mp h
  exact ⟨l, mem_range.mp hl, hc⟩

lemma mem_restored (h : c ∈ r.restored) : ∃ l < r.layers, c ∈ restoreCopies (r.back l) := by
  obtain ⟨l, hl, hc⟩ := mem_flatMap.mp h
  exact ⟨l, mem_range.mp hl, hc⟩

lemma donated_clean (h : r.Separate) : Clean r.donated := by
  rintro x ⟨c, hc, hr⟩ ⟨d, hd, hw⟩
  obtain ⟨l, hl, hc⟩ := mem_donated hc
  obtain ⟨j, hj, hd⟩ := mem_donated hd
  exact h.sources l hl j hj x ((h.out_valid l hl).slots_cache (donateCopies_reads ⟨c, hc, hr⟩))
    (donateCopies_writes ⟨d, hd, hw⟩)

lemma donated_exclusive (h : r.Separate) : Exclusive r.donated := by
  refine pairwise_flatMap.mpr ⟨fun l hl => ?_, ?_⟩
  · exact donateCopies_exclusive (h.pages l (mem_range.mp hl))
  · refine (pairwise_lt_range).imp_of_mem fun {l j} hl hj hlj c hc d hd x hcx hdx => ?_
    exact h.pages_layers l (mem_range.mp hl) j (mem_range.mp hj) hlj.ne x
      (donateCopies_writes ⟨c, hc, hcx⟩) (donateCopies_writes ⟨d, hd, hdx⟩)

lemma restored_clean (h : r.Separate) : Clean r.restored := by
  rintro x ⟨c, hc, hr⟩ ⟨d, hd, hw⟩
  obtain ⟨l, hl, hc⟩ := mem_restored hc
  obtain ⟨j, hj, hd⟩ := mem_restored hd
  exact h.targets j hj l hl x ((h.back_valid j hj).slots_cache (restoreCopies_writes ⟨d, hd, hw⟩))
    (restoreCopies_reads ⟨c, hc, hr⟩)

lemma restored_exclusive (h : r.Separate) : Exclusive r.restored := by
  refine pairwise_flatMap.mpr ⟨fun l hl => ?_, ?_⟩
  · have hl := mem_range.mp hl
    exact restoreCopies_exclusive (h.back_valid l hl) h.unique (h.caches l hl)
  · refine (pairwise_lt_range).imp_of_mem fun {l j} hl hj hlj c hc d hd x hcx hdx => ?_
    have hl := mem_range.mp hl
    have hj := mem_range.mp hj
    exact h.caches_layers l hl j hj hlj.ne x ((h.back_valid l hl).slots_cache (restoreCopies_writes ⟨c, hc, hcx⟩))
      ((h.back_valid j hj).slots_cache (restoreCopies_writes ⟨d, hd, hdx⟩))

/-- A byte of a donated slot, copied out by `c` and back by `d`. -/
lemma byte_back (h : r.Separate) (m : Mem UInt8) {d : Copy} (hc : c ∈ r.donated)
    (hd : d ∈ r.restored) (hlink : d.src = c.dst) (hlen : d.len = c.len) {b : ℕ} (hb : b < c.len) :
    runAll r.restored (runAll r.donated m) (d.dst + b) = m (c.src + b) := by
  rw [runAll_of_clean (restored_clean h) (restored_exclusive h) _ hd (by omega), hlink,
    runAll_of_clean (donated_clean h) (donated_exclusive h) _ hc hb]

/-- The bytes of slot `pageSlots p t` in the caches at `k`, `v` of `m` and at `k2`, `v2` of `m'`
    are the same. -/
def Returned (r : RoundTrip) (m m' : Mem UInt8) : Prop :=
  ∀ l < r.layers, ∀ p < r.shape.numPages, ∀ t < r.shape.pageSize, ∀ b < r.shape.slotBytes,
    m' (r.k2 l + (r.shape.pageSlots p t).toNat * r.shape.slotBytes + b) =
        m (r.k l + (r.shape.pageSlots p t).toNat * r.shape.slotBytes + b) ∧
      m' (r.v2 l + (r.shape.pageSlots p t).toNat * r.shape.slotBytes + b) =
        m (r.v l + (r.shape.pageSlots p t).toNat * r.shape.slotBytes + b)

lemma returned (h : r.Separate) (m : Mem UInt8) :
    ∃ m', finishAll (r.donations ++ r.restores) m = some m' ∧ r.Returned m m' := by
  have hout : ∀ l ∈ range r.layers, ∃ f, (∀ m, finish ((r.donatePath l).call (r.out l)
      r.numSlots r.scratch (r.donateStream l)) m = some (f m)) ∧
      Implements (r.shape.InScratch r.scratch) f (donateCopies (r.out l)) := fun l hl =>
    (r.donatePath l).implements (h.out_valid l (mem_range.mp hl)) h.scratch_ne
      (fun j hj => r.shape.inScratch_at hj) (fun _ _ _ => rfl) _
  have hback : ∀ l ∈ range r.layers, ∃ f, (∀ m, finish ((r.restorePath l).call (r.back l)
      r.numSlots r.scratch (r.restoreStream l)) m = some (f m)) ∧
      Implements (r.shape.InScratch r.scratch) f (restoreCopies (r.back l)) := fun l hl =>
    (r.restorePath l).implements (h.back_valid l (mem_range.mp hl)) h.unique
      (fun j hj => r.shape.inScratch_at hj) (fun _ _ _ => rfl) _
  obtain ⟨f, hf, himp⟩ := finishAll_implements hout
  obtain ⟨g, hg, himp'⟩ := finishAll_implements hback
  refine ⟨g (f m), ?_, fun l hl p hp t ht b hb => ?_⟩
  · rw [finishAll_append]
    show (finishAll ((range r.layers).map _) m).bind _ = _
    rw [hf]
    exact hg (f m)
  · have hsame := himp' _ _ (himp m m (EqOff.refl m))
    have hp' : p < (r.out l).numPages := hp
    have hmemD : ∀ c ∈ donatePage (r.out l) p, c ∈ r.donated := fun c hc =>
      mem_flatMap.mpr ⟨l, mem_range.mpr hl, donatePage_mem hp' hc⟩
    have hmemR : ∀ c ∈ restorePage (r.back l) p, c ∈ r.restored := fun c hc =>
      mem_flatMap.mpr ⟨l, mem_range.mpr hl, restorePage_mem (a := r.back l) hp' hc⟩
    have hoff : ∀ c ∈ restorePage (r.back l) p, b < c.len → ¬ r.shape.InScratch r.scratch (c.dst + b) := fun c hc hbc =>
      (h.back_valid l hl).cache_staging _ ((h.back_valid l hl).slots_cache
        (restorePage_writes (a := r.back l) hp' ⟨c, hc, by omega, by omega⟩))
    have hkD : (⟨(r.out l).pageBase p + t * (2 * (r.out l).slotBytes),
        (r.out l).k + ((r.out l).pageSlots p t).toNat * (r.out l).slotBytes,
        (r.out l).slotBytes⟩ : Copy) ∈ donatePage (r.out l) p := mem_gatherPage.mpr ⟨t, ht, .inl rfl⟩
    have hvD : (⟨(r.out l).pageBase p + t * (2 * (r.out l).slotBytes) + (r.out l).slotBytes,
        (r.out l).v + ((r.out l).pageSlots p t).toNat * (r.out l).slotBytes,
        (r.out l).slotBytes⟩ : Copy) ∈ donatePage (r.out l) p := mem_gatherPage.mpr ⟨t, ht, .inr rfl⟩
    have hkR : (⟨(r.back l).k + ((r.back l).pageSlots p t).toNat * (r.back l).slotBytes,
        (r.back l).pageBase p + t * (2 * (r.back l).slotBytes),
        (r.back l).slotBytes⟩ : Copy) ∈ restorePage (r.back l) p := mem_scatterPage.mpr ⟨t, ht, .inl rfl⟩
    have hvR : (⟨(r.back l).v + ((r.back l).pageSlots p t).toNat * (r.back l).slotBytes,
        (r.back l).pageBase p + t * (2 * (r.back l).slotBytes) + (r.back l).slotBytes,
        (r.back l).slotBytes⟩ : Copy) ∈ restorePage (r.back l) p := mem_scatterPage.mpr ⟨t, ht, .inr rfl⟩
    exact ⟨(hsame _ (hoff _ hkR hb)).trans (byte_back h m (hmemD _ hkD) (hmemR _ hkR) rfl rfl hb),
      (hsame _ (hoff _ hvR hb)).trans (byte_back h m (hmemD _ hvD) (hmemR _ hvR) rfl rfl hb)⟩

end RoundTrip

/-! ## The paths agree -/

/-- What a donation or a restore leaves behind, and where. -/
def AgreesOn (S touched : ℕ → Prop) (result : Mem UInt8 → Mem UInt8) (c : Call) : Prop :=
  ∀ m, ∃ m', finish c m = some m' ∧ EqOff S m' (result m) ∧
    ∀ x, ¬ touched x → ¬ S x → m' x = m x

lemma agreesOn_of_implements {S touched : ℕ → Prop} {f : Mem UInt8 → Mem UInt8} {cs : List Copy}
    {c : Call} (hf : ∀ m, finish c m = some (f m)) (himp : Implements S f cs)
    (hw : ∀ x, Writes cs x → touched x) : AgreesOn S touched (runAll cs) c := by
  intro m
  have hsame := himp m m (EqOff.refl m)
  refine ⟨f m, hf m, hsame, fun x hx hS => ?_⟩
  rw [hsame x hS]
  exact runAll_frame (fun hwx => hx (hw x hwx)) m

/-- **Path agreement.**  On valid arguments the four ways to donate leave one result, which
    differs from the memory before only in the pages; so do the three ways to restore when no slot
    repeats, and only in the slots; and donated layers come back byte for byte. -/
theorem kv_paths_agree : (∀ (a : KvArgs) (numSlots scratch : ℕ), scratch ≠ 0 → a.Valid numSlots (a.InScratch scratch) →
      ∃ result : Mem UInt8 → Mem UInt8, ∀ (path : DonatePath) (stream : Bool),
        (path.usesPlan → ∀ p < a.numPages, a.pageOffset p = a.pageOffset 0) →
        AgreesOn (a.InScratch scratch) a.InPages result (path.call a numSlots scratch stream)) ∧
    (∀ (a : KvArgs) (numSlots scratch : ℕ), a.Valid numSlots (a.InScratch scratch) → a.UniqueSlots →
      ∃ result : Mem UInt8 → Mem UInt8, ∀ (path : RestorePath) (stream : Bool),
        (path.usesPlan → ∀ p < a.numPages, a.pageOffset p = a.pageOffset 0) →
        AgreesOn (a.InScratch scratch) a.InSlots result (path.call a numSlots scratch stream)) ∧
    ∀ r : RoundTrip, r.Separate → ∀ m : Mem UInt8,
      ∃ m', finishAll (r.donations ++ r.restores) m = some m' ∧ r.Returned m m' := by
  refine ⟨fun a numSlots scratch hnull hv => ?_, fun a numSlots scratch hv huniq => ?_,
    fun r hsep m => RoundTrip.returned hsep m⟩
  · refine ⟨runAll (donateCopies a), fun path stream hoff => ?_⟩
    obtain ⟨f, hf, himp⟩ := path.implements hv hnull (fun j hj => a.inScratch_at hj) hoff stream
    exact agreesOn_of_implements hf himp fun x hx => donateCopies_writes hx
  · refine ⟨runAll (restoreCopies a), fun path stream hoff => ?_⟩
    obtain ⟨f, hf, himp⟩ := path.implements hv huniq (fun j hj => a.inScratch_at hj) hoff stream
    exact agreesOn_of_implements hf himp fun x hx => restoreCopies_writes hx

/-- One page of two tokens with slots 1 and 0; one head of one two-byte element. -/
def swappedPage (k v offset : ℕ) : KvArgs where
  k := k
  v := v
  slotIds := some fun i => 1 - i
  peerPtrs := some fun _ => 300
  pageOffsets := some fun _ => offset
  numPages := 1
  pageSize := 2
  numKvHeads := 1
  headDim := 1
  elemSize := 2

variable {v : ℕ}

lemma swappedPage_inCache {k offset x : ℕ} : (swappedPage k v offset).InCache 2 x ↔
    (k ≤ x ∧ x < k + 4) ∨ (v ≤ x ∧ x < v + 4) := Iff.rfl

lemma swappedPage_inPages {k offset x : ℕ} : (swappedPage k v offset).InPages x ↔
    300 + offset ≤ x ∧ x < 300 + offset + 8 := by
  constructor
  · rintro ⟨p, _, hx⟩
    exact hx
  · exact fun hx => ⟨0, zero_lt_one, hx⟩

lemma swappedPage_slot (k v offset : ℕ) {i : ℕ} (hi : i < 2) :
    (swappedPage k v offset).slot i = 1 - i ∧ 0 ≤ (1 : ℤ) - i ∧ (1 : ℤ) - i < 2 :=
  ⟨rfl, by omega, by omega⟩

lemma swappedPage_unique {k offset : ℕ} : (swappedPage k v offset).UniqueSlots := by
  intro i hi j hj hij
  rw [(swappedPage_slot k v offset hi).1, (swappedPage_slot k v offset hj).1] at hij
  omega

lemma swappedPage_valid {k offset : ℕ} (hk : 0 < k ∧ k + 4 ≤ v) (hv : v + 4 ≤ 300) (hoff : offset ≤ 8) :
    (swappedPage k v offset).Valid 2 ((swappedPage k v offset).InScratch 1000) where
  elem := rfl
  positive := .inr ⟨Nat.succ_pos 1, Nat.succ_pos 0, Nat.succ_pos 0, Nat.succ_pos 1⟩
  pointers := .inr ⟨by show k ≠ 0; omega, by show v ≠ 0; omega, rfl, rfl, rfl⟩
  peers _ _ := Nat.succ_ne_zero 299
  slots i hi := by
    obtain ⟨hslot, h0, h2⟩ := swappedPage_slot k v offset hi
    exact ⟨h0, h2, by omega⟩
  cache_pages x hx hp := by
    rw [swappedPage_inCache] at hx
    rw [swappedPage_inPages] at hp
    omega
  cache_staging x hx hs := by
    rw [swappedPage_inCache] at hx
    have := hs.1
    omega
  pages_staging x hx hs := by
    rw [swappedPage_inPages] at hx
    have := hs.1
    omega

/-- Two such layers, there and back. -/
def swappedRoundTrip : RoundTrip where
  layers := 2
  numSlots := 2
  scratch := 1000
  shape := swappedPage 0 0 0
  k l := 100 + 4 * l
  v l := 110 + 4 * l
  k2 l := 120 + 4 * l
  v2 l := 130 + 4 * l
  donatePath l := if l = 0 then .planViaScratch .host else .oneShot
  donateStream l := l = 0
  restorePath l := if l = 0 then .twoStage else .plan .deviceInt64
  restoreStream l := l = 1

lemma swappedRoundTrip_out (l : ℕ) : swappedRoundTrip.out l = swappedPage (100 + 4 * l) (110 + 4 * l) (l * 8) := rfl

lemma swappedRoundTrip_back (l : ℕ) : swappedRoundTrip.back l = swappedPage (120 + 4 * l) (130 + 4 * l) (l * 8) := rfl

lemma swappedRoundTrip_separate : swappedRoundTrip.Separate where
  scratch_ne := by decide
  unique := swappedPage_unique
  out_valid l hl := by
    have hl : l < 2 := hl
    rw [swappedRoundTrip_out]
    exact swappedPage_valid (by omega) (by omega) (by omega)
  back_valid l hl := by
    have hl : l < 2 := hl
    rw [swappedRoundTrip_back]
    exact swappedPage_valid (by omega) (by omega) (by omega)
  sources l hl j _ x hc hp := by
    have hl : l < 2 := hl
    rw [swappedRoundTrip_out] at hc hp
    have := swappedPage_inCache.mp hc
    have := swappedPage_inPages.mp hp
    omega
  targets l hl j _ x hc hp := by
    have hl : l < 2 := hl
    rw [swappedRoundTrip_back] at hc hp
    have := swappedPage_inCache.mp hc
    have := swappedPage_inPages.mp hp
    omega
  pages _ _ p hp q hq hpq := by
    have hp : p < 1 := hp
    have hq : q < 1 := hq
    omega
  pages_layers l _ j _ hlj x hx hy := by
    rw [swappedRoundTrip_out] at hx hy
    have := swappedPage_inPages.mp hx
    have := swappedPage_inPages.mp hy
    omega
  caches l hl x hle hlt hv := by
    have hl : l < 2 := hl
    have hk : x < 120 + 4 * l + 4 := hlt
    have hv : 130 + 4 * l ≤ x := hv.1
    omega
  caches_layers l hl j hj hlj x hx hy := by
    have hl : l < 2 := hl
    have hj : j < 2 := hj
    rw [swappedRoundTrip_back] at hx hy
    have := swappedPage_inCache.mp hx
    have := swappedPage_inCache.mp hy
    omega

theorem kv_paths_agree_swapped : (∃ result : Mem UInt8 → Mem UInt8, ∀ (path : DonatePath) (stream : Bool),
      AgreesOn ((swappedPage 100 110 0).InScratch 1000) (swappedPage 100 110 0).InPages result
        (path.call (swappedPage 100 110 0) 2 1000 stream)) ∧
    (∃ result : Mem UInt8 → Mem UInt8, ∀ (path : RestorePath) (stream : Bool),
      AgreesOn ((swappedPage 100 110 0).InScratch 1000) (swappedPage 100 110 0).InSlots result
        (path.call (swappedPage 100 110 0) 2 1000 stream)) ∧
    ∃ m', finishAll (swappedRoundTrip.donations ++ swappedRoundTrip.restores)
      (fun x => ofNat x) = some m' ∧ swappedRoundTrip.Returned (fun x => ofNat x) m' := by
  have hv : (swappedPage 100 110 0).Valid 2 ((swappedPage 100 110 0).InScratch 1000) :=
    swappedPage_valid (by decide) (by decide) (by decide)
  obtain ⟨hdonate, hrestore, hround⟩ := kv_paths_agree
  obtain ⟨out, hout⟩ := hdonate _ 2 1000 (by decide) hv
  obtain ⟨back, hback⟩ := hrestore _ 2 1000 hv swappedPage_unique
  exact ⟨⟨out, fun path stream => hout path stream fun _ _ _ => rfl⟩,
    ⟨back, fun path stream => hback path stream fun _ _ _ => rfl⟩, hround swappedRoundTrip swappedRoundTrip_separate _⟩

/-- One head of one two-byte element, caches at 100 and 200. -/
def smallLayer (slots peers : List ℕ) (pageSize : ℕ) : KvArgs where
  k := 100
  v := 200
  slotIds := some fun i => (slots.getD i 0 : ℕ)
  peerPtrs := some fun p => peers.getD p 0
  pageOffsets := some fun _ => 0
  numPages := peers.length
  pageSize := pageSize
  numKvHeads := 1
  headDim := 1
  elemSize := 2

/-- A slot named twice: the one-shot restore throws and leaves slot 0 as it was, the two-stage
    restore returns with the second token's bytes in it.  A page over the cache it is gathered
    from: the one-shot donation gathers a byte it has just written. -/
theorem repeated_slot_splits_paths :
    ((exec (p2pKvRestoreLayer (smallLayer [0, 0] [300] 2) false) ⟨fun x => ofNat x, []⟩).2.mem 100 = 100 ∧
      (finish (p2pKvRestoreLayerTwostage (smallLayer [0, 0] [300] 2) 1000 false)
        fun x => ofNat x).map (fun m => m 100) = some (ofNat 304)) ∧
    (finish (p2pKvDonateLayer (smallLayer [0, 1] [102] 2) false)
        fun x => ofNat x).map (fun m => m 106) = some 100 ∧
      (finish (p2pKvDonateLayerTwostage (smallLayer [0, 1] [102] 2) 1000 false)
        fun x => ofNat x).map (fun m => m 106) = some 102 := by
  refine ⟨⟨?_, ?_⟩, ?_, ?_⟩
  all_goals decide +kernel

/-! ## Failure -/

/-- The calls that may throw before or while they copy. -/
inductive KvCall where
  | donate (stream : Bool)
  | donateTwostage (scratch : ℕ) (stream : Bool)
  | restore (stream : Bool)
  | restoreTwostage (scratch : ℕ) (stream : Bool)
  deriving DecidableEq, Repr

namespace KvCall

def call (a : KvArgs) : KvCall → Call
  | donate stream => p2pKvDonateLayer a stream
  | donateTwostage scratch stream => p2pKvDonateLayerTwostage a scratch stream
  | restore stream => p2pKvRestoreLayer a stream
  | restoreTwostage scratch stream => p2pKvRestoreLayerTwostage a scratch stream

/-- The call's own scratch vector. -/
def Staging (a : KvArgs) : KvCall → ℕ → Prop
  | donate _ => fun _ => False
  | donateTwostage scratch _ => fun x => scratch ≤ x ∧ x < scratch + a.pageBytes
  | restore _ => fun _ => False
  | restoreTwostage scratch _ => fun x => scratch ≤ x ∧ x < scratch + a.pageBytes

/-- What is checked before the page loop fails, or no page is null, or the first one is. -/
def ThrowsFirst (a : KvArgs) (accepts : Prop) : Prop :=
  ¬ accepts ∨ (∀ p < a.numPages, a.peer p ≠ 0) ∨ a.peer 0 = 0

/-- When a call can throw only before it has copied or enqueued a page.  The one-shot calls look
    at every page pointer before they enqueue; the two-stage restore never throws. -/
def ChecksFirst (a : KvArgs) : KvCall → Prop
  | donate stream => ThrowsFirst a (donateTransfer a).Accepts ∨ stream = true
  | donateTwostage _ _ => ThrowsFirst a (donateTransfer a).Accepts
  | restore stream => ThrowsFirst a (restoreTransfer a).Accepts ∨ stream = true
  | restoreTwostage _ _ => True

end KvCall

lemma KvCall.throwsFirst_iff {a : KvArgs} {name : String} {accepts : Prop} :
    (¬ accepts ∨ (∀ p < a.numPages, peerCheck name a p = .ok ()) ∨ peerCheck name a 0 ≠ .ok ()) ↔
      KvCall.ThrowsFirst a accepts := by
  have hnull : peerCheck name a 0 ≠ .ok () ↔ a.peer 0 = 0 := peerCheck_ok.not.trans not_not
  unfold KvCall.ThrowsFirst
  rw [hnull]
  simp [peerCheck_ok]

/-- **When a failing call is atomic.** -/
theorem kv_atomic_failure_iff (a : KvArgs) (c : KvCall) (happ : a.Apart (c.Staging a)) :
    FailsAtomically (c.Staging a) (c.call a) ↔ c.ChecksFirst a := by
  cases c with
  | donate stream =>
    have hiff := Transfer.fused_atomic_iff (donateTransfer_visible happ) stream
    refine hiff.trans ?_
    rw [← or_assoc, ← or_assoc, or_assoc (a := ¬ _)]
    exact or_congr_left KvCall.throwsFirst_iff
  | donateTwostage scratch stream =>
    have hbox : ∀ j < a.pageBytes, (KvCall.donateTwostage scratch stream).Staging a (scratch + j) :=
      fun j hj => ⟨by omega, by omega⟩
    have hiff := Transfer.staged_atomic_iff (donateTransfer_visible happ) (allocate_eqOff hbox)
      (fun p hp hok => stagedDonatePage_implements hp
        (fun x hx => ⟨fun hxp => happ.pages_slots p hp (peerCheck_ok.mp hok) x hxp hx,
          happ.slots_staging x hx⟩) hbox) stream
    exact hiff.trans KvCall.throwsFirst_iff
  | restore stream =>
    have hiff := Transfer.fused_atomic_iff (restoreTransfer_visible happ) stream
    refine hiff.trans ?_
    rw [← or_assoc, ← or_assoc, or_assoc (a := ¬ _)]
    exact or_congr_left KvCall.throwsFirst_iff
  | restoreTwostage scratch stream =>
    exact ⟨fun _ => trivial, fun _ => failsAtomically_of_exec (fun _ => rfl)
      fun h => .inl (restoreTwostage_never_throws a scratch stream h)⟩

lemma nullPage_apart : (smallLayer [0, 1] [300, 0] 1).Apart
    ((KvCall.donateTwostage 1000 true).Staging (smallLayer [0, 1] [300, 0] 1)) := by
  have hpage : ∀ p < 2, (smallLayer [0, 1] [300, 0] 1).peer p ≠ 0 → ∀ x,
      (smallLayer [0, 1] [300, 0] 1).InPage p x → 300 ≤ x ∧ x < 304 := by
    intro p hp hpeer x hx
    cases p with
    | zero => exact hx
    | succ p =>
      obtain rfl : p = 0 := by omega
      exact absurd rfl hpeer
  have hslots : ∀ x, (smallLayer [0, 1] [300, 0] 1).InSlots x → 100 ≤ x ∧ x < 204 := by
    rintro x ⟨i, hi, hx⟩
    have hi : i < 2 := hi
    have hslot : ((smallLayer [0, 1] [300, 0] 1).slot i).toNat < 2 := by
      interval_cases i <;> decide
    have hx : (100 + ((smallLayer [0, 1] [300, 0] 1).slot i).toNat * 2 ≤ x ∧
          x < 100 + ((smallLayer [0, 1] [300, 0] 1).slot i).toNat * 2 + 2) ∨
        (200 + ((smallLayer [0, 1] [300, 0] 1).slot i).toNat * 2 ≤ x ∧
          x < 200 + ((smallLayer [0, 1] [300, 0] 1).slot i).toNat * 2 + 2) := hx
    omega
  refine ⟨fun p hp hpeer x hx hs => ?_, fun p hp hpeer x hx hs => ?_, fun x hx hs => ?_⟩
  · have := hpage p hp hpeer x hx
    have := hslots x hs
    omega
  · have := hpage p hp hpeer x hx
    have := hs.1
    omega
  · have := hslots x hx
    have := hs.1
    omega

theorem kv_atomic_failure_iff_null_page :
    ¬ FailsAtomically ((KvCall.donateTwostage 1000 true).Staging (smallLayer [0, 1] [300, 0] 1))
      ((KvCall.donateTwostage 1000 true).call (smallLayer [0, 1] [300, 0] 1)) := by
  refine fun hat => ?_
  rcases (kv_atomic_failure_iff _ _ nullPage_apart).mp hat with h | h | h
  · exact h ⟨by decide, fun _ => by decide⟩
  · exact h 1 (by decide) (by decide)
  · exact absurd h (by decide)

/-- A null page behind a good one: the call throws with the first page's bytes already written,
    or its task already enqueued. -/
theorem partial_donation : (∃ e h, exec (p2pKvDonateLayer (smallLayer [0, 1] [300, 0] 1) false)
        ⟨fun x => ofNat x, []⟩ = (.error e, h) ∧ h.mem 300 ≠ ofNat 300) ∧
      ∃ e h, exec (p2pKvDonateLayerTwostage (smallLayer [0, 1] [300, 0] 1) 1000 true)
        ⟨fun x => ofNat x, []⟩ = (.error e, h) ∧ h.queue.length = 1 := by
  refine ⟨⟨_, _, rfl, ?_⟩, ⟨_, _, rfl, ?_⟩⟩
  all_goals decide +kernel

end VKernels.Comm
