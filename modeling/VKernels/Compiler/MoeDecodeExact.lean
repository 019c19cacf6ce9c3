import VKernels.Compiler.MoeDecode

/-!
# Routed experts in a decode step: when the device agrees

* `laneSel_eq_iff` — a row's rounds select the reference's experts exactly when the sentinel hides none.
* `readsExpert_iff` — 32-bit offsets stay in an expert's block exactly when the block ends within the first `2 ^ 31`
  weights.
-/

namespace VKernels.MoeDecode

open Finset WorkerTasks TopK
open LaneLaunch (int32 int32_of_lt int32_lt)
open Blocks (range_blocks)
open List hiding le_trans lt_irrefl max mem_range min not_le not_lt range
open Perm (of_eq refl)
open LocalActions (assign)

variable {V : Type}

/-! ## Rows of buffers -/

/-- `n` rows of `w` elements. -/
lemma rows_nodup (n w : ℕ) (v : ℕ → ℕ → V) :
    ((List.range n).flatMap fun b => ((List.range w).map fun k => (b * w + k, v b k)).map Prod.fst).Nodup := by
  have hkeys : ((List.range n).flatMap fun b => ((List.range w).map fun k => (b * w + k, v b k)).map Prod.fst) =
      List.range (n * w) := by
    rw [← range_blocks]
    refine flatMap_congr fun b _ => ?_
    rw [List.map_map]
    rfl
  rw [hkeys]
  exact nodup_range

lemma runTasks_rows {n w b k : ℕ} (v : ℕ → ℕ → V) (hb : b < n) (hk : k < w) (m : ℕ → V) :
    runTasks (List.range n) (fun b => (List.range w).map fun k => (b * w + k, v b k)) m (b * w + k) = v b k := by
  refine MaskedStores.assign_nodup (refl _) ?_ ?_ m
  · rw [map_flatMap]
    exact rows_nodup n w v
  · exact mem_flatMap.mpr ⟨b, mem_range.mpr hb, mem_map.mpr ⟨k, mem_range.mpr hk, rfl⟩⟩

lemma launched_rows {P n w : ℕ} {v : ℕ → ℕ → V} {m m' : ℕ → V} (hP : 0 < P)
    (h : Launched P n (fun b => (List.range w).map fun k => (b * w + k, v b k)) m m') :
    m' = runTasks (List.range n) (fun b => (List.range w).map fun k => (b * w + k, v b k)) m :=
  h.eq_runTasks hP (refl _) (rows_nodup n w v)

lemma runTasks_congr {L T : Type} [DecidableEq L] {coords : List T} {f f' : T → List (L × V)}
    (h : ∀ t ∈ coords, f t = f' t) (m : L → V) : runTasks coords f m = runTasks coords f' m := by
  rw [runTasks, runTasks, flatMap_congr h]

/-! ## Selection -/

section

variable [Field V] {c : Call V} {b : ℕ}

lemma laneScores_eq {e : ℕ} (he : e < c.d.E) : laneScores c b e = scores c b e := by
  simp [laneScores, laneLogits, scores, logits, he]

lemma laneChoice_eq : laneChoice c b = padded (negInf V) c.d.E (choice c b) := by
  funext e
  unfold laneChoice padded
  split
  · rename_i he
    rw [laneScores_eq he, choice]
    cases c.routing <;> simp [Routing.laneBias, Routing.addBias, he]
  · rfl

variable [LinearOrder V]

variable (c b) in
/-- The lane of round `k`. -/
def best (k : ℕ) : ℕ := pick c.d.EP (negInf V) (padded (negInf V) c.d.E (choice c b)) k

lemma rounds_eq (n : ℕ) : (rounds c b n).choice = masked c.d.EP (negInf V) (padded (negInf V) c.d.E (choice c b)) n ∧
      (∀ k < n, (rounds c b n).sel k = best c b k) ∧
      ∀ k < n, (rounds c b n).wsel k = ∑ e ∈ range c.d.EP, if e = best c b k then laneScores c b e else 0 := by
  induction n with
  | zero => exact ⟨laneChoice_eq, fun k hk => absurd hk (Nat.not_lt_zero k), fun k hk => absurd hk (Nat.not_lt_zero k)⟩
  | succ n ih =>
    obtain ⟨hchoice, hsel, hwsel⟩ := ih
    have hstep : rounds c b (n + 1) = roundStep c b (rounds c b n) n := by
      rw [rounds, range_succ, foldl_append]
      rfl
    rw [hstep]
    simp only [roundStep, hchoice]
    refine ⟨rfl, fun k hk => ?_, fun k hk => ?_⟩
    · split
      · rename_i hkn
        rw [hkn]
        rfl
      · exact hsel k (by omega)
    · split
      · rename_i hkn
        rw [hkn]
        rfl
      · exact hwsel k (by omega)

variable [IsStrictOrderedRing V]

omit [Field V] [IsStrictOrderedRing V] in
lemma getD_take {α : Type} {l : List α} {K k : ℕ} (hk : k < K) (d : α) : (l.take K).getD k d = l.getD k d := by
  simp [getD_eq_getElem?_getD, hk]

lemma moeTopkStable_eq {n K k : ℕ} (f : ℕ → V) (hk : k < K) : (moeTopkStable n f K).getD k 0 = rank n f k := by
  simp only [moeTopkStable, neg_le_neg_iff]
  exact getD_take hk 0

variable (c b) in
lemma laneSel_eq_iff : (∀ k < c.d.K, laneSel c b k = sel c b k) ↔
      ∀ e < c.d.E, Routed c b e → c.routing.Learned → Visible c.d.EP (negInf V) c.d.E (choice c b) e := by
  have hlearned (hsel : ∀ k < c.d.K, sel c b k = rank c.d.E (choice c b) k)
      (hlane : ∀ k, laneSel c b k = (rounds c b c.d.K).sel k) : (∀ k < c.d.K, laneSel c b k = sel c b k) ↔
        ∀ e < c.d.E, Chosen c.d.E (choice c b) c.d.K e → Visible c.d.EP (negInf V) c.d.E (choice c b) e := by
    rw [← picks_eq_iff c.d.E_le c.d.K_le]
    refine forall₂_congr fun k hk => ?_
    rw [hlane, (rounds_eq c.d.K).2.1 k hk, hsel k hk, best]
  cases hr : c.routing with
  | sqrtsoftplus =>
    have h := hlearned (fun k hk => by rw [sel, hr]; exact moeTopkStable_eq _ hk) fun k => by rw [laneSel, hr]
    simpa only [Routed, hr, Routing.Learned, true_implies] using h
  | noauxTc bias norm =>
    have h := hlearned (fun k hk => by rw [sel, hr]; exact moeTopkStable_eq _ hk) fun k => by rw [laneSel, hr]
    simpa only [Routed, hr, Routing.Learned, true_implies] using h
  | hash tid2eid tokenIds => simp [laneSel, sel, hr, Routing.Learned]

lemma routed_iff {e : ℕ} (he : e < c.d.E) : Routed c b e ↔ ∃ k < c.d.K, sel c b k = e := by
  have hlearned (hsel : ∀ k < c.d.K, sel c b k = rank c.d.E (choice c b) k) :
      Chosen c.d.E (choice c b) c.d.K e ↔ ∃ k < c.d.K, sel c b k = e := by
    constructor
    · intro h
      obtain ⟨k, hk, hke⟩ := exists_rank (f := choice c b) he
      have hkK : k < c.d.K := (chosen_rank_iff hk).mp (hke.symm ▸ h)
      exact ⟨k, hkK, (hsel k hkK).trans hke⟩
    · rintro ⟨k, hk, hke⟩
      rw [← hke, hsel k hk]
      exact (chosen_rank_iff (hk.trans_le c.d.K_le)).mpr hk
  cases hr : c.routing with
  | sqrtsoftplus =>
    have h := hlearned fun k hk => by rw [sel, hr]; exact moeTopkStable_eq _ hk
    simpa only [Routed, hr] using h
  | noauxTc bias norm =>
    have h := hlearned fun k hk => by rw [sel, hr]; exact moeTopkStable_eq _ hk
    simpa only [Routed, hr] using h
  | hash tid2eid tokenIds => simp [Routed, sel, hr]

lemma sel_lt {k : ℕ} (hk : k < c.d.K) : sel c b k < c.d.E := by
  unfold sel
  split
  · exact Fin.is_lt _
  · rw [moeTopkStable_eq _ hk]
    exact rank_lt (hk.trans_le c.d.K_le)

lemma sel_inj (hlearned : c.routing.Learned) {k k' : ℕ} (hk : k < c.d.K) (hk' : k' < c.d.K)
    (h : sel c b k = sel c b k') : k = k' := by
  unfold sel at h
  split at h
  · rename_i hr
    rw [hr] at hlearned
    exact hlearned.elim
  · rw [moeTopkStable_eq _ hk, moeTopkStable_eq _ hk'] at h
    exact rank_inj (hk.trans_le c.d.K_le) (hk'.trans_le c.d.K_le) h

lemma laneWsel_eq {k : ℕ} (hk : k < c.d.K) (hsel : laneSel c b k = sel c b k) : laneWsel c b k = scores c b (sel c b k) := by
  have hlt := sel_lt (c := c) (b := b) hk
  have hgather (e : ℕ) (he : e = sel c b k) :
      (∑ e' ∈ range c.d.EP, if e' = e then laneScores c b e' else 0) = scores c b (sel c b k) := by
    rw [he, sum_where_eq (hlt.trans_le c.d.E_le), laneScores_eq hlt]
  cases hr : c.routing with
  | hash tid2eid tokenIds =>
    rw [laneWsel, hr]
    exact hgather _ hsel
  | sqrtsoftplus =>
    rw [laneSel, hr] at hsel
    rw [laneWsel, hr]
    exact ((rounds_eq c.d.K).2.2 k hk).trans (hgather _ (((rounds_eq c.d.K).2.1 k hk).symm.trans hsel))
  | noauxTc bias norm =>
    rw [laneSel, hr] at hsel
    rw [laneWsel, hr]
    exact ((rounds_eq c.d.K).2.2 k hk).trans (hgather _ (((rounds_eq c.d.K).2.1 k hk).symm.trans hsel))

omit [LinearOrder V] [IsStrictOrderedRing V] in
lemma renorm_congr {norm : Bool} {K k : ℕ} {w w' : ℕ → V} (h : ∀ k < K, w k = w' k) (hk : k < K) :
    renorm norm K w k = renorm norm K w' k := by
  rw [renorm, renorm, h k hk, sum_congr rfl fun i hi => h i (mem_range.mp hi)]

lemma weightsTask_eq (hsel : ∀ k < c.d.K, laneSel c b k = sel c b k) : weightsTask c b = bodyMoeRouteWeights c b := by
  refine map_congr_left fun k hk => ?_
  have hk' : k < c.d.K := mem_range.mp hk
  rw [weight, renorm_congr (fun k hk => laneWsel_eq hk (hsel k hk)) hk']

end

/-! ## Offsets -/

section

variable (d : Dims) (e : ℕ)

lemma gateAddr_eq (i h : ℕ) : gateAddr d e i h = int32 (e * (2 * d.I * d.H) + i * d.H + h : ℕ) := by
  unfold gateAddr wbase int32
  simp only [Int.bmod_add_bmod, Int.add_bmod_bmod, Int.bmod_mul_bmod]
  congr 1
  push_cast
  ring

lemma upAddr_eq (i h : ℕ) : upAddr d e i h = int32 (e * (2 * d.I * d.H) + (d.I + i) * d.H + h : ℕ) := by
  unfold upAddr wbase int32
  simp only [Int.bmod_add_bmod, Int.add_bmod_bmod, Int.bmod_mul_bmod]
  congr 1
  push_cast
  ring

lemma downAddr_eq (h i : ℕ) : downAddr d e h i = int32 (e * (d.H * d.I) + h * d.I + i : ℕ) := by
  unfold downAddr int32
  simp only [Int.bmod_add_bmod, Int.add_bmod_bmod, Int.bmod_mul_bmod]
  congr 1
  push_cast
  ring

variable {d e}

lemma block_offset {rows width r h : ℕ} (hr : r < rows) (hh : h < width) :
    e * (rows * width) ≤ e * (rows * width) + r * width + h ∧
      e * (rows * width) + r * width + h < (e + 1) * (rows * width) := by
  have hrow := Blocks.block_le hr width
  rw [add_one_mul]
  omega

lemma int32_inBlock {size x : ℕ} (hsize : (e + 1) * size ≤ 2 ^ 31) (hlo : e * size ≤ x) (hhi : x < (e + 1) * size) :
    int32 x = x ∧ InBlock size e (int32 x) := by
  have hx : int32 (x : ℤ) = x := int32_of_lt (Int.natCast_nonneg x) (by exact_mod_cast hhi.trans_le hsize)
  rw [hx]
  exact ⟨rfl, by exact_mod_cast hlo, by exact_mod_cast hhi⟩

/-- Below `2 ^ 31` each offset is that of the reference. -/
lemma addrs_exact (hsize : (e + 1) * (2 * d.I * d.H) ≤ 2 ^ 31) {i h : ℕ} (hi : i < d.I) (hh : h < d.H) :
    (gateAddr d e i h = (e * (2 * d.I * d.H) + i * d.H + h : ℕ) ∧ InBlock (2 * d.I * d.H) e (gateAddr d e i h)) ∧
      (upAddr d e i h = (e * (2 * d.I * d.H) + (d.I + i) * d.H + h : ℕ) ∧ InBlock (2 * d.I * d.H) e (upAddr d e i h)) ∧
      downAddr d e h i = (e * (d.H * d.I) + h * d.I + i : ℕ) ∧ InBlock (d.H * d.I) e (downAddr d e h i) := by
  have hdown : (e + 1) * (d.H * d.I) ≤ 2 ^ 31 := by
    refine le_trans (Nat.mul_le_mul_left _ ?_) hsize
    rw [mul_comm d.H, mul_assoc]
    omega
  have hgate := block_offset (e := e) (show i < 2 * d.I by omega) hh
  have hup := block_offset (e := e) (show d.I + i < 2 * d.I by omega) hh
  have hdn := block_offset (e := e) hh hi
  rw [gateAddr_eq, upAddr_eq, downAddr_eq]
  exact ⟨int32_inBlock hsize hgate.1 hgate.2, int32_inBlock hsize hup.1 hup.2, int32_inBlock hdown hdn.1 hdn.2⟩

lemma readsExpert_iff : ReadsExpert d e ↔ (e + 1) * (2 * d.I * d.H) ≤ 2 ^ 31 := by
  constructor
  · intro hreads
    have hend : (e + 1) * (2 * d.I * d.H) = e * (2 * d.I * d.H) + 2 * d.I * d.H := Nat.succ_mul e _
    have hpos : 0 < 2 * d.I * d.H := mul_pos (mul_pos two_pos d.I_pos) d.H_pos
    -- gate rows and up rows together are all the block
    have hall (x : ℕ) (hlo : e * (2 * d.I * d.H) ≤ x) (hhi : x < (e + 1) * (2 * d.I * d.H)) :
        InBlock (2 * d.I * d.H) e (int32 x) := by
      obtain ⟨r, rfl⟩ := Nat.exists_eq_add_of_le hlo
      have hdiv := Nat.div_add_mod' r d.H
      have hmod : r % d.H < d.H := Nat.mod_lt r d.H_pos
      have hrow : r / d.H < 2 * d.I := Nat.div_lt_of_lt_mul (by rw [mul_comm]; omega)
      by_cases hgate : r / d.H < d.I
      · have h := (hreads _ hgate _ hmod).1
        rwa [gateAddr_eq, add_assoc, hdiv] at h
      · have h := (hreads (r / d.H - d.I) (by omega) _ hmod).2.1
        rwa [upAddr_eq, Nat.add_sub_cancel' (Nat.not_lt.mp hgate), add_assoc, hdiv] at h
    by_contra hlarge
    rw [not_le] at hlarge
    by_cases hstart : e * (2 * d.I * d.H) ≤ 2 ^ 31
    · -- offset `2 ^ 31` is read as `-2 ^ 31`
      have h := (hall _ hstart hlarge).1
      have hneg := LaneLaunch.int32_neg (x := ((2 ^ 31 : ℕ) : ℤ)) (by norm_num) (by norm_num)
      omega
    · -- the block starts beyond every offset
      have h := (hall _ (le_refl _) (by omega)).1
      have hlt := int32_lt ((e * (2 * d.I * d.H) : ℕ) : ℤ)
      omega
  · intro hsize i hi h hh
    obtain ⟨hgate, hup, hdown⟩ := addrs_exact hsize hi hh
    exact ⟨hgate.2, hup.2, hdown.2⟩

end

/-! ## Experts -/

section

variable [Field V] {exp : V → V} {c : Call V} {t : Experts V}

lemma laneGate_eq {b e i : ℕ} (hsize : (e + 1) * (2 * c.d.I * c.d.H) ≤ 2 ^ 31) (hi : i < c.d.I) :
    laneGate c t b e i = gu c t b e i := by
  refine sum_congr rfl fun h hh => ?_
  rw [(addrs_exact hsize hi (mem_range.mp hh)).1.1]

lemma laneUp_eq {b e i : ℕ} (hsize : (e + 1) * (2 * c.d.I * c.d.H) ≤ 2 ^ 31) (hi : i < c.d.I) :
    laneUp c t b e i = gu c t b e (c.d.I + i) := by
  refine sum_congr rfl fun h hh => ?_
  rw [(addrs_exact hsize hi (mem_range.mp hh)).2.1.1]

variable [LinearOrder V]

lemma laneAct_eq {b e i : ℕ} (hsize : (e + 1) * (2 * c.d.I * c.d.H) ≤ 2 ^ 31) (hi : i < c.d.I)
    (hlimit : ∀ L, c.swigluLimit = some L → 0 < L) : laneAct exp c t b e i = act exp c t b e i := by
  unfold laneAct act limit
  rw [laneGate_eq hsize hi, laneUp_eq hsize hi]
  cases hL : c.swigluLimit with
  | none => exact if_neg (lt_irrefl _)
  | some L => exact if_pos (hlimit L hL)

lemma expertTask_at {ids : ℕ → ℕ} {b s : ℕ} (hs : s < c.d.K) :
    expertTask exp c t ids (b * c.d.K + s) = (List.range c.d.H).map fun h => ((b * c.d.K + s) * c.d.H + h,
      ∑ i ∈ range c.d.I, t.down (downAddr c.d (ids (b * c.d.K + s)) h i) * laneAct exp c t b (ids (b * c.d.K + s)) i) := by
  simp [expertTask, Blocks.block_div b hs, Blocks.block_mod b hs]

/-- **An expert task** is the reference's when its weights are in reach. -/
theorem expertTask_eq {ids : ℕ → ℕ} {b s : ℕ} (hs : s < c.d.K)
    (hsize : (ids (b * c.d.K + s) + 1) * (2 * c.d.I * c.d.H) ≤ 2 ^ 31) (hlimit : ∀ L, c.swigluLimit = some L → 0 < L) :
    expertTask exp c t ids (b * c.d.K + s) = bodyMoeExpert exp c t ids (b, s) := by
  rw [expertTask_at hs]
  refine map_congr_left fun h hh => ?_
  have hsum : ∑ i ∈ range c.d.I, t.down (downAddr c.d (ids (b * c.d.K + s)) h i) *
        laneAct exp c t b (ids (b * c.d.K + s)) i =
      ∑ i ∈ range c.d.I, t.down (ids (b * c.d.K + s) * (c.d.H * c.d.I) + h * c.d.I + i : ℕ) *
        act exp c t b (ids (b * c.d.K + s)) i := by
    refine sum_congr rfl fun i hi => ?_
    rw [(addrs_exact hsize (mem_range.mp hi) (mem_range.mp hh)).2.2.1, laneAct_eq hsize (mem_range.mp hi) hlimit]
  rw [hsum]

lemma expertTasks_split (ids : ℕ → ℕ) : (List.range (c.d.B * c.d.K)).flatMap (expertTask exp c t ids) =
      (expertCoords c).flatMap fun rs => expertTask exp c t ids (rs.1 * c.d.K + rs.2) := by
  rw [← range_blocks, expertCoords, flatMap_assoc, flatMap_assoc]
  refine flatMap_congr fun b _ => ?_
  rw [flatMap_map, flatMap_map]

omit [Field V] [LinearOrder V] in
lemma mem_expertCoords {rs : ℕ × ℕ} : rs ∈ expertCoords c ↔ rs.1 < c.d.B ∧ rs.2 < c.d.K := by
  obtain ⟨r, s⟩ := rs
  simp [expertCoords]

omit [Field V] [LinearOrder V] in
lemma slotRows_nodup (v : ℕ × ℕ → ℕ → V) : ((expertCoords c).flatMap fun rs => ((List.range c.d.H).map fun h =>
      ((rs.1 * c.d.K + rs.2) * c.d.H + h, v rs h)).map Prod.fst).Nodup := by
  have hkeys : ((expertCoords c).flatMap fun rs => ((List.range c.d.H).map fun h =>
      ((rs.1 * c.d.K + rs.2) * c.d.H + h, v rs h)).map Prod.fst) = List.range (c.d.B * c.d.K * c.d.H) := by
    rw [← range_blocks, ← range_blocks, expertCoords, flatMap_assoc, flatMap_assoc]
    refine flatMap_congr fun b _ => ?_
    rw [flatMap_map, flatMap_map]
    refine flatMap_congr fun s _ => ?_
    rw [List.map_map]
    rfl
  rw [hkeys]
  exact nodup_range

end

/-! ## Agreement -/

section

variable [Field V] [LinearOrder V] {exp : V → V} {c : Call V} {P : ℕ} {t : Experts V}
    {m m' : Buffers V}

lemma Leaves.ids_at (h : Leaves exp c P t m m') (hP : 0 < P) {b k : ℕ} (hb : b < c.d.B) (hk : k < c.d.K) :
    m'.ids (b * c.d.K + k) = laneSel c b k := by
  rw [launched_rows (v := laneSel c) hP h.ids]
  exact runTasks_rows _ hb hk _

lemma exists_leaves (exp : V → V) (c : Call V) (t : Experts V) (m : Buffers V) : ∃ m', Leaves exp c 1 t m m' :=
  let ids := assign _ m.ids
  let weights := assign _ m.weights
  let partials := assign ((workerTasks 1 (c.d.B * c.d.K)).flatMap (expertTask exp c t ids)) m.partials
  ⟨⟨ids, weights, partials, assign ((workerTasks 1 c.d.B).flatMap (combineTask c t weights partials)) m.y⟩,
    ⟨_, refl _, rfl⟩, ⟨_, refl _, rfl⟩, ⟨_, refl _, rfl⟩, ⟨_, refl _, rfl⟩⟩

lemma Leaves.partial_at (h : Leaves exp c P t m m') (hP : 0 < P) :
    m'.partials 0 = ∑ i ∈ range c.d.I, t.down (downAddr c.d (m'.ids 0) 0 i) * laneAct exp c t 0 (m'.ids 0) i := by
  have hslots : m'.partials = runTasks (expertCoords c) (fun rs => (List.range c.d.H).map fun h =>
      ((rs.1 * c.d.K + rs.2) * c.d.H + h, ∑ i ∈ range c.d.I, t.down (downAddr c.d (m'.ids (rs.1 * c.d.K + rs.2)) h i) *
        laneAct exp c t rs.1 (m'.ids (rs.1 * c.d.K + rs.2)) i)) m.partials := by
    refine h.partials.eq_runTasks hP ?_ (slotRows_nodup _)
    rw [expertTasks_split]
    refine of_eq (flatMap_congr fun rs hrs => ?_)
    exact expertTask_at (mem_expertCoords.mp hrs).2
  rw [hslots]
  refine MaskedStores.assign_nodup (refl _) ?_ ?_ _
  · rw [map_flatMap]
    exact slotRows_nodup _
  · refine mem_flatMap.mpr ⟨(0, 0), mem_expertCoords.mpr ⟨c.d.B_pos, c.d.K_pos⟩, ?_⟩
    exact List.mem_map.mpr ⟨0, List.mem_range.mpr c.d.H_pos, by simp⟩

lemma reference_partial_at : (reference exp c t m).partials 0 = ∑ i ∈ range c.d.I,
      t.down ((reference exp c t m).ids 0 * (c.d.H * c.d.I) + i : ℕ) * act exp c t 0 ((reference exp c t m).ids 0) i := by
  refine MaskedStores.assign_nodup (refl _) ?_ ?_ _
  · rw [map_flatMap]
    exact slotRows_nodup _
  · refine mem_flatMap.mpr ⟨(0, 0), mem_expertCoords.mpr ⟨c.d.B_pos, c.d.K_pos⟩, ?_⟩
    exact mem_map.mpr ⟨0, mem_range.mpr c.d.H_pos, by simp [reference]⟩

variable [IsStrictOrderedRing V]

variable (c) in
/-- Experts whose gate and up rows are all `γ`. -/
def constantExperts (γ : V) : Experts V := ⟨fun o => if o = 0 then γ else 0, fun _ => 1, fun _ => 1, none⟩

lemma silu_of_agrees (h : Agrees exp c) {L : V} (hL : c.swigluLimit = some L) (hneg : ¬0 < L) (γ : V) :
    silu exp γ γ = silu exp (min γ L) (min (max γ (-L)) L) := by
  obtain ⟨m', hm'⟩ := exists_leaves exp c (constantExperts γ) ⟨fun _ => 0, fun _ => 0, fun _ => 0, fun _ => 0⟩
  have href := (h 1 _ _ m' one_pos hm').1
  have hrow (f : ℕ → ℤ) : ∑ h ∈ range c.d.H, (constantExperts γ).gateUp (f h) *
      (constantExperts γ).x (0 * c.d.H + h) = γ := by
    simp [constantExperts, c.d.H_pos]
  have hdevice (e i : ℕ) : laneAct exp c (constantExperts γ) 0 e i = silu exp γ γ := by
    have hlimit : ¬0 < limit c := by
      rw [limit, hL]
      exact hneg
    rw [laneAct, if_neg hlimit, laneGate, laneUp, hrow, hrow]
  have hreference (e i : ℕ) : act exp c (constantExperts γ) 0 e i = silu exp (min γ L) (min (max γ (-L)) L) := by
    rw [act, hL, gu, gu, hrow, hrow]
    rfl
  have hsum := (hm'.partial_at one_pos).symm.trans ((congrArg (fun b : Buffers V => b.partials 0) href).trans
    reference_partial_at)
  have hcard : ((c.d.I : ℕ) : V) ≠ 0 := Nat.cast_ne_zero.mpr c.d.I_pos.ne'
  simp only [hdevice, hreference] at hsum
  simp only [constantExperts, one_mul, sum_const, card_range, nsmul_eq_mul] at hsum
  exact mul_left_cancel₀ hcard hsum

/-- **A limit that is not positive** does not clamp on the device. -/
theorem limit_pos_of_agrees (hexp : ∀ a, 0 < exp a) (h : Agrees exp c) {L : V} (hL : c.swigluLimit = some L) :
    0 < L := by
  by_contra hneg
  have hden (a : V) : 0 < 1 + exp (-a) := add_pos one_pos (hexp _)
  rcases (not_lt.mp hneg).lt_or_eq with hlt | rfl
  · -- the reference clamps 0 to the limit on both sides
    have hzero := silu_of_agrees h hL hneg 0
    have hup : min (max (0 : V) (-L)) L = L := min_eq_right (hlt.le.trans (le_max_left _ _))
    rw [min_eq_right hlt.le, hup, silu, silu, mul_zero] at hzero
    have hpos : 0 < L / (1 + exp (-L)) * L := mul_pos_of_neg_of_neg (div_neg_of_neg_of_pos hlt (hden L)) hlt
    exact hpos.ne hzero
  · -- the reference clamps the gate 1 to 0
    have hone := silu_of_agrees h hL hneg 1
    rw [min_eq_right zero_le_one, silu, silu, zero_div, zero_mul, mul_one] at hone
    exact (div_pos one_pos (hden 1)).ne' hone

lemma holds_of_agrees (hexp : ∀ a, 0 < exp a) (h : Agrees exp c) : Holds c := by
  refine ⟨fun L hL => limit_pos_of_agrees hexp h hL, fun b hb e he hrouted => ?_⟩
  obtain ⟨m', hm'⟩ := exists_leaves exp c (constantExperts 0) ⟨fun _ => 0, fun _ => 0, fun _ => 0, fun _ => 0⟩
  obtain ⟨href, -, hreads⟩ := h 1 _ _ m' one_pos hm'
  have hsel (k : ℕ) (hk : k < c.d.K) : laneSel c b k = sel c b k := by
    rw [← hm'.ids_at one_pos hb hk, href]
    exact runTasks_rows (sel c) hb hk _
  refine ⟨(laneSel_eq_iff c b).mp hsel e he hrouted, ?_⟩
  obtain ⟨k, hk, rfl⟩ := (routed_iff he).mp hrouted
  have hread := hreads b hb k hk
  rwa [hm'.ids_at one_pos hb hk, hsel k hk, readsExpert_iff] at hread

lemma agrees_of_holds (h : Holds c) : Agrees exp c := by
  obtain ⟨hlimit, hrouted⟩ := h
  intro P t m m' hP hm'
  have hsel {b : ℕ} (hb : b < c.d.B) : ∀ k < c.d.K, laneSel c b k = sel c b k :=
    (laneSel_eq_iff c b).mpr fun e he hr hl => (hrouted b hb e he hr).1 hl
  have hid {b k : ℕ} (hb : b < c.d.B) (hk : k < c.d.K) : m'.ids (b * c.d.K + k) = sel c b k := by
    rw [hm'.ids_at hP hb hk, hsel hb k hk]
  have hsize {b k : ℕ} (hb : b < c.d.B) (hk : k < c.d.K) :
      (m'.ids (b * c.d.K + k) + 1) * (2 * c.d.I * c.d.H) ≤ 2 ^ 31 := by
    rw [hid hb hk]
    exact (hrouted b hb _ (sel_lt hk) ((routed_iff (sel_lt hk)).mpr ⟨k, hk, rfl⟩)).2
  have hids : m'.ids = (reference exp c t m).ids := by
    rw [launched_rows (v := laneSel c) hP hm'.ids]
    refine runTasks_congr (fun b hb => map_congr_left fun k hk => ?_) m.ids
    rw [hsel (mem_range.mp hb) k (mem_range.mp hk)]
  have hweights : m'.weights = (reference exp c t m).weights := by
    rw [launched_rows (v := fun b k => renorm c.routing.normTopk c.d.K _ k * c.rsf) hP hm'.weights]
    exact runTasks_congr (fun b hb => weightsTask_eq (hsel (mem_range.mp hb))) m.weights
  have hpartials : m'.partials = (reference exp c t m).partials := by
    refine hm'.partials.eq_runTasks hP ?_ ?_
    · rw [expertTasks_split]
      refine of_eq (flatMap_congr fun rs hrs => ?_)
      obtain ⟨hr, hs⟩ := mem_expertCoords.mp hrs
      rw [expertTask_eq hs (hsize hr hs) hlimit, hids]
      rfl
    · exact slotRows_nodup _
  have hy : m'.y = (reference exp c t m).y := by
    rw [launched_rows (v := fun b h => _) hP hm'.y, hweights, hpartials]
    rfl
  refine ⟨?_, fun hlearned b hb => ⟨fun k hk => ?_, fun k hk k' hk' heq => ?_⟩, fun b hb s hs => ?_⟩
  · exact Buffers.ext hids hweights hpartials hy
  · rw [hid hb hk]
    exact sel_lt hk
  · rw [hid hb hk, hid hb hk'] at heq
    exact sel_inj hlearned hk hk' heq
  · exact readsExpert_iff.mpr (hsize hb hs)

/-- **The device decode step is the reference's** exactly when the limit is positive or none, no routed expert is hidden
behind the sentinel, and each ends within the first `2 ^ 31` weights. -/
theorem capture_agrees_iff (hexp : ∀ a, 0 < exp a) (c : Call V) : Agrees exp c ↔ Holds c :=
  ⟨holds_of_agrees hexp, agrees_of_holds⟩

end

section

lemma one_le_oneExpert : 1 ≤ 1 := le_refl 1

def oneExpert : Dims :=
  ⟨1, 1, 1, 1, 1, 1, Nat.one_pos, Nat.one_pos, Nat.one_pos, Nat.one_pos, one_le_oneExpert, one_le_oneExpert⟩

def oneExpertCall (V : Type) [Field V] (limit : Option V) : Call V :=
  ⟨oneExpert, fun _ => 1, fun _ => 1, .sqrtsoftplus, id, 1, limit⟩

theorem unclamped_agrees : Agrees Real.exp (oneExpertCall ℝ none) := by
  refine (capture_agrees_iff Real.exp_pos (oneExpertCall ℝ none)).mpr ⟨fun L hL => (by cases hL), fun b _ e he _ => ⟨fun _ => ?_, ?_⟩⟩
  · intro u hu hhides
    have he' : e = u := (Nat.lt_one_iff.mp he).trans (Nat.lt_one_iff.mp hu).symm
    rcases hhides with h | h
    · exact absurd hu (Nat.not_lt.mpr h)
    · exact absurd he'.symm h.ne
  · rw [Nat.lt_one_iff.mp he]
    decide

/-- A limit of zero. -/
theorem zero_limit_differs : ¬Agrees Real.exp (oneExpertCall ℝ (some 0)) := fun h =>
  lt_irrefl _ (limit_pos_of_agrees Real.exp_pos h rfl)

end

end VKernels.MoeDecode
