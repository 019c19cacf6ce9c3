import VKernels.Dsa.KpoolParity

/-!
# The tail rings that pooled decode needs

* `short_ring_loses` — where the ring is too small, its first pool is stored without its first token.
-/

namespace VKernels.Dsa

open VKernels.OnlineSoftmax VKernels.RingTail
open List
open Real (exp exp_add exp_zero)

section

variable {α : Type} [Field α] [LinearOrder α] {exp : α → α}

lemma twoPass_no_scores (hzero : exp 0 = 1) {L : List (α × α)} (h : L ≠ []) (hL : ∀ sk ∈ L, sk.1 = 0) :
    twoPass exp L = ((L.map Prod.snd).sum, (L.length : α)) := by
  have hmax : ∀ L : List (α × α), L ≠ [] → (∀ sk ∈ L, sk.1 = 0) → maxScore L = some 0 := by
    intro L hne hL
    induction L using reverseRecOn with
    | nil => exact absurd rfl hne
    | append_singleton L sk ih =>
      have hlast := hL sk (by simp)
      rw [maxScore, foldl_concat, hlast]
      cases L with
      | nil => rfl
      | cons a L =>
        have hold := ih (cons_ne_nil a L) fun sk hsk => hL sk (mem_append_left _ hsk)
        rw [maxScore] at hold
        rw [hold]
        simp [maxFrom]
  have hweigh : ∀ L : List (α × α), (∀ sk ∈ L, sk.1 = 0) → weigh exp 0 L = ((L.map Prod.snd).sum, (L.length : α)) := by
    intro L hL
    induction L using reverseRecOn with
    | nil => simp [weigh]
    | append_singleton L sk ih =>
      rw [weigh_append, ih fun sk hsk => hL sk (mem_append_left _ hsk), hL sk (by simp)]
      simp [hzero]
  unfold twoPass
  rw [hmax L h hL]
  exact hweigh L hL

end

section

variable {α : Type} [Field α] (c : Dims)

/-- The key of token `n`. -/
def shortKey (n : ℕ) : Vec α := fun _ => if n = 0 then 1 else 0

/-- The row of token `n` of request 0. -/
def shortRow (n : ℕ) : DecodeRow α where
  key := shortKey n
  score := fun _ => 0
  blockTable := [0]
  reqPoolIndex := 0
  position := n
  seqLen := c.poolSize
  outCacheLoc := 1
  blockTable_ne := List.cons_ne_nil _ _

/-- The first `n` rows. -/
def shortRows (n : ℕ) : List (DecodeRow α) := (List.range n).map (shortRow c)

/-- The first `n` tokens. -/
def shortTokens (n : ℕ) : List (Vec α × Vec α) := (List.range n).map fun i => (fun _ => 0, shortKey i)

variable {c}

variable {n : ℕ}

lemma shortRow_valid (hreqs : 0 < c.nReqs) (hn : n < c.poolSize) :
    (shortRow c n : DecodeRow α).posValid c = true ∧ (shortRow c n : DecodeRow α).req c = 0 := by
  have hvalid : (shortRow c n : DecodeRow α).reqValid c = true := by
    simp [DecodeRow.reqValid, shortRow, hreqs]
  refine ⟨?_, ?_⟩
  · simp [DecodeRow.posValid, hvalid]
    simp [shortRow, hn]
  · simp [DecodeRow.req, hvalid]
    simp [shortRow]

lemma shortRow_safePos (n : ℕ) : (shortRow c n : DecodeRow α).safePos = n := safePos_eq rfl

lemma shortRow_slot (hn : n < c.poolSize) : (shortRow c n : DecodeRow α).slot c = n := by
  unfold DecodeRow.slot
  rw [shortRow_safePos, Nat.mod_eq_of_lt hn]

lemma shortRow_poolId (hn : n < c.poolSize) : (shortRow c n : DecodeRow α).poolId c = 0 := by
  unfold DecodeRow.poolId
  rw [shortRow_safePos, Nat.div_eq_of_lt hn]

lemma shortRows_succ (n : ℕ) : (shortRows c (n + 1) : List (DecodeRow α)) = shortRows c n ++ [shortRow c n] := by
  simp [shortRows, range_succ]

lemma shortTokens_succ (n : ℕ) :
    (shortTokens (n + 1) : List (Vec α × Vec α)) = shortTokens n ++ [(fun _ => 0, shortKey n)] := by
  simp [shortTokens, range_succ]

lemma short_history (hreqs : 0 < c.nReqs) (hn : n ≤ c.poolSize) :
    (shortRows c n : List (DecodeRow α)).foldl (arrive c) (fun _ => []) 0 = shortTokens n := by
  induction n with
  | zero => rfl
  | succ n ih =>
    obtain ⟨hvalid, hreq⟩ := shortRow_valid (α := α) hreqs (show n < c.poolSize by omega)
    rw [shortRows_succ, foldl_concat, arrive, if_pos hvalid, hreq,
      Function.update_self, ih (by omega), shortTokens_succ]
    rfl

omit [Field α] in
lemma inOrder_snoc {h : History α} {rows : List (DecodeRow α)} {r : DecodeRow α} (hrows : InOrder c h rows)
    (hpos : r.posValid c = true → r.position = (rows.foldl (arrive c) h (r.req c)).length) :
    InOrder c h (rows ++ [r]) := by
  induction rows generalizing h with
  | nil => exact ⟨hpos, trivial⟩
  | cons r' rows ih => exact ⟨hrows.1, ih hrows.2 hpos⟩

lemma short_inOrder (hreqs : 0 < c.nReqs) (hn : n ≤ c.poolSize) :
    InOrder c (fun _ => []) (shortRows c n : List (DecodeRow α)) := by
  induction n with
  | zero => trivial
  | succ n ih =>
    rw [shortRows_succ]
    apply inOrder_snoc (ih (by omega))
    intro _
    rw [(shortRow_valid hreqs (show n < c.poolSize by omega)).2, short_history hreqs (by omega)]
    simp [shortRow, shortTokens]

variable [LinearOrder α] (exp : α → α) {Cell : Type} (store : Vec α → Vec α → Cell) (who : String)

/-- Before the last row of the pool nothing is stored. -/
lemma short_run (s₀ : Live α Cell) (hn : n < c.poolSize) :
    ∃ s, (shortRows c n).foldlM (decodeRow c exp (fun _ _ => 0) store who) s₀ = .ok s := by
  induction n with
  | zero => exact ⟨s₀, rfl⟩
  | succ n ih =>
    obtain ⟨s, hs⟩ := ih (by omega)
    have hopen : ¬ (shortRow c n : DecodeRow α).completes c = true := by
      rw [completes_iff, shortRow_slot (show n < c.poolSize by omega)]
      omega
    refine ⟨writeTail c s (shortRow c n), ?_⟩
    rw [shortRows_succ, foldlM_append, hs]
    simp only [bind, Except.bind, foldlM_cons, foldlM_nil, decodeRow, if_neg hopen]
    rfl

lemma short_reads_zero (hreqs : 0 < c.nReqs) (hshort : c.tailSize + 1 < c.poolSize) {s₀ s : Live α Cell}
    (hrun : (shortRows c (c.poolSize - 1)).foldlM (decodeRow c exp (fun _ _ => 0) store who) s₀ = .ok s)
    (d : Fin 128) (p : ℕ) : decodePair c (fun _ _ => 0) s (shortRow c (c.poolSize - 1)) d p = (0, 0) := by
  have hlast : c.poolSize - 1 < c.poolSize := by omega
  have hholds := tailHolds_run c exp (fun _ _ => 0) store who
    (fun q => ⟨RingHolds.nil _, RingHolds.nil _⟩) (short_inOrder hreqs hlast.le) hrun 0
  rw [short_history hreqs hlast.le] at hholds
  obtain ⟨hscore, hkey⟩ := hholds
  unfold decodePair
  rw [(shortRow_valid hreqs hlast).2, shortRow_slot hlast, phys_natCast]
  dsimp only
  by_cases hp : p = c.poolSize - 1
  · rw [if_pos hp, if_pos hp]
    have hnonzero : c.poolSize - 1 ≠ 0 := by omega
    simp [shortRow, shortKey, hnonzero]
  · rw [if_neg hp, if_neg hp]
    obtain ⟨q, hclose, hlt, hmod⟩ := exists_recent
      (Nat.mod_lt ((shortRow c _ : DecodeRow α).safePos - (c.poolSize - 1) + p) c.tailSize_pos)
      (show c.tailSize ≤ c.poolSize - 1 by omega)
    have hlen : ∀ f : Vec α × Vec α → Vec α, ((shortTokens (c.poolSize - 1)).map f).length = c.poolSize - 1 := by
      intro f
      simp [shortTokens]
    have hscore' := hscore q (by rw [hlen]; exact hlt) (by rw [hlen]; exact hclose)
    have hkey' := hkey q (by rw [hlen]; exact hlt) (by rw [hlen]; exact hclose)
    simp only [shortTokens, getElem_map, getElem_range, hmod] at hscore' hkey'
    have hq : q ≠ 0 := by omega
    rw [hscore', hkey']
    simp [shortKey, hq]

/-- A prefill of the run's first pool from its tokens. -/
def shortPrefill (c : Dims) : PrefillTensors α where
  numChunks := c.poolSize
  chunkK := shortKey
  chunkScore := fun _ _ => 0
  tailK := fun _ _ _ => 0
  tailScore := fun _ _ _ => 0

def shortPool : PoolRow where
  writeMask := none
  reqPoolIdx := 0
  nFromTail := 0
  chunkSrcStart := 0
  tailLogicalBase := 0
  loc := 0

omit [LinearOrder α] in
lemma short_gather (slot : ℕ) :
    gather c (shortPrefill c : PrefillTensors α) shortPool slot = (fun _ => 0, shortKey slot) := by
  simp [gather, shortPool, shortPrefill]

omit [LinearOrder α] in
lemma short_prefills (hreqs : 0 < c.nReqs) :
    PrefillsPool c (shortPrefill c : PrefillTensors α) shortPool (shortTokens c.poolSize) 0 := by
  refine ⟨by simp [shortPool], ⟨le_rfl, Int.natCast_pos.mpr hreqs⟩, ⟨le_rfl, Int.natCast_nonneg _⟩,
    fun _ => ⟨le_rfl, ?_⟩, fun slot hslot => ?_⟩
  · simp only [shortPool, shortPrefill]
    omega
  · rw [short_gather, Nat.zero_mul, zero_add]
    simp [shortTokens, hslot]

end

/-! ## Which rings are enough -/

section

/-- Every run of decode updates stores every pool as the prefill does: batches of any rows in which the
tokens of a request arrive in order, with block tables that reach every completed pool. -/
def DecodeIsPrefill (c : Dims) : Prop :=
  ∀ (ape : ℕ → Vec ℝ) (pages : ℕ → ℕ → ℤ) (s₀ s : Live ℝ (Vec ℝ)) (batches : List (List (DecodeRow ℝ)))
    (rows rest : List (DecodeRow ℝ)) (r : DecodeRow ℝ), batches.flatten = rows ++ r :: rest →
    InOrder c (fun _ => []) batches.flatten → TableOf c pages r → Covered c r →
    rows.foldlM (decodeRow c exp ape cacheVector "dsa_kpool_decode_update") s₀ = .ok s →
    StoredAsPrefill c exp ape cacheVector pages
      (rows.foldl (arrive c) (fun _ => []) (r.req c) ++ [(r.score, r.key)]) s r

variable {c : Dims}

lemma cacheVector_inj {acc acc' denom denom' : Vec ℝ} (h : cacheVector acc denom = cacheVector acc' denom')
    (d : Fin 128) : acc d / denom d = acc' d / denom' d := by
  have hall := hadamard128_inj (α := ℝ) two_ne_zero (by norm_num) (fun i hi => congrFun h ⟨i, hi⟩) d d.isLt
  simpa using hall

lemma short_decode_sums (hreqs : 0 < c.nReqs) (hshort : c.tailSize + 1 < c.poolSize)
    {s₀ s : Live ℝ (Vec ℝ)} {who : String}
    (hrun : (shortRows c (c.poolSize - 1)).foldlM (decodeRow c exp (fun _ _ => 0) cacheVector who) s₀ =
      .ok s) (d : Fin 128) : twoPass exp ((range c.poolSize).map
      (decodePair c (fun _ _ => 0) s (shortRow c (c.poolSize - 1)) d)) = (0, (c.poolSize : ℝ)) := by
  have hzero : (range c.poolSize).map (decodePair c (fun _ _ => 0) s (shortRow c (c.poolSize - 1)) d) =
      (range c.poolSize).map fun _ => (0, 0) := map_congr_left fun p _ =>
    short_reads_zero exp cacheVector who hreqs hshort hrun d p
  rw [hzero, twoPass_no_scores exp_zero]
  · simp
  · have := c.poolSize_pos
    simpa using this.ne'
  · simp

lemma short_biased (d : Fin 128) :
    biased c (fun _ _ => 0) (gather c (shortPrefill c : PrefillTensors ℝ) shortPool) d =
      (range c.poolSize).map fun slot => ((0 : ℝ), shortKey slot d) := by
  apply map_congr_left
  intro _ _
  rw [short_gather, add_zero]

lemma short_prefill_sums (d : Fin 128) :
    (online exp (biased c (fun _ _ => 0) (gather c (shortPrefill c : PrefillTensors ℝ) shortPool) d)).acc = 1 ∧
      (online exp (biased c (fun _ _ => 0) (gather c (shortPrefill c : PrefillTensors ℝ) shortPool) d)).denom =
        c.poolSize := by
  obtain ⟨n, hn⟩ := Nat.exists_eq_succ_of_ne_zero c.poolSize_pos.ne'
  rw [short_biased, hn]
  have hne : (range (n + 1)).map (fun slot => ((0 : ℝ), shortKey (α := ℝ) slot d)) ≠ [] := by simp
  obtain ⟨hacc, hdenom⟩ := online_eq_twoPass exp_zero exp_add hne
  have hsums := twoPass_no_scores exp_zero hne (by simp)
  have hkeys : ((range (n + 1)).map fun slot => shortKey (α := ℝ) slot d).sum = 1 := by
    rw [range_succ_eq_map]
    simp [shortKey, map_map, Function.comp_def]
  rw [hacc, hdenom, hsums]
  rw [map_map, length_map, length_range]
  exact ⟨hkeys, rfl⟩

lemma short_ring_loses (hreqs : 0 < c.nReqs) (hpages : 0 < c.numPages)
    (hshort : c.tailSize + 1 < c.poolSize) : ¬ DecodeIsPrefill c := by
  intro hall
  have hlast : c.poolSize - 1 < c.poolSize := by omega
  have hsucc : c.poolSize - 1 + 1 = c.poolSize := by omega
  obtain ⟨hvalid, hreq⟩ := shortRow_valid (α := ℝ) hreqs hlast
  have hpool := shortRow_poolId (α := ℝ) hlast
  obtain ⟨s, hrun⟩ := short_run exp (cacheVector (α := ℝ)) "dsa_kpool_decode_update"
    (⟨fun _ _ _ => 0, fun _ _ _ => 0, fun _ _ _ => 0⟩ : Live ℝ _) hlast
  have hcomplete : (shortRow c (c.poolSize - 1) : DecodeRow ℝ).completes c = true :=
    (completes_iff c).mpr ⟨hvalid, shortRow_slot hlast⟩
  have htable : TableOf c (fun _ _ => 0) (shortRow c (c.poolSize - 1) : DecodeRow ℝ) := by
    intro col hcol
    have hcol : col < 1 := hcol
    obtain rfl : col = 0 := by omega
    rfl
  have hcov : Covered c (shortRow c (c.poolSize - 1) : DecodeRow ℝ) := by
    intro _
    rw [hpool, Nat.zero_div, Nat.zero_mul]
    exact one_pos
  have hflat : ([shortRows c c.poolSize] : List (List (DecodeRow ℝ))).flatten =
      shortRows c (c.poolSize - 1) ++ shortRow c (c.poolSize - 1) :: [] := by
    have hrows := shortRows_succ (α := ℝ) (c := c) (c.poolSize - 1)
    rw [hsucc] at hrows
    simpa using hrows
  have hhistory : (shortRows c (c.poolSize - 1) : List (DecodeRow ℝ)).foldl (arrive c) (fun _ => [])
      ((shortRow c (c.poolSize - 1) : DecodeRow ℝ).req c) ++ [((shortRow c (c.poolSize - 1) : DecodeRow ℝ).score,
      (shortRow c (c.poolSize - 1) : DecodeRow ℝ).key)] = shortTokens c.poolSize := by
    have htokens := shortTokens_succ (α := ℝ) (c.poolSize - 1)
    rw [hsucc] at htokens
    rw [hreq, short_history hreqs hlast.le]
    exact htokens.symm
  have hin : InOrder c (fun _ => []) ([shortRows c c.poolSize] : List (List (DecodeRow ℝ))).flatten := by
    rw [flatten_singleton]
    exact short_inOrder hreqs le_rfl
  have hstored := hall (fun _ _ => 0) (fun _ _ => 0) _ s [shortRows c c.poolSize] _ _ _ hflat hin htable hcov hrun
  have hp : PrefillsPool c (shortPrefill c : PrefillTensors ℝ) shortPool (shortTokens c.poolSize)
      ((shortRow c (c.poolSize - 1) : DecodeRow ℝ).poolId c) := hpool.symm ▸ short_prefills hreqs
  rw [hhistory] at hstored
  have hvector := hstored.vector c exp (fun _ _ => 0) cacheVector htable hcov hcomplete hp
    (by rw [hpool]; simp [shortPool]) ⟨le_rfl, Int.natCast_pos.mpr hpages⟩
  unfold decodeVector pooled at hvector
  have hmean := cacheVector_inj hvector 0
  obtain ⟨hacc, hdenom⟩ := short_prefill_sums (c := c) 0
  rw [short_decode_sums hreqs hshort hrun, hacc, hdenom] at hmean
  have hsize : (c.poolSize : ℝ) ≠ 0 := Nat.cast_ne_zero.mpr (by omega)
  rw [zero_div, eq_comm, div_eq_zero_iff] at hmean
  exact hmean.elim one_ne_zero hsize

/-- **The rings that are enough**: every run stores as the prefill does exactly where the ring holds all
tokens of a pool but its last, or nothing is ever stored. -/
theorem decode_is_prefill_iff (c : Dims) :
    DecodeIsPrefill c ↔ c.nReqs = 0 ∨ c.numPages = 0 ∨ c.poolSize ≤ c.tailSize + 1 := by
  constructor
  · intro hall
    by_contra hnot
    exact short_ring_loses (by omega) (by omega) (by omega) hall
  · intro hc ape _ _ s _ _ _ r hflat hin htable hcov hrun
    rw [hflat] at hin
    rcases hc with hreqs | hpages | hring
    · intro hcomplete
      have hvalid := ((completes_iff c).mp hcomplete).1
      simp [DecodeRow.posValid, DecodeRow.reqValid, hreqs] at hvalid
      omega
    · exact storedAsPrefill_of c exp ape cacheVector htable hcov fun _ hpos => absurd hpos (by omega)
    · exact decode_stores_as_prefill c ape cacheVector exp_zero exp_add hring hin htable hcov hrun

/-- A ring of one cell and pools of three tokens. -/
def oneCell : Dims where
  poolSize := 3
  tailSize := 1
  slotsPerPage := 1
  nReqs := 1
  numPages := 1
  poolSize_pos := by decide
  tailSize_pos := by decide
  slotsPerPage_pos := by decide

theorem oneCell_loses : ¬ DecodeIsPrefill oneCell :=
  short_ring_loses (by decide) (by decide) (by decide)

end

end VKernels.Dsa
