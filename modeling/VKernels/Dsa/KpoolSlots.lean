import VKernels.Dsa.KpoolParity

/-!
# The cells of the pools of a decode run

Which cell of the kpool cache `decode_impl` writes for a completed pool, over runs of updates with one block table.

* `BlockTables` — a row of pages for each request, no page twice; `BlockTables.Row` — a row of a batch carries the
  row of its request.
* `pool`, `cell` — the pool that a row completes and the cell it is written to.
* `BlockTables.Alias` — two pools of one request whose columns both reach the last one.

## Results

* `accepted_iff` — an update is accepted exactly if every completed pool has a page of the cache.
* `cell_eq_iff` — two pools share a cell exactly if they alias.
* `kpool_slots_iff` — over a run: the same, and every completed pool is still in its cell at the end unless it, or a
  pool that aliases it, is completed again.
-/

namespace VKernels.Dsa

open List

/-- The block tables of the requests, all of one width, without a page of the cache in two places. -/
structure BlockTables (c : Dims) where
  rows : ℕ → List ℤ
  cols : ℕ
  cols_pos : 0 < cols
  length_rows : ∀ q < c.nReqs, (rows q).length = cols
  distinct : ∀ q₁ < c.nReqs, ∀ q₂ < c.nReqs, ∀ i₁ < cols, ∀ i₂ < cols, 0 ≤ (rows q₁).getD i₁ 0 →
    (rows q₁).getD i₁ 0 < c.numPages → (rows q₁).getD i₁ 0 = (rows q₂).getD i₂ 0 → q₁ = q₂ ∧ i₁ = i₂

section

variable {α Cell : Type} (c : Dims)

def pool (r : DecodeRow α) : ℕ × ℕ := (r.req c, r.poolId c)

def cell (r : DecodeRow α) : ℕ × ℕ := ((r.packedPage c).toNat, r.poolId c % c.slotsPerPage)

/-- The page of the pool is a page of the cache. -/
def HasPage (r : DecodeRow α) : Prop := 0 ≤ r.packedPage c ∧ r.packedPage c < c.numPages

/-- The column of the first page of a pool's group, before it is clamped. -/
def pageColumn (p : ℕ × ℕ) : ℕ := p.2 / c.slotsPerPage * c.poolSize

namespace BlockTables

variable {c} (T : BlockTables c)

def Row (r : DecodeRow α) : Prop := r.reqValid c = true → r.blockTable = T.rows (r.req c)

def Alias (p₁ p₂ : ℕ × ℕ) : Prop :=
  p₁.1 = p₂.1 ∧ p₁.2 % c.slotsPerPage = p₂.2 % c.slotsPerPage ∧ T.cols - 1 ≤ pageColumn c p₁ ∧ T.cols - 1 ≤ pageColumn c p₂

end BlockTables

variable {c} {T : BlockTables c} {r r₁ r₂ : DecodeRow α}

lemma reqValid_of_completes (h : r.completes c = true) : r.reqValid c = true := by
  simp only [DecodeRow.completes, DecodeRow.posValid, Bool.and_eq_true] at h
  exact h.1.1.1.1

lemma req_lt (h : r.completes c = true) : r.req c < c.nReqs := by
  have hvalid := reqValid_of_completes h
  unfold DecodeRow.req
  simp only [DecodeRow.reqValid, Bool.and_eq_true, decide_eq_true_eq] at hvalid
  omega

lemma packedPage_of_table (hrow : T.Row r) (h : r.completes c = true) :
    r.packedPage c = (T.rows (r.req c)).getD (min (pageColumn c (pool c r)) (T.cols - 1)) 0 := by
  have htable := hrow (reqValid_of_completes h)
  unfold DecodeRow.packedPage DecodeRow.tokenPageRow
  rw [htable, T.length_rows _ (req_lt h)]
  rfl

lemma column_inj {p₁ p₂ : ℕ × ℕ} (hslot : p₁.2 % c.slotsPerPage = p₂.2 % c.slotsPerPage)
    (hcolumn : pageColumn c p₁ = pageColumn c p₂) : p₁.2 = p₂.2 := by
  have hgroup : p₁.2 / c.slotsPerPage = p₂.2 / c.slotsPerPage := Nat.eq_of_mul_eq_mul_right c.poolSize_pos hcolumn
  rw [← Nat.div_add_mod p₁.2, hgroup, hslot, Nat.div_add_mod]

lemma cell_eq_iff (hrow₁ : T.Row r₁) (hrow₂ : T.Row r₂) (h₁ : r₁.completes c = true) (h₂ : r₂.completes c = true)
    (hpage₁ : HasPage c r₁) (hpage₂ : HasPage c r₂) (hne : pool c r₁ ≠ pool c r₂) :
    cell c r₁ = cell c r₂ ↔ T.Alias (pool c r₁) (pool c r₂) := by
  have hcols := T.cols_pos
  have heq₁ := packedPage_of_table hrow₁ h₁
  have heq₂ := packedPage_of_table hrow₂ h₂
  constructor
  · intro hcell
    obtain ⟨hpage, hslot⟩ := Prod.mk.inj hcell
    have hpage : r₁.packedPage c = r₂.packedPage c := by
      have := hpage₁.1
      have := hpage₂.1
      omega
    have hvalid := hpage₁
    unfold HasPage at hvalid
    rw [heq₁, heq₂] at hpage
    rw [heq₁] at hvalid
    obtain ⟨hreq, hcolumn⟩ := T.distinct _ (req_lt h₁) _ (req_lt h₂) _ (by omega) _ (by omega) hvalid.1 hvalid.2 hpage
    -- distinct pools of one request have distinct columns, so the clamp made them equal
    have hdiffer : pageColumn c (pool c r₁) ≠ pageColumn c (pool c r₂) :=
      fun h => hne (Prod.ext hreq (column_inj hslot h))
    exact ⟨hreq, hslot, by omega, by omega⟩
  · rintro ⟨hreq, hslot, hlast₁, hlast₂⟩
    have hreq : r₁.req c = r₂.req c := hreq
    have hpage : r₁.packedPage c = r₂.packedPage c := by
      rw [heq₁, heq₂, min_eq_right hlast₁, min_eq_right hlast₂, hreq]
    exact Prod.ext (congrArg Int.toNat hpage) hslot

end

/-! ## Runs -/

section

variable {α Cell : Type} [Field α] [LinearOrder α] {c : Dims} (exp : α → α) (ape : ℕ → Vec α)
  (store : Vec α → Vec α → Cell) (who : String)

variable {s s' : Live α Cell} {r : DecodeRow α}

lemma decodeRow_cases (h : decodeRow c exp ape store who s r = .ok s') : (r.completes c = true ∧ HasPage c r ∧
      s'.out = writeSlot s.out (cell c r).1 (cell c r).2 (decodeVector c exp ape store s r)) ∨
    (r.completes c ≠ true ∧ s'.out = s.out) := by
  have htail (t : Live α Cell) : (writeTail c t r).out = t.out := by
    unfold writeTail
    split <;> rfl
  unfold decodeRow at h
  split at h
  · rename_i hcompletes
    split at h
    · rename_i hpage
      obtain rfl := Except.ok.inj h
      exact .inl ⟨hcompletes, hpage, htail _⟩
    · cases h
  · rename_i hcompletes
    obtain rfl := Except.ok.inj h
    exact .inr ⟨hcompletes, htail s⟩

lemma decodeRow_accepted_iff :
    (∃ s', decodeRow c exp ape store who s r = .ok s') ↔ (r.completes c = true → HasPage c r) := by
  constructor
  · rintro ⟨_, h⟩ hcompletes
    obtain ⟨-, hpage, -⟩ | ⟨hnot, -⟩ := decodeRow_cases exp ape store who h
    · exact hpage
    · exact absurd hcompletes hnot
  · intro hpage
    unfold decodeRow
    split
    · rename_i hcompletes
      exact ⟨_, if_pos (hpage hcompletes)⟩
    · exact ⟨_, rfl⟩

variable {exp ape store who}

lemma run_cons {rows : List (DecodeRow α)} (h : (r :: rows).foldlM (decodeRow c exp ape store who) s = .ok s') :
    ∃ s₁, decodeRow c exp ape store who s r = .ok s₁ ∧ rows.foldlM (decodeRow c exp ape store who) s₁ = .ok s' := by
  rw [foldlM_cons] at h
  cases hstep : decodeRow c exp ape store who s r with
  | error e =>
    rw [hstep] at h
    cases h
  | ok s₁ =>
    rw [hstep] at h
    exact ⟨s₁, rfl, h⟩

lemma accepted_iff {rows : List (DecodeRow α)} : (∃ s', rows.foldlM (decodeRow c exp ape store who) s = .ok s') ↔
      ∀ r ∈ rows, r.completes c = true → HasPage c r := by
  induction rows generalizing s with
  | nil => exact ⟨fun _ r hr => absurd hr (not_mem_nil), fun _ => ⟨s, rfl⟩⟩
  | cons r rows ih =>
    rw [forall_mem_cons, ← decodeRow_accepted_iff]
    constructor
    · rintro ⟨s', hrun⟩
      obtain ⟨s₁, hstep, hrest⟩ := run_cons hrun
      exact ⟨⟨s₁, hstep⟩, ih.mp ⟨s', hrest⟩⟩
    · rintro ⟨⟨_, hstep⟩, hrest⟩
      obtain ⟨s', hrun⟩ := ih.mpr hrest
      exact ⟨s', by rw [foldlM_cons, hstep]; exact hrun⟩

lemma out_of_run {rows : List (DecodeRow α)} {p : ℕ × ℕ}
    (hrun : rows.foldlM (decodeRow c exp ape store who) s = .ok s')
    (hmiss : ∀ r ∈ rows, r.completes c = true → cell c r ≠ p) : s'.out p.1 p.2 = s.out p.1 p.2 := by
  induction rows generalizing s with
  | nil =>
    cases hrun
    rfl
  | cons r rows ih =>
    obtain ⟨_, hstep, hrest⟩ := run_cons hrun
    obtain ⟨hr, hrows⟩ := forall_mem_cons.mp hmiss
    rw [ih hrest hrows]
    obtain ⟨hcompletes, -, hout⟩ | ⟨-, hout⟩ := decodeRow_cases exp ape store who hstep
    · rw [hout, writeSlot]
      have hne := hr hcompletes
      by_cases hpage : p.1 = (cell c r).1
      · have hslot : p.2 ≠ (cell c r).2 := fun h => hne (Prod.ext hpage.symm h.symm)
        rw [hpage, Function.update_self, Function.update_of_ne hslot]
      · rw [Function.update_of_ne hpage]
    · rw [hout]

/-- **The cells of a run** of accepted updates with one block table: two distinct pools are written to one cell exactly
if they alias, and a completed pool is in its cell at the end unless it or a pool that aliases it is completed again. -/
theorem kpool_slots_iff (T : BlockTables c) {s s' : Live α Cell} {batches : List (List (DecodeRow α))}
    (htable : ∀ r ∈ batches.flatten, T.Row r) (hrun : batches.foldlM (decodeUpdate c exp ape store who) s = .ok s') :
    (∀ r₁ ∈ batches.flatten, ∀ r₂ ∈ batches.flatten, r₁.completes c = true → r₂.completes c = true →
      pool c r₁ ≠ pool c r₂ → (cell c r₁ ≠ cell c r₂ ↔ ¬T.Alias (pool c r₁) (pool c r₂))) ∧
    ∀ before r after, batches.flatten = before ++ r :: after → r.completes c = true →
      (∀ r' ∈ after, r'.completes c = true → pool c r' ≠ pool c r ∧ ¬T.Alias (pool c r') (pool c r)) →
      ∃ t, before.foldlM (decodeRow c exp ape store who) s = .ok t ∧
        s'.out (cell c r).1 (cell c r).2 = decodeVector c exp ape store t r := by
  rw [decodeUpdate_flatten] at hrun
  have hpages := accepted_iff.mp ⟨s', hrun⟩
  refine ⟨fun r₁ hr₁ r₂ hr₂ h₁ h₂ hne => not_congr (cell_eq_iff (htable r₁ hr₁) (htable r₂ hr₂) h₁ h₂
    (hpages r₁ hr₁ h₁) (hpages r₂ hr₂ h₂) hne), fun before r after hsplit hcompletes hafter => ?_⟩
  rw [hsplit] at htable hrun hpages
  obtain ⟨t, hbefore⟩ : ∃ t, before.foldlM (decodeRow c exp ape store who) s = .ok t :=
    accepted_iff.mpr fun r' hr' => hpages r' (mem_append_left _ hr')
  rw [foldlM_append, hbefore] at hrun
  obtain ⟨_, hstep, hrest⟩ := run_cons hrun
  have hr : r ∈ before ++ r :: after := mem_append_right _ mem_cons_self
  have hmiss : ∀ r' ∈ after, r'.completes c = true → cell c r' ≠ cell c r := by
    intro r' hr' h'
    have hmem := mem_append_right before (mem_cons_of_mem r hr')
    obtain ⟨hpool, halias⟩ := hafter r' hr' h'
    exact fun hcell => halias ((cell_eq_iff (htable r' hmem) (htable r hr) h' hcompletes (hpages r' hmem h')
      (hpages r hr hcompletes) hpool).mp hcell)
  refine ⟨t, hbefore, ?_⟩
  rw [out_of_run hrest hmiss]
  obtain ⟨-, -, hout⟩ | ⟨hnot, -⟩ := decodeRow_cases exp ape store who hstep
  · rw [hout, writeSlot, Function.update_self, Function.update_self]
  · exact absurd hcompletes hnot

end

/-! ## One page -/

section

/-- Pools of one token, pages of one pool, one page. -/
def onePage : Dims := ⟨1, 1, 1, 1, 1, by norm_num, by norm_num, by norm_num⟩

def onePageTable : BlockTables onePage where
  rows := fun _ => [0]
  cols := 1
  cols_pos := by norm_num
  length_rows := fun _ _ => rfl
  distinct := fun q₁ h₁ q₂ h₂ i₁ hi₁ i₂ hi₂ _ _ _ => by
    have h₁ : q₁ < 1 := h₁
    have h₂ : q₂ < 1 := h₂
    omega

def tokenAt (n : ℕ) : DecodeRow ℚ := ⟨fun _ => 0, fun _ => 0, [0], 0, n, n + 1, 1, by simp⟩

def emptyLive : Live ℚ (Vec ℚ) := ⟨fun _ _ _ => 0, fun _ _ _ => 0, fun _ _ _ => 0⟩

lemma onePage_accepted : ∃ s', [[tokenAt 0], [tokenAt 1]].foldlM
    (decodeUpdate onePage (fun _ => 1) (fun _ _ => 0) cacheVector "dsa_kpool_decode_update") emptyLive = .ok s' := by
  rw [decodeUpdate_flatten]
  refine accepted_iff.mpr fun r hr _ => ?_
  simp only [flatten_cons, flatten_nil, append_nil, cons_append, nil_append, mem_cons, not_mem_nil, or_false] at hr
  rcases hr with rfl | rfl
  · exact ⟨by decide, by decide⟩
  · exact ⟨by decide, by decide⟩

/-- Two tokens past each other on the one page. -/
theorem kpool_slots_onePage :
    cell onePage (tokenAt 0) = cell onePage (tokenAt 1) ↔ onePageTable.Alias (0, 0) (0, 1) := by
  obtain ⟨_, hrun⟩ := onePage_accepted
  have htable : ∀ r ∈ [[tokenAt 0], [tokenAt 1]].flatten, onePageTable.Row r := by
    intro r hr
    simp only [flatten_cons, flatten_nil, append_nil, cons_append, nil_append, mem_cons, not_mem_nil, or_false] at hr
    rcases hr with rfl | rfl
    · exact fun _ => rfl
    · exact fun _ => rfl
  exact not_iff_not.mp ((kpool_slots_iff onePageTable htable hrun).1 (tokenAt 0) (by simp) (tokenAt 1) (by simp)
    (by decide) (by decide) (by decide))

/-- A run of accepted updates that writes two distinct pools to one cell, though no page is in the table twice. -/
theorem kpool_slots_clobbered : (∃ s', [[tokenAt 0], [tokenAt 1]].foldlM
      (decodeUpdate onePage (fun _ => 1) (fun _ _ => 0) cacheVector "dsa_kpool_decode_update") emptyLive = .ok s') ∧
    (onePageTable.Row (tokenAt 0) ∧ onePageTable.Row (tokenAt 1)) ∧
    ((tokenAt 0).completes onePage = true ∧ (tokenAt 1).completes onePage = true) ∧
    pool onePage (tokenAt 0) ≠ pool onePage (tokenAt 1) ∧ cell onePage (tokenAt 0) = cell onePage (tokenAt 1) :=
  ⟨onePage_accepted, ⟨fun _ => rfl, fun _ => rfl⟩, ⟨by decide, by decide⟩, by decide, by decide⟩

end

end VKernels.Dsa
