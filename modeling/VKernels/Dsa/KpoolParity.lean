import VKernels.Dsa.KpoolCache
import VKernels.Lib.Blocks
import Mathlib.Analysis.SpecialFunctions.Exp

/-!
# Decode updates against prefill assembly

Runs of decode updates in which the tokens of every request arrive at consecutive positions from 0.

* `TailHolds` — the tail rings hold the last tokens of every request; `tailHolds_step`.
* `decode_stores_as_prefill` — every row of a run does, where the ring holds an open pool.
* `hadamard128_inj` — the transform loses nothing.
* `decode_is_prefill_iff` — the ring sizes for which every run stores as the prefill does.
-/

namespace VKernels.Dsa

open VKernels.OnlineSoftmax VKernels.RingTail
open List

/-! ## Runs -/

section

variable {α Cell : Type} (c : Dims)

/-- The tokens of every request so far: scores and keys. -/
abbrev History (α : Type) := ℕ → List (Vec α × Vec α)

/-- A row that is not masked appends its token. -/
def arrive (h : History α) (r : DecodeRow α) : History α :=
  if r.posValid c then Function.update h (r.req c) (h (r.req c) ++ [(r.score, r.key)]) else h

/-- Every token arrives at the next position of its request. -/
def InOrder : History α → List (DecodeRow α) → Prop
  | _, [] => True
  | h, r :: rows => (r.posValid c = true → r.position = (h (r.req c)).length) ∧ InOrder (arrive c h r) rows

lemma inOrder_append {h : History α} {rows rows' : List (DecodeRow α)} (hin : InOrder c h (rows ++ rows')) :
    InOrder c h rows ∧ InOrder c (rows.foldl (arrive c) h) rows' := by
  induction rows generalizing h with
  | nil => exact ⟨trivial, hin⟩
  | cons r rows ih =>
    obtain ⟨hfirst, hrest⟩ := hin
    obtain ⟨h₁, h₂⟩ := ih hrest
    exact ⟨⟨hfirst, h₁⟩, h₂⟩

def TailHolds (h : History α) (s : Live α Cell) : Prop :=
  ∀ q, RingHolds c.tailSize (s.tailScore q) ((h q).map Prod.fst) ∧
    RingHolds c.tailSize (s.tailK q) ((h q).map Prod.snd)

lemma phys_natCast (n x : ℕ) : phys n (x : ℕ) = x % n := by
  unfold phys
  rw [← Int.ofNat_tmod, ← Int.natCast_add, ← Int.ofNat_tmod, Int.toNat_natCast, Nat.add_mod_right, Nat.mod_mod]

variable {r : DecodeRow α} {s : Live α Cell}

lemma safePos_eq {n : ℕ} (h : r.position = n) : r.safePos = n := by
  unfold DecodeRow.safePos
  omega

lemma tailHolds_write {h : History α} (hs : TailHolds c h s)
    (hpos : r.posValid c = true → r.position = (h (r.req c)).length) :
    TailHolds c (arrive c h r) (writeTail c s r) := by
  unfold arrive writeTail
  by_cases hv : r.posValid c = true
  · rw [if_pos hv, if_pos hv, safePos_eq (hpos hv), phys_natCast]
    intro q
    by_cases hq : q = r.req c
    · subst hq
      obtain ⟨hscore, hkey⟩ := hs _
      simp only [writeSlot, Function.update_self, map_append, map_cons, map_nil]
      have hscore' := hscore.push r.score
      have hkey' := hkey.push r.key
      rw [length_map] at hscore' hkey'
      exact ⟨hscore', hkey'⟩
    · simp only [writeSlot, Function.update_of_ne hq]
      exact hs q
  · rw [if_neg hv, if_neg hv]
    exact hs

variable [Field α] [LinearOrder α] (exp : α → α) (ape : ℕ → Vec α) (store : Vec α → Vec α → Cell)
  (who : String)

lemma tailHolds_step {h : History α} {s' : Live α Cell} (hs : TailHolds c h s)
    (hpos : r.posValid c = true → r.position = (h (r.req c)).length)
    (hstep : decodeRow c exp ape store who s r = .ok s') : TailHolds c (arrive c h r) s' := by
  unfold decodeRow at hstep
  split at hstep
  · split at hstep
    · cases hstep
      exact tailHolds_write c (s := { s with
        out := writeSlot s.out (r.packedPage c).toNat _
          (decodeVector c exp ape store s r) }) hs hpos
    · cases hstep
  · cases hstep
    exact tailHolds_write c hs hpos

/-- **The rings over a run** hold the last tokens of every request. -/
theorem tailHolds_run {h : History α} {s' : Live α Cell} (hs : TailHolds c h s) {rows : List (DecodeRow α)}
    (hin : InOrder c h rows) (hrun : rows.foldlM (decodeRow c exp ape store who) s = .ok s') :
    TailHolds c (rows.foldl (arrive c) h) s' := by
  induction rows generalizing h s with
  | nil =>
    cases hrun
    exact hs
  | cons r rows ih =>
    rw [foldlM_cons] at hrun
    cases hstep : decodeRow c exp ape store who s r with
    | error e =>
      rw [hstep] at hrun
      cases hrun
    | ok s₁ =>
      rw [hstep] at hrun
      exact ih (tailHolds_step c exp ape store who hs hin.1 hstep) hin.2 hrun

lemma decodeUpdate_flatten (s : Live α Cell) (batches : List (List (DecodeRow α))) :
    batches.foldlM (decodeUpdate c exp ape store who) s = batches.flatten.foldlM (decodeRow c exp ape store who) s := by
  induction batches generalizing s with
  | nil => rfl
  | cons b batches ih =>
    rw [foldlM_cons, flatten_cons, foldlM_append]
    exact bind_congr fun s₁ => ih s₁

end

/-! ## One pool -/

section

variable {α Cell : Type} [Field α] [LinearOrder α] (c : Dims) (exp : α → α) (ape : ℕ → Vec α)
  (store : Vec α → Vec α → Cell)

/-- A row of a prefill that the checks let pass, but for `loc`, and that gathers the tokens of pool `j`. -/
structure PrefillsPool (t : PrefillTensors α) (p : PoolRow) (tokens : List (Vec α × Vec α)) (j : ℕ) : Prop where
  writeMask : p.writeMask ≠ some 0
  reqPoolIdx : 0 ≤ p.reqPoolIdx ∧ p.reqPoolIdx < c.nReqs
  nFromTail : 0 ≤ p.nFromTail ∧ p.nFromTail ≤ c.poolSize
  chunkSrcStart : 0 < c.poolSize - p.nFromTail →
    0 ≤ p.chunkSrcStart ∧ p.chunkSrcStart + (c.poolSize - p.nFromTail) - 1 < t.numChunks
  gathers : ∀ slot < c.poolSize, tokens[j * c.poolSize + slot]? = some (gather c t p slot)

/-- Scores with their bias, and keys, along one dimension. -/
def biased (tokens : ℕ → Vec α × Vec α) (d : Fin 128) : List (α × α) :=
  (List.range c.poolSize).map fun slot => ((tokens slot).1 d + ape slot d, (tokens slot).2 d)

/-- The vector stored for a pool, in one pass. -/
def pooled (tokens : ℕ → Vec α × Vec α) : Cell :=
  store (fun d => (online exp (biased c ape tokens d)).acc) fun d => (online exp (biased c ape tokens d)).denom

variable {who : String} {p : PoolRow} {s : Live α Cell} {r : DecodeRow α}

lemma assembleRow_of {t : PrefillTensors α} {tokens : List (Vec α × Vec α)}
    {j : ℕ} (h : PrefillsPool c t p tokens j) (out : ℕ → ℕ → Cell) : assembleRow c exp ape store who t p out =
      if 0 ≤ p.loc ∧ p.loc < c.numPages * c.slotsPerPage then
        .ok (writeSlot out (p.loc.toNat / c.slotsPerPage) (p.loc.toNat % c.slotsPerPage)
          (pooled c exp ape store (gather c t p))) else .error (who ++ ": loc out of range [0, num_pages*ssp)") := by
  have hchunk : ¬ (0 < c.poolSize - p.nFromTail ∧
      ¬ (0 ≤ p.chunkSrcStart ∧ p.chunkSrcStart + (c.poolSize - p.nFromTail) - 1 < t.numChunks)) :=
    fun hbad => hbad.2 (h.chunkSrcStart hbad.1)
  unfold assembleRow
  rw [if_neg h.writeMask, if_neg (not_not.mpr h.reqPoolIdx), if_neg (not_not.mpr h.nFromTail), if_neg hchunk]
  by_cases hloc : 0 ≤ p.loc ∧ p.loc < c.numPages * c.slotsPerPage
  · rw [if_pos hloc, if_neg (not_not.mpr hloc)]
    rfl
  · rw [if_neg hloc, if_pos hloc]

lemma assemble_of {t : PrefillTensors α} {tokens : List (Vec α × Vec α)}
    {j : ℕ} (h : PrefillsPool c t p tokens j) (out : ℕ → ℕ → Cell) : (assemble c exp ape store who t [p] out).toOption =
      if 0 ≤ p.loc ∧ p.loc < c.numPages * c.slotsPerPage then
        some (writeSlot out (p.loc.toNat / c.slotsPerPage) (p.loc.toNat % c.slotsPerPage)
          (pooled c exp ape store (gather c t p))) else none := by
  unfold assemble
  rw [if_neg (cons_ne_nil _ _)]
  by_cases hpages : c.numPages = 0
  · rw [if_pos hpages, hpages, if_neg (by omega)]
    rfl
  · rw [if_neg hpages, foldlM_cons, assembleRow_of c exp ape store h]
    split <;> rfl

lemma decodeRow_out (h : r.completes c = true) : (decodeRow c exp ape store who s r).toOption.map Live.out =
      if 0 ≤ r.packedPage c ∧ r.packedPage c < c.numPages then
        some (writeSlot s.out (r.packedPage c).toNat (r.poolId c % c.slotsPerPage) (decodeVector c exp ape store s r))
      else none := by
  unfold decodeRow
  rw [if_pos h]
  split
  · unfold writeTail
    split <;> rfl
  · rfl

lemma loc_range {page : ℤ} {slot : ℕ} (hslot : slot < c.slotsPerPage) : (0 ≤ page * c.slotsPerPage + (slot : ℕ) ∧
      page * c.slotsPerPage + (slot : ℕ) < c.numPages * c.slotsPerPage) ↔ 0 ≤ page ∧ page < c.numPages := by
  constructor
  · rintro ⟨h₀, h₁⟩
    exact ⟨by nlinarith, by nlinarith⟩
  · rintro ⟨h₀, h₁⟩
    exact ⟨by nlinarith, by nlinarith⟩

lemma loc_split {page : ℤ} (hpage : 0 ≤ page) {slot : ℕ} (hslot : slot < c.slotsPerPage) :
    (page * c.slotsPerPage + (slot : ℕ)).toNat / c.slotsPerPage = page.toNat ∧
      (page * c.slotsPerPage + (slot : ℕ)).toNat % c.slotsPerPage = slot := by
  obtain ⟨n, rfl⟩ := Int.eq_ofNat_of_zero_le hpage
  have hcast : ((n : ℤ) * c.slotsPerPage + (slot : ℕ)).toNat = n * c.slotsPerPage + slot := by
    rw [← Int.natCast_mul, ← Int.natCast_add, Int.toNat_natCast]
  rw [hcast, Int.toNat_natCast]
  exact ⟨Blocks.block_div n hslot, Blocks.block_mod n hslot⟩

/-- The row of the block tables is the page table of the request, as far as it goes. -/
def TableOf (pages : ℕ → ℕ → ℤ) (r : DecodeRow α) : Prop :=
  ∀ col < r.blockTable.length, r.blockTable[col]? = some (pages (r.req c) col)

/-- It goes as far as the column of the pool that the row completes. -/
def Covered (r : DecodeRow α) : Prop :=
  r.completes c = true → r.poolId c / c.slotsPerPage * c.poolSize < r.blockTable.length

/-- A row that completes pool `j` of its request leaves in the cache what any prefill of that pool's tokens
leaves there, at slot `j % slots_per_page` of the page of the pool's group. -/
def StoredAsPrefill (pages : ℕ → ℕ → ℤ) (tokens : List (Vec α × Vec α)) (s : Live α Cell) (r : DecodeRow α) : Prop :=
  r.completes c = true → ∀ (t : PrefillTensors α) (p : PoolRow), PrefillsPool c t p tokens (r.poolId c) →
    p.loc = pages (r.req c) (r.poolId c / c.slotsPerPage * c.poolSize) * c.slotsPerPage +
      (r.poolId c % c.slotsPerPage : ℕ) →
    (decodeRow c exp ape store "dsa_kpool_decode_update" s r).toOption.map Live.out =
      (assemble c exp ape store "dsa_kpool_assemble" t [p] s.out).toOption

omit [Field α] [LinearOrder α] in
lemma packedPage_eq {pages : ℕ → ℕ → ℤ} {r : DecodeRow α} (htable : TableOf c pages r) (hcov : Covered c r)
    (h : r.completes c = true) : r.packedPage c = pages (r.req c) (r.poolId c / c.slotsPerPage * c.poolSize) := by
  have hlt := hcov h
  unfold DecodeRow.packedPage DecodeRow.tokenPageRow
  rw [min_eq_left (by omega), getD_eq_getElem?_getD, htable _ hlt]
  rfl

lemma storedAsPrefill_of {pages : ℕ → ℕ → ℤ} {tokens : List (Vec α × Vec α)}
    (htable : TableOf c pages r) (hcov : Covered c r)
    (hvector : r.completes c = true → 0 < c.numPages → ∀ (t : PrefillTensors α) (p : PoolRow),
      PrefillsPool c t p tokens (r.poolId c) →
        decodeVector c exp ape store s r = pooled c exp ape store (gather c t p)) :
    StoredAsPrefill c exp ape store pages tokens s r := by
  intro hcomplete t p hp hloc
  have hslot : r.poolId c % c.slotsPerPage < c.slotsPerPage := Nat.mod_lt _ c.slotsPerPage_pos
  rw [decodeRow_out c exp ape store hcomplete, assemble_of c exp ape store hp, hloc,
    packedPage_eq c htable hcov hcomplete]
  by_cases hpage : 0 ≤ pages (r.req c) (r.poolId c / c.slotsPerPage * c.poolSize) ∧
      pages (r.req c) (r.poolId c / c.slotsPerPage * c.poolSize) < c.numPages
  · obtain ⟨hdiv, hmod⟩ := loc_split c hpage.1 hslot
    rw [if_pos hpage, if_pos ((loc_range c hslot).mpr hpage), hdiv, hmod, hvector hcomplete (by omega) t p hp]
  · rw [if_neg hpage, if_neg fun hin => hpage ((loc_range c hslot).mp hin)]

lemma writeSlot_self {β : Type} (out : ℕ → ℕ → β) (page slot : ℕ) (v : β) :
    writeSlot out page slot v page slot = v := by
  rw [writeSlot, Function.update_self, Function.update_self]

lemma StoredAsPrefill.vector {pages : ℕ → ℕ → ℤ} {tokens : List (Vec α × Vec α)}
    (h : StoredAsPrefill c exp ape store pages tokens s r) (htable : TableOf c pages r)
    (hcov : Covered c r) (hcomplete : r.completes c = true) {t : PrefillTensors α}
    (hp : PrefillsPool c t p tokens (r.poolId c))
    (hloc : p.loc = pages (r.req c) (r.poolId c / c.slotsPerPage * c.poolSize) * c.slotsPerPage +
      (r.poolId c % c.slotsPerPage : ℕ)) (hpage : 0 ≤ pages (r.req c) (r.poolId c / c.slotsPerPage * c.poolSize) ∧
      pages (r.req c) (r.poolId c / c.slotsPerPage * c.poolSize) < c.numPages) :
    decodeVector c exp ape store s r = pooled c exp ape store (gather c t p) := by
  have hslot : r.poolId c % c.slotsPerPage < c.slotsPerPage := Nat.mod_lt _ c.slotsPerPage_pos
  have hsame := h hcomplete t p hp hloc
  obtain ⟨hdiv, hmod⟩ := loc_split c hpage.1 hslot
  rw [decodeRow_out c exp ape store hcomplete, assemble_of c exp ape store hp, hloc,
    packedPage_eq c htable hcov hcomplete, if_pos hpage, if_pos ((loc_range c hslot).mpr hpage), hdiv, hmod] at hsame
  have hcell := congrFun (congrFun (Option.some.inj hsame)
    (pages (r.req c) (r.poolId c / c.slotsPerPage * c.poolSize)).toNat) (r.poolId c % c.slotsPerPage)
  rw [writeSlot_self, writeSlot_self] at hcell
  exact hcell

/-! ## The ring read at a completing row -/

omit [Field α] [LinearOrder α] in
lemma completes_iff {r : DecodeRow α} : r.completes c = true ↔ r.posValid c = true ∧ r.slot c = c.poolSize - 1 := by
  simp [DecodeRow.completes]

omit [LinearOrder α] in
lemma decodePair_eq {h : History α} {s : Live α Cell} (hs : TailHolds c h s) {r : DecodeRow α}
    (hpos : r.posValid c = true → r.position = (h (r.req c)).length) (hcomplete : r.completes c = true)
    (hring : c.poolSize ≤ c.tailSize + 1) {p : ℕ} (hp : p < c.poolSize) {tok : Vec α × Vec α}
    (htok : (h (r.req c) ++ [(r.score, r.key)])[r.poolId c * c.poolSize + p]? = some tok) (d : Fin 128) :
    decodePair c ape s r d p = (tok.1 d + ape p d, tok.2 d) := by
  obtain ⟨hvalid, hslot⟩ := (completes_iff c).mp hcomplete
  have hpos' := safePos_eq (hpos hvalid)
  have hdiv := Nat.div_add_mod' r.safePos c.poolSize
  have hlast : r.poolId c * c.poolSize + (c.poolSize - 1) = r.safePos := by
    unfold DecodeRow.slot at hslot
    unfold DecodeRow.poolId
    omega
  have hcell : phys c.tailSize ((r.safePos - (c.poolSize - 1) + p : ℕ) : ℤ) =
      (r.poolId c * c.poolSize + p) % c.tailSize := by
    rw [phys_natCast]
    congr 1
    omega
  unfold decodePair
  simp only [hslot, hcell]
  by_cases hcur : p = c.poolSize - 1
  · rw [hcur, hlast, hpos', getElem?_append_right le_rfl, Nat.sub_self] at htok
    cases htok
    rw [if_pos hcur, if_pos hcur]
  · have hlt : r.poolId c * c.poolSize + p < (h (r.req c)).length := by omega
    rw [getElem?_append_left hlt, getElem?_eq_getElem hlt] at htok
    obtain ⟨hscore, hkey⟩ := hs _
    have hs₁ := hscore _ (by rwa [length_map]) (by
      rw [length_map]
      omega)
    have hs₂ := hkey _ (by rwa [length_map]) (by
      rw [length_map]
      omega)
    rw [getElem_map] at hs₁ hs₂
    rw [Option.some.inj htok] at hs₁ hs₂
    rw [if_neg hcur, if_neg hcur, hs₁, hs₂]

variable {exp}

lemma decodeVector_eq (hzero : exp 0 = 1) (hadd : ∀ a b, exp (a + b) = exp a * exp b) {h : History α}
    (hs : TailHolds c h s)
    (hpos : r.posValid c = true → r.position = (h (r.req c)).length) (hcomplete : r.completes c = true)
    (hring : c.poolSize ≤ c.tailSize + 1) {t : PrefillTensors α}
    (hp : PrefillsPool c t p (h (r.req c) ++ [(r.score, r.key)]) (r.poolId c)) :
    decodeVector c exp ape store s r = pooled c exp ape store (gather c t p) := by
  have hpairs : ∀ d, (range c.poolSize).map (decodePair c ape s r d) = biased c ape (gather c t p) d := by
    intro d
    apply map_congr_left
    intro slot hslot
    have hlt := mem_range.mp hslot
    exact decodePair_eq c ape hs hpos hcomplete hring hlt (hp.gathers slot hlt) d
  have hne : ∀ d, biased c ape (gather c t p) d ≠ [] := by
    intro d hnil
    have hlen := congrArg length hnil
    simp only [biased, length_map, length_range, length_nil] at hlen
    have := c.poolSize_pos
    omega
  have hboth := fun d => online_eq_twoPass hzero hadd (hne d)
  unfold decodeVector pooled
  simp [hpairs, (hboth _).1, (hboth _).2]

lemma decode_stores_as_prefill (hzero : exp 0 = 1) (hadd : ∀ a b, exp (a + b) = exp a * exp b)
    (hring : c.poolSize ≤ c.tailSize + 1) {pages : ℕ → ℕ → ℤ} {rows rest : List (DecodeRow α)}
    (hin : InOrder c (fun _ => []) (rows ++ r :: rest)) (htable : TableOf c pages r)
    (hcov : Covered c r) {s₀ : Live α Cell} (hrun : rows.foldlM (decodeRow c exp ape store who) s₀ = .ok s) :
    StoredAsPrefill c exp ape store pages
      (rows.foldl (arrive c) (fun _ => []) (r.req c) ++ [(r.score, r.key)]) s r := by
  obtain ⟨hrows, hnext⟩ := inOrder_append c hin
  have hs := tailHolds_run c exp ape store who (fun q => ⟨RingHolds.nil _, RingHolds.nil _⟩) hrows hrun
  apply storedAsPrefill_of c exp ape store htable hcov
  intro hcomplete _ t p hp
  exact decodeVector_eq c ape store hzero hadd hs hnext.1 hcomplete hring hp

end

/-! ## The transform -/

section

variable {α : Type} [Field α]

lemma hadamardStage_low (S : ℕ) (x : ℕ → α) {q o : ℕ} (ho : o < S) :
    hadamardStage S x (2 * S * q + o) = x (2 * S * q + o) + x (2 * S * q + S + o) := by
  have hdiv : (2 * S * q + o) / (2 * S) = q := by
    rw [Nat.mul_add_div (by omega), Nat.div_eq_of_lt (by omega), add_zero]
  have hmod : (2 * S * q + o) % (2 * S) = o := by rw [Nat.mul_add_mod, Nat.mod_eq_of_lt (by omega)]
  have hs : (2 * S * q + o) % S = o := by
    rw [mul_comm 2 S, mul_assoc, Nat.mul_add_mod, Nat.mod_eq_of_lt ho]
  simp [hadamardStage, hdiv, hmod, hs, if_pos ho, mul_comm q]

lemma hadamardStage_high (S : ℕ) (x : ℕ → α) {q o : ℕ} (ho : o < S) :
    hadamardStage S x (2 * S * q + S + o) = x (2 * S * q + o) - x (2 * S * q + S + o) := by
  have hdiv : (2 * S * q + S + o) / (2 * S) = q := by
    rw [add_assoc, Nat.mul_add_div (by omega), Nat.div_eq_of_lt (by omega), add_zero]
  have hmod : (2 * S * q + S + o) % (2 * S) = S + o := by
    rw [add_assoc, Nat.mul_add_mod, Nat.mod_eq_of_lt (by omega)]
  have hs : (2 * S * q + S + o) % S = o := by
    rw [mul_comm 2 S, mul_assoc, add_assoc, Nat.mul_add_mod, Nat.add_mod_left, Nat.mod_eq_of_lt ho]
  simp [hadamardStage, hdiv, hmod, hs, mul_comm q]

lemma hadamardStage_inj (htwo : (2 : α) ≠ 0) {S n : ℕ} (hS : 0 < S) {x y : ℕ → α}
    (h : ∀ i < 2 * S * n, hadamardStage S x i = hadamardStage S y i) : ∀ i < 2 * S * n, x i = y i := by
  have hpair : ∀ q < n, ∀ o < S, x (2 * S * q + o) = y (2 * S * q + o) ∧
      x (2 * S * q + S + o) = y (2 * S * q + S + o) := by
    intro q hq o ho
    have hbound : 2 * S * q + 2 * S ≤ 2 * S * n := by
      exact Nat.mul_le_mul_left _ hq
    have hlow := h (2 * S * q + o) (by omega)
    have hhigh := h (2 * S * q + S + o) (by omega)
    rw [hadamardStage_low S x ho, hadamardStage_low S y ho] at hlow
    rw [hadamardStage_high S x ho, hadamardStage_high S y ho] at hhigh
    constructor
    · apply mul_left_cancel₀ htwo
      linear_combination hlow + hhigh
    · apply mul_left_cancel₀ htwo
      linear_combination hlow - hhigh
  intro i hi
  have hdiv := Nat.div_add_mod i (2 * S)
  have hlt : i / (2 * S) < n := Nat.div_lt_of_lt_mul hi
  have hmod := Nat.mod_lt i (show 0 < 2 * S by omega)
  by_cases hlow : i % (2 * S) < S
  · have hboth := (hpair _ hlt _ hlow).1
    rw [hdiv] at hboth
    exact hboth
  · have hboth := (hpair _ hlt (i % (2 * S) - S) (by omega)).2
    rw [show 2 * S * (i / (2 * S)) + S + (i % (2 * S) - S) = i by omega] at hboth
    exact hboth

lemma hadamard128_inj (htwo : (2 : α) ≠ 0) (hscale : (8838834764831845 / 100000000000000000 : α) ≠ 0)
    {x y : ℕ → α} (h : ∀ i < 128, hadamard128 x i = hadamard128 y i) : ∀ i < 128, x i = y i := by
  have hstages : ∀ i < 2 * 64 * 1, [1, 2, 4, 8, 16, 32, 64].foldl (fun x S => hadamardStage S x) x i =
        [1, 2, 4, 8, 16, 32, 64].foldl (fun x S => hadamardStage S x) y i :=
    fun i hi => mul_right_cancel₀ hscale (h i hi)
  have h₆ := hadamardStage_inj htwo (show 0 < 64 by decide) hstages
  have h₅ := hadamardStage_inj htwo (S := 32) (n := 2) (by decide) h₆
  have h₄ := hadamardStage_inj htwo (S := 16) (n := 4) (by decide) h₅
  have h₃ := hadamardStage_inj htwo (S := 8) (n := 8) (by decide) h₄
  have h₂ := hadamardStage_inj htwo (S := 4) (n := 16) (by decide) h₃
  have h₁ := hadamardStage_inj htwo (S := 2) (n := 32) (by decide) h₂
  exact hadamardStage_inj htwo (S := 1) (n := 64) (by decide) h₁

end

end VKernels.Dsa
