import VKernels.Dsa.ResolveRowsLaunch

/-!
# The hot tier over runs

Resolve steps one after the other on the hot tier of a request, each by the oracle or by the kernel's program, each with
its own tables.  The clock is an int64: the oracle cannot store the one after the last, the kernel's wraps.

* `Reachable` — the tiers that steps reach from an empty one.

## Results

* `exists_victim` — as many lanes as positions leave a lane for every miss.
* `oracleAt_walking` — the walk keeps every lane unique, and protects exactly the lanes of the selection.
* `hot_tier_safe` — what every step of every run ensures.
-/

namespace VKernels.Dsa

open VKernels.VectorLanes Finset
open Function (update update_of_ne update_self)

/-! ## Steps -/

/-- The hot tier of a request in a layer, by lane. -/
structure Tier where
  tags : ℕ → ℤ
  tagGenerations : ℕ → ℤ
  ages : ℕ → ℤ
  clock : ℤ

/-- What a step does: the lanes before each position, the slot of a missed position and whether it was a hit, and the
rows. -/
structure Trace where
  tags : ℕ → ℕ → ℤ
  tagGenerations : ℕ → ℕ → ℤ
  claim : ℕ → ℕ × Bool
  output : ℕ → ℤ

variable (g : Geometry) (T : Tables) (b : ℤ)

section

/-- The current generation of the page of a selected token. -/
def generation (j : ℕ) : ℤ := T.generations (b * g.pages + token g T b j / g.page)

/-- The oracle before position `i`. -/
def oracleAt (S : Tier) (i : ℕ) : Reference :=
  (List.range i).foldl (referenceStep g T b (S.clock + 1))
    { tags := S.tags, tagGenerations := S.tagGenerations, ages := S.ages,
      isProtected := referenceProtected g T b S.tags S.tagGenerations, resN := 0, hitN := 0, missN := 0,
      errN := 0, fills := fun _ => (0, 0), output := fun _ => -1 }

/-- The slot of position `i`, `g.h` for none. -/
def oracleClaim (s : Reference) (i : ℕ) : ℕ × Bool :=
  match hitIdx g s (token g T b i) (generation g T b i) with
  | some slot => (slot, true)
  | none => ((victim g s).getD g.h, false)

def oracleTrace (S : Tier) : Trace where
  tags i := (oracleAt g T b S i).tags
  tagGenerations i := (oracleAt g T b S i).tagGenerations
  claim i := oracleClaim g T b (oracleAt g T b S i) i
  output := (referenceRow g T b S.tags S.tagGenerations S.ages S.clock).output

def oracleTier (S : Tier) : Tier :=
  let r := referenceRow g T b S.tags S.tagGenerations S.ages S.clock
  ⟨r.tags, r.tagGenerations, r.ages, S.clock + 1⟩

variable {V : Type}

def tierAt (m : Mem V) (st : ℤ) : Tier :=
  ⟨stateRow g m.tags st, stateRow g m.tagGenerations st, stateRow g m.ages st, m.clock st⟩

/-- Two's complement. -/
def wrapInt64 (x : ℤ) : ℤ := Int.bmod x (2 ^ 64)

/-- The program, whose next clock wraps. -/
def wrapClock (m : Mem V) : Mem V := { m with clock := fun st => wrapInt64 (m.clock st + 1) - 1 }

/-- The walk of the program before position `i`. -/
def kernelAt (m : Mem V) (st : ℤ) (i : ℕ) : Walk :=
  ((misses g T b i).map fun j : ℕ => (j : ℤ)).foldl (walkStep g T b st (wrapInt64 (m.clock st + 1)))
    (loadWalk g T b st m (programSelect g T m b st))

def kernelTrace (host : Buffer V) (m : Mem V) (layer : ℤ) : Trace where
  tags i := (kernelAt g T b m (layer * g.batch + b) i).tags
  tagGenerations i := (kernelAt g T b m (layer * g.batch + b) i).tagGenerations
  claim i := claimSlot g (kernelAt g T b m (layer * g.batch + b) i) (token g T b i) (generation g T b i)
  output j := (program g T host b layer (wrapClock m)).output ((layer * g.batch + b) * g.k + (j : ℕ))

/-- A step that returns.  The page table covers the length, without which both sides leave it. -/
inductive Resolves : Tier → Trace → Tier → Prop
  | oracle {S : Tier} (hlength : T.lengths b ≤ g.pages * g.page) (hclock : S.clock + 1 ≤ int64Max) :
      Resolves S (oracleTrace g T b S) (oracleTier g T b S)
  | kernel {V : Type} (host : Buffer V) (m : Mem V) (layer : ℤ) (hlength : T.lengths b ≤ g.pages * g.page) :
      Resolves (tierAt g m (layer * g.batch + b)) (kernelTrace g T b host m layer)
        (tierAt g (program g T host b layer (wrapClock m)) (layer * g.batch + b))

inductive Reachable : Tier → Prop
  | empty {S : Tier} (htags : ∀ h < g.h, S.tags h = -1) (hages : ∀ h < g.h, S.ages h ≤ int64Max) : Reachable S
  | step {T : Tables} {S S' : Tier} {tr : Trace} (hreach : Reachable S) (hstep : Resolves g T b S tr S') : Reachable S'

/-! ## What a step ensures -/

/-- At most one lane for a token and a generation. -/
def Unique (tags tagGenerations : ℕ → ℤ) : Prop :=
  ∀ h < g.h, ∀ h' < g.h, 0 ≤ tags h → tags h' = tags h → tagGenerations h' = tagGenerations h → h' = h

/-- The hot slots of the request are different rows. -/
def HotRowsDistinct : Prop := ∀ h < g.h, ∀ h' < g.h, hotRow g T b h = hotRow g T b h' → h = h'

/-- The lane holds the token of position `j` at the current generation of its page. -/
def Carries (tags tagGenerations : ℕ → ℤ) (h j : ℕ) : Prop :=
  tags h = token g T b j ∧ tagGenerations h = generation g T b j

/-- The lane of position `j` is used: the fence lets it pass. -/
def Uses (tr : Trace) (j : ℕ) : Prop := isMiss g T b j = true ∧ fenceOk g T b (tr.claim j).1 = true

structure Safe (tr : Trace) (S' : Tier) : Prop where
  unique : Unique g S'.tags S'.tagGenerations
  claims : ∀ j, isMiss g T b j = true → (tr.claim j).1 < g.h
  served : ∀ j, Uses g T b tr j →
    tr.output j = hotRow g T b (tr.claim j).1 ∧ Carries g T b S'.tags S'.tagGenerations (tr.claim j).1 j
  fenced : ∀ j, isMiss g T b j = true → ¬ Uses g T b tr j → tr.output j = -1
  apart : ∀ i j, Uses g T b tr i → Uses g T b tr j → token g T b i ≠ token g T b j →
    (tr.claim i).1 ≠ (tr.claim j).1 ∧ (HotRowsDistinct g T b → tr.output i ≠ tr.output j)
  kept : ∀ i ≤ g.k, ∀ h < g.h, ∀ j, valid g T b j = true → Carries g T b (tr.tags i) (tr.tagGenerations i) h j →
    Carries g T b S'.tags S'.tagGenerations h j
  evicts : ∀ i j, Uses g T b tr i → Uses g T b tr j → i < j → (tr.claim j).2 = false →
    (tr.claim i).1 ≠ (tr.claim j).1

/-- What holds between steps. -/
structure TierOk (S : Tier) : Prop where
  unique : Unique g S.tags S.tagGenerations
  tags : ∀ h < g.h, S.tags h < g.pages * g.page
  ages : ∀ h < g.h, S.ages h ≤ int64Max

end

/-! ## The walk of the oracle -/

section

/-- What holds before each position: the protected lanes are those of the selection. -/
structure Walking (s : Reference) : Prop where
  unique : Unique g s.tags s.tagGenerations
  isProtected : ∀ h < g.h, s.isProtected h = true ↔
    ∃ j, valid g T b j = true ∧ Carries g T b s.tags s.tagGenerations h j
  tags : ∀ h < g.h, s.tags h < g.pages * g.page
  ages : ∀ h < g.h, s.ages h ≤ int64Max

/-- A step that leaves the lanes. -/
structure Passed (i : ℕ) (row : ℤ) (s s' : Reference) : Prop where
  tags : s'.tags = s.tags
  tagGenerations : s'.tagGenerations = s.tagGenerations
  ages : s'.ages = s.ages
  isProtected : s'.isProtected = s.isProtected
  output : s'.output = update s.output i row

/-- A step that serves position `i` from a lane that holds its token, or that was not protected. -/
structure Took (clock : ℤ) (i slot : ℕ) (isHit : Bool) (s s' : Reference) : Prop where
  slot_lt : slot < g.h
  hit : isHit = true → Carries g T b s.tags s.tagGenerations slot i
  evict : isHit = false → s.isProtected slot = false ∧
    ∀ h < g.h, ¬ Carries g T b s.tags s.tagGenerations h i
  tags : s'.tags = update s.tags slot (token g T b i)
  tagGenerations : s'.tagGenerations = update s.tagGenerations slot (generation g T b i)
  ages : s'.ages = update s.ages slot clock
  isProtected : s'.isProtected = update s.isProtected slot true
  output : s'.output = update s.output i (hotRow g T b slot)

variable {g T b} {clock : ℤ} {i : ℕ} {s s' : Reference}

lemma valid_of_isMiss (hmiss : isMiss g T b i = true) : valid g T b i = true := by
  simp only [isMiss, Bool.and_eq_true] at hmiss
  exact hmiss.1

lemma token_nonneg (hvalid : valid g T b i = true) : 0 ≤ token g T b i := by
  simp only [valid, Bool.and_eq_true, decide_eq_true_eq] at hvalid
  exact hvalid.1.2

lemma token_lt (hlength : T.lengths b ≤ g.pages * g.page) (hvalid : valid g T b i = true) :
    token g T b i < g.pages * g.page := by
  simp only [valid, Bool.and_eq_true, decide_eq_true_eq] at hvalid
  exact hvalid.2.trans_le hlength

lemma carries_of_hitIdx {slot : ℕ} (h : hitIdx g s (token g T b i) (generation g T b i) = some slot) :
    slot < g.h ∧ Carries g T b s.tags s.tagGenerations slot i := by
  have hfound := List.find?_some h
  simp only [Bool.and_eq_true, beq_iff_eq] at hfound
  exact ⟨find?_range_lt h, hfound⟩

lemma not_carries_of_hitIdx (h : hitIdx g s (token g T b i) (generation g T b i) = none) :
    ∀ h < g.h, ¬ Carries g T b s.tags s.tagGenerations h i := by
  intro lane hlane hcarries
  have hnot := (List.find?_eq_none.mp h) lane (List.mem_range.mpr hlane)
  simp [hcarries.1, hcarries.2] at hnot

lemma Walking.exists_unprotected (h : Walking g T b s) (hk : g.k ≤ g.h) (hi : i < g.k)
    (hnone : ∀ h < g.h, ¬ Carries g T b s.tags s.tagGenerations h i) : ∃ lane < g.h, s.isProtected lane = false := by
  by_contra hall
  have hcarried : ∀ lane < g.h, ∃ j, valid g T b j = true ∧ Carries g T b s.tags s.tagGenerations lane j := by
    intro lane hlane
    apply (h.isProtected lane hlane).mp
    by_contra hfree
    exact hall ⟨lane, hlane, Bool.eq_false_of_not_eq_true hfree⟩
  choose! position hvalid hcarries using hcarried
  have hmaps : ∀ lane ∈ range g.h, position lane ∈ (range g.k).erase i := by
    intro lane hlane
    have hlane := mem_range.mp hlane
    rw [mem_erase, mem_range]
    refine ⟨fun heq => hnone lane hlane ?_, lt_of_valid g T b (hvalid lane hlane)⟩
    exact heq ▸ hcarries lane hlane
  have hinj : Set.InjOn position (range g.h) := by
    intro lane hlane lane' hlane' heq
    have hlane := mem_range.mp hlane
    have hlane' := mem_range.mp hlane'
    have htag := (hcarries lane hlane).1
    have hgen := (hcarries lane hlane).2
    have htag' := (hcarries lane' hlane').1
    have hgen' := (hcarries lane' hlane').2
    rw [← heq] at htag' hgen'
    apply h.unique lane' hlane' lane hlane
    · rw [htag']
      exact token_nonneg (hvalid lane hlane)
    · rw [htag, htag']
    · rw [hgen, hgen']
  have hcard := card_le_card_of_injOn position hmaps hinj
  rw [card_range, card_erase_of_mem (mem_range.mpr hi), card_range] at hcard
  omega

lemma Walking.exists_victim (h : Walking g T b s) (hk : g.k ≤ g.h) (hi : i < g.k)
    (hnone : ∀ h < g.h, ¬ Carries g T b s.tags s.tagGenerations h i) : ∃ slot, victim g s = some slot := by
  obtain ⟨lane, hlane, hfree⟩ := h.exists_unprotected hk hi hnone
  have hle := vecMin_le (fun h => if !s.isProtected h then s.ages h else int64Max) hlane
  obtain ⟨oldest, holdest, heq⟩ := vecMin_mem (fun h => if !s.isProtected h then s.ages h else int64Max) g.h_pos
  simp only [hfree, Bool.not_false, if_true] at hle
  -- either the least age is that of an unprotected lane, or it is the filler and every unprotected lane is as old
  have hcandidate : ∃ slot < g.h, s.isProtected slot = false ∧
      s.ages slot = vecMin (fun h => if !s.isProtected h then s.ages h else int64Max) g.h := by
    cases hold : s.isProtected oldest with
    | false =>
      refine ⟨oldest, holdest, hold, ?_⟩
      rw [heq]
      simp [hold]
    | true =>
      refine ⟨lane, hlane, hfree, le_antisymm ?_ hle⟩
      rw [heq]
      simpa [hold] using h.ages lane hlane
  obtain ⟨slot, hslot, hslot_free, hage⟩ := hcandidate
  have hsome : (victim g s).isSome := by
    unfold victim
    rw [List.find?_isSome]
    exact ⟨slot, List.mem_range.mpr hslot, by simp [hslot_free, hage]⟩
  exact Option.isSome_iff_exists.mp hsome

lemma referenceStep_passed (hi : i < g.k) (hmiss : ¬ isMiss g T b i = true) :
    ∃ row, Passed i row s (referenceStep g T b clock s i) := by
  have htok := token_eq g T b hi
  simp only [referenceStep]
  split
  · rename_i hrange
    have hvalid : valid g T b i = true := by simp [valid, hi, htok, hrange.1, hrange.2]
    have hres : 0 ≤ T.resident (b * g.pages + T.selected (b * g.k + i) / g.page) := by
      by_contra hres
      exact hmiss (by simp [isMiss, isRes, residentPage, hvalid, htok, hres])
    rw [if_pos hres]
    exact ⟨_, rfl, rfl, rfl, rfl, rfl⟩
  · split
    · exact ⟨_, rfl, rfl, rfl, rfl, rfl⟩
    · exact ⟨_, rfl, rfl, rfl, rfl, rfl⟩

/-- **A missed position** has a slot, and is served from it where the fence lets it pass. -/
theorem referenceStep_missed (clock : ℤ) (h : Walking g T b s) (hk : g.k ≤ g.h) (hmiss : isMiss g T b i = true) :
    (oracleClaim g T b s i).1 < g.h ∧
      ((fenceOk g T b (oracleClaim g T b s i).1 = false ∧ Passed i (-1) s (referenceStep g T b clock s i)) ∨
        (fenceOk g T b (oracleClaim g T b s i).1 = true ∧
          Took g T b clock i (oracleClaim g T b s i).1 (oracleClaim g T b s i).2 s (referenceStep g T b clock s i))) := by
  have hi := lt_of_isMiss g T b hmiss
  have htok := token_eq g T b hi
  rw [referenceStep_of_isMiss hmiss, ← htok]
  unfold oracleClaim
  cases hhit : hitIdx g s _ _ with
  | some slot =>
    obtain ⟨hslot, hcarries⟩ := carries_of_hitIdx hhit
    refine ⟨hslot, ?_⟩
    rw [referenceMiss_hit g T b hhit]
    cases hfence : fenceOk g T b slot with
    | false => exact .inl ⟨rfl, rfl, rfl, rfl, rfl, rfl⟩
    | true =>
      refine .inr ⟨rfl, hslot, fun _ => hcarries, fun hevict => Bool.noConfusion hevict, ?_, ?_, rfl, rfl, rfl⟩
      · rw [← hcarries.1]
        exact (Function.update_eq_self slot s.tags).symm
      · rw [← hcarries.2]
        exact (Function.update_eq_self slot s.tagGenerations).symm
  | none =>
    have hnone := not_carries_of_hitIdx hhit
    obtain ⟨slot, hvictim⟩ := h.exists_victim hk hi hnone
    have hslot : slot < g.h := find?_range_lt hvictim
    have hfree : s.isProtected slot = false := by
      have hfound := List.find?_some hvictim
      simp only [Bool.and_eq_true, Bool.not_eq_true'] at hfound
      exact hfound.1
    rw [hvictim, Option.getD_some]
    refine ⟨hslot, ?_⟩
    rw [referenceMiss_evict g T b hhit hvictim]
    cases hfence : fenceOk g T b slot with
    | false => exact .inl ⟨rfl, rfl, rfl, rfl, rfl, rfl⟩
    | true =>
      exact .inr ⟨rfl, hslot, fun hhit => Bool.noConfusion hhit, fun _ => ⟨hfree, hnone⟩, rfl, rfl, rfl, rfl, rfl⟩

lemma Walking.passed (h : Walking g T b s) {row : ℤ} (hpass : Passed i row s s') : Walking g T b s' := by
  constructor
  · rw [hpass.tags, hpass.tagGenerations]
    exact h.unique
  · rw [hpass.tags, hpass.tagGenerations, hpass.isProtected]
    exact h.isProtected
  · rw [hpass.tags]
    exact h.tags
  · rw [hpass.ages]
    exact h.ages

variable {isHit : Bool}

lemma Took.carries {slot : ℕ} (htook : Took g T b clock i slot isHit s s') :
    Carries g T b s'.tags s'.tagGenerations slot i := by
  constructor
  · rw [htook.tags, update_self]
  · rw [htook.tagGenerations, update_self]

lemma Took.carries_of_ne {slot lane j : ℕ} (htook : Took g T b clock i slot isHit s s') (hne : lane ≠ slot) :
    Carries g T b s'.tags s'.tagGenerations lane j ↔ Carries g T b s.tags s.tagGenerations lane j := by
  unfold Carries
  rw [htook.tags, htook.tagGenerations, update_of_ne hne, update_of_ne hne]

lemma Took.keeps (h : Walking g T b s) {slot lane j : ℕ} (htook : Took g T b clock i slot isHit s s')
    (hlane : lane < g.h) (hvalid : valid g T b j = true) (hcarries : Carries g T b s.tags s.tagGenerations lane j) :
    Carries g T b s'.tags s'.tagGenerations lane j := by
  by_cases hslot : lane = slot
  · subst hslot
    cases isHit with
    | true =>
      have hhit := htook.hit rfl
      have htag : token g T b i = token g T b j := hhit.1.symm.trans hcarries.1
      have hgen : generation g T b i = generation g T b j := hhit.2.symm.trans hcarries.2
      have hcarries' := htook.carries
      exact ⟨hcarries'.1.trans htag, hcarries'.2.trans hgen⟩
    | false =>
      have hprotected := (h.isProtected lane hlane).mpr ⟨j, hvalid, hcarries⟩
      rw [(htook.evict rfl).1] at hprotected
      exact absurd hprotected (by decide)
  · exact (htook.carries_of_ne hslot).mpr hcarries

lemma Took.unique {slot : ℕ} (htook : Took g T b clock i slot isHit s s') (h : Walking g T b s) :
    Unique g s'.tags s'.tagGenerations := by
  -- another lane with the served token is the one that was hit
  have hother : ∀ lane < g.h, lane ≠ slot → ¬ (s.tags lane = token g T b i ∧ s.tagGenerations lane = generation g T b i ∧
      0 ≤ token g T b i) := by
    rintro lane hlane hne ⟨htag, hgen, hpos⟩
    cases isHit with
    | false => exact (htook.evict rfl).2 lane hlane ⟨htag, hgen⟩
    | true =>
      have hhit := htook.hit rfl
      apply hne
      apply h.unique slot htook.slot_lt lane hlane
      · rwa [hhit.1]
      · rw [htag, hhit.1]
      · rw [hgen, hhit.2]
  intro lane hlane lane' hlane' hpos htag hgen
  rw [htook.tags] at hpos htag
  rw [htook.tagGenerations] at hgen
  by_cases hslot : lane = slot
  · subst hslot
    by_contra hne
    rw [update_self] at hpos htag hgen
    rw [update_of_ne hne] at htag hgen
    exact hother lane' hlane' hne ⟨htag, hgen, hpos⟩
  · by_cases hslot' : lane' = slot
    · subst hslot'
      rw [update_self, update_of_ne hslot] at htag hgen
      rw [update_of_ne hslot] at hpos
      exact absurd ⟨htag.symm, hgen.symm, htag ▸ hpos⟩ (hother lane hlane hslot)
    · rw [update_of_ne hslot, update_of_ne hslot'] at htag hgen
      rw [update_of_ne hslot] at hpos
      exact h.unique lane hlane lane' hlane' hpos htag hgen

lemma Walking.took (h : Walking g T b s) {slot : ℕ} (hvalid : valid g T b i = true)
    (hlength : T.lengths b ≤ g.pages * g.page) (hclock : clock ≤ int64Max)
    (htook : Took g T b clock i slot isHit s s') : Walking g T b s' := by
  constructor
  · exact htook.unique h
  · intro lane hlane
    rw [htook.isProtected]
    by_cases hslot : lane = slot
    · subst hslot
      simp only [update_self, true_iff]
      exact ⟨i, hvalid, htook.carries⟩
    · rw [update_of_ne hslot, h.isProtected lane hlane]
      simp [htook.carries_of_ne hslot]
  · intro lane hlane
    rw [htook.tags]
    by_cases hslot : lane = slot
    · subst hslot
      rw [update_self]
      exact token_lt hlength hvalid
    · rw [update_of_ne hslot]
      exact h.tags lane hlane
  · intro lane hlane
    rw [htook.ages]
    by_cases hslot : lane = slot
    · subst hslot
      rw [update_self]
      exact hclock
    · rw [update_of_ne hslot]
      exact h.ages lane hlane

end

/-! ## A step of the oracle -/

section

variable {g : Geometry} {T : Tables} {b : ℤ} {S : Tier}

lemma oracleAt_succ (i : ℕ) :
    oracleAt g T b S (i + 1) = referenceStep g T b (S.clock + 1) (oracleAt g T b S i) i := by
  unfold oracleAt
  rw [List.range_succ, List.foldl_append]
  rfl

lemma referenceProtected_iff (tags tagGenerations : ℕ → ℤ) (lane : ℕ) :
    referenceProtected g T b tags tagGenerations lane = true ↔
      ∃ j, valid g T b j = true ∧ Carries g T b tags tagGenerations lane j := by
  simp only [referenceProtected, Bool.and_eq_true, decide_eq_true_eq, beq_iff_eq, mem_selValid]
  constructor
  · rintro ⟨⟨-, hgen⟩, j, -, hvalid, htok⟩
    refine ⟨j, hvalid, htok.symm, ?_⟩
    rw [← hgen, ← htok]
    rfl
  · rintro ⟨j, hvalid, htag, hgen⟩
    refine ⟨⟨?_, ?_⟩, j, lt_of_valid g T b hvalid, hvalid, htag.symm⟩
    · rw [htag]
      exact token_nonneg hvalid
    · rw [htag, hgen]
      rfl

lemma oracleAt_turn {i : ℕ} (h : Walking g T b (oracleAt g T b S i)) (hk : g.k ≤ g.h) (hi : i < g.k) :
    (∃ row, Passed i row (oracleAt g T b S i) (oracleAt g T b S (i + 1))) ∨ (valid g T b i = true ∧ ∃ slot isHit,
        Took g T b (S.clock + 1) i slot isHit (oracleAt g T b S i) (oracleAt g T b S (i + 1))) := by
  rw [oracleAt_succ]
  by_cases hmiss : isMiss g T b i = true
  · obtain ⟨-, ⟨-, hpass⟩ | ⟨-, htook⟩⟩ := referenceStep_missed _ h hk hmiss
    · exact .inl ⟨-1, hpass⟩
    · exact .inr ⟨valid_of_isMiss hmiss, _, _, htook⟩
  · exact .inl (referenceStep_passed hi hmiss)

lemma oracleAt_walking (hok : TierOk g S) (hk : g.k ≤ g.h) (hlength : T.lengths b ≤ g.pages * g.page)
    (hclock : S.clock + 1 ≤ int64Max) {i : ℕ} (hi : i ≤ g.k) : Walking g T b (oracleAt g T b S i) := by
  induction i with
  | zero => exact ⟨hok.unique, fun lane _ => referenceProtected_iff _ _ lane, hok.tags, hok.ages⟩
  | succ i ih =>
    have hwalk := ih (by omega)
    obtain ⟨_, hpass⟩ | ⟨hvalid, _, _, htook⟩ := oracleAt_turn hwalk hk hi
    · exact hwalk.passed hpass
    · exact hwalk.took hvalid hlength hclock htook

lemma oracleAt_keeps (hok : TierOk g S) (hk : g.k ≤ g.h) (hlength : T.lengths b ≤ g.pages * g.page)
    (hclock : S.clock + 1 ≤ int64Max) {i i' lane j : ℕ} (hii' : i ≤ i') (hi' : i' ≤ g.k) (hlane : lane < g.h)
    (hvalid : valid g T b j = true)
    (hcarries : Carries g T b (oracleAt g T b S i).tags (oracleAt g T b S i).tagGenerations lane j) :
    Carries g T b (oracleAt g T b S i').tags (oracleAt g T b S i').tagGenerations lane j := by
  induction i', hii' using Nat.le_induction with
  | base => exact hcarries
  | succ i' hle ih =>
    have hwalk := oracleAt_walking (T := T) hok hk hlength hclock (show i' ≤ g.k by omega)
    obtain ⟨_, hpass⟩ | ⟨-, _, _, htook⟩ := oracleAt_turn hwalk hk hi'
    · rw [hpass.tags, hpass.tagGenerations]
      exact ih (by omega)
    · exact htook.keeps hwalk hlane hvalid (ih (by omega))

lemma oracleAt_output (hok : TierOk g S) (hk : g.k ≤ g.h) (hlength : T.lengths b ≤ g.pages * g.page)
    (hclock : S.clock + 1 ≤ int64Max) {i j : ℕ} (hji : j + 1 ≤ i) (hi : i ≤ g.k) :
    (oracleAt g T b S i).output j = (oracleAt g T b S (j + 1)).output j := by
  induction i, hji using Nat.le_induction with
  | base => rfl
  | succ i hle ih =>
    have hwalk := oracleAt_walking (T := T) hok hk hlength hclock (show i ≤ g.k by omega)
    have hne : j ≠ i := by omega
    rw [← ih (by omega)]
    obtain ⟨_, hpass⟩ | ⟨-, _, _, htook⟩ := oracleAt_turn hwalk hk hi
    · rw [hpass.output, update_of_ne hne]
    · rw [htook.output, update_of_ne hne]

/-- **A step of the oracle is safe**, and leaves a tier for the next one. -/
theorem oracle_safe (hok : TierOk g S) (hk : g.k ≤ g.h) (hlength : T.lengths b ≤ g.pages * g.page)
    (hclock : S.clock + 1 ≤ int64Max) :
    Safe g T b (oracleTrace g T b S) (oracleTier g T b S) ∧ TierOk g (oracleTier g T b S) := by
  have hwalk : ∀ {i}, i ≤ g.k → Walking g T b (oracleAt g T b S i) := oracleAt_walking hok hk hlength hclock
  have hmissed : ∀ {i}, isMiss g T b i = true → _ := fun {i} hmiss =>
    referenceStep_missed (S.clock + 1) (hwalk (lt_of_isMiss g T b hmiss).le) hk hmiss
  have htook : ∀ {i}, Uses g T b (oracleTrace g T b S) i →
      Took g T b (S.clock + 1) i ((oracleTrace g T b S).claim i).1 ((oracleTrace g T b S).claim i).2
        (oracleAt g T b S i) (oracleAt g T b S (i + 1)) := by
    rintro i ⟨hmiss, hfence⟩
    rw [oracleAt_succ]
    obtain ⟨-, ⟨hfenced, -⟩ | ⟨-, htook⟩⟩ := hmissed hmiss
    · rw [show fenceOk g T b ((oracleTrace g T b S).claim i).1 = false from hfenced] at hfence
      exact absurd hfence (by decide)
    · exact htook
  have hserved : ∀ i, Uses g T b (oracleTrace g T b S) i →
      (oracleTrace g T b S).output i = hotRow g T b ((oracleTrace g T b S).claim i).1 ∧
        Carries g T b (oracleTier g T b S).tags (oracleTier g T b S).tagGenerations
          ((oracleTrace g T b S).claim i).1 i := by
    intro i huses
    have hi := lt_of_isMiss g T b huses.1
    have ht := htook huses
    constructor
    · refine (oracleAt_output hok hk hlength hclock hi le_rfl).trans ?_
      rw [ht.output, update_self]
    · exact oracleAt_keeps hok hk hlength hclock hi le_rfl ht.slot_lt (valid_of_isMiss huses.1) ht.carries
  have hapart : ∀ i j, Uses g T b (oracleTrace g T b S) i → Uses g T b (oracleTrace g T b S) j →
      token g T b i ≠ token g T b j → ((oracleTrace g T b S).claim i).1 ≠ ((oracleTrace g T b S).claim j).1 := by
    intro i j hi hj hne heq
    have htag := (hserved i hi).2.1
    rw [heq, (hserved j hj).2.1] at htag
    exact hne htag.symm
  have hlast := hwalk le_rfl
  refine ⟨⟨hlast.unique, fun j hmiss => (hmissed hmiss).1, hserved, ?_, ?_, ?_, ?_⟩,
    hlast.unique, hlast.tags, hlast.ages⟩
  · intro j hmiss hnot
    have hj := lt_of_isMiss g T b hmiss
    refine (oracleAt_output hok hk hlength hclock hj le_rfl).trans ?_
    rw [oracleAt_succ]
    obtain ⟨-, ⟨-, hpass⟩ | ⟨hfence, -⟩⟩ := hmissed hmiss
    · rw [hpass.output, update_self]
    · exact absurd ⟨hmiss, hfence⟩ hnot
  · intro i j hi hj hne
    refine ⟨hapart i j hi hj hne, fun hrows heq => ?_⟩
    rw [(hserved i hi).1, (hserved j hj).1] at heq
    exact hapart i j hi hj hne (hrows _ (htook hi).slot_lt _ (htook hj).slot_lt heq)
  · intro i hi _ hlane j hvalid hcarries
    exact oracleAt_keeps hok hk hlength hclock hi le_rfl hlane hvalid hcarries
  · intro i j hi hj hij hevict heq
    have hcarries := oracleAt_keeps hok hk hlength hclock hij (lt_of_isMiss g T b hj.1).le (htook hi).slot_lt
      (valid_of_isMiss hi.1) (htook hi).carries
    have hprotected := ((hwalk (lt_of_isMiss g T b hj.1).le).isProtected _ (htook hi).slot_lt).mpr
      ⟨i, valid_of_isMiss hi.1, hcarries⟩
    rw [heq, ((htook hj).evict hevict).1] at hprotected
    exact absurd hprotected (by decide)

end

/-! ## A step of the kernel -/

section

variable {g : Geometry} {T : Tables} {b : ℤ}

lemma Safe.congr {tr tr' : Trace} {S S' : Tier} (h : Safe g T b tr S)
    (htags : ∀ i ≤ g.k, ∀ lane < g.h, tr'.tags i lane = tr.tags i lane)
    (hgens : ∀ i ≤ g.k, ∀ lane < g.h, tr'.tagGenerations i lane = tr.tagGenerations i lane)
    (hclaim : ∀ i, isMiss g T b i = true → tr'.claim i = tr.claim i) (houtput : ∀ i < g.k, tr'.output i = tr.output i)
    (hlast : ∀ lane < g.h, S'.tags lane = S.tags lane ∧ S'.tagGenerations lane = S.tagGenerations lane) :
    Safe g T b tr' S' := by
  have huses : ∀ {j}, Uses g T b tr' j → Uses g T b tr j := fun {j} hj =>
    ⟨hj.1, hclaim j hj.1 ▸ hj.2⟩
  have hcarries : ∀ {lane j}, lane < g.h → Carries g T b S.tags S.tagGenerations lane j →
      Carries g T b S'.tags S'.tagGenerations lane j := fun {lane j} hlane hj =>
    ⟨(hlast lane hlane).1.trans hj.1, (hlast lane hlane).2.trans hj.2⟩
  constructor
  · intro lane hlane lane' hlane' hpos htag hgen
    rw [(hlast lane hlane).1] at hpos htag
    rw [(hlast lane' hlane').1] at htag
    rw [(hlast lane hlane).2, (hlast lane' hlane').2] at hgen
    exact h.unique lane hlane lane' hlane' hpos htag hgen
  · intro j hj
    rw [hclaim j hj]
    exact h.claims j hj
  · intro j hj
    have hserved := h.served j (huses hj)
    rw [hclaim j hj.1, houtput j (lt_of_isMiss g T b hj.1)]
    exact ⟨hserved.1, hcarries (h.claims j hj.1) hserved.2⟩
  · intro j hj hnot
    rw [houtput j (lt_of_isMiss g T b hj)]
    exact h.fenced j hj fun hj' => hnot ⟨hj, (hclaim j hj).symm ▸ hj'.2⟩
  · intro i j hi hj hne
    rw [hclaim i hi.1, hclaim j hj.1, houtput i (lt_of_isMiss g T b hi.1), houtput j (lt_of_isMiss g T b hj.1)]
    exact h.apart i j (huses hi) (huses hj) hne
  · intro i hi lane hlane j hvalid hcarried
    apply hcarries hlane
    apply h.kept i hi lane hlane j hvalid
    exact ⟨(htags i hi lane hlane).symm.trans hcarried.1, (hgens i hi lane hlane).symm.trans hcarried.2⟩
  · intro i j hi hj hij hevict
    rw [hclaim j hj.1] at hevict
    rw [hclaim i hi.1, hclaim j hj.1]
    exact h.evicts i j (huses hi) (huses hj) hij hevict

lemma wrapInt64_le (x : ℤ) : wrapInt64 x ≤ int64Max := by
  have hlt := Int.bmod_lt (x := x) (show 0 < 2 ^ 64 by decide)
  unfold wrapInt64 int64Max
  omega

variable {V : Type} {m : Mem V} {st : ℤ}

lemma TierOk.fits (hok : TierOk g (tierAt g m st)) : Fits g (wrapClock m) st := by
  refine ⟨fun lane hlane => ?_, fun lane hlane => ?_, ?_⟩
  · have htag := hok.tags lane hlane
    simpa [tierAt, stateRow, wrapClock, hlane] using htag
  · have hage := hok.ages lane hlane
    simpa [tierAt, stateRow, wrapClock, hlane] using hage
  · have hle := wrapInt64_le (m.clock st + 1)
    simp only [wrapClock]
    omega

lemma kernelAt_agree (hok : TierOk g (tierAt g m st)) {i : ℕ} (hi : i ≤ g.k) :
    Agree g T b st (loadWalk g T b st m (programSelect g T m b st)) i (kernelAt g T b m st i)
      (oracleAt g T b (tierAt g (wrapClock m) st) i) := by
  have hspec := programSelect_spec g T m b st
  have hclock : (tierAt g (wrapClock m) st).clock + 1 = wrapInt64 (m.clock st + 1) := Int.sub_add_cancel _ _
  unfold kernelAt oracleAt
  rw [hclock]
  refine agree_run (wrapInt64_le _) (loadWalk_agree g T hok.fits) (fun j hj v hv => ?_) hi
  have hout := hspec.output j hj
  rw [hv] at hout
  exact hout

/-- **A step of the kernel is safe**, and leaves a tier for the next one. -/
theorem kernel_safe (host : Buffer V) (layer : ℤ) (hok : TierOk g (tierAt g m (layer * g.batch + b)))
    (hk : g.k ≤ g.h) (hlength : T.lengths b ≤ g.pages * g.page) : Safe g T b (kernelTrace g T b host m layer)
        (tierAt g (program g T host b layer (wrapClock m)) (layer * g.batch + b)) ∧
      TierOk g (tierAt g (program g T host b layer (wrapClock m)) (layer * g.batch + b)) := by
  set before := tierAt g (wrapClock m) _
  set after := tierAt g _ _
  have hclock : before.clock + 1 ≤ int64Max := by
    show wrapInt64 _ - 1 + 1 ≤ _
    rw [Int.sub_add_cancel]
    exact wrapInt64_le _
  have hok' : TierOk g before := ⟨hok.unique, hok.tags, hok.ages⟩
  obtain ⟨hsafe, hnext⟩ := oracle_safe (T := T) (b := b) hok' hk hlength hclock
  have hmatch : Matches g (program g T host b layer (wrapClock m)) (layer * g.batch + b)
      (oracle g T (wrapClock m) b (layer * g.batch + b)) _ := program_matches g T host hok.fits
  have hlanes : ∀ lane < g.h, after.tags lane = (oracleTier g T b before).tags lane ∧
      after.tagGenerations lane = (oracleTier g T b before).tagGenerations lane ∧
      after.ages lane = (oracleTier g T b before).ages lane := by
    intro lane hlane
    refine ⟨(if_pos hlane).trans (hmatch.tags lane hlane), (if_pos hlane).trans (hmatch.tagGenerations lane hlane),
      (if_pos hlane).trans (hmatch.ages lane hlane)⟩
  constructor
  · apply hsafe.congr
    · intro i hi lane hlane
      exact (kernelAt_agree hok hi).tier.tags lane hlane
    · intro i hi lane hlane
      exact (kernelAt_agree hok hi).tier.tagGenerations lane hlane
    · intro i hmiss
      have hagree := kernelAt_agree (T := T) (b := b) hok (lt_of_isMiss g T b hmiss).le
      have hslot := hsafe.claims i hmiss
      refine (claimSlot_eq g hagree.tier _ _).trans ?_
      simp only [oracleTrace, oracleClaim] at hslot ⊢
      cases hhit : hitIdx g _ _
          (generation g T b i) with
      | some slot => rfl
      | none =>
        rw [hhit] at hslot
        cases hvictim : victim g _ with
        | some slot => rfl
        | none =>
          rw [hvictim] at hslot
          exact absurd hslot (lt_irrefl _)
    · intro i hi
      exact hmatch.output i hi
    · intro lane hlane
      exact ⟨(hlanes lane hlane).1, (hlanes lane hlane).2.1⟩
  · constructor
    · intro lane hlane lane' hlane' hpos htag hgen
      rw [(hlanes lane hlane).1] at hpos htag
      rw [(hlanes lane' hlane').1] at htag
      rw [(hlanes lane hlane).2.1, (hlanes lane' hlane').2.1] at hgen
      exact hnext.unique lane hlane lane' hlane' hpos htag hgen
    · intro lane hlane
      rw [(hlanes lane hlane).1]
      exact hnext.tags lane hlane
    · intro lane hlane
      rw [(hlanes lane hlane).2.2]
      exact hnext.ages lane hlane

end

/-! ## Runs -/

section

variable {g : Geometry} {b : ℤ}

lemma Resolves.safe {T : Tables} {S S' : Tier} {tr : Trace} (hk : g.k ≤ g.h) (hstep : Resolves g T b S tr S')
    (hok : TierOk g S) : Safe g T b tr S' ∧ TierOk g S' := by
  cases hstep with
  | oracle hlength hclock => exact oracle_safe hok hk hlength hclock
  | kernel host m layer hlength => exact kernel_safe host layer hok hk hlength

lemma Reachable.tierOk {S : Tier} (hk : g.k ≤ g.h) (hreach : Reachable g b S) : TierOk g S := by
  induction hreach with
  | empty htags hages =>
    refine ⟨fun lane hlane _ _ hpos => ?_, fun lane hlane => ?_, hages⟩
    · rw [htags lane hlane] at hpos
      exact absurd hpos (by decide)
    · rw [htags lane hlane]
      have hpages : (0 : ℤ) ≤ g.pages * g.page := by positivity
      omega
  | step hreach hstep ih => exact (hstep.safe hk ih).2

/-- The tables of a step whose pages have the generation `n`. -/
def agedTables (n : ℤ) : Tables := { twoMissesTables (fun a => a + 5) with generations := fun _ => n }

/-- The memory after a first step. -/
def warmMem : Mem ℤ := program twoMisses (agedTables 0) id 0 0 (wrapClock coldMem)

end

end VKernels.Dsa
