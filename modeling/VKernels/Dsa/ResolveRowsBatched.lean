import VKernels.Dsa.ResolveRowsLaunch
import Mathlib.Tactic.Ring

/-!
# Batched resolution against one layer at a time

`dsa_resolve_rows_batched` launches the kernel over all layers, with `selected` of shape
`[layers, batch, topk]`; `dsa_resolve_rows` resolves one layer.

* `SelectionAgrees` — two selections that the oracle cannot tell apart; `referenceRow_agrees`.
-/

namespace VKernels.Dsa

open VKernels.VectorLanes
open List
open Int (natCast_nonneg ofNat_lt)

/-! ## Selections the oracle cannot tell apart -/

section

variable (g : Geometry)

/-- At every position both selections hold the same valid token, or none; and as many errors. -/
structure SelectionAgrees (T T' : Tables) (b : ℤ) : Prop where
  valid : ∀ j < g.k, valid g T' b j = valid g T b j
  token : ∀ j < g.k, Dsa.valid g T b j = true → token g T' b j = token g T b j
  errs : (List.range g.k).countP (isErr g T' b) = (List.range g.k).countP (isErr g T b)

variable (T : Tables) (sel : Buffer ℤ) (b : ℤ)

variable {j : ℕ}

lemma valid_iff (hj : j < g.k) :
    valid g T b j = true ↔ 0 ≤ T.selected (b * g.k + (j : ℕ)) ∧ T.selected (b * g.k + (j : ℕ)) < T.lengths b := by
  rw [← token_eq g T b hj]
  simp [valid, hj]

lemma isErr_of_invalid (hj : j < g.k) (hv : ¬ valid g T b j = true) :
    isErr g T b j = !(g.allowPadding && T.selected (b * g.k + (j : ℕ)) == -1) := by
  simp [isErr, hj, hv, token_eq, bne]

/-- The oracle's answer to a token outside the length. -/
lemma referenceStep_invalid {clock : ℤ} {s : Reference} (hj : j < g.k)
    (hv : ¬ valid g T b j = true) :
    referenceStep g T b clock s j =
      { s with errN := s.errN + (isErr g T b j).toNat, output := Function.update s.output j (-1) } := by
  have hrange := (valid_iff g T b hj).not.mp hv
  simp only [referenceStep, if_neg hrange, isErr_of_invalid g T b hj hv]
  cases g.allowPadding && T.selected (b * g.k + (j : ℕ)) == -1 <;> rfl

lemma referenceMiss_errN (clock : ℤ) (i : ℕ) (tok : ℤ) (s : Reference) :
    ∃ d, ∀ e, referenceMiss g T b clock i tok { s with errN := e } =
      { referenceMiss g T b clock i tok s with errN := e + d } ∧
        (referenceMiss g T b clock i tok s).errN = s.errN + d := by
  cases hhit : hitIdx g s tok _ with
  | some slot =>
    have hhit' : ∀ e, hitIdx g { s with errN := e } tok (T.generations (b * g.pages + tok / g.page)) =
        some slot := fun _ => hhit
    cases hfence : fenceOk g T b slot with
    | true =>
      refine ⟨0, fun e => ?_⟩
      rw [referenceMiss_hit g T b hhit, referenceMiss_hit g T b (hhit' e), hfence]
      exact ⟨rfl, rfl⟩
    | false =>
      refine ⟨1, fun e => ?_⟩
      rw [referenceMiss_hit g T b hhit, referenceMiss_hit g T b (hhit' e), hfence]
      exact ⟨rfl, rfl⟩
  | none =>
    have hhit' : ∀ e, hitIdx g { s with errN := e } tok _ =
        none := fun _ => hhit
    cases hvictim : victim g s with
    | none =>
      have hvictim' : ∀ e, victim g { s with errN := e } = none := fun _ => hvictim
      refine ⟨0, fun e => ?_⟩
      rw [referenceMiss_none g T b hhit hvictim, referenceMiss_none g T b (hhit' e) (hvictim' e)]
      exact ⟨rfl, rfl⟩
    | some slot =>
      have hvictim' : ∀ e, victim g { s with errN := e } = some slot := fun _ => hvictim
      cases hfence : fenceOk g T b slot with
      | true =>
        refine ⟨0, fun e => ?_⟩
        rw [referenceMiss_evict g T b hhit hvictim, referenceMiss_evict g T b (hhit' e) (hvictim' e), hfence]
        exact ⟨rfl, rfl⟩
      | false =>
        refine ⟨1, fun e => ?_⟩
        rw [referenceMiss_evict g T b hhit hvictim, referenceMiss_evict g T b (hhit' e) (hvictim' e), hfence]
        exact ⟨rfl, rfl⟩

/-- Two runs over two selections, `i` positions in: the same but for their errors. -/
def SameRun (i : ℕ) (s s' : Reference) : Prop :=
  ∃ e, s' = { s with errN := e } ∧
    s.errN + (List.range i).countP (isErr g { T with selected := sel } b) =
      e + (List.range i).countP (isErr g T b)

variable {g T sel b}

section

variable (hsel : SelectionAgrees g T { T with selected := sel } b)
include hsel

lemma sameRun_step {clock : ℤ} {i : ℕ} (hi : i < g.k)
    {s s' : Reference} (h : SameRun g T sel b i s s') :
    SameRun g T sel b (i + 1) (referenceStep g T b clock s i)
      (referenceStep g { T with selected := sel } b clock s' i) := by
  obtain ⟨e, rfl, herrs⟩ := h
  have hvalid := hsel.valid i hi
  by_cases hv : valid g T b i = true
  · have hv' : valid g { T with selected := sel } b i = true := hvalid.trans hv
    have htok : sel (b * g.k + (i : ℕ)) = T.selected (b * g.k + (i : ℕ)) := by
      rw [← token_eq g T b hi, ← hsel.token i hi hv]
      exact (token_eq g { T with selected := sel } b hi).symm
    have hrange := (valid_iff g T b hi).mp hv
    have herr : isErr g T b i = false := by simp [isErr, hv]
    have herr' : isErr g { T with selected := sel } b i = false := by simp [isErr, hv']
    simp only [SameRun, countP_range_succ, herr, herr', Bool.toNat_false, add_zero]
    simp only [referenceStep, htok, if_pos hrange]
    split
    · exact ⟨e, rfl, herrs⟩
    · obtain ⟨d, hd⟩ := referenceMiss_errN g T b clock i (T.selected (b * g.k + (i : ℕ))) s
      refine ⟨e + d, (hd e).1, ?_⟩
      rw [(hd e).2]
      omega
  · have hv' : ¬ valid g { T with selected := sel } b i = true := fun h => hv (hvalid.symm.trans h)
    rw [referenceStep_invalid g T b hi hv, referenceStep_invalid g _ b hi hv']
    refine ⟨_, rfl, ?_⟩
    rw [countP_range_succ, countP_range_succ]
    dsimp only
    omega

lemma sameRun_fold (clock : ℤ) (s₀ : Reference)
    {n : ℕ} (hn : n ≤ g.k) :
    SameRun g T sel b n ((range n).foldl (referenceStep g T b clock) s₀)
      ((range n).foldl (referenceStep g { T with selected := sel } b clock) s₀) := by
  induction n with
  | zero => exact ⟨s₀.errN, rfl, rfl⟩
  | succ n ih =>
    rw [range_succ, foldl_append, foldl_concat, foldl_cons, foldl_nil]
    exact sameRun_step hsel (by omega) (ih (by omega))

lemma referenceProtected_agrees
    (tags tagGenerations : ℕ → ℤ) :
    referenceProtected g { T with selected := sel } b tags tagGenerations =
      referenceProtected g T b tags tagGenerations := by
  have hmem : ∀ t, t ∈ selValid g { T with selected := sel } b ↔ t ∈ selValid g T b := by
    intro t
    rw [mem_selValid, mem_selValid]
    refine exists_congr fun j => and_congr_right fun hj => ?_
    rw [hsel.valid j hj]
    exact and_congr_right fun hv => by rw [hsel.token j hj hv]
  funext h
  simp [referenceProtected, hmem]

lemma referenceRow_agrees
    (tags tagGenerations ages : ℕ → ℤ) (clock : ℤ) :
    referenceRow g { T with selected := sel } b tags tagGenerations ages clock =
      referenceRow g T b tags tagGenerations ages clock := by
  unfold referenceRow
  rw [referenceProtected_agrees hsel]
  obtain ⟨e, hsame, herrs⟩ := sameRun_fold hsel _
    ⟨tags, tagGenerations, ages, referenceProtected g T b tags tagGenerations, 0, 0, 0, 0,
      fun _ => (0, 0), fun _ => -1⟩ le_rfl
  have herr := hsel.errs
  rw [hsame]
  have he : e = ((range g.k).foldl (referenceStep g T b (clock + 1))
      ⟨tags, tagGenerations, ages, referenceProtected g T b tags tagGenerations, 0, 0, 0, 0,
        fun _ => (0, 0), fun _ => -1⟩).errN := by
    omega
  rw [he]

end

end

/-! ## One layer alone -/

section

variable {V : Type} (g : Geometry)

/-- The tables with `selected[layer]`. -/
def Tables.layer (T : Tables) (layer : ℤ) : Tables :=
  { T with selected := fun a => T.selected (layer * g.batch * g.k + a) }

def hostLayer (host : Buffer V) (layer : ℤ) : Buffer V := fun a => host (layer * g.hostRows * g.width + a)

def Mem.layer (m : Mem V) (layer : ℤ) : Mem V where
  kv := fun a => m.kv (layer * g.gpuRows * g.width + a)
  fill := fun a => m.fill (layer * g.batch * g.k * 2 + a)
  tags := fun a => m.tags (layer * g.batch * g.h + a)
  tagGenerations := fun a => m.tagGenerations (layer * g.batch * g.h + a)
  ages := fun a => m.ages (layer * g.batch * g.h + a)
  clock := fun a => m.clock (layer * g.batch + a)
  output := fun a => m.output (layer * g.batch * g.k + a)
  counters := fun a => m.counters (layer * g.batch * 3 + a)
  errors := fun a => m.errors (layer * g.batch + a)
  bitmap := fun a => m.bitmap (layer * g.batch * g.words + a)
  worklist := fun a => m.worklist (layer * g.batch * g.k + a)

lemma stateRow_layer (m : Mem V) (layer b : ℤ) :
    stateRow g (m.layer g layer).tags b = stateRow g m.tags (layer * g.batch + b) ∧
      stateRow g (m.layer g layer).tagGenerations b = stateRow g m.tagGenerations (layer * g.batch + b) ∧
      stateRow g (m.layer g layer).ages b = stateRow g m.ages (layer * g.batch + b) := by
  have haddr : ∀ h : ℕ, layer * g.batch * g.h + (b * g.h + h) = (layer * g.batch + b) * (g.h : ℤ) + h :=
    fun h => by ring
  refine ⟨?_, ?_, ?_⟩ <;> funext h <;> simp [stateRow, Mem.layer, haddr]

lemma oracle_layer (T : Tables) (m : Mem V) (layer b : ℤ) : oracle g (T.layer g layer) (m.layer g layer) b b =
      oracle g (T.layer g layer) m b (layer * g.batch + b) := by
  obtain ⟨htags, hgens, hages⟩ := stateRow_layer g m layer b
  unfold oracle
  rw [htags, hgens, hages]
  rfl

variable {m : Mem V}

lemma fits_layer {layer b : ℤ} (h : Fits g m (layer * g.batch + b)) : Fits g (m.layer g layer) b := by
  have haddr : ∀ l : ℕ, layer * g.batch * g.h + (b * g.h + l) = (layer * g.batch + b) * (g.h : ℤ) + l :=
    fun l => by ring
  refine ⟨fun l hl => ?_, fun l hl => ?_, h.clock⟩
  · simp only [Mem.layer, haddr]
    exact h.tags l hl
  · simp only [Mem.layer, haddr]
    exact h.ages l hl

variable {g}

/-- State `st` of one memory holds what state `st'` of another holds. -/
structure SameSlices (g : Geometry) (st st' : ℤ) (m m' : Mem V) : Prop where
  output : ∀ j < g.k, m.output (st * g.k + (j : ℕ)) = m'.output (st' * g.k + (j : ℕ))
  counters : m.counters (st * 3) = m'.counters (st' * 3) ∧ m.counters (st * 3 + 1) = m'.counters (st' * 3 + 1) ∧
    m.counters (st * 3 + 2) = m'.counters (st' * 3 + 2)
  errors : m.errors st = m'.errors st'
  fills : ∀ j < g.k, fillAt g st m.fill j = fillAt g st' m'.fill j
  tags : ∀ h < g.h, m.tags (st * g.h + (h : ℕ)) = m'.tags (st' * g.h + (h : ℕ))
  tagGenerations : ∀ h < g.h, m.tagGenerations (st * g.h + (h : ℕ)) = m'.tagGenerations (st' * g.h + (h : ℕ))
  ages : ∀ h < g.h, m.ages (st * g.h + (h : ℕ)) = m'.ages (st' * g.h + (h : ℕ))
  clock : m.clock st = m'.clock st'

lemma Matches.sameSlices {st st' : ℤ} {m' : Mem V} {r : Reference} {clock : ℤ}
    (h : Matches g m st r clock) (h' : Matches g m' st' r clock) : SameSlices g st st' m m' :=
  ⟨fun j hj => (h.output j hj).trans (h'.output j hj).symm,
    ⟨h.counters.1.trans h'.counters.1.symm, h.counters.2.1.trans h'.counters.2.1.symm,
      h.counters.2.2.trans h'.counters.2.2.symm⟩,
    h.errors.trans h'.errors.symm, fun j hj => (h.fills j hj).trans (h'.fills j hj).symm,
    fun l hl => (h.tags l hl).trans (h'.tags l hl).symm,
    fun l hl => (h.tagGenerations l hl).trans (h'.tagGenerations l hl).symm,
    fun l hl => (h.ages l hl).trans (h'.ages l hl).symm, h.clock.trans h'.clock.symm⟩

variable (g)

/-- The batched launch over `layers` layers leaves in every state what the launch of the layer alone
leaves, in whatever orders the programs run. -/
def BatchedIsPerLayer (layers : ℕ) (T : Tables) (host : Buffer V) (m : Mem V) : Prop :=
  ∀ order, Covers g layers order → ∀ l < layers, ∀ alone, Covers g 1 alone → ∀ b < g.batch,
    SameSlices g (stateOf g ((b : ℕ), (l : ℕ))) (b : ℕ) (launch g T host order m)
      (launch g (T.layer g (l : ℕ)) (hostLayer g host (l : ℕ)) alone (m.layer g (l : ℕ)))

/-- What the model asks of every state of a batched launch. -/
def FitsAll (layers : ℕ) (m : Mem V) : Prop :=
  ∀ l < layers, ∀ b < g.batch, Fits g m (stateOf g ((b : ℕ), (l : ℕ)))

section

variable {g} {layers : ℕ} {m : Mem V} {l b : ℕ}

lemma batched_matches (T : Tables) (host : Buffer V) (hfits : FitsAll g layers m) {order : List (ℤ × ℤ)}
    (horder : Covers g layers order) (hl : l < layers) (hb : b < g.batch) :
    Matches g (launch g T host order m) (stateOf g ((b : ℕ), (l : ℕ)))
      (oracle g T m (b : ℕ) (stateOf g ((b : ℕ), (l : ℕ)))) (m.clock (stateOf g ((b : ℕ), (l : ℕ))) + 1) :=
  launch_matches g T host (horder.runs hfits) _ ((horder.mem _).mpr
    ⟨⟨natCast_nonneg b, ofNat_lt.mpr hb⟩, natCast_nonneg l, ofNat_lt.mpr hl⟩)

lemma alone_matches (T : Tables) (host : Buffer V) (hfits : FitsAll g layers m) {alone : List (ℤ × ℤ)}
    (halone : Covers g 1 alone) (hl : l < layers) (hb : b < g.batch) :
    Matches g (launch g (T.layer g (l : ℕ)) (hostLayer g host (l : ℕ)) alone (m.layer g (l : ℕ))) (b : ℕ)
      (oracle g (T.layer g (l : ℕ)) m (b : ℕ) (stateOf g ((b : ℕ), (l : ℕ))))
      (m.clock (stateOf g ((b : ℕ), (l : ℕ))) + 1) := by
  have hfits' : FitsAll g 1 (m.layer g (l : ℕ)) := by
    intro l' hl' b' hb'
    obtain rfl : l' = 0 := by omega
    have hst : stateOf g (((b' : ℕ) : ℤ), ((0 : ℕ) : ℤ)) = (b' : ℕ) := by simp [stateOf]
    rw [hst]
    exact fits_layer g (hfits l hl b' hb')
  have hst : stateOf g (((b : ℕ) : ℤ), ((0 : ℕ) : ℤ)) = (b : ℕ) := by simp [stateOf]
  have h := batched_matches (T.layer g (l : ℕ)) (hostLayer g host (l : ℕ)) hfits' halone one_pos hb
  rw [hst, oracle_layer] at h
  exact h

end

lemma batched_of_agrees {layers : ℕ} {T : Tables} {host : Buffer V} (hfits : FitsAll g layers m)
    (hsel : ∀ l < layers, ∀ b < g.batch, SelectionAgrees g T (T.layer g (l : ℕ)) (b : ℕ)) :
    BatchedIsPerLayer g layers T host m := by
  intro _ horder l hl _ halone b hb
  apply (batched_matches T host hfits horder hl hb).sameSlices
  have hsame : oracle g (T.layer g (l : ℕ)) m (b : ℕ) (stateOf g ((b : ℕ), (l : ℕ))) =
      oracle g T m (b : ℕ) (stateOf g ((b : ℕ), (l : ℕ))) := referenceRow_agrees (hsel l hl b hb) _ _ _ _
  rw [← hsame]
  exact alone_matches T host hfits halone hl hb

/-! ## Tables that tell selections apart -/

section

variable {g} {T : Tables} {b : ℤ}

/-- The answer at a position where every page is resident, at its own entry of the table. -/
def probeRow (g : Geometry) (T : Tables) (b : ℤ) (j : ℕ) : ℤ :=
  if valid g T b j then b * g.pages * g.page + token g T b j else -1

/-- Over such tables the oracle answers a valid token with a row of its own, and counts the errors. -/
lemma referenceFold_resident (hres : ∀ a, T.resident a = a) (hb : 0 ≤ b) {clock : ℤ} {s₀ : Reference}
    (h₀ : s₀.errN = 0) {n : ℕ} (hn : n ≤ g.k) :
    (∀ j < n, ((range n).foldl (referenceStep g T b clock) s₀).output j = probeRow g T b j) ∧
    ((range n).foldl (referenceStep g T b clock) s₀).errN = (range n).countP (isErr g T b) := by
  induction n with
  | zero => exact ⟨fun j hj => absurd hj (Nat.not_lt_zero j), h₀⟩
  | succ n ih =>
    obtain ⟨hout, herr⟩ := ih (by omega)
    have hk : n < g.k := by omega
    rw [range_succ, foldl_concat, ← range_succ, countP_range_succ]
    have hlast : ∀ v, v = probeRow g T b n → ∀ j < n + 1,
        Function.update ((range n).foldl (referenceStep g T b clock) s₀).output n v j = probeRow g T b j := by
      intro v hv j hj
      rw [Function.update_apply]
      split
      · rename_i hjn
        rw [hv, hjn]
      · exact hout j (by omega)
    by_cases hv : valid g T b n = true
    · have hrange := (valid_iff g T b hk).mp hv
      have hpage : 0 ≤ b * g.pages + T.selected (b * g.k + (n : ℕ)) / g.page :=
        add_nonneg (mul_nonneg hb (natCast_nonneg _)) (Int.ediv_nonneg hrange.1 (natCast_nonneg _))
      have hrow : (b * g.pages + T.selected (b * g.k + (n : ℕ)) / g.page) * g.page +
          T.selected (b * g.k + (n : ℕ)) % g.page = probeRow g T b n := by
        rw [probeRow, if_pos hv, token_eq g T b hk, add_mul, add_assoc, Int.mul_comm (_ / _), Int.mul_ediv_add_emod]
      have hnone : isErr g T b n = false := by simp [isErr, hv]
      simp only [referenceStep, if_pos hrange, hres, if_pos hpage]
      refine ⟨hlast _ hrow, ?_⟩
      rw [herr, hnone]
      rfl
    · rw [referenceStep_invalid g T b hk hv]
      refine ⟨hlast _ ?_, ?_⟩
      · rw [probeRow, if_neg hv]
      · rw [herr]

lemma agrees_of_oracle {sel : Buffer ℤ} (hres : ∀ a, T.resident a = a) (hb : 0 ≤ b) (m : Mem V) (st : ℤ)
    (hout : ∀ j < g.k, (oracle g T m b st).output j =
      (oracle g { T with selected := sel } m b st).output j)
    (herr : (oracle g T m b st).errN = (oracle g { T with selected := sel } m b st).errN) :
    SelectionAgrees g T { T with selected := sel } b := by
  have hprobe : ∀ T' : Tables, (∀ a, T'.resident a = a) →
      (∀ j < g.k, (oracle g T' m b st).output j = probeRow g T' b j) ∧
        (oracle g T' m b st).errN = (range g.k).countP _ := fun T' hres' =>
    referenceFold_resident hres' hb rfl le_rfl
  obtain ⟨hout₁, herr₁⟩ := hprobe T hres
  obtain ⟨hout₂, herr₂⟩ := hprobe { T with selected := sel } hres
  have hrow : ∀ j < g.k, probeRow g T b j = probeRow g { T with selected := sel } b j := fun j hj =>
    (hout₁ j hj).symm.trans ((hout j hj).trans (hout₂ j hj))
  have hnonneg : ∀ T' : Tables, ∀ j < g.k, valid g T' b j = true → 0 ≤ b * g.pages * g.page + token g T' b j := by
    intro T' j hj hv
    have hrange := (valid_iff g T' b hj).mp hv
    rw [token_eq g T' b hj]
    exact add_nonneg (mul_nonneg (mul_nonneg hb (natCast_nonneg _)) (natCast_nonneg _)) hrange.1
  have hvalid : ∀ j < g.k, valid g { T with selected := sel } b j = valid g T b j := by
    intro j hj
    have h := hrow j hj
    unfold probeRow at h
    cases hv : valid g T b j <;> cases hv' : valid g { T with selected := sel } b j
    · rfl
    · rw [hv, hv', if_neg Bool.false_ne_true, if_pos rfl] at h
      have := hnonneg _ j hj hv'
      omega
    · rw [hv, hv', if_neg Bool.false_ne_true, if_pos rfl] at h
      have := hnonneg _ j hj hv
      omega
    · rfl
  refine ⟨hvalid, fun j hj hv => ?_, ?_⟩
  · have h := hrow j hj
    rw [probeRow, probeRow, if_pos hv, if_pos ((hvalid j hj).trans hv)] at h
    omega
  · rw [← herr₁, ← herr₂, herr]

end

lemma exists_covers (layers : ℕ) : ∃ order, Covers g layers order := by
  refine ⟨(range layers).flatMap fun l : ℕ => (range g.batch).map fun b : ℕ => ((b : ℤ), (l : ℤ)),
    nodup_flatMap.mpr ⟨fun l _ => nodup_range.map fun a b hab => ?_, ?_⟩, fun rl => ?_⟩
  · exact Int.ofNat_inj.mp (Prod.ext_iff.mp hab).1
  · refine nodup_range.imp fun {a b} hab rl ha hb => ?_
    obtain ⟨_, _, rfl⟩ := mem_map.mp ha
    obtain ⟨_, _, heq⟩ := mem_map.mp hb
    exact hab (Int.ofNat_inj.mp (Prod.ext_iff.mp heq).2).symm
  · simp only [mem_flatMap, mem_map, mem_range, InBatch]
    constructor
    · rintro ⟨l, hl, b, hb, rfl⟩
      exact ⟨⟨natCast_nonneg b, ofNat_lt.mpr hb⟩, natCast_nonneg l, ofNat_lt.mpr hl⟩
    · rintro ⟨⟨hb₀, hb⟩, hl₀, hl⟩
      exact ⟨rl.2.toNat, by omega, rl.1.toNat, by omega, Prod.ext (Int.toNat_of_nonneg hb₀) (Int.toNat_of_nonneg hl₀)⟩

lemma selectionAgrees_congr {T T' : Tables} (hlen : T.lengths = T'.lengths)
    (hsel : T.selected = T'.selected) {l b : ℤ} (h : SelectionAgrees g T (T.layer g l) b) : SelectionAgrees g T' (T'.layer g l) b := by
  obtain ⟨hvalid, htoken, herrs⟩ := h
  have hlen' : (T.layer g l).lengths = (T'.layer g l).lengths := hlen
  have htok : token g T b = token g T' b := by
    funext j
    simp [token, hsel]
  have htok' : token g (T.layer g l) b = token g (T'.layer g l) b := by
    funext j
    simp [token, Tables.layer, hsel]
  have hval : valid g T b = valid g T' b := by
    funext j
    simp [valid, htok, hlen]
  have hval' : valid g (T.layer g l) b = valid g (T'.layer g l) b := by
    funext j
    simp [valid, htok', hlen']
  have herr : isErr g T b = isErr g T' b := by
    funext j
    simp [isErr, hval, htok]
  have herr' : isErr g (T.layer g l) b = isErr g (T'.layer g l) b := by
    funext j
    simp [isErr, hval', htok']
  rw [hval, hval'] at hvalid
  rw [hval, htok, htok'] at htoken
  rw [herr, herr'] at herrs
  exact ⟨hvalid, htoken, herrs⟩

/-- A cold hot tier. -/
def emptyTier [Inhabited V] : Mem V where
  kv := fun _ => default
  fill := fun _ => 0
  tags := fun _ => -1
  tagGenerations := fun _ => -1
  ages := fun _ => 0
  clock := fun _ => 0
  output := fun _ => 0
  counters := fun _ => 0
  errors := fun _ => 0
  bitmap := fun _ => 0
  worklist := fun _ => 0

lemma emptyTier_fits [Inhabited V] (layers : ℕ) : FitsAll g layers (emptyTier : Mem V) := by
  refine fun l _ b _ => ⟨fun h _ => ?_, fun h _ => ?_, ?_⟩
  · exact (Int.negSucc_lt_zero 0).trans_le (mul_nonneg (natCast_nonneg _) (natCast_nonneg _))
  · exact (by decide : (0 : ℤ) ≤ int64Max)
  · exact (by decide : (0 : ℤ) < int64Max)

/-- Two layers that select the two tokens in different orders, every page resident. -/
def swappedTables : Tables :=
  { twoMissesTables (fun a => a + 5) with
    resident := fun a => a
    selected := fun a => if a < 2 then a else 3 - a }

lemma twoMisses_covers_two : Covers twoMisses 2 [(0, 0), (0, 1)] := by
  refine ⟨by decide, fun rl => ?_⟩
  rw [mem_cons, mem_singleton, Prod.ext_iff, Prod.ext_iff]
  have hbatch : InBatch twoMisses rl ↔ 0 ≤ rl.1 ∧ rl.1 < 1 := Iff.rfl
  rw [hbatch]
  omega

end

end VKernels.Dsa
