import VKernels.Compiler.HybridRuns

/-!
# The hybrid megakernel at every capacity

What a session of the hybrid megakernel promises, and up to which capacity it does: the regions of scores and
probabilities have `24 * 512` elements each, and the constructor takes any capacity.

## Results

* `softmax_outside` — beyond 512 the last head stores probabilities past the workspace.
* `counter_exact` — the counter is right at every capacity.
* `hybrid_megakernel_iff` — every session is correct exactly up to a capacity of 512.
* `hybrid_megakernel_wide` — capacity 513.
-/

namespace VKernels.Hybrid

open BarrierPhases Interleaving
open GridBarrier (launchTargets)
open LaneLaunch (nextPowerOf2)
open SpinBarrier (Safe Finishes counter_of_done)
open SplitSoftmax (Exponential)
open List hiding not_le not_lt

/-! ## Regions -/

/-- Scores and probabilities of layer `l` stay in their regions, in the three phases that touch them. -/
structure InRegions {V : Type} (P : ℕ) (phases : List (Phase Cell V)) (l : ℕ) : Prop where
  scores : ∀ ph, phases[executed l + 4]? = some ph → ph.writes ⊆ rScores.cells
  softmaxLoads : ∀ ph, phases[executed l + 5]? = some ph → ∀ id ∈ ph.ids P, (ph.taskAt id).loads ⊆ rScores.cells
  softmaxStores : ∀ ph, phases[executed l + 5]? = some ph → ph.writes ⊆ rProbs.cells
  values : ∀ ph, phases[executed l + 6]? = some ph → ∀ id ∈ ph.ids P,
    (ph.taskAt id).loads ⊆ cells [rProbs, .whole .vCache, rPost]

variable {V : Type} [Field V] [LinearOrder V] {f : Maths V} {c : Scales V} {w : Weights V}

section

variable {token pos : ℕ} {barBase : ℤ} {P capacity : ℕ} {killAfter : ℤ} {l : ℕ}

lemma launch_phase (hl : l < 64) (hex : Executes killAfter l) (hfull : isFull l = true) {j : ℕ} (hj : j < 8) :
    (hybridMegakernel f (hybridDims capacity c) w token pos pos barBase P 64 killAfter)[executed l + (j + 1)]? =
      (fullAttention f (hybridDims capacity c) w pos pos P (fullIndex l) (layerBase barBase P l))[j]? := by
  obtain ⟨_, _, hsplit, hlen, -⟩ := @launch_layer V _ _ f c w token pos barBase P capacity 64 killAfter l hl hex hfull
  have hlen' : (fullAttention f (hybridDims capacity c) w pos pos P (fullIndex l) (layerBase barBase P l)).length = 8 := rfl
  rw [hsplit, append_assoc, getElem?_append_right (by omega), getElem?_append_left (by omega)]
  congr 1
  omega

lemma launch_inRegions (hP : 0 < P) (hcap : capacity ≤ 512) (hpos : pos < capacity) (hl : l < 64)
    (hex : Executes killAfter l) (hfull : isFull l = true) :
    InRegions P (hybridMegakernel f (hybridDims capacity c) w token pos pos barBase P 64 killAfter) l := by
  refine ⟨fun ph hph => ?_, fun ph hph id hid => ?_, fun ph hph => ?_, fun ph hph id hid => ?_⟩
  · rw [launch_phase hl hex hfull (show 3 < 8 by omega)] at hph
    obtain rfl := Option.some.inj hph
    rw [← cells_singleton]
    exact (scores_separate hcap hpos).writes
  · rw [launch_phase hl hex hfull (show 4 < 8 by omega)] at hph
    obtain rfl := Option.some.inj hph
    rw [← cells_singleton]
    exact (softmax_separate hcap hpos).loads hP hid
  · rw [launch_phase hl hex hfull (show 4 < 8 by omega)] at hph
    obtain rfl := Option.some.inj hph
    rw [← cells_singleton]
    exact (softmax_separate hcap hpos).writes
  · rw [launch_phase hl hex hfull (show 5 < 8 by omega)] at hph
    obtain rfl := Option.some.inj hph
    exact (values_separate hcap hpos).loads hP hid

lemma softmax_outside (hcap : 512 < capacity) (hl : l < 64) (hex : Executes killAfter l) (hfull : isFull l = true) :
    ¬InRegions P (hybridMegakernel f (hybridDims capacity c) w token pos pos barBase P 64 killAfter) l := by
  intro hregions
  have hinside : Phase.writes ⟨[⟨24, hSoftmax f oScores pos oProbs capacity (min 1024 (nextPowerOf2 capacity))⟩],
      some (layerBase barBase P l + 6 * P)⟩ ⊆ rProbs.cells :=
    hregions.softmaxStores _ (launch_phase hl hex hfull (show 4 < 8 by omega))
  have hlanes : 512 < min 1024 (nextPowerOf2 capacity) :=
    lt_min (by omega) (hcap.trans_le (LaneLaunch.le_nextPowerOf2 capacity))
  have hstored : ((.ws, oProbs + 23 * capacity + 512) : Cell) ∈ rProbs.cells :=
    hinside ⟨_, mem_singleton.mpr rfl, 23, show 23 < 24 by omega, fun _ => 0, _, mem_laneStores.mpr ⟨512, hlanes, hcap, rfl⟩⟩
  have hbound : oProbs + 23 * capacity + 512 < oProbs + 24 * 512 := hstored.2.2
  omega

end

/-! ## The counter -/

def barrierCounts {V : Type} (phases : ℕ → List (Phase Cell V)) (runs : ℕ) : List ℕ :=
  (range runs).map fun n => ((phases n).filterMap Phase.barrier).length

/-- The targets of every run are those of the counter, and every run ends; between two runs the counter is the base of
the host, whatever the guard does. -/
structure CounterExact {V : Type} (workers : ℕ) (host : ℕ → Host) (phases : ℕ → List (Phase Cell V)) (runs : ℕ) :
    Prop where
  targets : ∀ n < runs, (phases n).filterMap Phase.barrier =
    launchTargets (Fin workers) (host n).barBase ((phases n).filterMap Phase.barrier).length
  ends : ∀ (first : Fin workers) acts σ, run (SpinBarrier.step first fun c t => c < t) acts
    (SpinBarrier.init 0 (barrierCounts phases runs)) = some σ → Safe σ ∧ Finishes first (fun c t => c < t) σ
  counter : ∀ (first : Fin workers) waits acts σ, run (SpinBarrier.step first waits) acts
    (SpinBarrier.init 0 (barrierCounts phases runs)) = some σ → (∀ worker, σ.pos worker = .done) →
      σ.later.length ≤ runs ∧ σ.counter = (host (runs - σ.later.length)).barBase

section

variable {host : ℕ → Host} {killAfter : ℕ → ℤ} {token : ℕ → ℕ} {phases : ℕ → List (Phase Cell V)}
    {runs : ℕ}

lemma Calls.barBase (h : Calls f c w host killAfter token phases runs) {n : ℕ} (hn : n ≤ runs) :
    (host n).barBase = (host 0).barBase +
      (((range runs).map fun n => executed (killAfter n)).take n).sum * (host 0).workers := by
  induction n with
  | zero => simp
  | succ n ih =>
    obtain ⟨-, -, hhost⟩ := Host.run_ok (h n hn)
    have hget : ((range runs).map fun n => executed (killAfter n))[n]? = some (executed (killAfter n)) := by
      rw [getElem?_map, getElem?_range hn]
      rfl
    rw [hhost, take_add_one, hget, sum_append]
    rw [ih (by omega), (h.same (show n ≤ runs by omega)).2]
    simp only [Option.toList_some, sum_singleton]
    push_cast
    ring

lemma counter_exact (h : Calls f c w host killAfter token phases runs) (hbase : (host 0).barBase = 0)
    (hkill : ∀ n < runs, -1 ≤ killAfter n ∧ killAfter n ≤ 64) : CounterExact (host 0).workers host phases runs := by
  have hbarriers : ∀ n < runs, (phases n).filterMap Phase.barrier =
      launchTargets (Fin (host 0).workers) (host n).barBase (executed (killAfter n)) := by
    intro n hn
    rw [(h.launch hn).2]
    exact megakernel_targets (hkill n hn).1 (hkill n hn).2
  have hlength : ∀ n < runs, ((phases n).filterMap Phase.barrier).length = executed (killAfter n) := by
    intro n hn
    rw [hbarriers n hn, launchTargets, length_map, length_range]
  have hcounts : barrierCounts phases runs = (range runs).map fun n => executed (killAfter n) :=
    map_congr_left fun n hn => hlength n (mem_range.mp hn)
  refine ⟨fun n hn => ?_, fun first acts σ hrun => ?_, fun first waits acts σ hrun hdone => ?_⟩
  · rw [hlength n hn, hbarriers n hn]
  · have hholds (low limit : ℤ) : SpinBarrier.Holds (fun c t => c < t) (Fin (host 0).workers) low limit :=
      fun _ _ _ _ hlt _ => decide_eq_true hlt
    have hreleases (low limit : ℤ) : SpinBarrier.Releases (fun c t => c < t) low limit :=
      fun _ _ _ hle _ => decide_eq_false (not_lt.mpr hle)
    exact ⟨(SpinBarrier.safe_run (hholds _ _) hrun).safe,
      SpinBarrier.finishes (fun _ _ h => (SpinBarrier.safe_run (hholds _ _) h).safe) (hreleases _ _) hrun⟩
  · obtain ⟨hlater, hcounter⟩ := counter_of_done hrun hdone
    rw [hcounts, length_map, length_range] at hlater hcounter
    refine ⟨hlater, ?_⟩
    rw [hcounter, h.barBase (Nat.sub_le _ _), hbase, Fintype.card_fin]

end

/-! ## Sessions -/

noncomputable section

def realMaths : Maths ℝ := ⟨Real.exp, Real.log, Real.sqrt⟩

/-- `1e-6`, `256 ** -0.5` and `128 ** -0.5`. -/
def realScales : Scales ℝ := ⟨1 / 1000000, 1 / Real.sqrt 256, 1 / Real.sqrt 128⟩

end

/-- What a session of a host promises. -/
structure SessionCorrect (w : Weights ℝ) (host : ℕ → Host) (killAfter : ℕ → ℤ) (phases : ℕ → List (Phase Cell ℝ))
    (runs : ℕ) (s : ℕ → ℕ → Mem ℝ) : Prop where
  inRegions : ∀ n < runs, ∀ l < 64, isFull l = true → Executes (killAfter n) l → InRegions (host 0).workers (phases n) l
  raceFree : ∀ n < runs, ∀ ph ∈ phases n, RaceFree (host 0).workers ph
  context : ∀ n < runs, ∀ l < 64, isFull l = true → Executes (killAfter n) l → ∀ head < 24, ∀ i < 256,
    s n (executed l + 7) (.ws, oHeads + head * 256 + i) = context realMaths (hybridDims (host 0).capacity realScales) n
      (queryOf realMaths (hybridDims (host 0).capacity realScales) w (fullIndex l) n (s n (executed l + 2)) head)
      (fun t => rowAt realMaths realScales w killAfter s .kCache (host 0).capacity l t (head / 6))
      (fun t => rowAt realMaths realScales w killAfter s .vCache (host 0).capacity l t (head / 6))
      (gateOf (hybridDims (host 0).capacity realScales) (s n (executed l + 2)) head) i
  counter : (∀ n < runs, -1 ≤ killAfter n ∧ killAfter n ≤ 64) → CounterExact (host 0).workers host phases runs

/-- What the sessions of a new `HybridMegakernel` promise. -/
def HybridCorrect (w : Weights ℝ) (capacity workers : ℕ) : Prop :=
  ∀ (host : ℕ → Host) (killAfter : ℕ → ℤ) (token : ℕ → ℕ) (phases : ℕ → List (Phase Cell ℝ)) (runs : ℕ)
    (s : ℕ → ℕ → Mem ℝ), host 0 = { capacity := capacity, workers := workers } →
    Session realMaths realScales w host killAfter token phases runs s → SessionCorrect w host killAfter phases runs s

lemma exists_session {V : Type} [Field V] [LinearOrder V] (f : Maths V) (c : Scales V) (w : Weights V) {host₀ : Host}
    (hcap : 0 < host₀.capacity) (killAfter : ℕ → ℤ) (token : ℕ → ℕ) :
    ∃ host phases s, host 0 = host₀ ∧ Session f c w host killAfter token phases 1 s := by
  let phases : List (Phase Cell V) := hybridMegakernel f (hybridDims host₀.capacity c) w (token 0) 0 0 host₀.barBase
    host₀.workers 64 (killAfter 0)
  obtain ⟨s, htrace, -⟩ := exists_trace host₀.workers phases fun _ => 0
  let host (n : ℕ) : Host :=
    if n = 0 then host₀ else { host₀ with barBase := host₀.barBase + executed (killAfter 0) * host₀.workers }
  refine ⟨host, fun _ => phases, fun _ => s, rfl, fun n hn => ?_, fun n hn => ?_, fun n hn => by omega⟩
  · obtain rfl : n = 0 := by omega
    have hpos : 0 ≤ ((0 : ℕ) : ℤ) ∧ ((0 : ℕ) : ℤ) < host₀.capacity := ⟨le_rfl, by exact_mod_cast hcap⟩
    exact if_neg (not_not.mpr hpos)
  · obtain rfl : n = 0 := by omega
    exact htrace

lemma not_correct_beyond (w : Weights ℝ) {capacity : ℕ} (hcap : 512 < capacity) (workers : ℕ) :
    ¬HybridCorrect w capacity workers := by
  intro hcorrect
  have hpos : 0 < ({ capacity := capacity, workers := workers } : Host).capacity := by
    show 0 < capacity
    omega
  obtain ⟨host, phases, s, hhost, hsession⟩ := exists_session realMaths realScales w hpos (fun _ => -1) fun _ => 0
  have hex : Executes (-1) 3 := by decide
  have hregions := (hcorrect host _ _ phases 1 s hhost hsession).inRegions 0 (by omega) 3 (by omega) rfl hex
  rw [(hsession.calls.launch (show 0 < 1 by omega)).2] at hregions
  refine softmax_outside ?_ (show 3 < 64 by omega) hex rfl hregions
  rw [hhost]
  exact hcap

/-- **The hybrid megakernel**: every session is correct exactly when the capacity is at most 512. -/
theorem hybrid_megakernel_iff (w : Weights ℝ) {capacity workers : ℕ} (hworkers : 0 < workers) :
    HybridCorrect w capacity workers ↔ capacity ≤ 512 := by
  constructor
  · intro hcorrect
    by_contra hcap
    exact not_correct_beyond w (not_le.mp hcap) workers hcorrect
  · intro hcap host _ _ _ _ s hhost h
    have hcap : (host 0).capacity ≤ 512 := by rw [hhost]; exact hcap
    have hP : 0 < (host 0).workers := by rw [hhost]; exact hworkers
    have hE : Exponential realMaths.exp := ⟨Real.exp_add, Real.exp_pos⟩
    refine ⟨fun n hn l hl hfull hex => ?_, fun n hn ph hph => ?_, fun n hn l hl hfull hex => ?_, fun hkill => ?_⟩
    · obtain ⟨hpos, hphases⟩ := h.calls.launch hn
      rw [hphases]
      exact launch_inRegions hP hcap hpos hl hex hfull
    · obtain ⟨hpos, hphases⟩ := h.calls.launch hn
      rw [hphases] at hph
      exact (megakernel_sound hP hcap hpos ph hph).raceFree
    · exact h.context hP hcap hn hl hfull hex hE
    · exact counter_exact h.calls (by rw [hhost]) hkill

/-- The capacity that the regions were laid out for. -/
theorem hybrid_megakernel_512 : HybridCorrect (default : Weights ℝ) 512 48 ↔ 512 ≤ 512 :=
  hybrid_megakernel_iff default (by norm_num)

/-- One position more. -/
theorem hybrid_megakernel_wide : ¬HybridCorrect (default : Weights ℝ) 513 48 :=
  not_correct_beyond default (by norm_num) 48

end VKernels.Hybrid
