import VKernels.Dsa.ResolveRowsParity

/-!
# Programs of the resolver

What one program leaves behind, slice by slice, and what a launch of programs leaves.

* `copyRow`, `Copied` — the copy pass, fill by fill; `copyPass_spec`.
* `Matches` — the slices of a state hold what the oracle returns; `program_matches`.
* `SameState`, `program_frame` — a program leaves the slices of every other state alone.
* `launch_matches` — after a launch in any order every state matches its oracle.
-/

namespace VKernels.Dsa

open VKernels.VectorLanes
open Function (update update_of_ne update_self)
open List

section

variable {V : Type} (g : Geometry) (host : Buffer V) (layer st : ℤ)

/-- Where a value of a KV row is. -/
def kvAt (r : ℤ) (d : ℕ) : ℤ := layer * g.gpuRows * g.width + r * g.width + d

/-- Where a value of a host row is. -/
def hostAt (r : ℤ) (d : ℕ) : ℤ := layer * g.hostRows * g.width + r * g.width + d

/-- The fill at position `n` of a state: source and destination. -/
def fillAt (fill : Buffer ℤ) (n : ℕ) : ℤ × ℤ := (fill ((st * g.k + n) * 2), fill ((st * g.k + n) * 2 + 1))

def copyRow (fill : Buffer ℤ) (missCount : ℕ) (kv : Buffer V) (n : ℕ) : Buffer V :=
  if n < missCount then
    storeLanes kv g.blockD (fun d => d < g.width) (fun d => kvAt g layer (fillAt g st fill n).2 d)
      fun d => host (hostAt g layer (fillAt g st fill n).1 d)
  else kv

/-- After the tiles that cover the positions below `n`. -/
structure Copied (missCount n : ℕ) (s₀ s : Buffer ℤ × Buffer V) : Prop where
  fill : ∀ j < g.k, fillAt g st s.1 j = if missCount ≤ j ∧ j < n then (0, 0) else fillAt g st s₀.1 j
  frame : ∀ a, (∀ j < g.k, a ≠ (st * g.k + (j : ℕ)) * 2 ∧ a ≠ (st * g.k + (j : ℕ)) * 2 + 1) → s.1 a = s₀.1 a
  kv : s.2 = (List.range n).foldl (copyRow g host layer st s₀.1 missCount) s₀.2

lemma clear_fills (fill : Buffer ℤ) (n m : ℕ) (dead : ℕ → Bool) :
    let cleared := storeLanes
      (storeLanes fill m dead (fun l => (st * g.k + (n + l : ℕ)) * 2) fun _ => 0) m dead
      (fun l => (st * g.k + (n + l : ℕ)) * 2 + 1) fun _ => 0
    (∀ j, fillAt g st cleared j =
      if n ≤ j ∧ j < n + m ∧ dead (j - n) = true then (0, 0) else fillAt g st fill j) ∧
    ∀ a, (∀ l < m, dead l = true → a ≠ (st * g.k + (n + l : ℕ)) * 2 ∧ a ≠ (st * g.k + (n + l : ℕ)) * 2 + 1) →
      cleared a = fill a := by
  have heven : Function.Injective fun j : ℕ => (st * (g.k : ℤ) + (j : ℕ)) * 2 := fun a b h => by
    have h : (st * (g.k : ℤ) + (a : ℕ)) * 2 = (st * g.k + (b : ℕ)) * 2 := h
    omega
  have hodd : Function.Injective fun j : ℕ => (st * (g.k : ℤ) + (j : ℕ)) * 2 + 1 := fun a b h => by
    have h : (st * (g.k : ℤ) + (a : ℕ)) * 2 + 1 = (st * g.k + (b : ℕ)) * 2 + 1 := h
    omega
  refine ⟨fun j => ?_, fun a ha => ?_⟩
  · have h₁ := storeLanes_place fill dead (fun _ => 0) heven n m j
    have h₂ := storeLanes_place (storeLanes fill m dead (fun l => (st * g.k + (n + l : ℕ)) * 2) fun _ => 0)
      dead (fun _ => 0) hodd n m j
    have h₃ := storeLanes_frame (storeLanes fill m dead (fun l => (st * g.k + (n + l : ℕ)) * 2) fun _ => 0)
      dead (fun l => (st * (g.k : ℤ) + (n + l : ℕ)) * 2 + 1) (fun _ => 0) (n := m)
      (a := (st * g.k + (j : ℕ)) * 2) fun l _ _ => by omega
    have h₄ := storeLanes_frame fill dead (fun l => (st * (g.k : ℤ) + (n + l : ℕ)) * 2) (fun _ => 0) (n := m)
      (a := (st * g.k + (j : ℕ)) * 2 + 1) fun l _ _ => by omega
    simp only [fillAt, h₃, h₁, h₂, h₄]
    split <;> rfl
  · rw [storeLanes_frame _ _ _ _ fun l hl hd => (ha l hl hd).2.symm,
      storeLanes_frame _ _ _ _ fun l hl hd => (ha l hl hd).1.symm]

lemma copied_chunk {missCount : ℕ} (hmiss : missCount ≤ g.k) {c : ℕ} {s₀ s : Buffer ℤ × Buffer V}
    (h : Copied g host layer st missCount (c * g.fillChunk) s₀ s) :
    Copied g host layer st missCount ((c + 1) * g.fillChunk) s₀ (copyChunk g host layer st missCount s c) := by
  rw [add_one_mul]
  obtain ⟨hclear, hoff⟩ := clear_fills g st s.1 _ g.fillChunk fun l =>
    decide (missCount ≤ c * g.fillChunk + l) && decide (c * g.fillChunk + l < g.k)
  refine ⟨fun j hj => ?_, fun a ha => ?_, ?_⟩
  · refine (hclear j).trans ?_
    rw [h.fill j hj]
    by_cases hlt : j < c * g.fillChunk
    · rw [if_neg (by omega)]
      exact if_congr ⟨fun hin => ⟨hin.1, by omega⟩, fun hin => ⟨hin.1, hlt⟩⟩ rfl rfl
    · rw [if_neg (show ¬ (missCount ≤ j ∧ j < c * g.fillChunk) by omega)]
      have hjl : c * g.fillChunk + (j - c * g.fillChunk) = j := by omega
      simp only [hjl, Bool.and_eq_true, decide_eq_true_eq]
      exact if_congr ⟨fun hin => ⟨hin.2.2.1, hin.2.1⟩, fun hin => ⟨by omega, hin.2, hin.1, hj⟩⟩ rfl rfl
  · refine (hoff a fun l hl hd => ?_).trans (h.frame a ha)
    simp only [Bool.and_eq_true, decide_eq_true_eq] at hd
    exact ha _ hd.2
  · rw [range_add, foldl_append, ← h.kv, foldl_map]
    refine congrArg (fun f => (range g.fillChunk).foldl f s.2) ?_
    funext kv l
    by_cases hlive : c * g.fillChunk + l < missCount
    · have hfill := h.fill (c * g.fillChunk + l) (by omega)
      rw [if_neg (by omega)] at hfill
      simp only [fillAt, Prod.mk.injEq] at hfill
      simp only [copyRow, fillAt, hlive, decide_true, if_true, Bool.true_and, kvAt, hostAt, hfill.1, hfill.2]
    · simp only [copyRow, hlive, decide_false, Bool.false_and]
      funext a
      exact storeLanes_frame _ _ _ _ fun l _ hf => by simp at hf

lemma copyPass_copied {missCount : ℕ} (hmiss : missCount ≤ g.k) (s₀ : Buffer ℤ × Buffer V) :
    Copied g host layer st missCount ((g.k + g.fillChunk - 1) / g.fillChunk * g.fillChunk) s₀
      (copyPass g host layer st missCount s₀) := by
  have hchunks : ∀ c, Copied g host layer st missCount (c * g.fillChunk) s₀
      ((range c).foldl (copyChunk g host layer st missCount) s₀) := by
    intro c
    induction c with
    | zero =>
      refine ⟨fun j _ => ?_, fun _ _ => rfl, by simp⟩
      rw [if_neg (by omega)]
      rfl
    | succ c ih =>
      rw [range_succ, foldl_concat]
      exact copied_chunk g host layer st hmiss ih
  exact hchunks _

lemma kvAt_inj {r r' : ℤ} {d d' : ℕ} (hd : d < g.width) (hd' : d' < g.width)
    (h : kvAt g layer r d = kvAt g layer r' d') : r = r' ∧ d = d' := by
  unfold kvAt at h
  have hr : r = r' := by
    rcases lt_trichotomy r r' with hlt | heq | hgt
    · nlinarith
    · exact heq
    · nlinarith
  subst hr
  exact ⟨rfl, by omega⟩

lemma copyRows_spec (fill : Buffer ℤ) (missCount : ℕ)
    (hdistinct : ∀ i < missCount, ∀ j < missCount, (fillAt g st fill i).2 = (fillAt g st fill j).2 → i = j)
    (kv : Buffer V) (n : ℕ) : (∀ j < n, j < missCount → ∀ d < g.width,
      (range n).foldl (copyRow g host layer st fill missCount) kv (kvAt g layer (fillAt g st fill j).2 d) =
        host (hostAt g layer (fillAt g st fill j).1 d)) ∧
    ∀ a, (∀ j < n, j < missCount → ∀ d < g.width, a ≠ kvAt g layer (fillAt g st fill j).2 d) →
      (range n).foldl (copyRow g host layer st fill missCount) kv a = kv a := by
  induction n with
  | zero => exact ⟨fun j hj => absurd hj (Nat.not_lt_zero j), fun _ _ => rfl⟩
  | succ n ih =>
    obtain ⟨hown, hframe⟩ := ih
    rw [range_succ, foldl_concat]
    by_cases hlive : n < missCount
    · simp only [copyRow, if_pos hlive]
      refine ⟨fun j hj hjm d hd => ?_, fun a ha => ?_⟩
      · by_cases hjn : j = n
        · subst hjn
          refine storeLanes_own _ _ (fun d => kvAt g layer (fillAt g st fill j).2 d) _
            (hd.trans_le (le_nextPowerOf2 _)) (by simpa using hd) fun k _ hk heq => ?_
          exact (kvAt_inj g layer (by simpa using hk) hd heq).2
        · rw [storeLanes_frame]
          · exact hown j (by omega) hjm d hd
          · intro k _ hk heq
            have hrow := (kvAt_inj g layer (by simpa using hk) hd heq).1
            exact hjn (hdistinct n hlive j hjm hrow).symm
      · rw [storeLanes_frame]
        · exact hframe a fun j hj => ha j (by omega)
        · intro k _ hk heq
          exact ha n (Nat.lt_succ_self n) hlive k (by simpa using hk) heq.symm
    · simp only [copyRow, if_neg hlive]
      refine ⟨fun j hj hjm => hown j (by omega) hjm, fun a ha => hframe a fun j hj => ha j (by omega)⟩

end

/-! ## The slices of a state -/

/-- Different rows of a table have no address in common. -/
lemma slice_ne {r r' : ℤ} (h : r ≠ r') {n i j : ℕ} (hi : i < n) (hj : j < n) :
    r * n + (i : ℕ) ≠ r' * n + (j : ℕ) := by
  intro heq
  rcases lt_or_gt_of_ne h with hlt | hgt <;> nlinarith

section

variable {V : Type} (g : Geometry) (T : Tables) (host : Buffer V)

/-- The row of a state in a hot-tier tensor. -/
def stateRow (buf : Buffer ℤ) (st : ℤ) (h : ℕ) : ℤ := if h < g.h then buf (st * g.h + h) else 0

/-- The oracle for a request, from the slices of a state. -/
def oracle (m : Mem V) (request st : ℤ) : Reference :=
  referenceRow g T request (stateRow g m.tags st) (stateRow g m.tagGenerations st) (stateRow g m.ages st)
    (m.clock st)

/-- The slices of a state hold what the oracle returns, the whole fill list included. -/
structure Matches (m : Mem V) (st : ℤ) (r : Reference) (clock : ℤ) : Prop where
  output : ∀ j < g.k, m.output (st * g.k + (j : ℕ)) = r.output j
  counters : m.counters (st * 3) = r.resN ∧ m.counters (st * 3 + 1) = r.hitN ∧
    m.counters (st * 3 + 2) = r.missN
  errors : m.errors st = r.errN
  fills : ∀ j < g.k, fillAt g st m.fill j = r.fills j
  tags : ∀ h < g.h, m.tags (st * g.h + (h : ℕ)) = r.tags h
  tagGenerations : ∀ h < g.h, m.tagGenerations (st * g.h + (h : ℕ)) = r.tagGenerations h
  ages : ∀ h < g.h, m.ages (st * g.h + (h : ℕ)) = r.ages h
  clock : m.clock st = clock

/-- What the model asks of a state: tags within the pages, ages and the next clock in int64. -/
structure Fits (m : Mem V) (st : ℤ) : Prop where
  tags : ∀ h < g.h, m.tags (st * g.h + (h : ℕ)) < g.pages * g.page
  ages : ∀ h < g.h, m.ages (st * g.h + (h : ℕ)) ≤ int64Max
  clock : m.clock st < int64Max

lemma storeState_own (st : ℤ) (buf : Buffer ℤ) (lanes : ℕ → ℤ) {h : ℕ} (hh : h < g.h) :
    storeState g st buf lanes (st * g.h + (h : ℕ)) = lanes h := by
  refine storeLanes_own buf _ (fun h => st * (g.h : ℤ) + (h : ℕ)) lanes (hh.trans_le g.h_le_blockH)
    (by simpa using hh) fun k _ _ heq => ?_
  omega

lemma storeState_off (st : ℤ) (buf : Buffer ℤ) (lanes : ℕ → ℤ) {a : ℤ}
    (ha : ∀ h < g.h, a ≠ st * g.h + (h : ℕ)) : storeState g st buf lanes a = buf a :=
  storeLanes_frame buf _ _ lanes fun l _ hl => (ha l (by simpa using hl)).symm

def programSelect (m : Mem V) (request st : ℤ) : Selection :=
  select g T request st
    { bitmap := clearBitmap g st m.bitmap, output := m.output, worklist := m.worklist,
      residentCount := 0, errCount := 0, workcnt := 0 }

def programWalk (m : Mem V) (request st : ℤ) : Walk :=
  walk g T request st (m.clock st + 1) (programSelect g T m request st).worklist
    (programSelect g T m request st).workcnt (loadWalk g T request st m (programSelect g T m request st))

lemma programSelect_spec (m : Mem V) (request st : ℤ) : Selected g T request st g.k
      { bitmap := clearBitmap g st m.bitmap, output := m.output, worklist := m.worklist,
        residentCount := 0, errCount := 0, workcnt := 0 } (programSelect g T m request st) :=
  select_spec g T request st _ rfl rfl rfl

lemma programWalk_eq (m : Mem V) (request st : ℤ) : programWalk g T m request st =
      ((misses g T request g.k).map fun j : ℕ => (j : ℤ)).foldl (walkStep g T request st (m.clock st + 1))
        (loadWalk g T request st m (programSelect g T m request st)) := by
  have hspec := programSelect_spec g T m request st
  rw [programWalk, walk, hspec.workcnt, ← length_map]
  exact hspec.worklist.foldl _ _

variable {m : Mem V} {request st : ℤ}

lemma loadWalk_agree (hfits : Fits g m st) :
    Agree g T request st (loadWalk g T request st m (programSelect g T m request st)) 0
      (loadWalk g T request st m (programSelect g T m request st))
      { tags := stateRow g m.tags st, tagGenerations := stateRow g m.tagGenerations st,
        ages := stateRow g m.ages st,
        isProtected := referenceProtected g T request (stateRow g m.tags st) (stateRow g m.tagGenerations st),
        resN := 0, hitN := 0, missN := 0, errN := 0, fills := fun _ => (0, 0), output := fun _ => -1 } := by
  have hspec := programSelect_spec g T m request st
  have hrow : ∀ (buf : Buffer ℤ) (h : ℕ), h < g.h → stateRow g buf st h = buf (st * g.h + (h : ℕ)) :=
    fun buf h hh => if_pos hh
  refine ⟨⟨fun h hh => (if_pos hh).trans (hrow _ h hh).symm, fun h hh => (if_pos hh).trans (hrow _ h hh).symm,
    fun h hh => (if_pos hh).trans (hrow _ h hh).symm, fun h hh => ?_,
    fun h hh => (hrow _ h hh).trans_le (hfits.ages h hh)⟩, rfl, rfl, le_rfl, fun _ _ => rfl, ?_, rfl, fun n hn => absurd hn (Nat.not_lt_zero n),
    fun j hj => absurd hj (Nat.not_lt_zero j), fun _ _ _ => rfl⟩
  · have hlane : (loadWalk g T request st m (programSelect g T m request st)).tags h =
        m.tags (st * g.h + (h : ℕ)) := if_pos hh
    have hlanes := protectedLanes_eq g T request hspec (fun i hi => clearBitmap_own g st m.bitmap hi)
      (loadWalk g T request st m _).tags
      (loadWalk g T request st m (programSelect g T m request st)).tagGenerations hh (hlane.trans_lt (hfits.tags h hh))
    refine hlanes.trans ?_
    simp [referenceProtected, loadWalk, stateRow, if_pos hh]
  · have herr : (loadWalk g T request st m (programSelect g T m request st)).errCount =
        (range g.k).countP (isErr g T request) := hspec.errCount
    rw [herr]
    simp

lemma programWalk_agree (request : ℤ) (hfits : Fits g m st) :
    Agree g T request st (loadWalk g T request st m (programSelect g T m request st)) g.k
      (programWalk g T m request st) (oracle g T m request st) := by
  have hspec := programSelect_spec g T m request st
  have hclock : m.clock st + 1 ≤ int64Max := hfits.clock
  rw [programWalk_eq]
  refine agree_run hclock (loadWalk_agree g T hfits) (fun j hj v hv => ?_) le_rfl
  have hout := hspec.output j hj
  rw [hv] at hout
  exact hout

lemma programWalk_misses_le (request : ℤ) (hfits : Fits g m st) : (programWalk g T m request st).missCount ≤ g.k := by
  have hagree := programWalk_agree g T request hfits
  rw [hagree.misses]
  exact hagree.missN_le

lemma fillChunks_cover : g.k ≤ (g.k + g.fillChunk - 1) / g.fillChunk * g.fillChunk := by
  have hmod := Nat.div_add_mod (g.k + g.fillChunk - 1) g.fillChunk
  have hlt := Nat.mod_lt (g.k + g.fillChunk - 1) g.fillChunk_pos
  rw [mul_comm]
  omega

lemma program_matches {layer : ℤ} (hfits : Fits g m (layer * g.batch + request)) :
    Matches g (program g T host request layer m) (layer * g.batch + request)
      (oracle g T m request (layer * g.batch + request)) (m.clock (layer * g.batch + request) + 1) := by
  have hagree := programWalk_agree g T request hfits
  have hcopied := copyPass_copied g host layer (layer * g.batch + request) (programWalk_misses_le g T request hfits)
    ((programWalk g T m request (layer * g.batch + request)).fill, m.kv)
  have hcover := fillChunks_cover g
  refine ⟨fun j hj => hagree.done j hj, ⟨?_, ?_, ?_⟩, ?_, fun j hj => ?_, fun h hh => ?_, fun h hh => ?_,
    fun h hh => ?_, update_self _ _ _⟩
  · have hres : (programSelect g T m request (layer * g.batch + request)).residentCount =
        (oracle g T m request (layer * g.batch + request)).resN := by
      rw [(programSelect_spec g T m request _).residentCount, hagree.res]
    rw [← hres]
    refine (update_of_ne (by omega) _ _).trans ((update_of_ne (by omega) _ _).trans ?_)
    exact update_self _ _ _
  · rw [← hagree.hits]
    exact (update_of_ne (by omega) _ _).trans (update_self _ _ _)
  · rw [← hagree.misses]
    exact update_self _ _ _
  · have herr : (programWalk g T m request (layer * g.batch + request)).errCount =
        (oracle g T m request (layer * g.batch + request)).errN := by
      have := hagree.errs
      omega
    rw [← herr]
    exact update_self _ _ _
  · refine (hcopied.fill j hj).trans ?_
    rw [hagree.misses]
    split
    · rename_i hdead
      exact (hagree.blank j hdead.1).symm
    · obtain ⟨hsrc, hdst⟩ := hagree.fills j (by omega)
      exact Prod.ext hsrc hdst
  · exact (storeState_own g _ _ _ hh).trans (hagree.tier.tags h hh)
  · exact (storeState_own g _ _ _ hh).trans (hagree.tier.tagGenerations h hh)
  · exact (storeState_own g _ _ _ hh).trans (hagree.tier.ages h hh)

/-! ## Other states -/

lemma ite_update_of_ne {p : Prop} [Decidable p] {f : Buffer ℤ} {a x y u v : ℤ} (hx : a ≠ x) (hy : a ≠ y) :
    (if p then update (update f x u) y v else f) a = f a := by
  split
  · rw [update_of_ne hy, update_of_ne hx]
  · rfl

lemma walkStep_frame (request st clock : ℤ) (w : Walk) (mi : ℤ) :
    (∀ a, a ≠ st * g.k + mi → (walkStep g T request st clock w mi).output a = w.output a) ∧
      (walkStep g T request st clock w mi).missCount ≤ w.missCount + 1 ∧
      ∀ a, a ≠ (st * g.k + w.missCount) * 2 → a ≠ (st * g.k + w.missCount) * 2 + 1 →
        (walkStep g T request st clock w mi).fill a = w.fill a := by
  refine ⟨fun a ha => ?_, ?_, fun a ha ha' => ?_⟩
  · exact update_of_ne ha _ _
  · exact Nat.add_le_add_left (Bool.toNat_le _) _
  · exact ite_update_of_ne ha ha'

lemma walkFold_frame (request st clock : ℤ) (L : List ℕ) (hL : ∀ j ∈ L, j < g.k) (w : Walk)
    (hw : w.missCount + L.length ≤ g.k) : (∀ a, (∀ j < g.k, a ≠ st * g.k + (j : ℕ)) →
      ((L.map fun j : ℕ => (j : ℤ)).foldl (walkStep g T request st clock) w).output a = w.output a) ∧
    ∀ a, (∀ j < g.k, a ≠ (st * g.k + (j : ℕ)) * 2 ∧ a ≠ (st * g.k + (j : ℕ)) * 2 + 1) →
      ((L.map fun j : ℕ => (j : ℤ)).foldl (walkStep g T request st clock) w).fill a = w.fill a := by
  induction L generalizing w with
  | nil => exact ⟨fun _ _ => rfl, fun _ _ => rfl⟩
  | cons j L ih =>
    obtain ⟨hout, hcount, hfill⟩ := walkStep_frame g T request st clock w j
    rw [length_cons] at hw
    obtain ⟨ihout, ihfill⟩ := ih (fun i hi => hL i (mem_cons_of_mem _ hi))
      (walkStep g T request st clock w j) (by omega)
    refine ⟨fun a ha => (ihout a ha).trans (hout a (ha j (hL j mem_cons_self))), fun a ha => ?_⟩
    obtain ⟨h₀, h₁⟩ := ha w.missCount (by omega)
    exact (ihfill a ha).trans (hfill a h₀ h₁)

lemma misses_length_le (request : ℤ) (m : ℕ) : (misses g T request m).length ≤ g.k := by
  have hnodup : (misses g T request m).Nodup := nodup_range.filter _
  have hsub : misses g T request m ⊆ range g.k := fun j hj =>
    mem_range.mpr (lt_of_isMiss g T request (mem_filter.mp hj).2)
  simpa using (hnodup.subperm hsub).length_le

/-- What a program leaves alone. -/
structure SameOff (st : ℤ) (m m' : Mem V) : Prop where
  output : ∀ a, (∀ j < g.k, a ≠ st * g.k + (j : ℕ)) → m'.output a = m.output a
  counters : ∀ a, a ≠ st * 3 → a ≠ st * 3 + 1 → a ≠ st * 3 + 2 → m'.counters a = m.counters a
  errors : ∀ a, a ≠ st → m'.errors a = m.errors a
  fill : ∀ a, (∀ j < g.k, a ≠ (st * g.k + (j : ℕ)) * 2 ∧ a ≠ (st * g.k + (j : ℕ)) * 2 + 1) →
    m'.fill a = m.fill a
  tags : ∀ a, (∀ h < g.h, a ≠ st * g.h + (h : ℕ)) → m'.tags a = m.tags a
  tagGenerations : ∀ a, (∀ h < g.h, a ≠ st * g.h + (h : ℕ)) → m'.tagGenerations a = m.tagGenerations a
  ages : ∀ a, (∀ h < g.h, a ≠ st * g.h + (h : ℕ)) → m'.ages a = m.ages a
  clock : ∀ a, a ≠ st → m'.clock a = m.clock a

lemma program_frame {layer : ℤ} (hfits : Fits g m (layer * g.batch + request)) :
    SameOff g (layer * g.batch + request) m (program g T host request layer m) := by
  have hspec := programSelect_spec g T m request (layer * g.batch + request)
  have hcopied := copyPass_copied g host layer (layer * g.batch + request) (programWalk_misses_le g T request hfits)
    ((programWalk g T m request (layer * g.batch + request)).fill, m.kv)
  have hwalk := walkFold_frame g T request (layer * g.batch + request)
    (m.clock (layer * g.batch + request) + 1) (misses g T request g.k)
    (fun j hj => lt_of_isMiss g T request (mem_filter.mp hj).2) (loadWalk g T request (layer * g.batch + request) m
      (programSelect g T m request (layer * g.batch + request)))
    (by simpa [loadWalk] using misses_length_le g T request g.k)
  rw [← programWalk_eq] at hwalk
  obtain ⟨hout, hfill⟩ := hwalk
  refine ⟨fun a ha => (hout a ha).trans (hspec.frame a ha), fun a h₀ h₁ h₂ => ?_,
    fun a ha => update_of_ne ha _ _, fun a ha => (hcopied.frame a ha).trans (hfill a ha),
    fun a ha => storeState_off g _ _ _ ha, fun a ha => storeState_off g _ _ _ ha,
    fun a ha => storeState_off g _ _ _ ha, fun a ha => update_of_ne ha _ _⟩
  exact (update_of_ne h₂ _ _).trans ((update_of_ne h₁ _ _).trans (update_of_ne h₀ _ _))

/-- The slices of another state are left alone. -/
lemma SameOff.matches {g : Geometry} {st' : ℤ} {m' : Mem V} (h : SameOff g st m m') (hne : st' ≠ st)
    {r : Reference} {clock : ℤ} (hm : Matches g m st' r clock) : Matches g m' st' r clock := by
  have hoff : ∀ n : ℕ, ∀ i < n, ∀ j < n, st' * (n : ℤ) + (i : ℕ) ≠ st * n + (j : ℕ) :=
    fun n i hi j hj => slice_ne hne hi hj
  refine ⟨fun j hj => ?_, ⟨?_, ?_, ?_⟩, ?_, fun j hj => ?_, fun l hl => ?_, fun l hl => ?_, fun l hl => ?_, ?_⟩
  · rw [h.output _ fun i hi => hoff g.k j hj i hi]
    exact hm.output j hj
  · rw [h.counters _ (by omega) (by omega) (by omega)]
    exact hm.counters.1
  · rw [h.counters _ (by omega) (by omega) (by omega)]
    exact hm.counters.2.1
  · rw [h.counters _ (by omega) (by omega) (by omega)]
    exact hm.counters.2.2
  · rw [h.errors _ hne]
    exact hm.errors
  · have hfill := hm.fills j hj
    rw [fillAt] at hfill ⊢
    rw [h.fill, h.fill]
    · exact hfill
    · intro i hi
      have := hoff g.k j hj i hi
      constructor <;> omega
    · intro i hi
      have := hoff g.k j hj i hi
      constructor <;> omega
  · rw [h.tags _ fun i hi => hoff g.h l hl i hi]
    exact hm.tags l hl
  · rw [h.tagGenerations _ fun i hi => hoff g.h l hl i hi]
    exact hm.tagGenerations l hl
  · rw [h.ages _ fun i hi => hoff g.h l hl i hi]
    exact hm.ages l hl
  · rw [h.clock _ hne]
    exact hm.clock

end

end VKernels.Dsa
