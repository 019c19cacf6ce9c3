import VKernels.Lib.Wavefront

/-!
# Tasks of persistent workers

Workers that take every `P`-th task, and the stores of all their tasks in any order.

* `workerTasks` — the tasks of `P` workers; `workerTasks_perm`: each task once.
* `sum_masked_blocks` — a sum over masked blocks.
* `AnyOrder`, `Launched` — what stores and launches may leave; `Launched.eq_runTasks`: that of the coordinates one after another.
* `MayLoad` — what a load may return while the stores are made; `AnyOrder.value`: stores that agree on a location.
* `rowKeys_nodup` — rows of several buffers are apart.
-/

namespace VKernels.WorkerTasks

open Finset Grouping LocalActions MaskedStores Wavefront
open Blocks (range_blocks)
open List hiding cons range

/-! ## Workers -/

/-- `task = worker; while task < n: …; task += P`, for each of `P` workers. -/
def workerTasks (P n : ℕ) : List ℕ := (List.range P).flatMap (threadLoop n P)

variable {n m : ℕ}

lemma threadLoop_nodup {P w : ℕ} (hP : 0 < P) : (threadLoop n P w).Nodup := by
  refine Nodup.map_on ?_ nodup_range
  intro a _ b _ h
  exact Nat.eq_of_mul_eq_mul_right hP (by omega)

lemma workerTasks_perm {P : ℕ} (hP : 0 < P) : (workerTasks P n).Perm (List.range n) := by
  have hmod {w t : ℕ} (hw : w ∈ List.range P) (ht : t ∈ threadLoop n P w) : t < n ∧ t % P = w :=
    (mem_threadLoop (List.mem_range.mp hw)).mp ht
  refine (perm_ext_iff_of_nodup ?_ nodup_range).mpr fun t => ?_
  · refine nodup_flatMap.mpr ⟨fun w _ => threadLoop_nodup hP, ?_⟩
    refine nodup_range.pairwise_of_forall_ne fun a ha b hb hab => ?_
    intro t hta htb
    exact hab ((hmod ha hta).2.symm.trans (hmod hb htb).2)
  · rw [workerTasks, mem_flatMap, List.mem_range]
    constructor
    · rintro ⟨w, hw, ht⟩
      exact (hmod hw ht).1
    · intro ht
      have hw : t % P < P := Nat.mod_lt t hP
      exact ⟨t % P, List.mem_range.mpr hw, (mem_threadLoop hw).mpr ⟨ht, rfl⟩⟩

variable {L V : Type}

/-! ## Rows -/

lemma flatMap_storeIf (h : n ≤ m) (f : ℕ → L × V) :
    ((List.range m).flatMap fun i => storeIf (i < n) (f i).1 (f i).2) = (List.range n).map f := by
  have hout (i : ℕ) (hi : n ≤ i) : storeIf (i < n) (f i).1 (f i).2 = [] := if_neg (by omega)
  rw [Blocks.flatMap_bounded h hout, map_eq_flatMap]
  refine flatMap_congr fun i hi => ?_
  exact if_pos (List.mem_range.mp hi)

/-- `for c0 in range(0, n, block)`: the lanes of each block, masked by `n`. -/
def blockStores (block n : ℕ) (f : ℕ → L × V) : List (L × V) :=
  (List.range (blocksFor block n)).flatMap fun t => (List.range block).flatMap fun l =>
    storeIf (t * block + l < n) (f (t * block + l)).1 (f (t * block + l)).2

lemma blockStores_eq {block : ℕ} (hblock : 0 < block) (f : ℕ → L × V) :
    blockStores block n f = (List.range n).map f := by
  rw [← flatMap_storeIf (le_blocksFor hblock n), ← range_blocks, flatMap_assoc]
  refine flatMap_congr fun t _ => ?_
  rw [flatMap_map]

/-- The lanes of a padded width, masked by `n`. -/
def laneStores (lanes n : ℕ) (f : ℕ → L × V) : List (L × V) :=
  (List.range lanes).flatMap fun l => storeIf (l < n) (f l).1 (f l).2

lemma laneStores_eq {lanes : ℕ} (h : n ≤ lanes) (f : ℕ → L × V) : laneStores lanes n f = (List.range n).map f :=
  flatMap_storeIf h f

/-- A padded rectangle of lanes, masked by `m` and by `n`. -/
def tileStores (lanes lanes' m n : ℕ) (f : ℕ → ℕ → L × V) : List (L × V) :=
  (List.range lanes).flatMap fun k => (List.range lanes').flatMap fun h =>
    storeIf (k < m ∧ h < n) (f k h).1 (f k h).2

lemma tileStores_eq {lanes lanes' : ℕ} (hm : m ≤ lanes) (hn : n ≤ lanes') (f : ℕ → ℕ → L × V) :
    tileStores lanes lanes' m n f = (List.range m).flatMap fun k => (List.range n).map (f k) := by
  have hout (k : ℕ) (hk : m ≤ k) : ((List.range lanes').flatMap fun h =>
      storeIf (k < m ∧ h < n) (f k h).1 (f k h).2) = [] := by
    rw [flatMap_eq_nil_iff]
    intro l _
    exact if_neg (by omega)
  rw [tileStores, Blocks.flatMap_bounded hm hout]
  refine flatMap_congr fun k hk => ?_
  have hk' : k < m := List.mem_range.mp hk
  rw [← flatMap_storeIf hn]
  refine flatMap_congr fun j _ => ?_
  simp [storeIf, hk', true_and]

section

variable {M : Type} [AddCommMonoid M]

lemma sum_masked_blocks {block : ℕ} (hblock : 0 < block) (n : ℕ) (f : ℕ → M) :
    ∑ t ∈ range (blocksFor block n), ∑ l ∈ range block, (if t * block + l < n then f (t * block + l) else 0) =
      ∑ i ∈ range n, f i := by
  rw [TileLoops.sum_blocks (fun i => if i < n then f i else 0), sum_bounded (le_blocksFor hblock n)]

lemma sum_where_eq {lanes i : ℕ} (hi : i < lanes) (f : ℕ → M) :
    (∑ l ∈ range lanes, if l = i then f l else 0) = f i := by
  simp [hi]

end

/-! ## Launches -/

section

variable [DecidableEq L] {P n : ℕ} {m m' : L → V}

def AnyOrder (stores : List (L × V)) (m m' : L → V) : Prop :=
  ∃ order : List (L × V), order.Perm stores ∧ m' = assign order m

def Launched (P n : ℕ) (stores : ℕ → List (L × V)) (m m' : L → V) : Prop :=
  AnyOrder ((workerTasks P n).flatMap stores) m m'

lemma AnyOrder.at {stores : List (L × V)} (h : AnyOrder stores m m') (hnodup : (stores.map Prod.fst).Nodup) {loc : L}
    {v : V} (hmem : (loc, v) ∈ stores) : m' loc = v := by
  obtain ⟨_, horder, rfl⟩ := h
  exact assign_nodup horder hnodup hmem m

/-- The stores of the coordinates, one after another. -/
def runTasks {T : Type} (coords : List T) (stores : T → List (L × V)) (m : L → V) : L → V :=
  assign (coords.flatMap stores) m

lemma assign_eq_of_perm {l l' : List (L × V)} (hperm : l'.Perm l) (hnodup : (l.map Prod.fst).Nodup)
    (m : L → V) : assign l' m = assign l m := by
  funext loc
  by_cases hmem : loc ∈ l.map Prod.fst
  · obtain ⟨⟨_, v⟩, hst, rfl⟩ := mem_map.mp hmem
    rw [assign_nodup hperm hnodup hst, assign_nodup (Perm.refl l) hnodup hst]
  · rw [assign_frame hmem, assign_frame fun h => hmem ((hperm.map Prod.fst).mem_iff.mp h)]

lemma Launched.eq_runTasks {T : Type} {coords : List T} {stores : ℕ → List (L × V)} {stores' : T → List (L × V)}
    (hlaunched : Launched P n stores m m') (hP : 0 < P)
    (h : ((List.range n).flatMap stores).Perm (coords.flatMap stores'))
    (hnodup : (coords.flatMap fun t => (stores' t).map Prod.fst).Nodup) : m' = runTasks coords stores' m := by
  obtain ⟨_, horder, rfl⟩ := hlaunched
  refine assign_eq_of_perm (horder.trans (((workerTasks_perm hP).flatMap_right stores).trans h)) ?_ m
  rw [map_flatMap]
  exact hnodup

end

/-! ## Loads -/

section

variable {stores : List (L × V)} {m : L → V} {loc : L} {v : V}

def MayLoad (stores : List (L × V)) (m : L → V) (loc : L) (v : V) : Prop := v = m loc ∨ (loc, v) ∈ stores

lemma MayLoad.initial (h : MayLoad stores m loc v) (hloc : ∀ v, (loc, v) ∉ stores) : v = m loc :=
  h.resolve_right (hloc v)

variable [DecidableEq L]

lemma assign_value (hmem : (loc, v) ∈ stores) (hsame : ∀ v', (loc, v') ∈ stores → v' = v) (m : L → V) :
    assign stores m loc = v := by
  induction stores generalizing m with
  | nil => cases hmem
  | cons st rest ih =>
    show assign rest (Function.update m st.1 st.2) loc = v
    by_cases hrest : loc ∈ rest.map Prod.fst
    · obtain ⟨⟨_, v'⟩, hst, rfl⟩ := mem_map.mp hrest
      obtain rfl : v' = v := hsame v' (mem_cons_of_mem st hst)
      exact ih hst (fun v' hv => hsame v' (mem_cons_of_mem st hv)) _
    · rw [assign_frame hrest]
      rcases mem_cons.mp hmem with rfl | hin
      · exact Function.update_self ..
      · exact absurd (mem_map_of_mem hin) hrest

variable {m' : L → V}

lemma AnyOrder.value (h : AnyOrder stores m m') (hmem : (loc, v) ∈ stores)
    (hsame : ∀ v', (loc, v') ∈ stores → v' = v) : m' loc = v := by
  obtain ⟨_, horder, rfl⟩ := h
  exact assign_value (horder.mem_iff.mpr hmem) (fun v' hv => hsame v' (horder.mem_iff.mp hv)) m

lemma AnyOrder.frame (h : AnyOrder stores m m') (hloc : ∀ v, (loc, v) ∉ stores) : m' loc = m loc := by
  obtain ⟨_, horder, rfl⟩ := h
  apply assign_frame
  intro hmem
  obtain ⟨⟨_, v⟩, hst, rfl⟩ := mem_map.mp hmem
  exact hloc v (horder.mem_iff.mp hst)

end

section

variable {O : Type}

/-- Row `t`, `w o` long, of each of the buffers. -/
def rowKeys (outs : List O) (w : O → ℕ) (t : ℕ) : List (O × ℕ) :=
  outs.flatMap fun o => (List.range (w o)).map fun i => (o, t * w o + i)

lemma rowKeys_nodup {outs : List O} (houts : outs.Nodup) (w : O → ℕ) (n : ℕ) :
    ((List.range n).flatMap (rowKeys outs w)).Nodup := by
  have hmem {t : ℕ} {loc : O × ℕ} (h : loc ∈ rowKeys outs w t) : ∃ i < w loc.1, loc.2 = t * w loc.1 + i := by
    obtain ⟨o, -, hst⟩ := mem_flatMap.mp h
    obtain ⟨i, hi, rfl⟩ := List.mem_map.mp hst
    exact ⟨i, List.mem_range.mp hi, rfl⟩
  refine nodup_flatMap.mpr ⟨fun t _ => nodup_flatMap.mpr ⟨fun o _ => ?_, ?_⟩, ?_⟩
  · refine Nodup.map (fun i j h => ?_) nodup_range
    exact add_left_cancel (Prod.ext_iff.mp h).2
  · refine houts.imp fun {o o'} hne loc hloc hloc' => hne ?_
    obtain ⟨i, -, rfl⟩ := mem_map.mp hloc
    obtain ⟨i', -, heq⟩ := mem_map.mp hloc'
    exact (Prod.ext_iff.mp heq).1.symm
  · refine nodup_range.imp fun {t t'} hne loc hloc hloc' => hne ?_
    obtain ⟨i, hi, hit⟩ := hmem hloc
    obtain ⟨_, hi', hit'⟩ := hmem hloc'
    exact LaneLaunch.rows_apart hi hi' (hit.symm.trans hit')

end

end VKernels.WorkerTasks
