import VKernels.Lib.WorkerTasks

/-!
# Tasks that own what they touch

Tasks on one memory, each of which reads and writes locations of its own, in any order.

* `Owned` — every task stays within its locations, and reads those of the pool.
* `storeRow`, `storeRows` — the stores of a row and of a matrix.

## Results

* `TasksInAnyOrder.at` — an owned location holds what its task leaves there.
* `TasksInAnyOrder.frame` — no other location changes.
* `placed_at`, `runs_agree` — the tasks carried out at the places of their locations, once and over a run.
-/

namespace VKernels.OwnedTasks

open LocalActions
open List

variable {L C V T : Type}

/-! ## Stores -/

def storeRow (n : ℕ) (loc : ℕ → L) (val : ℕ → V) : List (L × V) := (List.range n).map fun i => (loc i, val i)

def storeRows (rows n : ℕ) (loc : ℕ → ℕ → L) (val : ℕ → ℕ → V) : List (L × V) :=
  (List.range rows).flatMap fun j => storeRow n (loc j) (val j)

variable {n : ℕ}

lemma mem_storeRow {loc : ℕ → L} {val : ℕ → V} {st : L × V} :
    st ∈ storeRow n loc val ↔ ∃ i < n, st = (loc i, val i) := by
  simp [storeRow, mem_map, mem_range, eq_comm]

lemma mem_storeRows {rows : ℕ} {loc : ℕ → ℕ → L} {val : ℕ → ℕ → V} {st : L × V} :
    st ∈ storeRows rows n loc val ↔ ∃ j < rows, ∃ i < n, st = (loc j i, val j i) := by
  simp [storeRows, mem_flatMap, mem_range, mem_storeRow]

lemma storeRow_congr {loc loc' : ℕ → L} {val val' : ℕ → V} (hloc : ∀ i < n, loc i = loc' i)
    (hval : ∀ i < n, val i = val' i) : storeRow n loc val = storeRow n loc' val' := by
  refine map_congr_left fun i hi => ?_
  rw [hloc i (mem_range.mp hi), hval i (mem_range.mp hi)]

lemma storeRows_congr {rows : ℕ} {loc loc' : ℕ → ℕ → L} {val val' : ℕ → ℕ → V}
    (hloc : ∀ j < rows, ∀ i < n, loc j i = loc' j i) (hval : ∀ j < rows, ∀ i < n, val j i = val' j i) :
    storeRows rows n loc val = storeRows rows n loc' val' :=
  flatMap_congr fun j hj => storeRow_congr (hloc j (mem_range.mp hj)) (hval j (mem_range.mp hj))

lemma map_storeRow (g : L → C) (n : ℕ) (loc : ℕ → L) (val : ℕ → V) :
    (storeRow n loc val).map (fun p => (g p.1, p.2)) = storeRow n (fun i => g (loc i)) val := by
  simp [storeRow, map_map, Function.comp_def]

lemma map_storeRows (g : L → C) (rows n : ℕ) (loc : ℕ → ℕ → L) (val : ℕ → ℕ → V) :
    (storeRows rows n loc val).map (fun p => (g p.1, p.2)) = storeRows rows n (fun j i => g (loc j i)) val := by
  simp [storeRows, map_flatMap, map_storeRow]

lemma storeRows_succ (rows n : ℕ) (loc : ℕ → ℕ → L) (val : ℕ → ℕ → V) :
    storeRows (rows + 1) n loc val = storeRows rows n loc val ++ storeRow n (loc rows) (val rows) := by
  simp [storeRows, range_succ]

lemma storeRows_eq_map (rows n : ℕ) (loc : ℕ → ℕ → L) (val : ℕ → ℕ → V) :
    storeRows rows n loc val = (range rows ×ˢ range n).map fun p => (loc p.1 p.2, val p.1 p.2) := by
  show _ = ((range rows).flatMap fun j => (range n).map (Prod.mk j)).map _
  simp [storeRows, storeRow, map_flatMap, map_map, Function.comp_def]

section

variable [DecidableEq L] {m : L → V}

lemma assign_append (as bs : List (L × V)) (m : L → V) : assign (as ++ bs) m = assign bs (assign as m) := by
  induction as generalizing m with
  | nil => rfl
  | cons p as ih => exact ih _

lemma assign_notMem {as : List (L × V)} {l : L} (h : ∀ st ∈ as, st.1 ≠ l) (m : L → V) : assign as m l = m l := by
  apply assign_frame
  intro hmem
  obtain ⟨st, hst, rfl⟩ := mem_map.mp hmem
  exact h st hst rfl

end

/-! ## Shifts -/

section

variable {I : Type} (is : List I) (loc : ℕ → I → L) (m : L → V)

/-- The stores that move each of the first `n` rows one down. -/
def shiftStores (n : ℕ) : List (L × V) := (List.range n).flatMap fun j => is.map fun i => (loc j i, m (loc (j + 1) i))

variable [DecidableEq L] {is loc} {N n : ℕ}
  (hapart : ∀ j k, j < k → k ≤ N → ∀ i ∈ is, ∀ i' ∈ is, loc j i ≠ loc k i')
include hapart

lemma shiftStores_above {k : ℕ} (hn : n ≤ k) (hk : k ≤ N) {i : I} (hi : i ∈ is) :
    assign (shiftStores is loc m n) m (loc k i) = m (loc k i) := by
  refine assign_notMem (fun st hst => ?_) m
  obtain ⟨j, hj, hst⟩ := mem_flatMap.mp hst
  obtain ⟨i', hi', rfl⟩ := mem_map.mp hst
  have hlt : j < n := mem_range.mp hj
  exact hapart j k (by omega) hk i' hi' i hi

lemma shiftStores_succ (hn : n < N) :
    assign (is.map fun i => (loc n i, assign (shiftStores is loc m n) m (loc (n + 1) i)))
      (assign (shiftStores is loc m n) m) = assign (shiftStores is loc m (n + 1)) m := by
  have hread : (is.map fun i => (loc n i, assign (shiftStores is loc m n) m (loc (n + 1) i))) =
      is.map fun i => (loc n i, m (loc (n + 1) i)) :=
    map_congr_left fun i hi => by rw [shiftStores_above m hapart (Nat.le_succ n) hn hi]
  rw [hread, ← assign_append]
  simp [shiftStores, range_succ]

/-- **A shift in place**, row by row. -/
theorem foldl_shift (hn : n ≤ N) :
    (range n).foldl (fun m j => assign (is.map fun i => (loc j i, m (loc (j + 1) i))) m) m =
      assign (shiftStores is loc m n) m := by
  induction n with
  | zero => rfl
  | succ n ih =>
    rw [range_succ, foldl_append, ih (by omega)]
    exact shiftStores_succ m hapart hn

end

/-! ## Tasks -/

variable [DecidableEq L] {tasks : List T} {pool : Set L} {own : T → Set L} {act : T → Action L V} {m m' : L → V} {t : T}
  {l : L}

structure Owned (tasks : List T) (pool : Set L) (own : T → Set L) (act : T → Action L V) : Prop where
  nodup : tasks.Nodup
  reads : ∀ t ∈ tasks, ∀ m m', (∀ l ∈ own t, l ∈ pool → m l = m' l) → act t m = act t m'
  writes : ∀ t ∈ tasks, ∀ m, ∀ st ∈ act t m, st.1 ∈ own t
  apart : ∀ t ∈ tasks, ∀ u ∈ tasks, t ≠ u → Disjoint (own t) (own u)

def TasksInAnyOrder (tasks : List T) (act : T → Action L V) (m m' : L → V) : Prop :=
  ∃ order : List T, order.Perm tasks ∧ m' = runAll (order.map act) m

namespace Owned

variable (h : Owned tasks pool own act)
include h

lemma within (ht : t ∈ tasks) : Within (fun _ => True) (own t) (own t) (act t) :=
  ⟨fun m m' _ _ hagree => h.reads t ht m m' fun l hl _ => hagree l hl, fun m _ => h.writes t ht m, fun _ _ => trivial⟩

omit [DecidableEq L] in
lemma notMem (ht : t ∈ tasks) (hl : l ∈ own t) : ∀ u ∈ tasks, u ≠ t → l ∉ own u :=
  fun u hu hne hlu => (Set.disjoint_left.mp (h.apart u hu t ht hne)) hlu hl

lemma runAll_frame (hl : ∀ u ∈ tasks, l ∉ own u) (m : L → V) : runAll (tasks.map act) m l = m l := by
  refine LocalActions.runAll_frame (I := fun _ => True) (fun a ha => ?_) trivial
  obtain ⟨u, hu, rfl⟩ := mem_map.mp ha
  exact ⟨own u, own u, h.within hu, hl u hu⟩

/-- **An owned location** holds what its task, run alone, leaves there. -/
theorem runAll_at (ht : t ∈ tasks) (hl : l ∈ own t) (m : L → V) : runAll (tasks.map act) m l = (act t).run m l := by
  obtain ⟨xs, ys, rfl⟩ := append_of_mem ht
  obtain ⟨hxs, hys⟩ : t ∉ xs ∧ t ∉ ys := by
    have hmiddle := nodup_middle.mp h.nodup
    obtain ⟨hnot, -⟩ := nodup_cons.mp hmiddle
    exact ⟨fun hx => hnot (mem_append_left ys hx), fun hy => hnot (mem_append_right xs hy)⟩
  have hother {us : List T} (hus : ∀ u ∈ us, u ∈ xs ++ t :: ys ∧ u ≠ t) (m : L → V) {l : L} (hl : l ∈ own t) :
      runAll (us.map act) m l = m l := by
    refine LocalActions.runAll_frame (I := fun _ => True) (fun a ha => ?_) trivial
    obtain ⟨u, hu, rfl⟩ := mem_map.mp ha
    exact ⟨own u, own u, h.within (hus u hu).1, h.notMem ht hl u (hus u hu).1 (hus u hu).2⟩
  have hleft {l : L} (hl : l ∈ own t) : runAll (xs.map act) m l = m l :=
    hother (fun u hu => ⟨mem_append_left _ hu, fun heq => hxs (heq ▸ hu)⟩) m hl
  have hstores : (act t) (runAll (xs.map act) m) = (act t) m := h.reads t ht _ _ fun l hl _ => hleft hl
  rw [map_append, map_cons, runAll_append, runAll_cons,
    hother (fun u hu => ⟨mem_append_right _ (mem_cons_of_mem t hu), fun heq => hys (heq ▸ hu)⟩) _ hl]
  unfold Action.run
  rw [hstores]
  by_cases hkey : l ∈ (act t m).map Prod.fst
  · exact assign_written hkey _ _
  · rw [assign_frame hkey, assign_frame hkey]
    exact hleft hl

omit h [DecidableEq L] in
lemma of_perm (h : Owned tasks pool own act) {order : List T} (horder : order.Perm tasks) :
    Owned order pool own act where
  nodup := horder.nodup_iff.mpr h.nodup
  reads t ht := h.reads t (horder.mem_iff.mp ht)
  writes t ht := h.writes t (horder.mem_iff.mp ht)
  apart t ht u hu := h.apart t (horder.mem_iff.mp ht) u (horder.mem_iff.mp hu)

end Owned

section

variable (h : Owned tasks pool own act)
include h

section

variable (hrun : TasksInAnyOrder tasks act m m')
include hrun

lemma TasksInAnyOrder.at (ht : t ∈ tasks) (hl : l ∈ own t) : m' l = (act t).run m l := by
  obtain ⟨_, horder, rfl⟩ := hrun
  exact (h.of_perm horder).runAll_at (horder.mem_iff.mpr ht) hl m

/-- **An owned location** holds the value that its task stores there. -/
theorem TasksInAnyOrder.value (ht : t ∈ tasks) (hl : l ∈ own t) {v : V}
    (hmem : (l, v) ∈ act t m) (hsame : ∀ v', (l, v') ∈ act t m → v' = v) : m' l = v := by
  rw [hrun.at h ht hl]
  exact WorkerTasks.assign_value hmem hsame m

lemma TasksInAnyOrder.frame (hl : ∀ u ∈ tasks, l ∉ own u) : m' l = m l := by
  obtain ⟨_, horder, rfl⟩ := hrun
  exact (h.of_perm horder).runAll_frame (fun u hu => hl u (horder.mem_iff.mp hu)) m

end

end

/-! ## Places -/

section

variable [DecidableEq C] {f : L → C} {A : Set L}

section

omit [DecidableEq L] [DecidableEq C] in
/-- **Placed tasks** own the places of their locations. -/
theorem Owned.place (h : Owned tasks pool own act) (hinj : Set.InjOn f A) (hA : ∀ t ∈ tasks, own t ⊆ A) :
    Owned tasks (f '' pool) (fun t => f '' own t) fun t => (act t).place f where
  nodup := h.nodup
  reads t ht m m' hagree := by
    have hsame : act t (m ∘ f) = act t (m' ∘ f) :=
      h.reads t ht _ _ fun l hl hp => hagree (f l) (Set.mem_image_of_mem f hl) (Set.mem_image_of_mem f hp)
    simp [Action.place, hsame]
  writes t ht m st hst := by
    obtain ⟨st', hst', rfl⟩ := mem_map.mp hst
    exact Set.mem_image_of_mem f (h.writes t ht _ st' hst')
  apart t ht u hu hne := by
    refine Set.disjoint_left.mpr ?_
    rintro _ ⟨l, hl, rfl⟩ ⟨_, hl', heq⟩
    obtain rfl := hinj (hA u hu hl') (hA t ht hl) heq
    exact Set.disjoint_left.mp (h.apart t ht u hu hne) hl hl'

variable {d d' : C → V} (h : Owned tasks pool own act) (hinj : Set.InjOn f A) (hA : ∀ t ∈ tasks, own t ⊆ A)
  (hrun : TasksInAnyOrder tasks act m m') (hplaced : TasksInAnyOrder tasks (fun t => (act t).place f) d d')
  (hagree : ∀ l ∈ A, l ∈ pool → d (f l) = m l)
include h hinj hA hrun hplaced hagree

lemma placed_at (ht : t ∈ tasks) (hl : l ∈ own t) (hwritten : l ∈ pool ∨ l ∈ (act t m).map Prod.fst) :
    d' (f l) = m' l := by
  rw [hrun.at h ht hl, hplaced.at (h.place hinj hA) ht (Set.mem_image_of_mem f hl)]
  have hsame : act t (d ∘ f) = act t m := h.reads t ht _ _ fun l hl hp => hagree l (hA t ht hl) hp
  unfold Action.run Action.place
  rw [hsame]
  refine assign_place hinj (fun st hst => hA t ht (h.writes t ht m st hst)) (hA t ht hl) fun hnot => ?_
  exact hagree l (hA t ht hl) (hwritten.resolve_right hnot)

lemma placed_pool (hl : l ∈ A) (hp : l ∈ pool) : d' (f l) = m' l := by
  by_cases howned : ∃ t ∈ tasks, l ∈ own t
  · obtain ⟨t, ht, hlt⟩ := howned
    exact placed_at h hinj hA hrun hplaced hagree ht hlt (.inl hp)
  · have hnot (u : T) (hu : u ∈ tasks) : l ∉ own u := fun hlu => howned ⟨u, hu, hlu⟩
    rw [hrun.frame h hnot, hplaced.frame (h.place hinj hA) fun u hu => ?_]
    · exact hagree l hl hp
    · rintro ⟨_, hl', heq⟩
      obtain rfl := hinj (hA u hu hl') hl heq
      exact hnot u hu hl'

end

section

variable {act : ℕ → T → Action L V} {own : ℕ → T → Set L} {m : ℕ → L → V} {d : ℕ → C → V} {n : ℕ}

/-- **Runs of placed tasks**: pools and outputs stay those of the tasks, and nothing else changes. -/
theorem runs_agree (h : ∀ t < n, Owned tasks pool (own t) (act t)) (hinj : Set.InjOn f A)
    (hA : ∀ t < n, ∀ u ∈ tasks, own t u ⊆ A)
    (hwrites : ∀ t < n, ∀ u ∈ tasks, ∀ l ∈ own t u, l ∈ pool ∨ l ∈ (act t u (m t)).map Prod.fst)
    (hrun : ∀ t < n, TasksInAnyOrder tasks (act t) (m t) (m (t + 1)))
    (hplaced : ∀ t < n, TasksInAnyOrder tasks (fun u => (act t u).place f) (d t) (d (t + 1)))
    (hstart : ∀ l ∈ A, l ∈ pool → d 0 (f l) = m 0 l) : (∀ t ≤ n, ∀ l ∈ A, l ∈ pool → d t (f l) = m t l) ∧
    (∀ t < n, ∀ u ∈ tasks, ∀ l ∈ own t u, d (t + 1) (f l) = m (t + 1) l) ∧
    ∀ t < n, ∀ c, (∀ u ∈ tasks, c ∉ f '' own t u) → d (t + 1) c = d t c := by
  have hpools (t : ℕ) (ht : t ≤ n) : ∀ l ∈ A, l ∈ pool → d t (f l) = m t l := by
    induction t with
    | zero => exact hstart
    | succ t ih =>
      exact fun l hl hp =>
        placed_pool (h t ht) hinj (hA t ht) (hrun t ht) (hplaced t ht) (ih (by omega)) hl hp
  refine ⟨hpools, fun t ht u hu l hl => ?_, fun t ht c hc => ?_⟩
  · exact placed_at (h t ht) hinj (hA t ht) (hrun t ht) (hplaced t ht) (hpools t ht.le) hu hl (hwrites t ht u hu l hl)
  · exact (hplaced t ht).frame ((h t ht).place hinj (hA t ht)) hc

end

end

end VKernels.OwnedTasks
