import VKernels.Lib.CountedReady

/-!
# Workers that run fixed sequences

Every worker runs its own list of nodes in order, and blocks on a node until all the predecessors
of that node have completed.

* `Plan` — the workers' sequences; `Plan.Consistent` says that they are the pieces of one
  topological order, cut by an owner function.
* `Step.start` / `Step.finish` — one worker begins or ends the node its counter points at.
* `Inv` — the invariant of every interleaving; `Inv.step`, `Inv.reachable`.
* `Inv.progress` — deadlock freedom: the first node of the common order that has not completed
  is always at the counter of its worker, with nothing left to wait for.
-/

namespace InOrderWorkers

open CountedReady
open List

variable {α ι : Type*} [DecidableEq α] [DecidableEq ι]

abbrev Plan (α ι : Type*) := ι → List α

/-- The workers' counters, which of them are inside a node, and the history. -/
structure State (α ι : Type*) where
  pc : ι → ℕ
  busy : ι → Bool
  started : List α
  completed : List α

def State.start (α ι : Type*) : State α ι := ⟨fun _ => 0, fun _ => false, [], []⟩

variable (G : DepGraph α) (plan : Plan α ι)

/-- One worker begins its next node, all of whose predecessors have completed, or ends the node
    it is in. -/
inductive Step : State α ι → State α ι → Prop
  | start {s : State α ι} {w : ι} {k : α} (hidle : s.busy w = false)
      (hk : (plan w)[s.pc w]? = some k) (hwait : ∀ p ∈ G.preds k, p ∈ s.completed) :
      Step s { s with busy := Function.update s.busy w true, started := s.started ++ [k] }
  | finish {s : State α ι} {w : ι} {k : α} (hbusy : s.busy w = true)
      (hk : (plan w)[s.pc w]? = some k) :
      Step s { s with busy := Function.update s.busy w false
                      pc := Function.update s.pc w (s.pc w + 1)
                      completed := s.completed ++ [k] }

def Reachable (s : State α ι) : Prop := Relation.ReflTransGen (Step G plan) (State.start α ι) s

structure Plan.Consistent (order : List α) (owner : α → ι) : Prop where
  nodup : order.Nodup
  topo : G.Topo order
  mem : ∀ k, k ∈ order ↔ k ∈ G.nodes
  seq : ∀ w, plan w = order.filter (fun k => decide (owner k = w))

namespace Plan.Consistent

variable {G plan} {order : List α} {owner : α → ι}

section

variable (h : Plan.Consistent G plan order owner)
include h

lemma mem_seq {w : ι} {k : α} : k ∈ plan w ↔ k ∈ G.nodes ∧ owner k = w := by
  rw [h.seq, mem_filter, h.mem, decide_eq_true_eq]

lemma seq_nodup (w : ι) : (plan w).Nodup := by
  rw [h.seq]; exact h.nodup.filter _

lemma seq_split {a b : List α} {k : α} (hab : order = a ++ k :: b) :
    plan (owner k) = a.filter (fun j => decide (owner j = owner k)) ++
      k :: b.filter (fun j => decide (owner j = owner k)) := by
  rw [h.seq, hab, filter_append, filter_cons_of_pos (by simp)]

end

end Plan.Consistent

/-- Completed nodes are those before the counters; the started ones include the nodes at the
    counters of the busy workers; everything a started node waits for has completed. -/
structure Inv (s : State α ι) : Prop where
  completed : ∀ w k, k ∈ (plan w).take (s.pc w) → k ∈ s.completed
  owned : ∀ k ∈ s.completed, ∃ w, k ∈ (plan w).take (s.pc w)
  started : ∀ k, k ∈ s.started ↔
    k ∈ s.completed ∨ ∃ w, s.busy w = true ∧ (plan w)[s.pc w]? = some k
  busy : ∀ w, s.busy w = true → s.pc w < (plan w).length
  started_nodup : s.started.Nodup
  completed_nodup : s.completed.Nodup
  waited : ∀ k ∈ s.started, ∀ p ∈ G.preds k, p ∈ s.completed

namespace Inv

variable {G plan} {order : List α} {owner : α → ι} {s s' : State α ι}

omit [DecidableEq ι] in
lemma init : Inv G plan (State.start α ι) where
  completed w k h := by simp [State.start] at h
  owned k h := by simp [State.start] at h
  started k := by simp [State.start]
  busy w h := by simp [State.start] at h
  started_nodup := nodup_nil
  completed_nodup := nodup_nil
  waited k h := by simp [State.start] at h

section

variable (hc : Plan.Consistent G plan order owner)

section

include hc

lemma next_notMem (h : Inv G plan s) {w : ι} {k : α} (hk : (plan w)[s.pc w]? = some k) : k ∉ s.completed := by
  intro hkc
  obtain ⟨v, hv⟩ := h.owned k hkc
  have hkw := (hc.mem_seq.mp (mem_of_getElem? hk)).2
  have hkv := (hc.mem_seq.mp (mem_of_mem_take hv)).2
  rw [← hkv, hkw] at hv
  obtain ⟨i, hi, hik⟩ := mem_take_iff_getElem.mp hv
  obtain ⟨hlt, hpc⟩ := List.getElem?_eq_some_iff.mp hk
  have := (hc.seq_nodup w).getElem_inj_iff.mp (hik.trans hpc.symm)
  omega

lemma next_notStarted (h : Inv G plan s) {w : ι}
    {k : α} (hidle : s.busy w = false) (hk : (plan w)[s.pc w]? = some k) : k ∉ s.started := by
  intro hks
  rcases (h.started k).mp hks with hkc | ⟨v, hv, hkv⟩
  · exact h.next_notMem hc hk hkc
  · have hw := (hc.mem_seq.mp (mem_of_getElem? hk)).2
    have hv' := (hc.mem_seq.mp (mem_of_getElem? hkv)).2
    rw [← hw, hv', hv] at hidle
    exact Bool.noConfusion hidle

lemma step (h : Inv G plan s) (hs : Step G plan s s') : Inv G plan s' := by
  cases hs with
  | @start w k hidle hk hwait =>
    have hks := h.next_notStarted hc hidle hk
    refine ⟨h.completed, h.owned, fun j => ?_, fun v hv => ?_, ?_, h.completed_nodup, fun j hj => ?_⟩
    · simp only [mem_append, mem_singleton, h.started, or_assoc]
      refine or_congr_right ⟨?_, ?_⟩
      · rintro (⟨v, hv, hj⟩ | rfl)
        · exact ⟨v, by by_cases hvw : v = w <;> simp [hvw, hv], hj⟩
        · exact ⟨w, by simp, hk⟩
      · rintro ⟨v, hv, hj⟩
        by_cases hvw : v = w
        · subst hvw; exact .inr (Option.some.inj (hj.symm.trans hk))
        · exact .inl ⟨v, by simpa [hvw] using hv, hj⟩
    · by_cases hvw : v = w
      · subst hvw; exact (List.getElem?_eq_some_iff.mp hk).1
      · exact h.busy v (by simpa [hvw] using hv)
    · exact nodup_append.mpr ⟨h.started_nodup, by simp, by grind⟩
    · rcases mem_append.mp hj with hj | hj
      · exact h.waited j hj
      · rw [mem_singleton] at hj; exact hj ▸ hwait
  | @finish w k hbusy hk =>
    obtain ⟨hlt, hget⟩ := List.getElem?_eq_some_iff.mp hk
    have htake : (plan w).take (s.pc w + 1) = (plan w).take (s.pc w) ++ [k] := by
      rw [take_add_one, hk]; rfl
    refine ⟨fun v j hj => ?_, fun j hj => ?_, fun j => ?_, fun v hv => ?_, h.started_nodup, ?_,
      fun j hj p hp => mem_append_left _ (h.waited j hj p hp)⟩
    · by_cases hvw : v = w
      · subst hvw
        simp only [Function.update_self, htake, mem_append, mem_singleton] at hj
        exact mem_append.mpr (hj.imp (h.completed v j) (by simp))
      · exact mem_append_left _ (h.completed v j (by simpa [hvw] using hj))
    · rcases mem_append.mp hj with hj | hj
      · obtain ⟨v, hv⟩ := h.owned j hj
        refine ⟨v, ?_⟩
        by_cases hvw : v = w
        · subst hvw; simp [htake, hv]
        · simpa [hvw] using hv
      · exact ⟨w, by simp [htake, hj]⟩
    · -- `k` moves from the busy nodes to the completed ones
      simp only [mem_append, mem_singleton, h.started, or_assoc]
      refine or_congr_right ⟨?_, ?_⟩
      · rintro ⟨v, hv, hj⟩
        by_cases hvw : v = w
        · subst hvw; exact .inl (Option.some.inj (hj.symm.trans hk))
        · exact .inr ⟨v, by simp [hvw, hv], by simpa [hvw] using hj⟩
      · rintro (rfl | ⟨v, hv, hj⟩)
        · exact ⟨w, hbusy, hk⟩
        · have hvw : v ≠ w := fun he => by simp [he] at hv
          exact ⟨v, by simpa [hvw] using hv, by simpa [hvw] using hj⟩
    · have hvw : v ≠ w := fun he => by simp [he] at hv
      simpa [hvw] using h.busy v (by simpa [hvw] using hv)
    · have hkc := h.next_notMem hc hk
      exact nodup_append.mpr ⟨h.completed_nodup, by simp, by grind⟩

lemma reachable (hs : Reachable G plan s) : Inv G plan s := by
  induction hs with
  | refl => exact init
  | tail _ hs ih => exact ih.step hc hs

end

omit [DecidableEq ι] in
lemma completed_started (h : Inv G plan s) {k : α} (hk : k ∈ s.completed) : k ∈ s.started :=
  (h.started k).mpr (.inl hk)

section

include hc

lemma started_mem (h : Inv G plan s) {k : α} (hk : k ∈ s.started) : k ∈ G.nodes := by
  rcases (h.started k).mp hk with hk | ⟨w, _, hw⟩
  · obtain ⟨w, hw⟩ := h.owned k hk
    exact (hc.mem_seq.mp (mem_of_mem_take hw)).1
  · exact (hc.mem_seq.mp (mem_of_getElem? hw)).1

lemma next_of_first (h : Inv G plan s)
    {a b : List α} {k : α} (hab : order = a ++ k :: b) (ha : ∀ j ∈ a, j ∈ s.completed)
    (hk : k ∉ s.completed) : (plan (owner k))[s.pc (owner k)]? = some k := by
  have hseq := hc.seq_split hab
  set w := owner k
  set l := a.filter (fun j => decide (owner j = w)) with hl
  -- the counter has passed all of `l`
  have hge : l.length ≤ s.pc w := by
    by_contra hlt
    push Not at hlt
    have hj : l[s.pc w] ∈ s.completed := ha _ (mem_of_mem_filter (getElem_mem hlt))
    refine h.next_notMem hc (w := w) ?_ hj
    rw [hseq, getElem?_append_left hlt, getElem?_eq_getElem hlt]
  -- and it has not passed `k`
  have hle : s.pc w ≤ l.length := by
    by_contra hlt
    push Not at hlt
    refine hk (h.completed w k ?_)
    obtain ⟨n, hn⟩ := Nat.exists_eq_add_of_lt hlt
    rw [hseq, take_append, show s.pc w - l.length = n + 1 by omega]
    simp
  have heq : s.pc w = l.length := le_antisymm hle hge
  rw [heq, hseq]
  simp

lemma progress (h : Inv G plan s) (hstuck : ∀ s', ¬ Step G plan s s') : ∀ k ∈ G.nodes, k ∈ s.completed := by
  -- a prefix of the order is completed, by induction on the prefix
  have hpre : ∀ a b, order = a ++ b → ∀ j ∈ a, j ∈ s.completed := by
    intro a
    induction a using reverseRecOn with
    | nil => simp
    | append_singleton a k ih =>
      intro b hab
      have hab' : order = a ++ k :: b := by simpa using hab
      have ha := ih _ hab'
      have hk : k ∈ s.completed := by
        by_contra hk
        have hnext := h.next_of_first hc hab' ha hk
        cases hbusy : s.busy _ with
        | true => exact hstuck _ (.finish hbusy hnext)
        | false => exact hstuck _ (.start hbusy hnext fun p hp => ha p (hc.topo a k b hab' p hp))
      intro j hj
      rcases mem_append.mp hj with hj | hj
      · exact ha j hj
      · rw [mem_singleton] at hj; exact hj ▸ hk
  intro k hk
  exact hpre order [] (by simp) k ((hc.mem k).mpr hk)

lemma measure_le (h : Inv G plan s) : s.started.length + s.completed.length ≤ 2 * G.nodes.length := by
  have hs := subperm_of_subset h.started_nodup (fun k hk => h.started_mem hc hk)
  have hd := subperm_of_subset h.completed_nodup (fun k hk => h.started_mem hc (h.completed_started hk))
  have := hs.length_le
  have := hd.length_le
  omega

end

end

end Inv

section

variable {G plan} {order : List α} {owner : α → ι}

lemma Step.measure {s s' : State α ι} (h : Step G plan s s') :
    s'.started.length + s'.completed.length = s.started.length + s.completed.length + 1 := by
  cases h <;> simp <;> omega

/-- **Termination.**  No interleaving goes on for ever. -/
theorem no_infinite_run (hc : Plan.Consistent G plan order owner) (f : ℕ → State α ι)
    (h0 : f 0 = State.start α ι) : ¬ ∀ n, Step G plan (f n) (f (n + 1)) := by
  intro hrun
  have hreach : ∀ n, Reachable G plan (f n) ∧ (f n).started.length + (f n).completed.length = n := by
    intro n
    induction n with
    | zero => rw [h0]; exact ⟨.refl, rfl⟩
    | succ n ih => exact ⟨ih.1.tail (hrun n), by rw [(hrun n).measure, ih.2]⟩
  obtain ⟨hr, hn⟩ := hreach (2 * G.nodes.length + 1)
  have := (Inv.reachable hc hr).measure_le hc
  omega

lemma stopped_perm (hc : Plan.Consistent G plan order owner) {s : State α ι}
    (hr : Reachable G plan s) (hstuck : ∀ s', ¬ Step G plan s s') :
    s.started.Perm G.nodes ∧ s.completed.Perm G.nodes := by
  have h := Inv.reachable hc hr
  have hall := h.progress hc hstuck
  refine ⟨(perm_ext_iff_of_nodup h.started_nodup G.nodup).mpr fun k =>
      ⟨h.started_mem hc, fun hk => h.completed_started (hall k hk)⟩,
    (perm_ext_iff_of_nodup h.completed_nodup G.nodup).mpr fun k =>
      ⟨fun hk => h.started_mem hc (h.completed_started hk), hall k⟩⟩

end

end InOrderWorkers
