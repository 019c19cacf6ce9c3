import Mathlib

/-!
# Counted readiness over a finite dependency graph

A worklist discipline shared by topological sorts and ready-task queues: every node carries
the number of its predecessors that have not completed, a node enters the ready list when
that number reaches zero, and completing a node decrements the counters of its successors.

* `Counters.release` — `for s in succs: pending[s] -= 1; if pending[s] == 0: ready.append(s)`.
* `CountInv` — the invariant that ties counters, ready list, issued nodes and completed nodes.
  `CountInv.init`, `CountInv.issue` and `CountInv.complete` are its three rules; an arbitrary
  interleaving of issues and completions is an induction over them.
* `CountInv.drained` — on an acyclic graph an empty ready list with nothing in flight means
  that every node has completed.
* `kahn` — the sequential loop (issue the head, complete it at once).  `kahn_spec`: it ends
  within `nodes.length` rounds, and it visits every node exactly when the graph is acyclic.
-/

namespace CountedReady

open List

variable {α : Type*} [DecidableEq α]

/-- A finite dependency graph. -/
structure DepGraph (α : Type*) [DecidableEq α] where
  nodes : List α
  preds : α → Finset α
  nodup : nodes.Nodup
  closed : ∀ k ∈ nodes, ∀ p ∈ preds k, p ∈ nodes

namespace DepGraph

variable (G : DepGraph α)

/-- `p` must complete before `k` starts. -/
def Edge (p k : α) : Prop := k ∈ G.nodes ∧ p ∈ G.preds k

/-- No node waits, directly or not, for itself. -/
def Acyclic : Prop := ∀ k, ¬ Relation.TransGen G.Edge k k

/-- The nodes that wait for `k`. -/
def succs (k : α) : Finset α := G.nodes.toFinset.filter (fun s => k ∈ G.preds s)

@[simp] lemma mem_succs {k s : α} : s ∈ G.succs k ↔ s ∈ G.nodes ∧ k ∈ G.preds s := by
  simp [succs]

/-- Every node of `l` is preceded in `l` by all its predecessors. -/
def Topo (l : List α) : Prop := ∀ a k b, l = a ++ k :: b → ∀ p ∈ G.preds k, p ∈ a

lemma Topo.nil : G.Topo [] := fun a k b h => by simp at h

variable {l : List α}

lemma Topo.concat {k : α} (h : G.Topo l) (hk : ∀ p ∈ G.preds k, p ∈ l) : G.Topo (l ++ [k]) := by
  intro a j b heq
  rcases b.eq_nil_or_concat with hb | ⟨b', x, hb⟩
  · subst hb
    obtain ⟨ha, hj⟩ := append_inj' heq rfl
    simp only [cons.injEq, and_true] at hj
    subst ha; subst hj
    exact hk
  · subst hb
    rw [concat_eq_append, show a ++ j :: (b' ++ [x]) = (a ++ j :: b') ++ [x] by simp] at heq
    exact h a j b' (append_inj' heq rfl).1

lemma Topo.idxOf_lt (h : G.Topo l) {p k : α} (hk : k ∈ l) (he : p ∈ G.preds k) : p ∈ l ∧ l.idxOf p < l.idxOf k := by
  obtain ⟨a, b, hl, hka⟩ := eq_append_cons_of_mem hk
  have hp : p ∈ a := h a k b hl p he
  subst hl
  refine ⟨mem_append_left _ hp, ?_⟩
  rw [idxOf_append_of_mem hp, idxOf_append_of_notMem hka]
  have := idxOf_lt_length_of_mem hp
  omega

lemma Topo.acyclic (h : G.Topo l) (hall : ∀ k ∈ G.nodes, k ∈ l) : G.Acyclic := by
  have hlt : ∀ p k, Relation.TransGen G.Edge p k → l.idxOf p < l.idxOf k := by
    intro p k hpk
    induction hpk with
    | single he => exact (Topo.idxOf_lt G h (hall _ he.1) he.2).2
    | tail _ he ih => exact ih.trans (Topo.idxOf_lt G h (hall _ he.1) he.2).2
  exact fun k hk => lt_irrefl _ (hlt k k hk)

lemma Acyclic.exists_minimal {G : DepGraph α} (h : G.Acyclic) {P : α → Prop} {k : α}
    (hk : k ∈ G.nodes) (hP : P k) : ∃ m ∈ G.nodes, P m ∧ ∀ p ∈ G.preds m, ¬ P p := by
  let r : {x // x ∈ G.nodes} → {x // x ∈ G.nodes} → Prop := fun x y => Relation.TransGen G.Edge x y
  have : Std.Irrefl r := ⟨fun x => h x⟩
  have hwf : WellFounded r := Finite.wellFounded_of_trans_of_irrefl r
  obtain ⟨m, hm, hmin⟩ := hwf.has_min {x | P x.1} ⟨⟨k, hk⟩, hP⟩
  refine ⟨m.1, m.2, hm, fun p hp hPp => ?_⟩
  exact hmin ⟨p, G.closed _ m.2 p hp⟩ hPp (.single ⟨m.2, hp⟩)

end DepGraph

/-- An order in which finite sets are iterated: each member once. -/
structure SetOrder (α : Type*) [DecidableEq α] where
  list : Finset α → List α
  nodup : ∀ s, (list s).Nodup
  mem_list : ∀ s k, k ∈ list s ↔ k ∈ s

attribute [simp] SetOrder.mem_list

def SetOrder.sorted {α : Type*} [LinearOrder α] : SetOrder α where
  list s := s.sort
  nodup s := s.sort_nodup _
  mem_list s k := s.mem_sort _

/-! ## Counters -/

/-- The number of uncompleted predecessors of each node, and the ready list. -/
structure Counters (α : Type*) where
  pending : α → ℤ
  ready : List α

/-- One predecessor of `s` has completed. -/
def Counters.dec (c : Counters α) (s : α) : Counters α :=
  { pending := Function.update c.pending s (c.pending s - 1)
    ready := if c.pending s - 1 = 0 then c.ready ++ [s] else c.ready }

def Counters.release (c : Counters α) (ss : List α) : Counters α := ss.foldl Counters.dec c

lemma Counters.release_pending {ss : List α} (h : ss.Nodup) (c : Counters α) (s : α) :
    (c.release ss).pending s = if s ∈ ss then c.pending s - 1 else c.pending s := by
  unfold release
  induction ss generalizing c with
  | nil => simp
  | cons t ts ih =>
    obtain ⟨ht, hts⟩ := nodup_cons.mp h
    rw [foldl_cons, ih hts]
    by_cases hst : s = t
    · subst hst; simp [ht, dec]
    · simp [hst, dec]

lemma Counters.release_ready {ss : List α} (h : ss.Nodup) (c : Counters α) :
    (c.release ss).ready = c.ready ++ ss.filter (fun s => decide (c.pending s = 1)) := by
  unfold release
  induction ss generalizing c with
  | nil => simp
  | cons t ts ih =>
    obtain ⟨ht, hts⟩ := nodup_cons.mp h
    rw [foldl_cons, ih hts]
    have hcongr : ts.filter (fun s => decide ((c.dec t).pending s = 1)) =
        ts.filter (fun s => decide (c.pending s = 1)) := by
      refine filter_congr fun s hs => ?_
      have hst : s ≠ t := fun he => ht (he ▸ hs)
      simp [dec, hst]
    rw [hcongr]
    by_cases h1 : c.pending t = 1
    · simp [dec, h1]
    · have h0 : c.pending t - 1 ≠ 0 := by omega
      simp [dec, h1, h0]

/-- The state of a run: `issued` nodes have left the ready list, `done` ones have completed. -/
structure CountInv (G : DepGraph α) (issued done : List α) (c : Counters α) : Prop where
  pending : ∀ k ∈ G.nodes, c.pending k = ((G.preds k).filter (· ∉ done)).card
  ready : ∀ k, (k ∈ issued ∨ k ∈ c.ready) ↔ k ∈ G.nodes ∧ ∀ p ∈ G.preds k, p ∈ done
  nodup : (issued ++ c.ready).Nodup
  done_issued : ∀ k ∈ done, k ∈ issued
  done_nodup : done.Nodup
  topo : G.Topo done

namespace CountInv

variable {G : DepGraph α} {issued done : List α} {c : Counters α}

/-- The start: full counters, and the roots ready in any order. -/
lemma init (hp : ∀ k ∈ G.nodes, c.pending k = (G.preds k).card)
    (hr : c.ready.Perm (G.nodes.filter (fun k => decide (G.preds k = ∅)))) : CountInv G [] [] c where
  pending k hk := by simp [hp k hk]
  ready k := by
    rw [hr.mem_iff]
    simp [Finset.eq_empty_iff_forall_notMem]
  nodup := by simpa using hr.nodup_iff.mpr (G.nodup.filter _)
  done_issued := by simp
  done_nodup := nodup_nil
  topo := DepGraph.Topo.nil G

section

variable (h : CountInv G issued done c)
include h

lemma issue {k : α} {q : List α} (hc : c.ready = k :: q) :
    CountInv G (issued ++ [k]) done { c with ready := q } where
  pending := h.pending
  ready j := by
    rw [← h.ready j, hc]
    simp [or_assoc]
  nodup := by have := h.nodup; rw [hc] at this; simpa using this
  done_issued j hj := mem_append_left _ (h.done_issued j hj)
  done_nodup := h.done_nodup
  topo := h.topo

lemma preds_done {k : α} (hk : k ∈ issued) : k ∈ G.nodes ∧ ∀ p ∈ G.preds k, p ∈ done := (h.ready k).mp (.inl hk)

lemma complete {k : α} {ss : List α} (hk : k ∈ issued)
    (hkd : k ∉ done) (hss : ss.Nodup) (hmem : ∀ s, s ∈ ss ↔ s ∈ G.nodes ∧ k ∈ G.preds s) :
    CountInv G issued (done ++ [k]) (c.release ss) := by
  obtain ⟨hkn, hkp⟩ := h.preds_done hk
  -- the counter of `s` loses exactly the predecessor `k`
  have hcard : ∀ s ∈ G.nodes, k ∈ G.preds s →
      ((G.preds s).filter (· ∉ done)).card = ((G.preds s).filter (· ∉ done ++ [k])).card + 1 := by
    intro s _ hks
    have heq : (G.preds s).filter (· ∉ done) = insert k ((G.preds s).filter (· ∉ done ++ [k])) := by
      ext p
      by_cases hpk : p = k
      · subst hpk; simp [hks, hkd]
      · simp [hpk]
    rw [heq, Finset.card_insert_of_notMem (by simp)]
  have hsame : ∀ s, k ∉ G.preds s → ((G.preds s).filter (· ∉ done)) = ((G.preds s).filter (· ∉ done ++ [k])) := by
    intro s hks
    refine Finset.filter_congr fun p hp => ?_
    have hpk : p ≠ k := fun he => hks (he ▸ hp)
    simp [hpk]
  have hpend : ∀ s ∈ G.nodes, (c.release ss).pending s = ((G.preds s).filter (· ∉ done ++ [k])).card := by
    intro s hs
    rw [Counters.release_pending hss, h.pending s hs]
    by_cases hks : k ∈ G.preds s
    · rw [if_pos ((hmem s).mpr ⟨hs, hks⟩), hcard s hs hks]
      push_cast; ring
    · rw [if_neg (fun hc => hks ((hmem s).mp hc).2), hsame s hks]
  -- the newly ready nodes: successors of `k` with nothing else pending
  have hnew : ∀ s, s ∈ ss.filter (fun s => decide (c.pending s = 1)) ↔
      (s ∈ G.nodes ∧ k ∈ G.preds s) ∧ ∀ p ∈ G.preds s, p ∈ done ++ [k] := by
    intro s
    rw [mem_filter, hmem]
    refine and_congr_right fun ⟨hs, hks⟩ => ?_
    rw [decide_eq_true_eq, h.pending s hs, hcard s hs hks]
    have : (((G.preds s).filter (· ∉ done ++ [k])).card = 0) ↔ ∀ p ∈ G.preds s, p ∈ done ++ [k] := by
      rw [Finset.card_eq_zero, Finset.filter_eq_empty_iff]
      simp only [not_not]
    rw [← this]
    omega
  have hold : ∀ s, k ∈ G.preds s → ¬ (s ∈ issued ∨ s ∈ c.ready) := by
    intro s hks hs
    exact hkd (((h.ready s).mp hs).2 k hks)
  refine ⟨hpend, ?_, ?_, ?_, ?_, ?_⟩
  · intro s
    rw [Counters.release_ready hss, mem_append, hnew, ← or_assoc, h.ready]
    constructor
    · rintro (⟨hs, hp⟩ | ⟨⟨hs, _⟩, hp⟩)
      · exact ⟨hs, fun p hpp => mem_append_left _ (hp p hpp)⟩
      · exact ⟨hs, hp⟩
    · rintro ⟨hs, hp⟩
      by_cases hks : k ∈ G.preds s
      · exact .inr ⟨⟨hs, hks⟩, hp⟩
      · refine .inl ⟨hs, fun p hpp => ?_⟩
        rcases mem_append.mp (hp p hpp) with hd | hd
        · exact hd
        · exact absurd hpp (by rw [mem_singleton] at hd; exact hd ▸ hks)
  · rw [Counters.release_ready hss, ← append_assoc]
    refine nodup_append.mpr ⟨h.nodup, hss.filter _, fun a ha b hb hab => ?_⟩
    subst hab
    exact hold a ((hnew a).mp hb).1.2 (mem_append.mp ha)
  · intro j hj
    rcases mem_append.mp hj with hj | hj
    · exact h.done_issued j hj
    · rw [mem_singleton] at hj; exact hj ▸ hk
  · refine nodup_append.mpr ⟨h.done_nodup, by simp, fun a ha b hb hab => ?_⟩
    rw [mem_singleton] at hb
    exact hkd (hb ▸ hab ▸ ha)
  · exact DepGraph.Topo.concat G h.topo hkp

lemma issued_nodup : issued.Nodup :=
  (nodup_append.mp h.nodup).1

lemma drained (hac : G.Acyclic)
    (hflight : ∀ k ∈ issued, k ∈ done) (hempty : c.ready = []) : ∀ k ∈ G.nodes, k ∈ done := by
  intro k hk
  by_contra hkd
  obtain ⟨m, hm, hmd, hmin⟩ := hac.exists_minimal (P := fun x => x ∉ done) hk hkd
  have hmi : m ∈ issued ∨ m ∈ c.ready := (h.ready m).mpr ⟨hm, fun p hp => not_not.mp (hmin p hp)⟩
  rw [hempty] at hmi
  exact hmd (hflight m (hmi.resolve_right (by simp)))

lemma done_le : done.length ≤ G.nodes.length := by
  have hsub : done ⊆ G.nodes := fun k hk => (h.preds_done (h.done_issued k hk)).1
  exact (subperm_of_subset h.done_nodup hsub).length_le

lemma all_done_iff : (∀ k ∈ G.nodes, k ∈ done) ↔ done.length = G.nodes.length := by
  have hsub : done ⊆ G.nodes := fun k hk => (h.preds_done (h.done_issued k hk)).1
  have hsp := subperm_of_subset h.done_nodup hsub
  constructor
  · intro hall
    exact le_antisymm hsp.length_le (subperm_of_subset G.nodup hall).length_le
  · intro hlen k hk
    exact (hsp.perm_of_length_le hlen.ge).mem_iff.mpr hk

end

end CountInv

/-! ## The sequential loop -/

/-- Issue the head of the ready list and complete it at once, until the list is empty; the
    visited nodes in order.  `none` when the fuel runs out. -/
def kahn (succ : α → List α) : ℕ → Counters α → List α → Option (List α)
  | _, ⟨_, []⟩, order => some order
  | 0, ⟨_, _ :: _⟩, _ => none
  | n + 1, ⟨p, k :: q⟩, order => kahn succ n (Counters.release ⟨p, q⟩ (succ k)) (order ++ [k])

variable {G : DepGraph α} {succ : α → List α}

lemma kahn_run (hnd : ∀ k, (succ k).Nodup) (hmem : ∀ k s, s ∈ succ k ↔ s ∈ G.nodes ∧ k ∈ G.preds s) :
    ∀ (n : ℕ) (c : Counters α) (order : List α), CountInv G order order c → G.nodes.length ≤ order.length + n →
      ∃ order' p, kahn succ n c order = some order' ∧ CountInv G order' order' ⟨p, []⟩
  | _, ⟨p, []⟩, order, h, _ => ⟨order, p, by simp [kahn], h⟩
  | 0, ⟨p, k :: q⟩, order, h, hn => by
    -- a node still in the ready list is not yet among the visited ones
    have hlt : (order ++ [k]).length ≤ G.nodes.length := by
      have hi := h.issue rfl
      have hsub : order ++ [k] ⊆ G.nodes := fun j hj => (hi.preds_done hj).1
      exact (subperm_of_subset hi.issued_nodup hsub).length_le
    simp at hlt hn
    omega
  | n + 1, ⟨p, k :: q⟩, order, h, hn => by
    have hi := h.issue rfl
    have hkd : k ∉ order := by
      have := hi.issued_nodup
      intro hk
      exact (nodup_append.mp this).2.2 k hk k (by simp) rfl
    have hc := hi.complete (by simp) hkd (hnd k) (hmem k)
    have hn' : G.nodes.length ≤ (order ++ [k]).length + n := by simp; omega
    simpa [kahn] using kahn_run hnd hmem n _ _ hc hn'

lemma kahn_spec (hnd : ∀ k, (succ k).Nodup) (hmem : ∀ k s, s ∈ succ k ↔ s ∈ G.nodes ∧ k ∈ G.preds s) {c : Counters α}
    (h : CountInv G [] [] c) : ∃ order, kahn succ G.nodes.length c [] = some order ∧ order.Nodup ∧ G.Topo order ∧
      (∀ k ∈ order, k ∈ G.nodes) ∧ (order.length = G.nodes.length ↔ G.Acyclic) := by
  obtain ⟨order, p, hrun, hinv⟩ := kahn_run hnd hmem G.nodes.length c [] h (by simp)
  refine ⟨order, hrun, hinv.done_nodup, hinv.topo, fun k hk => (hinv.preds_done hk).1, ?_⟩
  rw [← hinv.all_done_iff]
  exact ⟨fun hall => DepGraph.Topo.acyclic G hinv.topo hall, fun hac => hinv.drained hac (fun _ hk => hk) rfl⟩

end CountedReady
