import VKernels.Lib.ByteCopies

/-!
# Threads that copy

Threads that load bytes into a register of their own and store them, in any interleaving.

* `Access`, `exec` — loads and stores, and a schedule of them.
* `Launch` — the copies of each thread of a grid; `Interleaves` — schedules that keep every thread's order.

## Results

* `result_of_clean` — where no copy of the launch reads what another writes, and none writes what another does, every
  interleaving leaves what the copies leave one after another.
* `result_inOrder` — the threads one after another are one of the interleavings.
* `runAll_eq_of_bytes` — copies with the same bytes do the same.
-/

namespace CopyThreads

open ByteCopies
open Function (update update_of_ne update_self)
open List
open Copy (bytes)

variable {β T : Type}

/-! ## Schedules -/

inductive Access
  | load (src len : ℕ)
  | store (dst len : ℕ)

structure State (β T : Type) where
  mem : Mem β
  regs : T → ℕ → β

section

variable [DecidableEq T]

/-- The next access of thread `t`. -/
def step (s : State β T) (e : T × Access) : State β T :=
  match e.2 with
  | .load src len => { s with regs := update s.regs e.1 fun i => if i < len then s.mem (src + i) else s.regs e.1 i }
  | .store dst len => { s with mem := fun a => if dst ≤ a ∧ a < dst + len then s.regs e.1 (a - dst) else s.mem a }

def exec (sched : List (T × Access)) (s : State β T) : State β T := sched.foldl step s

def Interleaves (program : T → List Access) (sched : List (T × Access)) : Prop :=
  ∀ t, (sched.filter fun e => e.1 = t).map Prod.snd = program t

end

def copyProgram (cs : List Copy) : List Access := cs.flatMap fun c => [.load c.src c.len, .store c.dst c.len]

structure Launch (T : Type) where
  threads : List T
  moves : T → List Copy

namespace Launch

variable (l : Launch T)

def copies : List Copy := l.threads.flatMap l.moves

variable [DecidableEq T]

def program (t : T) : List Access := if t ∈ l.threads then copyProgram (l.moves t) else []

/-- A memory that some interleaving leaves. -/
def Result (m m' : Mem β) : Prop :=
  ∃ (regs : T → ℕ → β) (sched : List (T × Access)), Interleaves l.program sched ∧ (exec sched ⟨m, regs⟩).mem = m'

end Launch

/-! ## One thread after another -/

section

variable [DecidableEq T]

@[simp] lemma exec_cons (e : T × Access) (sched : List (T × Access)) (s : State β T) :
    exec (e :: sched) s = exec sched (step s e) := rfl

lemma exec_append (sched sched' : List (T × Access)) (s : State β T) :
    exec (sched ++ sched') s = exec sched' (exec sched s) := foldl_append

lemma exec_copyProgram (t : T) (cs : List Copy) (s : State β T) :
    (exec ((copyProgram cs).map fun e => (t, e)) s).mem = runAll cs s.mem := by
  induction cs generalizing s with
  | nil => rfl
  | cons c cs ih =>
    have hprogram : (copyProgram (c :: cs)).map (fun e => (t, e)) =
        (t, .load c.src c.len) :: (t, .store c.dst c.len) :: (copyProgram cs).map fun e => (t, e) := rfl
    rw [hprogram, exec_cons, exec_cons, ih, runAll_cons]
    congr 1
    funext a
    by_cases hw : c.Writes a
    · obtain ⟨hle, hlt⟩ := hw
      have hlen : a - c.dst < c.len := by omega
      rw [Copy.run_of_writes ⟨hle, hlt⟩]
      simp [step, hle, hlt, hlen]
    · rw [Copy.run_of_not_writes hw]
      exact if_neg hw

/-- The threads of a list, one after another. -/
def inOrder (moves : T → List Copy) (ts : List T) : List (T × Access) :=
  ts.flatMap fun t => (copyProgram (moves t)).map fun e => (t, e)

lemma exec_inOrder (moves : T → List Copy) (ts : List T) (s : State β T) :
    (exec (inOrder moves ts) s).mem = runAll (ts.flatMap moves) s.mem := by
  induction ts generalizing s with
  | nil => rfl
  | cons t ts ih =>
    have hsched : inOrder moves (t :: ts) = (copyProgram (moves t)).map (fun e => (t, e)) ++ inOrder moves ts := rfl
    rw [hsched, exec_append, ih, exec_copyProgram, flatMap_cons, runAll_append]

lemma inOrder_filter (moves : T → List Copy) (ts : List T) (hnodup : ts.Nodup) (t : T) :
    ((inOrder moves ts).filter fun e => e.1 = t).map Prod.snd = if t ∈ ts then copyProgram (moves t) else [] := by
  induction ts with
  | nil => rfl
  | cons u ts ih =>
    obtain ⟨hu, hts⟩ := nodup_cons.mp hnodup
    have hsched : inOrder moves (u :: ts) = (copyProgram (moves u)).map (fun e => (u, e)) ++ inOrder moves ts := rfl
    rw [hsched, filter_append, map_append, ih hts]
    by_cases htu : u = t
    · subst htu
      have hown : ((copyProgram (moves u)).map fun e => (u, e)).filter (fun e => e.1 = u) =
          (copyProgram (moves u)).map fun e => (u, e) := by
        simp
      rw [hown, if_neg hu, append_nil, if_pos mem_cons_self, map_map]
      exact map_id _
    · have hother : ((copyProgram (moves u)).map fun e => (u, e)).filter (fun e => e.1 = t) = [] := by
        simp [filter_eq_nil_iff, htu]
      have hmem : (t ∈ u :: ts) = (t ∈ ts) := by simp [Ne.symm htu]
      rw [hother, map_nil, nil_append]
      simp [hmem]

lemma result_inOrder [Inhabited β] {l : Launch T} {ts : List T} (hperm : ts.Perm l.threads) (hnodup : l.threads.Nodup)
    (m : Mem β) : l.Result m (runAll (ts.flatMap l.moves) m) := by
  refine ⟨fun _ _ => default, inOrder l.moves ts, fun t => ?_, exec_inOrder l.moves ts _⟩
  rw [inOrder_filter l.moves ts (hperm.nodup_iff.mpr hnodup), Launch.program]
  simp [hperm.mem_iff]

end

/-! ## Any interleaving -/

/-- What a thread has left: a store of loaded bytes, and copies. -/
structure Left where
  pending : Option Copy
  todo : List Copy

namespace Left

def copies (l : Left) : List Copy := l.pending.toList ++ l.todo

def program (l : Left) : List Access := (l.pending.toList.map fun c => Access.store c.dst c.len) ++ copyProgram l.todo

end Left

/-- The copies that are left do not disturb each other, and have their bytes still to come from `m`. -/
structure Ready (m : Mem β) (s : State β T) (left : T → Left) : Prop where
  clean : ∀ t u, ∀ c ∈ (left t).copies, ∀ d ∈ (left u).copies, ∀ a, c.Reads a → ¬d.Writes a
  own : ∀ t, Exclusive (left t).copies
  apart : ∀ t u, t ≠ u → ∀ c ∈ (left t).copies, ∀ d ∈ (left u).copies, c.Apart d
  regs : ∀ t c, (left t).pending = some c → ∀ i < c.len, s.regs t i = m (c.src + i)
  mem : ∀ t, ∀ c ∈ (left t).copies, ∀ a, c.Reads a → s.mem a = m a

section

variable [DecidableEq T]

lemma Ready.load {m : Mem β} {s : State β T} {left : T → Left} (h : Ready m s left) {t : T} {c : Copy} {cs : List Copy}
    (ht : left t = ⟨none, c :: cs⟩) : (∀ u, (update left t ⟨some c, cs⟩ u).copies = (left u).copies) ∧
      Ready m (step s (t, .load c.src c.len)) (update left t ⟨some c, cs⟩) := by
  have hcopies (u : T) : (update left t ⟨some c, cs⟩ u).copies = (left u).copies := by
    by_cases hu : u = t
    · subst hu
      rw [update_self, ht]
      rfl
    · rw [update_of_ne hu]
  have hc : c ∈ (left t).copies := by
    rw [ht]
    exact mem_cons_self
  refine ⟨hcopies, ?_, ?_, ?_, ?_, ?_⟩
  · simpa only [hcopies] using h.clean
  · simpa only [hcopies] using h.own
  · simpa only [hcopies] using h.apart
  · intro u d hd i hi
    by_cases hu : u = t
    · subst hu
      rw [update_self] at hd
      obtain rfl := Option.some.inj hd
      have hread := h.mem u c hc (c.src + i) ⟨by omega, by omega⟩
      simp [step, hi, hread]
    · rw [update_of_ne hu] at hd
      simp only [step, update_of_ne hu]
      exact h.regs u d hd i hi
  · intro u d hd a ha
    rw [hcopies] at hd
    exact h.mem u d hd a ha

lemma Ready.store {m : Mem β} {s : State β T} {left : T → Left} (h : Ready m s left) {t : T} {c : Copy} {cs : List Copy}
    (ht : left t = ⟨some c, cs⟩) : (∀ i < c.len, (step s (t, .store c.dst c.len)).mem (c.dst + i) = m (c.src + i)) ∧
      (∀ a, ¬c.Writes a → (step s (t, .store c.dst c.len)).mem a = s.mem a) ∧
      Ready m (step s (t, .store c.dst c.len)) (update left t ⟨none, cs⟩) := by
  have hc : c ∈ (left t).copies := by
    rw [ht]
    exact mem_cons_self
  have hsub (u : T) : ∀ d ∈ (update left t ⟨none, cs⟩ u).copies, d ∈ (left u).copies := by
    intro d hd
    by_cases hu : u = t
    · subst hu
      rw [update_self] at hd
      rw [ht]
      exact mem_cons_of_mem _ hd
    · rwa [update_of_ne hu] at hd
  have hframe (a : ℕ) (ha : ¬c.Writes a) : (step s (t, .store c.dst c.len)).mem a = s.mem a := if_neg ha
  refine ⟨fun i hi => ?_, hframe, ?_, ?_, ?_, ?_, ?_⟩
  · have hwrites : c.dst ≤ c.dst + i ∧ c.dst + i < c.dst + c.len := ⟨by omega, by omega⟩
    have hreg := h.regs t c (by rw [ht]) i hi
    simp only [step, if_pos hwrites, Nat.add_sub_cancel_left]
    exact hreg
  · exact fun u v d hd e he => h.clean u v d (hsub u d hd) e (hsub v e he)
  · intro u
    by_cases hu : u = t
    · subst hu
      have hown := h.own u
      rw [ht] at hown
      rw [update_self]
      exact (pairwise_cons.mp hown).2
    · rw [update_of_ne hu]
      exact h.own u
  · exact fun u v huv d hd e he => h.apart u v huv d (hsub u d hd) e (hsub v e he)
  · intro u d hd
    have hu : u ≠ t := by
      rintro rfl
      rw [update_self] at hd
      cases hd
    rw [update_of_ne hu] at hd
    exact h.regs u d hd
  · intro u d hd a ha
    rw [hframe a (h.clean u t d (hsub u d hd) c hc a ha)]
    exact h.mem u d (hsub u d hd) a ha

/-- **Every schedule** of what is left delivers it, and changes nothing else. -/
theorem Ready.exec {m : Mem β} {sched : List (T × Access)} : ∀ {s : State β T} {left : T → Left}, Ready m s left →
    Interleaves (fun t => (left t).program) sched →
    (∀ t, ∀ c ∈ (left t).copies, ∀ i < c.len, (exec sched s).mem (c.dst + i) = m (c.src + i)) ∧
      ∀ a, (∀ t, ∀ c ∈ (left t).copies, ¬c.Writes a) → (exec sched s).mem a = s.mem a := by
  induction sched with
  | nil =>
    intro s left _ hsched
    have hnone (t : T) : (left t).copies = [] := by
      have hprogram : [] = (left t).program := hsched t
      cases hleft : left t with
      | mk pending todo =>
        rw [hleft] at hprogram
        cases pending with
        | some c => cases hprogram
        | none =>
          cases todo with
          | nil => rfl
          | cons c cs => cases hprogram
    refine ⟨fun t c hc => ?_, fun _ _ => rfl⟩
    rw [hnone] at hc
    cases hc
  | cons e sched ih =>
    intro s left h hsched
    obtain ⟨t, access⟩ := e
    have hfirst : access :: (sched.filter fun e => e.1 = t).map Prod.snd = (left t).program := by
      have hown := hsched t
      simpa using hown
    have hothers (u : T) (hu : u ≠ t) : (sched.filter fun e => e.1 = u).map Prod.snd = (left u).program := by
      have hother := hsched u
      simpa [Ne.symm hu] using hother
    -- the program of `t` goes on, those of the others wait
    have hwait {l : Left} (hrest : (sched.filter fun e => e.1 = t).map Prod.snd = l.program) :
        Interleaves (fun u => (update left t l u).program) sched := by
      intro u
      by_cases hu : u = t
      · subst hu
        simpa only [update_self] using hrest
      · simpa only [update_of_ne hu] using hothers u hu
    cases hleft : left t with
    | mk pending todo =>
      rw [hleft] at hfirst
      cases pending with
      | none =>
        cases todo with
        | nil => cases hfirst
        | cons c cs =>
          obtain ⟨rfl, hrest⟩ := cons.inj hfirst
          obtain ⟨hcopies, hready⟩ := h.load hleft
          have hexec := ih hready (hwait hrest)
          simp only [hcopies] at hexec
          exact hexec
      | some c =>
        obtain ⟨rfl, hrest⟩ := cons.inj hfirst
        obtain ⟨hstored, hframe, hready⟩ := h.store hleft
        obtain ⟨hvalues, hkept⟩ := ih hready (hwait hrest)
        have hself : (left t).copies = c :: (update left t ⟨none, todo⟩ t).copies := by
          rw [hleft, update_self]
          rfl
        have hsame (u : T) (hu : u ≠ t) : (update left t ⟨none, todo⟩ u).copies = (left u).copies := by
          rw [update_of_ne hu]
        have hc : c ∈ (left t).copies := by
          rw [hself]
          exact mem_cons_self
        -- the bytes of `c` stay, nobody else writes them
        have hlast (a : ℕ) (ha : c.Writes a) : ∀ u, ∀ d ∈ (update left t ⟨none, todo⟩ u).copies, ¬d.Writes a := by
          intro u d hd
          by_cases hu : u = t
          · subst hu
            have hown := h.own u
            rw [hself] at hown
            exact (pairwise_cons.mp hown).1 d hd a ha
          · rw [hsame u hu] at hd
            exact h.apart t u (Ne.symm hu) c hc d hd a ha
        constructor
        · intro u d hd i hi
          by_cases hu : u = t
          · subst hu
            rw [hself] at hd
            rcases mem_cons.mp hd with rfl | hd
            · rw [exec_cons, hkept _ (hlast _ ⟨by omega, by omega⟩)]
              exact hstored i hi
            · exact hvalues u d hd i hi
          · rw [← hsame u hu] at hd
            exact hvalues u d hd i hi
        · intro a ha
          rw [exec_cons, hkept a, hframe a (ha t c hc)]
          intro u d hd
          by_cases hu : u = t
          · subst hu
            apply ha u
            rw [hself]
            exact mem_cons_of_mem _ hd
          · rw [hsame u hu] at hd
            exact ha u d hd

end

/-! ## Launches -/

variable {cs : List Copy}

lemma runAll_eq_of_bytes {ds : List Copy} (hclean : Clean cs)
    (hbytes : ds.flatMap bytes = cs.flatMap bytes) (hself : ∀ d ∈ ds, Clean [d]) (m : Mem β) :
    runAll ds m = runAll cs m := by
  have hself' : ∀ c ∈ cs, Clean [c] := by
    rintro c hc a ⟨d, hd, hr⟩ ⟨e, he, hw⟩
    rw [mem_singleton] at hd he
    exact hclean a ⟨c, hc, hd ▸ hr⟩ ⟨c, hc, he ▸ hw⟩
  rw [← runAll_flatMap_bytes hself, hbytes, runAll_flatMap_bytes hself']

namespace Launch

variable [DecidableEq T] {l : Launch T}

lemma result_of_clean (hclean : Clean l.copies) (hexcl : Exclusive l.copies) {m m' : Mem β}
    (h : l.Result m m') : m' = runAll l.copies m := by
  obtain ⟨regs, sched, hsched, rfl⟩ := h
  have hmem {t : T} {c : Copy} (hc : c ∈ (Left.mk none (if t ∈ l.threads then l.moves t else [])).copies) :
      t ∈ l.threads ∧ c ∈ l.moves t ∧ c ∈ l.copies := by
    have hc : c ∈ if t ∈ l.threads then l.moves t else [] := hc
    split at hc
    · rename_i ht
      exact ⟨ht, hc, mem_flatMap.mpr ⟨t, ht, hc⟩⟩
    · cases hc
  obtain ⟨hown, happart⟩ := pairwise_flatMap.mp hexcl
  have hready : Ready m ⟨m, regs⟩ fun t => ⟨none, if t ∈ l.threads then l.moves t else []⟩ := by
    refine ⟨?_, ?_, ?_, ?_, ?_⟩
    · exact fun t u c hc d hd a hr hw => hclean a ⟨c, (hmem hc).2.2, hr⟩ ⟨d, (hmem hd).2.2, hw⟩
    · intro t
      split
      · exact hown t ‹_›
      · exact List.Pairwise.nil
    · intro t u htu c hc d hd
      obtain ⟨ht, hct, -⟩ := hmem hc
      obtain ⟨hu, hdu, -⟩ := hmem hd
      have : Std.Symm fun t u => ∀ c ∈ l.moves t, ∀ d ∈ l.moves u, c.Apart d :=
        ⟨fun t u h d hd c hc => (h c hc d hd).symm⟩
      exact happart.forall ht hu htu c hct d hdu
    · intro t c hc
      cases hc
    · exact fun _ _ _ _ _ => rfl
  have hprogram : Interleaves (fun t => (Left.mk none (if t ∈ l.threads then l.moves t else [])).program) sched := by
    intro t
    rw [hsched t, program]
    by_cases ht : t ∈ l.threads
    · simp [Left.program, ht]
    · simp [Left.program, ht, copyProgram]
  obtain ⟨hvalues, hframe⟩ := hready.exec hprogram
  funext a
  by_cases hw : Writes l.copies a
  · obtain ⟨c, hc, hle, hlt⟩ := hw
    obtain ⟨t, ht, hct⟩ := mem_flatMap.mp hc
    have hleft : c ∈ (Left.mk none (if t ∈ l.threads then l.moves t else [])).copies := by
      rw [if_pos ht]
      exact hct
    obtain ⟨i, rfl⟩ := Nat.exists_eq_add_of_le hle
    rw [hvalues t c hleft i (by omega), runAll_of_clean hclean hexcl m hc (by omega)]
  · rw [runAll_frame hw, hframe a fun t c hc hwrites => hw ⟨c, (hmem hc).2.2, hwrites⟩]

end Launch

/-! ## Batches -/

lemma runAll_groups {moves : T → List Copy} : ∀ {groups : List (List T)} {runs : List (List Copy)},
    List.Forall₂ (fun ts r => ∀ m : Mem β, runAll (ts.flatMap moves) m = runAll r m) groups runs →
      ∀ m : Mem β, runAll (groups.flatten.flatMap moves) m = runAll runs.flatten m
  | [], [], .nil, _ => rfl
  | ts :: groups, r :: runs, .cons h hrest, m => by
    rw [flatten_cons, flatten_cons, flatMap_append, runAll_append, runAll_append, h, runAll_groups hrest]

lemma exclusive_of_bytes (h : Exclusive (cs.flatMap bytes)) : Exclusive cs := by
  refine (pairwise_flatMap.mp h).2.imp fun {c d} hcd a hc hd => ?_
  have hbyte (e : Copy) (he : e.Writes a) : ∃ b ∈ e.bytes, b.Writes a := by
    obtain ⟨hle, hlt⟩ := he
    obtain ⟨i, rfl⟩ := Nat.exists_eq_add_of_le hle
    exact ⟨⟨e.dst + i, e.src + i, 1⟩, Copy.mem_bytes.mpr ⟨i, by omega, rfl⟩, le_rfl, Nat.lt_succ_self _⟩
  obtain ⟨b, hb, hba⟩ := hbyte c hc
  obtain ⟨e, he, hea⟩ := hbyte d hd
  exact hcd b hb e he a hba hea

lemma clean_of_bytes {ds : List Copy} (hbytes : ds.flatMap bytes = cs.flatMap bytes) (h : Clean cs) :
    Clean ds := by
  intro a hr hw
  rw [← reads_flatMap_bytes, hbytes, reads_flatMap_bytes] at hr
  rw [← writes_flatMap_bytes, hbytes, writes_flatMap_bytes] at hw
  exact h a hr hw

lemma clean_single (h : Clean cs) {c : Copy} (hc : c ∈ cs) : Clean [c] := by
  rintro a ⟨d, hd, hr⟩ ⟨e, he, hw⟩
  rw [mem_singleton] at hd he
  exact h a ⟨c, hc, hd ▸ hr⟩ ⟨c, hc, he ▸ hw⟩

lemma orderIndependent_of_agree {runs : List (List Copy)} (h : Batches runs) {result : Mem β → Mem β}
    (hagree : ∀ order : List (List Copy), order.Perm runs → ∀ m : Mem β, runAll order.flatten m = result m) : OrderIndependent β runs := by
  intro order horder m r hr c hc i hi
  have hfirst : (r :: runs.erase r).Perm runs := (perm_cons_erase hr).symm
  have hb := h.perm hfirst.symm
  have hlater : ¬Writes (runs.erase r).flatten (c.dst + i) := by
    rintro ⟨d, hd, hw⟩
    obtain ⟨s, hs, hds⟩ := mem_flatten.mp hd
    exact (pairwise_cons.mp hb.apart).1 s hs _ ⟨c, hc, by omega, by omega⟩ ⟨d, hds, hw⟩
  rw [hagree order horder, ← hagree _ hfirst, flatten_cons, runAll_append, runAll_frame hlater]
  exact runAll_of_clean (h.clean r hr) (h.exclusive r hr) m hc hi

namespace Launch

variable [DecidableEq T] {l : Launch T} {groups : List (List T)} {runs : List (List Copy)}

/-- The bytes that the groups of threads move are those of the batches. -/
def Moves (l : Launch T) (groups : List (List T)) (runs : List (List Copy)) : Prop :=
  List.Forall₂ (fun ts r => (ts.flatMap l.moves).flatMap bytes = r.flatMap bytes) groups runs

omit [DecidableEq T] in
lemma Moves.bytes (h : l.Moves groups runs) (hthreads : groups.flatten = l.threads) :
    l.copies.flatMap bytes = runs.flatten.flatMap bytes := by
  rw [copies, ← hthreads]
  clear hthreads
  induction h with
  | nil => rfl
  | cons hhead _ ih => simp only [flatten_cons, flatMap_append, hhead, ih]

/-- **Every interleaving** does what the batches do one after another, exactly when no batch reads what another writes. -/
theorem agrees_iff [Nontrivial β] (hthreads : groups.flatten = l.threads) (hnodup : l.threads.Nodup) (hb : Batches runs)
    (hmoves : l.Moves groups runs) :
    (∀ m m' : Mem β, l.Result m m' → m' = runAll runs.flatten m) ↔ NoCrossTraffic runs := by
  have hbytes := hmoves.bytes hthreads
  constructor
  · intro hagree
    have hall (order : List (List Copy)) (horder : order.Perm runs) (m : Mem β) :
        runAll order.flatten m = runAll runs.flatten m := by
      -- the threads, in the order of the batches
      obtain ⟨groups', hmoves', hperm⟩ := perm_comp_forall₂ horder hmoves.flip
      have hthreads' : groups'.flatten.Perm l.threads := hthreads ▸ hperm.flatten
      have hgroups : List.Forall₂ (fun ts r => ∀ m : Mem β, runAll (ts.flatMap l.moves) m = runAll r m) groups' order := by
        refine forall₂_iff_zip.mpr ⟨hmoves'.length_eq.symm, fun {ts r} hzip m => ?_⟩
        have hclean := hb.clean r (horder.mem_iff.mp (of_mem_zip hzip).2)
        have hsame : (ts.flatMap l.moves).flatMap bytes = r.flatMap bytes :=
          (forall₂_iff_zip.mp hmoves'.flip).2 hzip
        exact runAll_eq_of_bytes hclean hsame (fun c hc => clean_single (clean_of_bytes hsame hclean) hc) m
      rw [← runAll_groups hgroups]
      obtain ⟨x⟩ : Nonempty β := inferInstance
      have : Inhabited β := ⟨x⟩
      exact hagree m _ (result_inOrder hthreads' hnodup m)
    exact hb.noCross_of_delivered (orderIndependent_of_agree hb hall)
  · intro hx m _ hresult
    have hclean := clean_of_bytes hbytes (hb.clean_flatten hx)
    have hexcl : Exclusive l.copies := by
      apply exclusive_of_bytes
      rw [hbytes]
      exact hb.exclusive_flatten.bytes
    rw [result_of_clean hclean hexcl hresult]
    exact runAll_eq_of_bytes (hb.clean_flatten hx) hbytes (fun c hc => clean_single hclean hc) m

end Launch

end CopyThreads
