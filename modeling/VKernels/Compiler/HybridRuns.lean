import VKernels.Compiler.HybridLaunch

/-!
# Runs of the hybrid megakernel

A host that runs position after position, with its caches.

## Results

* `launch_rows`, `Session.rows` — a run appends the rows of its position; a session keeps them.
* `Session.context` — the context of a head over the rows of all positions so far.
-/

namespace VKernels.Hybrid

open Finset BarrierPhases
open SplitSoftmax (Exponential)

/-! ## One run -/

section

variable {V : Type} [Field V] [LinearOrder V] {f : Maths V} {c : Scales V} {w : Weights V}

lemma Host.run_ok {host host' : Host} {killAfter : ℤ} {token n : ℕ} {phases : List (Phase Cell V)}
    (h : host.run f c w killAfter token n = .ok (phases, host')) :
    n < host.capacity ∧
      phases = hybridMegakernel f (hybridDims host.capacity c) w token n n host.barBase host.workers 64 killAfter ∧
      host' = { host with barBase := host.barBase + executed killAfter * host.workers } := by
  unfold Host.run at h
  by_cases hpos : 0 ≤ (n : ℤ) ∧ (n : ℤ) < host.capacity
  · rw [if_neg (not_not.mpr hpos)] at h
    obtain ⟨hphases, hhost⟩ := Prod.mk.inj (Except.ok.inj h)
    exact ⟨by omega, hphases.symm, hhost.symm⟩
  · rw [if_pos hpos] at h
    cases h

/-- Element `e` of key-value head `kvh` in row `t` of a layer. -/
def rowCell (b : Buffer) (capacity l t kvh e : ℕ) : Cell :=
  (b, rowsBase capacity (fullIndex l) + (t * (4 * 256) + (kvh * 256 + e)))

variable {b : Buffer} {l kvh : ℕ}

lemma rowCell_mem {capacity t e : ℕ} (hb : b = .kCache ∨ b = .vCache) (ht : t < capacity)
    (hkvh : kvh < 4) (he : e < 256) : rowCell b capacity l t kvh e ∈ layerCache capacity l := by
  refine ⟨hb, Nat.le_add_right _ _, ?_⟩
  unfold rowCell
  omega

lemma rowCell_notMem {capacity t pos e : ℕ} (hkvh : kvh < 4) (he : e < 256) (hne : t ≠ pos) :
    rowCell b capacity l t kvh e ∉ rowCells (rowsBase capacity (fullIndex l)) pos := by
  rintro ⟨-, hlow, hhigh⟩
  unfold rowCell at hlow hhigh
  omega

/-- What the projections in `m` make of a position, for one of the two caches. -/
def appended (f : Maths V) (d : Dims V) (w : Weights V) (b : Buffer) (fi pos : ℕ) (m : Mem V) (kvh e : ℕ) : V :=
  if b = .kCache then keyOf f d w fi pos m kvh e else valueOf d m kvh e

variable {token pos : ℕ} {barBase : ℤ} {P capacity L : ℕ} {killAfter : ℤ} {s : ℕ → Mem V}

lemma launch_rows (hP : 0 < P) (hcap : capacity ≤ 512) (hpos : pos < capacity) (hl : l < L)
    (hfull : isFull l = true) (hex : Executes killAfter l)
    (htrace : IsTrace P (hybridMegakernel f (hybridDims capacity c) w token pos pos barBase P L killAfter) s)
    (hb : b = .kCache ∨ b = .vCache) {t e : ℕ} (ht : t < capacity) (hkvh : kvh < 4) (he : e < 256) :
    s (executed l + 4) (rowCell b capacity l t kvh e) =
        (if t = pos then appended f (hybridDims capacity c) w b (fullIndex l) pos (s (executed l + 2)) kvh e
        else s 0 (rowCell b capacity l t kvh e)) ∧
      s (hybridMegakernel f (hybridDims capacity c) w token pos pos barBase P L killAfter).length
          (rowCell b capacity l t kvh e) = s (executed l + 4) (rowCell b capacity l t kvh e) := by
  obtain ⟨pre, post, hphases, hlen, hsound⟩ := @launch_layer V _ _ f c w token pos barBase P capacity L killAfter l hl hex hfull
  have hmem := rowCell_mem (l := l) hb ht hkvh he
  have hsound := hsound hP hcap hpos
  rw [hphases] at htrace ⊢
  have hattention := htrace.left.right
  rw [hlen] at hattention
  have hrest (ph : Phase Cell V) (hph : ph ∈ pre ++ post) : rowCell b capacity l t kvh e ∉ ph.writes :=
    fun hw => (hsound ph hph).caches _ hw hmem.1 hmem
  constructor
  · by_cases hrow : t = pos
    · subst hrow
      rw [if_pos rfl]
      have happend := appended_rows hP hattention kvh hkvh e he
      rcases hb with rfl | rfl
      · exact happend.1
      · exact happend.2
    · rw [if_neg hrow]
      have hkept := kept_rows hP hattention hmem.1 (rowCell_notMem hkvh he hrow)
      have hpre := htrace.left.left.unchanged hP fun ph hph => hrest ph (List.mem_append_left _ hph)
      rw [hlen] at hpre
      exact hkept.trans hpre
  · have hafter := rows_after hP hattention hcap hpos hmem.1 le_rfl
    have hpost := htrace.right.unchanged hP fun ph hph => hrest ph (List.mem_append_right _ hph)
    rw [List.length_append]
    refine hpost.trans ?_
    rw [List.length_append, hlen]
    exact hafter

end

/-! ## Sessions -/

section

variable {V : Type} [Field V] [LinearOrder V] (f : Maths V) (c : Scales V) (w : Weights V) (host : ℕ → Host)
  (killAfter : ℕ → ℤ) (token : ℕ → ℕ) (phases : ℕ → List (Phase Cell V)) (runs : ℕ)

/-- Accepted runs at positions `0`, `1`, `2`, …, with any `kill_after` each. -/
def Calls : Prop := ∀ n < runs, (host n).run f c w (killAfter n) (token n) n = .ok (phases n, host (n + 1))

/-- Runs with the memories of their launches; a launch goes on with the memory that the one before left. -/
structure Session (s : ℕ → ℕ → Mem V) : Prop where
  calls : Calls f c w host killAfter token phases runs
  trace : ∀ n < runs, IsTrace (host n).workers (phases n) (s n)
  next : ∀ n, n + 1 < runs → s (n + 1) 0 = s n (phases n).length

/-- What position `t` left in a cache of layer `l`: the row of its run, or what was there when the run skipped the layer. -/
def rowAt (s : ℕ → ℕ → Mem V) (b : Buffer) (capacity l t kvh e : ℕ) : V :=
  if Executes (killAfter t) l then
    appended f (hybridDims capacity c) w b (fullIndex l) t (s t (executed l + 2)) kvh e
  else s 0 0 (rowCell b capacity l t kvh e)

variable {f c w host killAfter token phases runs} {s : ℕ → ℕ → Mem V}

variable {n l : ℕ}

lemma Calls.same (h : Calls f c w host killAfter token phases runs) (hn : n ≤ runs) :
    (host n).capacity = (host 0).capacity ∧ (host n).workers = (host 0).workers := by
  induction n with
  | zero => exact ⟨rfl, rfl⟩
  | succ n ih =>
    obtain ⟨-, -, hhost⟩ := Host.run_ok (h n hn)
    rw [hhost]
    exact ih (by omega)

lemma Calls.launch (h : Calls f c w host killAfter token phases runs) (hn : n < runs) :
    n < (host 0).capacity ∧ phases n = hybridMegakernel f (hybridDims (host 0).capacity c) w (token n) n n (host n).barBase
      (host 0).workers 64 (killAfter n) := by
  obtain ⟨hlt, hphases, -⟩ := Host.run_ok (h n hn)
  obtain ⟨hcapacity, hworkers⟩ := h.same hn.le
  rw [hcapacity] at hlt hphases
  rw [hworkers] at hphases
  exact ⟨hlt, hphases⟩

variable (h : Session f c w host killAfter token phases runs s) (hP : 0 < (host 0).workers) (hcap : (host 0).capacity ≤ 512)
include h hP hcap

lemma Session.step {n : ℕ} (hn : n < runs) {l : ℕ} (hl : l < 64) (hfull : isFull l = true) {b : Buffer}
    (hb : b = .kCache ∨ b = .vCache) {t kvh e : ℕ} (ht : t < (host 0).capacity) (hkvh : kvh < 4) (he : e < 256) :
    s n (phases n).length (rowCell b (host 0).capacity l t kvh e) =
        (if t = n ∧ Executes (killAfter n) l then rowAt f c w killAfter s b (host 0).capacity l n kvh e
        else s n 0 (rowCell b (host 0).capacity l t kvh e)) ∧
      (Executes (killAfter n) l → s n (executed l + 4) (rowCell b (host 0).capacity l t kvh e) =
        s n (phases n).length (rowCell b (host 0).capacity l t kvh e)) := by
  obtain ⟨hpos, hphases⟩ := h.calls.launch hn
  have htrace := h.trace n hn
  rw [(h.calls.same hn.le).2, hphases] at htrace
  rw [hphases]
  by_cases hex : Executes (killAfter n) l
  · obtain ⟨hattend, hend⟩ := launch_rows hP hcap hpos hl hfull hex htrace hb ht hkvh he
    refine ⟨?_, fun _ => hend.symm⟩
    rw [hend, hattend]
    unfold rowAt
    simp [hex, and_true]
  · rw [if_neg fun hboth => hex hboth.2]
    exact ⟨launch_skips hP hcap hpos hfull hex htrace (rowCell_mem hb ht hkvh he), fun hex' => absurd hex' hex⟩

/-- **The caches before run `n`**: a row for every position so far, the rest as in the beginning. -/
theorem Session.rows (hn : n < runs) (hl : l < 64) (hfull : isFull l = true) {b : Buffer}
    (hb : b = .kCache ∨ b = .vCache) {t kvh e : ℕ} (ht : t < (host 0).capacity) (hkvh : kvh < 4) (he : e < 256) :
    s n 0 (rowCell b (host 0).capacity l t kvh e) = if t < n then rowAt f c w killAfter s b (host 0).capacity l t kvh e
      else s 0 0 (rowCell b (host 0).capacity l t kvh e) := by
  induction n with
  | zero => rw [if_neg (Nat.not_lt_zero t)]
  | succ n ih =>
    have ih := ih (by omega)
    obtain ⟨hstep, -⟩ := h.step hP hcap (show n < runs by omega) hl hfull hb ht hkvh he
    rw [h.next n hn, hstep]
    by_cases hrow : t = n
    · subst hrow
      rw [if_pos (Nat.lt_succ_self t)]
      by_cases hex : Executes (killAfter t) l
      · rw [if_pos ⟨rfl, hex⟩]
      · -- a run that skips the layer leaves what was there
        rw [if_neg fun hboth => hex hboth.2, ih, if_neg (lt_irrefl t)]
        unfold rowAt
        rw [if_neg hex]
    · rw [if_neg fun hboth => hrow hboth.1, ih]
      by_cases hlt : t < n
      · rw [if_pos hlt, if_pos (by omega)]
      · rw [if_neg hlt, if_neg (by omega)]

lemma Session.attended (hn : n < runs) (hl : l < 64) (hfull : isFull l = true)
    (hex : Executes (killAfter n) l) {b : Buffer} (hb : b = .kCache ∨ b = .vCache) {t kvh e : ℕ} (ht : t ≤ n)
    (hkvh : kvh < 4) (he : e < 256) : s n (executed l + 4) (rowCell b (host 0).capacity l t kvh e) =
      rowAt f c w killAfter s b (host 0).capacity l t kvh e := by
  obtain ⟨hpos, -⟩ := h.calls.launch hn
  obtain ⟨hstep, hattend⟩ := h.step hP hcap hn hl hfull hb (show t < (host 0).capacity by omega) hkvh he
  rw [hattend hex, hstep]
  by_cases hrow : t = n
  · subst hrow
    rw [if_pos ⟨rfl, hex⟩]
  · rw [if_neg fun hboth => hrow hboth.1, h.rows hP hcap hn hl hfull hb (by omega) hkvh he, if_pos (by omega)]

/-- **The context of a head**: the gated softmax-weighted mean of the value rows of positions `0`, …, `n`. -/
theorem Session.context (hn : n < runs) (hl : l < 64) (hfull : isFull l = true)
    (hex : Executes (killAfter n) l) (hE : Exponential f.exp) : ∀ head < 24, ∀ i < 256,
    s n (executed l + 7) (.ws, oHeads + head * 256 + i) = Hybrid.context f (hybridDims (host 0).capacity c) n
      (queryOf f (hybridDims (host 0).capacity c) w (fullIndex l) n (s n (executed l + 2)) head)
      (fun t => rowAt f c w killAfter s .kCache (host 0).capacity l t (head / 6))
      (fun t => rowAt f c w killAfter s .vCache (host 0).capacity l t (head / 6))
      (gateOf (hybridDims (host 0).capacity c) (s n (executed l + 2)) head) i := by
  intro head hhead i hi
  obtain ⟨hpos, hphases⟩ := h.calls.launch hn
  obtain ⟨_, _, hsplit, hlen, -⟩ := @launch_layer V _ _ f c w _ n (host n).barBase (host 0).workers
    (host 0).capacity 64 _ l hl hex hfull
  have htrace := h.trace n hn
  rw [(h.calls.same hn.le).2, hphases, hsplit] at htrace
  have hattention := htrace.left.right
  rw [hlen] at hattention
  refine (fullAttention_context hP hattention hcap hpos hE head hhead i hi).trans (context_congr ?_ ?_)
  · intro t ht e he
    exact h.attended hP hcap hn hl hfull hex (.inl rfl) ht (show head / 6 < 4 by omega) he
  · intro t ht
    exact h.attended hP hcap hn hl hfull hex (.inr rfl) ht (show head / 6 < 4 by omega) hi

end

end VKernels.Hybrid
