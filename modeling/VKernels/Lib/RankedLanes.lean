import VKernels.Lib.Blocks
import VKernels.Lib.TopK

/-!
# Ranked lanes

Lanes of a set in descending order, the rank of a lane by counting, and a table filled at the ranks.

## Results

* `ranked_unique` — a list of the lanes in which each beats those after it is `ranked`.
* `countP_before` — in such a list the number of lanes that beat a lane is its position.
* `take_all_iff` — the first `k` of a sorted list pass a test exactly when `k` passing ones come before
  every one that fails.
* `mem_take_descending` — the first lanes of the sort are those that few lanes beat.
* `scatter_get` — what a table filled at distinct positions holds.
* `scatter_ranked` — filled at the ranks it lists the best lanes.
-/

namespace VKernels.TopK

open List

/-! ## Sorted lists -/

section

variable {α : Type} {B : α → α → Prop} {l : List α}

lemma countP_before [DecidableRel B] (hasymm : ∀ a b, B a b → ¬B b a) (hl : l.Pairwise B) {i : ℕ}
    (hi : i < l.length) : l.countP (fun x => decide (B x l[i])) = i := by
  induction l generalizing i with
  | nil => simp at hi
  | cons a l ih =>
    obtain ⟨ha, hl⟩ := pairwise_cons.mp hl
    cases i with
    | zero =>
      have hself : ¬B a a := fun h => hasymm a a h h
      have hrest : l.countP (fun x => decide (B x a)) = 0 := by
        rw [countP_eq_zero]
        intro x hx
        simpa using hasymm a x (ha x hx)
      simp [hself, hrest]
    | succ i =>
      have hi : i < l.length := Nat.lt_of_succ_lt_succ hi
      have hbefore : B a l[i] := ha _ (getElem_mem hi)
      rw [getElem_cons_succ, countP_cons_of_pos (by simpa using hbefore), ih hl hi]

lemma take_filter {p : α → Bool} {k : ℕ} (h : ∀ x ∈ l.take k, p x = true) (hk : k ≤ l.length) :
    (l.filter p).take k = l.take k := by
  induction l generalizing k with
  | nil => rfl
  | cons a l ih =>
    cases k with
    | zero => simp
    | succ k =>
      have ha : p a = true := h a (by simp)
      have hrest := ih (fun x hx => h x (by simp [hx])) (Nat.le_of_succ_le_succ hk)
      rw [filter_cons_of_pos ha, take_succ_cons, take_succ_cons, hrest]

/-- **The first `k` pass** exactly when `k` passing elements come before every failing one. -/
theorem take_all_iff [DecidableRel B] (hasymm : ∀ a b, B a b → ¬B b a) (hl : l.Pairwise B) {p : α → Bool} {k : ℕ}
    (hk : k ≤ l.length) : (∀ x ∈ l.take k, p x = true) ↔
      ∀ j ∈ l, p j = false → k ≤ l.countP (fun x => p x && decide (B x j)) := by
  constructor
  · intro h j hj hpj
    have hdrop : j ∈ l.drop k := by
      rw [← take_append_drop k l] at hj
      refine (mem_append.mp hj).resolve_left fun htake => ?_
      rw [h j htake] at hpj
      cases hpj
    have hcross : ∀ x ∈ l.take k, B x j := by
      intro x hx
      rw [← take_append_drop k l] at hl
      exact (pairwise_append.mp hl).2.2 x hx j hdrop
    have hall : (l.take k).countP (fun x => p x && decide (B x j)) = (l.take k).length := by
      rw [countP_eq_length]
      intro x hx
      simp [h x hx, hcross x hx]
    calc k = (l.take k).length := (length_take_of_le hk).symm
      _ = (l.take k).countP (fun x => p x && decide (B x j)) := hall.symm
      _ ≤ l.countP (fun x => p x && decide (B x j)) := (take_sublist k l).countP_le
  · intro h x hx
    by_contra hpx
    obtain ⟨i, hi, rfl⟩ := getElem_of_mem hx
    rw [length_take] at hi
    have hil : i < l.length := by omega
    have hcount := h l[i] (getElem_mem hil) (by simpa using hpx)
    have hle : l.countP (fun x => p x && decide (B x l[i])) ≤ l.countP (fun x => decide (B x l[i])) :=
      countP_mono_left fun x _ hx => (Bool.and_eq_true_iff.mp hx).2
    rw [countP_before hasymm hl hil] at hle
    omega

end

variable {V : Type} [LinearOrder V]

/-! ## Lanes of a set -/

section

/-- The lanes below `n` that satisfy `p`, in descending order, ties to the lower lane. -/
def ranked (p : ℕ → Bool) (n : ℕ) (f : ℕ → V) : List ℕ := (descending n f).filter p

/-- How many lanes of the set beat lane `j`. -/
def countBefore (p : ℕ → Bool) (n : ℕ) (f : ℕ → V) (j : ℕ) : ℕ :=
  (List.range n).countP fun i => p i && decide (Beats f i j)

variable {p : ℕ → Bool} {n : ℕ} {f : ℕ → V}

lemma ranked_perm : (ranked p n f).Perm ((range n).filter p) := descending_perm.filter p

lemma ranked_pairwise : (ranked p n f).Pairwise (Beats f) := descending_pairwise.sublist filter_sublist

lemma mem_ranked {i : ℕ} : i ∈ ranked p n f ↔ i < n ∧ p i = true := by
  rw [ranked, mem_filter, mem_descending]

lemma ranked_true : ranked (fun _ => true) n f = descending n f := filter_true _

lemma ranked_unique {l : List ℕ} (hperm : l.Perm ((range n).filter p)) (hl : l.Pairwise (Beats f)) :
    l = ranked p n f :=
  List.Perm.eq_of_pairwise (fun _ _ _ _ h h' => absurd h' h.asymm) hl ranked_pairwise (hperm.trans ranked_perm.symm)

lemma ranked_congr {g : ℕ → V} (h : ∀ i < n, p i = true → f i = g i) : ranked p n f = ranked p n g := by
  refine ranked_unique ranked_perm (ranked_pairwise.imp_of_mem fun {a b} ha hb hab => ?_)
  obtain ⟨ha, hpa⟩ := mem_ranked.mp ha
  obtain ⟨hb, hpb⟩ := mem_ranked.mp hb
  unfold Beats at hab ⊢
  rwa [← h a ha hpa, ← h b hb hpb]

lemma countBefore_ranked {i : ℕ} (hi : i < (ranked p n f).length) : countBefore p n f (ranked p n f)[i] = i := by
  have hcount : countBefore p n f (ranked p n f)[i] =
      (ranked p n f).countP fun x => decide (Beats f x (ranked p n f)[i]) := by
    rw [ranked_perm.countP_eq, countP_filter]
    refine countP_congr fun x _ => ?_
    rw [Bool.and_comm]
  rw [hcount]
  exact countP_before (fun _ _ h => h.asymm) ranked_pairwise hi

lemma countBefore_bijOn : Set.BijOn (countBefore p n f) {j | j < n ∧ p j = true} {r | r < (ranked p n f).length} := by
  refine ⟨?_, ?_, ?_⟩
  · intro j hj
    obtain ⟨i, hi, rfl⟩ := getElem_of_mem ((mem_ranked (f := f)).mpr hj)
    rwa [countBefore_ranked hi]
  · intro j hj _ hj' heq
    obtain ⟨i, hi, rfl⟩ := getElem_of_mem ((mem_ranked (f := f)).mpr hj)
    obtain ⟨_, hi', rfl⟩ := getElem_of_mem ((mem_ranked (f := f)).mpr hj')
    rw [countBefore_ranked hi, countBefore_ranked hi'] at heq
    subst heq
    rfl
  · intro i hi
    exact ⟨(ranked p n f)[i], mem_ranked.mp (getElem_mem hi), countBefore_ranked hi⟩

end

/-! ## The first lanes of the sort -/

section

variable {n K : ℕ} {f : ℕ → V}

/-- **The first `K` lanes** are those that fewer than `K` lanes beat. -/
theorem mem_take_descending {e : ℕ} (he : e < n) : e ∈ (descending n f).take K ↔ Chosen n f K e := by
  obtain ⟨k, hk, rfl⟩ := exists_rank (f := f) he
  have hlen : k < (descending n f).length := by rwa [descending_length]
  rw [chosen_rank_iff hk, rank_eq hlen, mem_take_iff_getElem]
  constructor
  · rintro ⟨i, hi, heq⟩
    have := (descending_nodup.getElem_inj_iff).mp heq
    omega
  · intro h
    exact ⟨k, by omega, rfl⟩

lemma countP_chosen (hK : K ≤ n) : (range n).countP (fun e => decide (Chosen n f K e)) = K := by
  have hcongr : (descending n f).countP (fun e => decide (Chosen n f K e)) =
      (descending n f).countP fun e => decide (e ∈ (descending n f).take K) := by
    refine countP_congr fun e he => ?_
    rw [decide_eq_true_iff, decide_eq_true_iff, mem_take_descending (mem_descending.mp he)]
  have hsplit := take_append_drop K (descending n f)
  have hsum (p : ℕ → Bool) : (descending n f).countP p =
      ((descending n f).take K).countP p + ((descending n f).drop K).countP p := by
    rw [← countP_append, hsplit]
  have hdisj : List.Disjoint ((descending n f).take K) ((descending n f).drop K) := by
    refine disjoint_of_nodup_append ?_
    rw [hsplit]
    exact descending_nodup
  rw [← (descending_perm (n := n) (f := f)).countP_eq, hcongr, hsum]
  have hfirst : ((descending n f).take K).countP (fun e => decide (e ∈ (descending n f).take K)) = K := by
    rw [countP_eq_length.mpr fun e he => decide_eq_true he, length_take, descending_length]
    exact min_eq_left hK
  have hrest : ((descending n f).drop K).countP (fun e => decide (e ∈ (descending n f).take K)) = 0 :=
    countP_eq_zero.mpr fun e he h => hdisj (of_decide_eq_true h) he
  omega

lemma countP_blocks {s : ℕ} (hs : 0 < s) (p : ℕ → Bool) :
    (range (n * s)).countP (fun j => p (j / s)) = (range n).countP p * s := by
  induction n with
  | zero => simp
  | succ n ih =>
    have hblock : (range s).countP ((fun j => p (j / s)) ∘ fun i => n * s + i) = if p n then s else 0 := by
      have hconst : (range s).countP ((fun j => p (j / s)) ∘ fun i => n * s + i) = (range s).countP fun _ => p n := by
        refine countP_congr fun i hi => ?_
        have hi : i < s := mem_range.mp hi
        have hdiv : (n * s + i) / s = n := Blocks.block_div _ hi
        show p ((n * s + i) / s) = true ↔ _
        rw [hdiv]
      rw [hconst]
      cases p n <;> simp
    rw [Nat.succ_mul, range_add, countP_append, countP_map, ih, hblock, range_succ,
      countP_append, countP_singleton, Nat.add_mul]
    split <;> simp

end

/-! ## Tables -/

section

variable {V T : Type}

/-- `out[pos(x)] = value(x)`, lane after lane. -/
def scatter (pos : ℕ → ℕ) (value : ℕ → T) (lanes : List ℕ) (out : List T) : List T :=
  lanes.foldl (fun out x => out.set (pos x) (value x)) out

variable {pos : ℕ → ℕ} {value : ℕ → T} {lanes : List ℕ}

@[simp] lemma scatter_length (lanes : List ℕ) (out : List T) : (scatter pos value lanes out).length = out.length := by
  induction lanes generalizing out with
  | nil => rfl
  | cons x lanes ih => exact (ih _).trans (length_set ..)

lemma scatter_get (hinj : ∀ x ∈ lanes, ∀ y ∈ lanes, pos x = pos y → x = y) (out : List T) {s : ℕ}
    (hs : s < out.length) : (scatter pos value lanes out)[s]? =
      some (match lanes.find? fun x => pos x = s with
        | some x => value x
        | none => out[s]) := by
  induction lanes generalizing out with
  | nil => simp [scatter, hs]
  | cons x lanes ih =>
    have hrest := ih (fun y hy z hz => hinj y (by simp [hy]) z (by simp [hz])) (out.set (pos x) (value x))
      (by rwa [length_set])
    show (scatter pos value lanes (out.set (pos x) (value x)))[s]? = _
    rw [hrest]
    by_cases hx : pos x = s
    · -- a lane that comes again is the same lane
      rw [find?_cons_of_pos (by simpa using hx)]
      cases hfind : lanes.find? fun y => decide (pos y = s) with
      | none => simp [hx]
      | some y =>
        have hy : pos y = s := by simpa using find?_some hfind
        have : y = x := hinj y (by simp [mem_of_find?_eq_some hfind]) x (by simp) (hy.trans hx.symm)
        rw [this]
    · rw [find?_cons_of_neg (by simpa using hx)]
      cases lanes.find? fun y => decide (pos y = s) with
      | none => simp [getElem_set_ne hx]
      | some y => rfl

variable [LinearOrder V] {p : ℕ → Bool} {n : ℕ} {f : ℕ → V}

/-- **A table filled at the ranks** lists the first `k` lanes of the set, best first. -/
theorem scatter_ranked (hpos : ∀ j < n, p j = true → pos j = countBefore p n f j) (k : ℕ) (pad : T) :
    scatter pos value ((range n).filter fun j => p j && decide (pos j < k)) (replicate k pad) =
      ((ranked p n f).take k).map value ++ replicate (k - (ranked p n f).length) pad := by
  have hmem : ∀ x, x ∈ (range n).filter (fun j => p j && decide (pos j < k)) ↔ (x < n ∧ p x = true) ∧ pos x < k := by
    intro x
    simp [and_assoc]
  have hinj : ∀ x ∈ (range n).filter (fun j => p j && decide (pos j < k)),
      ∀ y ∈ (range n).filter (fun j => p j && decide (pos j < k)), pos x = pos y → x = y := by
    intro x hx y hy heq
    obtain ⟨⟨hx, hpx⟩, -⟩ := (hmem x).mp hx
    obtain ⟨⟨hy, hpy⟩, -⟩ := (hmem y).mp hy
    rw [hpos x hx hpx, hpos y hy hpy] at heq
    exact countBefore_bijOn.injOn ⟨hx, hpx⟩ ⟨hy, hpy⟩ heq
  refine ext_getElem? fun s => ?_
  by_cases hs : s < k
  · rw [scatter_get hinj _ (by rwa [length_replicate])]
    by_cases hlt : s < (ranked p n f).length
    · -- the lane of rank `s` is the one found
      obtain ⟨hxn, hpx⟩ := mem_ranked.mp (getElem_mem hlt)
      have hrank : pos (ranked p n f)[s] = s := by rw [hpos _ hxn hpx, countBefore_ranked hlt]
      have hx := (hmem _[s]).mpr ⟨⟨hxn, hpx⟩, by rwa [hrank]⟩
      have hright : (((ranked p n f).take k).map value ++ replicate (k - (ranked p n f).length) pad)[s]? =
          some (value (ranked p n f)[s]) := by
        rw [getElem?_append_left (by simp; omega), getElem?_map, getElem?_take_of_lt hs, getElem?_eq_getElem hlt]
        rfl
      rw [hright]
      cases hfind : ((range n).filter fun j => p j && decide (pos j < k)).find? fun y => decide (pos y = s) with
      | none => exact absurd hrank (by simpa using find?_eq_none.mp hfind _ hx)
      | some y =>
        have hy : pos y = s := by simpa using find?_some hfind
        rw [hinj y (mem_of_find?_eq_some hfind) _ hx (hy.trans hrank.symm)]
    · -- no lane has this rank
      have hnone : ((range n).filter fun j => p j && decide (pos j < k)).find?
          (fun y => decide (pos y = s)) = none := by
        rw [find?_eq_none]
        intro y hy
        obtain ⟨⟨hy, hpy⟩, -⟩ := (hmem y).mp hy
        have hrank := (countBefore_bijOn (p := p) (n := n) (f := f)).mapsTo ⟨hy, hpy⟩
        rw [← hpos y hy hpy] at hrank
        have : pos y < (ranked p n f).length := hrank
        simp
        omega
      rw [hnone, getElem?_append_right (by simp; omega), getElem?_replicate]
      simp
      omega
  · rw [getElem?_eq_none (by simp; omega), getElem?_eq_none (by simp; omega)]

end

end VKernels.TopK
