import Mathlib.Data.Finset.Card

/-!
# The `k` largest

The largest values of `n` lanes, ties to the lower index: by a stable sort, and by rounds of a maximum that then
masks its lane with a sentinel.

* `argmax` — the first maximum; `argmax_eq_iff`.
* `pick`, `picks_eq_iff` — the rounds find the sorted lanes exactly when the sentinel hides none of them.
-/

namespace VKernels.TopK

open Finset

variable {V : Type} [LinearOrder V]

/-! ## Order of the lanes -/

/-- `a` comes before `b`: a larger value, or the same at a lower index. -/
def Beats (f : ℕ → V) (a b : ℕ) : Prop := f b < f a ∨ f a = f b ∧ a < b

instance (f : ℕ → V) (a b : ℕ) : Decidable (Beats f a b) := inferInstanceAs (Decidable (_ ∨ _))

section

variable {f : ℕ → V} {a b c : ℕ}

lemma Beats.ne (h : Beats f a b) : a ≠ b := by
  rintro rfl
  rcases h with h | ⟨-, h⟩
  · exact lt_irrefl _ h
  · exact lt_irrefl _ h

lemma Beats.asymm (h : Beats f a b) : ¬Beats f b a := by
  rintro (h' | ⟨heq, hlt⟩)
  · rcases h with h | ⟨heq, -⟩
    · exact lt_asymm h h'
    · exact h'.ne heq
  · rcases h with h | ⟨-, h⟩
    · exact h.ne heq
    · omega

lemma Beats.trans (h : Beats f a b) (h' : Beats f b c) : Beats f a c := by
  rcases h with h | ⟨heq, hlt⟩
  · rcases h' with h' | ⟨heq', -⟩
    · exact .inl (h'.trans h)
    · exact .inl (heq' ▸ h)
  · rcases h' with h' | ⟨heq', hlt'⟩
    · exact .inl (heq ▸ h')
    · exact .inr ⟨heq.trans heq', hlt.trans hlt'⟩

lemma beats_of_not (hne : a ≠ b) (h : ¬Beats f b a) : Beats f a b := by
  rcases lt_trichotomy (f a) (f b) with hlt | heq | hgt
  · exact absurd (.inl hlt) h
  · refine .inr ⟨heq, ?_⟩
    have hnot : ¬b < a := fun hba => h (.inr ⟨heq.symm, hba⟩)
    omega
  · exact .inl hgt

end

/-! ## The first maximum -/

/-- The first index of a maximum, of at least one lane. -/
def argmax (n : ℕ) (f : ℕ → V) : ℕ := (List.range n).foldl (fun best e => if f best < f e then e else best) 0

lemma argmax_succ (n : ℕ) (f : ℕ → V) : argmax (n + 1) f = if f (argmax n f) < f n then n else argmax n f := by
  rw [argmax, List.range_succ, List.foldl_append]
  rfl

lemma argmax_spec {n : ℕ} (f : ℕ → V) (hn : 0 < n) :
    argmax n f < n ∧ ∀ j < n, j ≠ argmax n f → Beats f (argmax n f) j := by
  induction n, hn using Nat.le_induction with
  | base =>
    have hzero : argmax 1 f = 0 := by
      exact if_neg (lt_irrefl _)
    rw [hzero]
    exact ⟨Nat.one_pos, fun j hj hne => absurd (by omega) hne⟩
  | succ n _ ih =>
    obtain ⟨hlt, hbest⟩ := ih
    rw [argmax_succ]
    split
    · rename_i hnew
      refine ⟨Nat.lt_succ_self n, fun j hj hne => ?_⟩
      by_cases hj' : j = argmax n f
      · exact .inl (hj' ▸ hnew)
      · exact Beats.trans (.inl hnew) (hbest j (by omega) hj')
    · rename_i hold
      refine ⟨by omega, fun j hj hne => ?_⟩
      by_cases hj' : j = n
      · subst hj'
        rcases (not_lt.mp hold).lt_or_eq with h | h
        · exact .inl h
        · exact .inr ⟨h.symm, hlt⟩
      · exact hbest j (by omega) hne

lemma argmax_eq_iff {n i : ℕ} {f : ℕ → V} (hi : i < n) : argmax n f = i ↔ ∀ j < n, j ≠ i → Beats f i j := by
  obtain ⟨hlt, hbest⟩ := argmax_spec f (Nat.zero_lt_of_lt hi)
  constructor
  · rintro rfl
    exact hbest
  · intro h
    by_contra hne
    exact (h _ hlt hne).asymm (hbest i hi fun heq => hne heq.symm)

/-! ## The stable sort -/

section

/-- The lanes in descending order, ties in the order of the lanes. -/
def descending (n : ℕ) (f : ℕ → V) : List ℕ := (List.range n).mergeSort fun a b => decide (f b ≤ f a)

variable {n : ℕ} {f : ℕ → V}

lemma descending_perm : (descending n f).Perm (List.range n) := List.mergeSort_perm _ _

@[simp] lemma descending_length : (descending n f).length = n := by
  rw [descending_perm.length_eq, List.length_range]

lemma descending_nodup : (descending n f).Nodup := descending_perm.nodup_iff.mpr List.nodup_range

lemma mem_descending {e : ℕ} : e ∈ descending n f ↔ e < n := by
  rw [descending_perm.mem_iff, List.mem_range]

lemma le_trans_desc (a b c : ℕ) (hab : decide (f b ≤ f a) = true) (hbc : decide (f c ≤ f b) = true) :
    decide (f c ≤ f a) = true := by
  simp only [decide_eq_true_eq] at *
  exact hbc.trans hab

lemma le_total_desc (a b : ℕ) : (decide (f b ≤ f a) || decide (f a ≤ f b)) = true := by
  simp only [Bool.or_eq_true, decide_eq_true_eq]
  exact le_total _ _

/-- **Every lane beats those after it.** -/
theorem descending_pairwise : (descending n f).Pairwise (Beats f) := by
  have hsorted : (descending n f).Pairwise fun a b => decide (f b ≤ f a) = true :=
    List.pairwise_mergeSort le_trans_desc le_total_desc _
  rw [List.pairwise_iff_forall_sublist] at hsorted ⊢
  intro a b hab
  have hle : f b ≤ f a := of_decide_eq_true (hsorted hab)
  rcases hle.lt_or_eq with hlt | heq
  · exact .inl hlt
  · -- the lanes of one value keep their order
    let p : ℕ → Bool := fun e => decide (f e = f a)
    have hties : ((List.range n).filter p).Pairwise fun a b => decide (f b ≤ f a) = true := by
      refine List.pairwise_iff_forall_sublist.mpr fun {i j} hij => ?_
      have hi : i ∈ (List.range n).filter p := hij.subset List.mem_cons_self
      have hj : j ∈ (List.range n).filter p := hij.subset (List.mem_cons_of_mem i List.mem_cons_self)
      have hi' : f i = f a := of_decide_eq_true (List.mem_filter.mp hi).2
      have hj' : f j = f a := of_decide_eq_true (List.mem_filter.mp hj).2
      exact decide_eq_true (hj'.trans hi'.symm).le
    have hsub : ((List.range n).filter p).Sublist (descending n f) :=
      List.sublist_mergeSort le_trans_desc le_total_desc hties List.filter_sublist
    have hfilter : (List.range n).filter p = (descending n f).filter p := by
      refine List.Sublist.eq_of_length ?_ (descending_perm.filter p).length_eq.symm
      simpa using hsub.filter p
    have hpair : [a, b].Sublist ((descending n f).filter p) := by
      have hboth : [a, b].filter p = [a, b] := by
        simp [p, heq]
      exact hboth ▸ hab.filter p
    rw [← hfilter] at hpair
    exact .inr ⟨heq.symm, List.pairwise_lt_range.forall_sublist (hpair.trans List.filter_sublist)⟩

/-- The `k`-th lane of the sort. -/
def rank (n : ℕ) (f : ℕ → V) (k : ℕ) : ℕ := (descending n f).getD k 0

lemma rank_eq {k : ℕ} (hk : k < (descending n f).length) : rank n f k = (descending n f)[k] := by
  rw [rank, List.getD_eq_getElem?_getD, List.getElem?_eq_getElem hk, Option.getD_some]

lemma rank_lt {k : ℕ} (hk : k < n) : rank n f k < n := by
  rw [rank_eq (by rwa [descending_length])]
  exact mem_descending.mp (List.getElem_mem _)

lemma rank_beats {j k : ℕ} (hjk : j < k) (hk : k < n) : Beats f (rank n f j) (rank n f k) := by
  have hk' : k < (descending n f).length := by rwa [descending_length]
  rw [rank_eq (hjk.trans hk'), rank_eq hk']
  exact List.pairwise_iff_getElem.mp descending_pairwise j k _ _ hjk

lemma rank_inj {j k : ℕ} (hj : j < n) (hk : k < n) (h : rank n f j = rank n f k) : j = k := by
  rcases lt_trichotomy j k with hlt | heq | hgt
  · exact absurd h (rank_beats hlt hk).ne
  · exact heq
  · exact absurd h.symm (rank_beats hgt hj).ne

lemma exists_rank {e : ℕ} (he : e < n) : ∃ k < n, rank n f k = e := by
  obtain ⟨k, hk, hke⟩ := List.getElem_of_mem (mem_descending (f := f).mpr he)
  exact ⟨k, by rwa [descending_length] at hk, by rw [rank_eq hk, hke]⟩

/-- **The lanes before `rank k`** are those that beat it. -/
theorem beats_rank_iff {k u : ℕ} (hk : k < n) (hu : u < n) : Beats f u (rank n f k) ↔ ∃ j < k, rank n f j = u := by
  obtain ⟨j, hj, rfl⟩ := exists_rank (f := f) hu
  constructor
  · intro h
    refine ⟨j, ?_, rfl⟩
    rcases lt_trichotomy j k with hlt | rfl | hgt
    · exact hlt
    · exact absurd rfl h.ne
    · exact absurd h (rank_beats hgt hj).asymm
  · rintro ⟨i, hi, heq⟩
    rw [← heq]
    exact rank_beats hi hk

/-- Fewer than `K` of `n` lanes beat the lane. -/
def Chosen (n : ℕ) (f : ℕ → V) (K e : ℕ) : Prop := ((range n).filter fun u => Beats f u e).card < K

instance (n : ℕ) (f : ℕ → V) (K e : ℕ) : Decidable (Chosen n f K e) := inferInstanceAs (Decidable (_ < _))

lemma card_beats_rank {k : ℕ} (hk : k < n) : ((range n).filter fun u => Beats f u (rank n f k)).card = k := by
  have himage : ((range n).filter fun u => Beats f u (rank n f k)) = (range k).image (rank n f) := by
    ext u
    simp only [mem_filter, mem_range, mem_image]
    constructor
    · rintro ⟨hu, hbeats⟩
      exact (beats_rank_iff hk hu).mp hbeats
    · rintro ⟨j, hj, rfl⟩
      exact ⟨rank_lt (hj.trans hk), rank_beats hj hk⟩
  rw [himage, card_image_of_injOn, card_range]
  intro i hi j hj h
  exact rank_inj ((mem_range.mp hi).trans hk) ((mem_range.mp hj).trans hk) h

lemma chosen_rank_iff {K k : ℕ} (hk : k < n) : Chosen n f K (rank n f k) ↔ k < K := by
  rw [Chosen, card_beats_rank hk]

/-- **A set of `K` lanes that holds whatever beats one of them** is the set of the chosen. -/
theorem mem_iff_chosen {K : ℕ} {F : Finset ℕ} (hcard : F.card = K) (hrange : ∀ e ∈ F, e < n)
    (hclosed : ∀ e ∈ F, ∀ u < n, Beats f u e → u ∈ F) {e : ℕ} (he : e < n) : e ∈ F ↔ Chosen n f K e := by
  constructor
  · intro hmem
    have hsub : ((range n).filter fun u => Beats f u e) ⊂ F := by
      rw [ssubset_iff_of_subset]
      · exact ⟨e, hmem, fun h => (mem_filter.mp h).2.ne rfl⟩
      · intro u hu
        obtain ⟨hun, hbeats⟩ := mem_filter.mp hu
        exact hclosed e hmem u (mem_range.mp hun) hbeats
    exact (card_lt_card hsub).trans_eq hcard
  · intro hchosen
    by_contra hout
    have hsub : F ⊆ (range n).filter fun u => Beats f u e := by
      intro u hu
      have hne : u ≠ e := fun heq => hout (heq ▸ hu)
      have hbeats : Beats f u e := beats_of_not hne fun h => hout (hclosed u hu e he h)
      exact mem_filter.mpr ⟨mem_range.mpr (hrange u hu), hbeats⟩
    have hle := card_le_card hsub
    rw [hcard] at hle
    exact Nat.not_lt.mpr hle hchosen

end

/-! ## Rounds with a sentinel -/

section

variable (lanes : ℕ) (sentinel : V) (f : ℕ → V)

/-- The lanes after `k` rounds: each takes the first maximum and then masks it. -/
def masked : ℕ → ℕ → V
  | 0 => f
  | k + 1 => fun e => if e = argmax lanes (masked k) then sentinel else masked k e

def pick (k : ℕ) : ℕ := argmax lanes (masked lanes sentinel f k)

lemma masked_eq (k e : ℕ) :
    masked lanes sentinel f k e = if ∃ j < k, pick lanes sentinel f j = e then sentinel else f e := by
  induction k with
  | zero => simp [masked]
  | succ k ih =>
    show (if e = pick lanes sentinel f k then sentinel else masked lanes sentinel f k e) = _
    rw [ih]
    by_cases he : e = pick lanes sentinel f k
    · rw [if_pos he, if_pos ⟨k, Nat.lt_succ_self k, he.symm⟩]
    · rw [if_neg he]
      refine if_congr ⟨?_, ?_⟩ rfl rfl
      · rintro ⟨j, hj, hje⟩
        exact ⟨j, by omega, hje⟩
      · rintro ⟨j, hj, hje⟩
        have hne : j ≠ k := fun h => he (h ▸ hje.symm)
        exact ⟨j, by omega, hje⟩

variable (n : ℕ) (g : ℕ → V)

/-- The values of `n` lanes, and the sentinel in the padding. -/
def padded (e : ℕ) : V := if e < n then g e else sentinel

/-- Neither the padding nor a lane that beats `e` hides it behind the sentinel. -/
def Visible (e : ℕ) : Prop := ∀ u < lanes, n ≤ u ∨ Beats g u e → sentinel < g e ∨ g e = sentinel ∧ e < u

variable {lanes sentinel n g}

/-- **One round** finds the next lane of the sort exactly when nothing hides it. -/
theorem pick_eq_iff {k : ℕ} (hlanes : n ≤ lanes) (hk : k < n)
    (hprev : ∀ j < k, pick lanes sentinel (padded sentinel n g) j = rank n g j) :
    pick lanes sentinel (padded sentinel n g) k = rank n g k ↔ Visible lanes sentinel n g (rank n g k) := by
  have hlt := rank_lt (f := g) hk
  have hvalue (u : ℕ) : masked lanes sentinel (padded sentinel n g) k u =
      if n ≤ u ∨ Beats g u (rank n g k) then sentinel else g u := by
    rw [masked_eq, padded]
    by_cases hu : u < n
    · have hiff : (∃ j < k, pick lanes sentinel (padded sentinel n g) j = u) ↔ n ≤ u ∨ Beats g u (rank n g k) := by
        rw [beats_rank_iff hk hu]
        constructor
        · rintro ⟨j, hj, hju⟩
          exact .inr ⟨j, hj, hprev j hj ▸ hju⟩
        · rintro (h | ⟨j, hj, hju⟩)
          · omega
          · exact ⟨j, hj, (hprev j hj).trans hju⟩
      rw [if_pos hu]
      exact if_congr hiff rfl rfl
    · rw [if_neg hu, ite_self, if_pos (.inl (Nat.not_lt.mp hu))]
  have hself : ¬(n ≤ rank n g k ∨ Beats g (rank n g k) (rank n g k)) := by
    rintro (h | h)
    · omega
    · exact h.ne rfl
  have hbeats (u : ℕ) : Beats (masked lanes sentinel (padded sentinel n g) k) (rank n g k) u ↔
      if n ≤ u ∨ Beats g u (rank n g k) then sentinel < g (rank n g k) ∨ g (rank n g k) = sentinel ∧ rank n g k < u
      else Beats g (rank n g k) u := by
    show _ < _ ∨ _ = _ ∧ _ ↔ _
    rw [hvalue, hvalue, if_neg hself]
    split <;> exact Iff.rfl
  rw [pick, argmax_eq_iff (hlt.trans_le hlanes)]
  constructor
  · intro h u hu hhides
    have hne : u ≠ rank n g k := by
      rintro rfl
      exact hself hhides
    have hbefore := (hbeats u).mp (h u hu hne)
    rwa [if_pos hhides] at hbefore
  · intro h u hu hne
    rw [hbeats]
    split
    · exact h u hu ‹_›
    · rename_i hshown
      exact beats_of_not hne.symm fun hbefore => hshown (.inr hbefore)

/-- **The rounds find the first `K` lanes of the sort** exactly when each of them is visible. -/
theorem picks_eq_iff {K : ℕ} (hlanes : n ≤ lanes) (hK : K ≤ n) :
    (∀ k < K, pick lanes sentinel (padded sentinel n g) k = rank n g k) ↔
      ∀ e < n, Chosen n g K e → Visible lanes sentinel n g e := by
  constructor
  · intro h e he hchosen
    obtain ⟨k, hk, rfl⟩ := exists_rank (f := g) he
    have hkK : k < K := (chosen_rank_iff hk).mp hchosen
    exact (pick_eq_iff hlanes hk fun j hj => h j (hj.trans hkK)).mp (h k hkK)
  · intro h k
    induction k using Nat.strong_induction_on with
    | _ k ih =>
      intro hk
      have hkn : k < n := hk.trans_le hK
      exact (pick_eq_iff hlanes hkn fun j hj => ih j hj (hj.trans hk)).mpr
        (h _ (rank_lt hkn) ((chosen_rank_iff hkn).mpr hk))

end

end VKernels.TopK
