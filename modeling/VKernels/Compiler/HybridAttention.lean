import VKernels.Compiler.HybridRegions

/-!
# Full attention of the hybrid megakernel

The phases of a full-attention layer, from the projections to the context of its heads.

## Results

* `qknorm_at`, `rope_at`, `scores_at`, `softmax_at`, `values_at` — what each phase leaves.
* `fullAttention_rows` — the layer appends the key and value rows of its position, and keeps all others.
* `fullAttention_context` — the context of each head, from the rows that the caches hold.
-/

namespace VKernels.Hybrid

open Finset BarrierPhases
open LaneLaunch (nextPowerOf2)
open OwnedTasks (storeRow mem_storeRow)
open SplitSoftmax (Exponential attention mass moment)
open Prod (ext_iff snd)

variable {V : Type} [Field V]

/-! ## The position -/

section

/-- The rotary embedding at position `pos`: two halves of the first `ROT` entries, the rest as they are. -/
def rotated (cos sin : ℕ → V) (pos ROT : ℕ) (x : ℕ → V) (i : ℕ) : V :=
  if i < ROT / 2 then x i * cos (pos * ROT + i) - x (ROT / 2 + i) * sin (pos * ROT + i)
  else if i < ROT / 2 + ROT / 2 then
    x i * cos (pos * ROT + (i - ROT / 2)) + x (i - ROT / 2) * sin (pos * ROT + (i - ROT / 2))
  else x i

variable {cos sin : ℕ → V} {pos ROT : ℕ} {x : ℕ → V} {i : ℕ}

lemma rotated_first (h : i < ROT / 2) : rotated cos sin pos ROT x i =
    x i * cos (pos * ROT + i) - x (ROT / 2 + i) * sin (pos * ROT + i) := if_pos h

lemma rotated_second (h : i < ROT / 2) : rotated cos sin pos ROT x (ROT / 2 + i) =
    x (ROT / 2 + i) * cos (pos * ROT + i) + x i * sin (pos * ROT + i) := by
  unfold rotated
  rw [if_neg (by omega), if_pos (by omega), Nat.add_sub_cancel_left]

lemma rotated_rest (h : ROT / 2 + ROT / 2 ≤ i) : rotated cos sin pos ROT x i = x i := by
  unfold rotated
  rw [if_neg (by omega), if_neg (by omega)]

lemma rotated_congr {n : ℕ} {y : ℕ → V} (hn : ROT / 2 + ROT / 2 ≤ n) (h : ∀ e < n, x e = y e) (hi : i < n) :
    rotated cos sin pos ROT x i = rotated cos sin pos ROT y i := by
  unfold rotated
  by_cases hfirst : i < ROT / 2
  · rw [if_pos hfirst, if_pos hfirst, h i hi, h _ (by omega)]
  · rw [if_neg hfirst, if_neg hfirst]
    by_cases hsecond : i < ROT / 2 + ROT / 2
    · rw [if_pos hsecond, if_pos hsecond, h i hi, h _ (by omega)]
    · rw [if_neg hsecond, if_neg hsecond, h i hi]

end

/-! ## The phases -/

section

variable {V : Type} {P : ℕ} (hP : 0 < P) {barrier : Option ℤ} {m m' : Mem V}
include hP

omit hP in
lemma storeRow_at {n base j : ℕ} {b : Buffer} {val : ℕ → V} {v : V}
    (h : ((b, base + j), v) ∈ storeRow n (fun i => (b, base + i)) val) : v = val j := by
  obtain ⟨i, -, heq⟩ := mem_storeRow.mp h
  obtain ⟨hloc, hval⟩ := ext_iff.mp heq
  have hij : base + j = base + i := (ext_iff.mp hloc).2
  rw [add_left_cancel hij]
  exact hval

variable [Field V] {f : Maths V}

omit hP in
lemma hQknorm_query {qkv out H D t : ℕ} {qn kn : ℕ → V} {eps : V} (ht : t < H) (m : Mem V) :
    (hQknorm f qkv qn kn out H D eps t).stores m =
      storeRow D (fun i => (.ws, out + t * D + i)) (normed f D eps qn (qkv + t * 2 * D) m) ++
        storeRow D (fun i => (.ws, out + H * D + t * D + i)) fun i => m (.ws, qkv + t * 2 * D + (D + i)) := by
  unfold hQknorm
  rw [if_pos ht]

omit hP in
lemma hQknorm_key {qkv out H D t : ℕ} {qn kn : ℕ → V} {eps : V} (ht : ¬t < H) (m : Mem V) :
    (hQknorm f qkv qn kn out H D eps t).stores m = storeRow D (fun i => (.ws, out + 2 * H * D + (t - H) * D + i))
      (normed f D eps kn (qkv + H * 2 * D + (t - H) * D) m) := by
  unfold hQknorm
  rw [if_neg ht]

/-- The normed query heads, their gates, and the normed key heads. -/
lemma qknorm_at {qn kn : ℕ → V} {eps : V}
    (h : InAnyOrder P ⟨[⟨28, hQknorm f oProj qn kn oPost 24 256 eps⟩], barrier⟩ m m') :
    (∀ t < 24, ∀ i < 256, m' (.ws, oPost + t * 256 + i) = normed f 256 eps qn (oProj + t * 2 * 256) m i ∧
      m' (.ws, oPost + 24 * 256 + t * 256 + i) = m (.ws, oProj + t * 2 * 256 + (256 + i))) ∧
    ∀ k < 4, ∀ i < 256, m' (.ws, oPost + 2 * 24 * 256 + k * 256 + i) =
      normed f 256 eps kn (oProj + 24 * 2 * 256 + k * 256) m i := by
  have hrace : RaceFree P ⟨[⟨28, hQknorm f oProj qn kn oPost 24 256 eps⟩], barrier⟩ := qknorm_separate.raceFree hP
  have happart : ∀ t < 28, ∀ u < 28, t ≠ u → Disjoint (hQknorm f oProj qn kn oPost 24 256 eps t).writes
      (hQknorm f oProj qn kn oPost 24 256 eps u).writes := by
    intro t ht u hu hne
    rw [Set.disjoint_left]
    rintro ⟨b, j⟩ ⟨_, v, hv⟩ ⟨_, _, hv'⟩
    obtain ⟨i, hi, hst⟩ := hQknorm_stores hv
    obtain ⟨i', hi', hst'⟩ := hQknorm_stores hv'
    simp only [Prod.mk.injEq] at hst hst'
    omega
  refine ⟨fun t ht i hi => ⟨?_, ?_⟩, fun k hk i hi => ?_⟩
  · have hstores : (hQknorm f oProj qn kn oPost 24 256 eps t).stores m = _ := hQknorm_query ht m
    refine h.single hP hrace happart (show t < 28 by omega) ?_ fun v hv => ?_
    · rw [hstores]
      exact List.mem_append_left _ (mem_storeRow.mpr ⟨i, hi, rfl⟩)
    · rw [hstores] at hv
      rcases List.mem_append.mp hv with hv | hv
      · exact storeRow_at hv
      · obtain ⟨i', hi', heq⟩ := mem_storeRow.mp hv
        simp only [Prod.mk.injEq] at heq
        omega
  · have hstores : (hQknorm f oProj qn kn oPost 24 256 eps t).stores m = _ := hQknorm_query ht m
    refine h.single hP hrace happart (show t < 28 by omega) ?_ fun v hv => ?_
    · rw [hstores]
      exact List.mem_append_right _ (mem_storeRow.mpr ⟨i, hi, rfl⟩)
    · rw [hstores] at hv
      rcases List.mem_append.mp hv with hv | hv
      · obtain ⟨_, hi', heq⟩ := mem_storeRow.mp hv
        simp only [Prod.mk.injEq] at heq
        omega
      · exact storeRow_at hv
  · have hstores : (hQknorm f oProj qn kn oPost 24 256 eps (24 + k)).stores m = _ := hQknorm_key (by omega) m
    rw [Nat.add_sub_cancel_left] at hstores
    refine h.single hP hrace happart (show 24 + k < 28 by omega) ?_ fun v hv => ?_
    · rw [hstores]
      exact mem_storeRow.mpr ⟨i, hi, rfl⟩
    · rw [hstores] at hv
      exact storeRow_at hv

/-! ### Rotation -/

section

variable {cos sin : ℕ → V} {post base vSrc pos slot H NKV D ROT t i : ℕ} {v : V}
omit hP

lemma mem_rope_query (ht : t < H) (hi : i < ROT / 2 + ROT / 2) :
    ((.ws, post + t * D + i), v) ∈ (hRopeAppend post cos sin base vSrc base pos slot H NKV D ROT t).stores m ↔
      v = rotated cos sin pos ROT (fun e => m (.ws, post + t * D + e)) i := by
  unfold hRopeAppend
  rw [if_pos ht]
  rw [List.mem_append]
  by_cases hfirst : i < ROT / 2
  · rw [rotated_first hfirst]
    constructor
    · rintro (h | h)
      · exact storeRow_at h
      · obtain ⟨d, -, heq⟩ := mem_storeRow.mp h
        simp only [Prod.mk.injEq] at heq
        omega
    · rintro rfl
      exact .inl (mem_storeRow.mpr ⟨i, hfirst, rfl⟩)
  · obtain ⟨d, rfl⟩ := Nat.exists_eq_add_of_le (not_lt.mp hfirst)
    rw [rotated_second (by omega)]
    constructor
    · rintro (h | h)
      · obtain ⟨d', hd', heq⟩ := mem_storeRow.mp h
        simp only [Prod.mk.injEq] at heq
        omega
      · obtain ⟨d', -, heq⟩ := mem_storeRow.mp h
        obtain ⟨hloc, hval⟩ := ext_iff.mp heq
        have hd : d = d' := by
          have hloc : post + t * D + (ROT / 2 + d) = post + t * D + (ROT / 2 + d') := congrArg snd hloc
          omega
        rw [hd]
        exact hval
    · rintro rfl
      exact .inr (mem_storeRow.mpr ⟨d, by omega, rfl⟩)

lemma mem_rope_key (ht : ¬t < H) (ht' : t < H + NKV) (hrot : ROT / 2 + ROT / 2 = ROT) (hi : i < D) :
    ((.kCache, base + (slot * (NKV * D) + ((t - H) * D + i))), v) ∈
        (hRopeAppend post cos sin base vSrc base pos slot H NKV D ROT t).stores m ↔
      v = rotated cos sin pos ROT (fun e => m (.ws, post + 2 * H * D + (t - H) * D + e)) i := by
  unfold hRopeAppend
  rw [if_neg ht, if_pos ht']
  rw [List.mem_append, List.mem_append]
  have hinj {j j' : ℕ} (h : ((Buffer.kCache, base + (slot * (NKV * D) + ((t - H) * D + j))) : Cell) =
      (.kCache, base + (slot * (NKV * D) + ((t - H) * D + j')))) : j = j' := by
    have h := congrArg snd h
    omega
  constructor
  · rintro ((h | h) | h)
    · obtain ⟨d, hd, heq⟩ := mem_storeRow.mp h
      obtain ⟨hloc, hval⟩ := ext_iff.mp heq
      obtain rfl := hinj hloc
      rw [rotated_first hd]
      exact hval
    · obtain ⟨d, hd, heq⟩ := mem_storeRow.mp h
      obtain ⟨hloc, hval⟩ := ext_iff.mp heq
      obtain rfl := hinj hloc
      rw [rotated_second hd]
      exact hval
    · obtain ⟨d, -, hst⟩ := List.mem_flatMap.mp h
      unfold MaskedStores.storeIf at hst
      by_cases hd : ROT ≤ d
      · rw [if_pos hd, List.mem_singleton] at hst
        obtain ⟨hloc, hval⟩ := ext_iff.mp hst
        obtain rfl := hinj hloc
        rw [rotated_rest (by omega)]
        exact hval
      · rw [if_neg hd] at hst
        cases hst
  · rintro rfl
    by_cases hfirst : i < ROT / 2
    · rw [rotated_first hfirst]
      exact .inl (.inl (mem_storeRow.mpr ⟨i, hfirst, rfl⟩))
    · by_cases hsecond : i < ROT / 2 + ROT / 2
      · obtain ⟨d, rfl⟩ := Nat.exists_eq_add_of_le (not_lt.mp hfirst)
        rw [rotated_second (by omega)]
        exact .inl (.inr (mem_storeRow.mpr ⟨d, by omega, rfl⟩))
      · rw [rotated_rest (not_lt.mp hsecond)]
        refine .inr (List.mem_flatMap.mpr ⟨i, List.mem_range.mpr hi, ?_⟩)
        unfold MaskedStores.storeIf
        rw [if_pos (by omega)]
        exact List.mem_singleton.mpr rfl

lemma mem_rope_value (ht : ¬t < H + NKV) (hi : i < D) :
    ((.vCache, base + (slot * (NKV * D) + ((t - H - NKV) * D + i))), v) ∈
        (hRopeAppend post cos sin base vSrc base pos slot H NKV D ROT t).stores m ↔
      v = m (.ws, vSrc + (t - H - NKV) * D + i) := by
  unfold hRopeAppend
  rw [if_neg (by omega), if_neg ht]
  constructor
  · intro h
    obtain ⟨d, -, heq⟩ := mem_storeRow.mp h
    obtain ⟨hloc, hval⟩ := ext_iff.mp heq
    have hloc := congrArg snd hloc
    dsimp only at hloc
    obtain rfl : i = d := by omega
    exact hval
  · rintro rfl
    exact mem_storeRow.mpr ⟨i, hi, rfl⟩

end

/-- The query heads rotated in place, and the key and value heads appended to the caches. -/
lemma rope_at {cos sin : ℕ → V} {base pos : ℕ} (h : InAnyOrder P
      ⟨[⟨32, hRopeAppend oPost cos sin base (oZab + 1024) base pos pos 24 4 256 64⟩], barrier⟩ m m') :
    (∀ t < 24, ∀ i < 256, m' (.ws, oPost + t * 256 + i) =
      rotated cos sin pos 64 (fun e => m (.ws, oPost + t * 256 + e)) i) ∧
    (∀ k < 4, ∀ i < 256, m' (.kCache, base + (pos * (4 * 256) + (k * 256 + i))) =
      rotated cos sin pos 64 (fun e => m (.ws, oPost + 2 * 24 * 256 + k * 256 + e)) i) ∧
    ∀ k < 4, ∀ i < 256, m' (.vCache, base + (pos * (4 * 256) + (k * 256 + i))) =
      m (.ws, oZab + 1024 + k * 256 + i) := by
  have hrace : RaceFree P ⟨[⟨32, hRopeAppend oPost cos sin base (oZab + 1024) base pos pos 24 4 256 64⟩], barrier⟩ :=
    (rope_sound hP).raceFree
  have happart : ∀ t < 32, ∀ u < 32, t ≠ u →
      Disjoint (hRopeAppend (V := V) oPost cos sin base (oZab + 1024) base pos pos 24 4 256 64 t).writes
        (hRopeAppend oPost cos sin base (oZab + 1024) base pos pos 24 4 256 64 u).writes := by
    intro t ht u hu hne
    rw [Set.disjoint_left]
    rintro ⟨b, j⟩ ⟨m₁, v, hv⟩ ⟨_, _, hv'⟩
    obtain ⟨i, hi, hst, ht'⟩ | ⟨i, hi, hst, ht'⟩ | ⟨i, hi, hst, ht'⟩ := hRopeAppend_stores (by omega) hv
    all_goals
      obtain ⟨rfl, hj⟩ := Prod.mk.inj hst
      obtain ⟨_, hi', hst', hu'⟩ | ⟨_, hi', hst', hu'⟩ | ⟨_, hi', hst', hu'⟩ := hRopeAppend_stores (by omega) hv'
    all_goals simp only [Prod.mk.injEq, reduceCtorEq, false_and, true_and] at hst'
    all_goals omega
  refine ⟨fun t ht i hi => ?_, fun k hk i hi => ?_, fun k hk i hi => ?_⟩
  · by_cases hrot : i < 64 / 2 + 64 / 2
    · exact h.single hP hrace happart (show t < 32 by omega) ((mem_rope_query ht hrot).mpr rfl)
        fun v hv => (mem_rope_query ht hrot).mp hv
    · rw [rotated_rest (not_lt.mp hrot)]
      refine h.frame hP ?_
      rintro ⟨_, hcall, u, hu, _, v, hv⟩
      obtain rfl := List.mem_singleton.mp hcall
      obtain ⟨e, he, hst, -⟩ | ⟨e, -, hst, -⟩ | ⟨e, -, hst, -⟩ := hRopeAppend_stores (by omega) hv
      all_goals simp only [Prod.mk.injEq, reduceCtorEq, false_and, true_and] at hst
      omega
  · have hkey (v : V) : ((.kCache, base + (pos * (4 * 256) + ((24 + k - 24) * 256 + i))), v) ∈
        (hRopeAppend oPost cos sin base (oZab + 1024) base pos pos 24 4 256 64 (24 + k)).stores m ↔ _ :=
      mem_rope_key (by omega) (by omega) rfl hi
    rw [Nat.add_sub_cancel_left] at hkey
    exact h.single hP hrace happart (show 24 + k < 32 by omega) ((hkey _).mpr rfl) fun v hv => (hkey v).mp hv
  · have hvalue (v : V) : ((.vCache, base + (pos * (4 * 256) + ((28 + k - 24 - 4) * 256 + i))), v) ∈
        (hRopeAppend oPost cos sin base (oZab + 1024) base pos pos 24 4 256 64 (28 + k)).stores m ↔ _ :=
      mem_rope_value (by omega) hi
    rw [show 28 + k - 24 - 4 = k by omega] at hvalue
    exact h.single hP hrace happart (show 28 + k < 32 by omega) ((hvalue _).mpr rfl) fun v hv => (hvalue v).mp hv

/-! ### Softmax -/

section

variable {base pos capacity : ℕ} (hcap : capacity ≤ 512) (hpos : pos < capacity)
include hcap hpos

lemma scores_at {scale : V}
    (hrun : InAnyOrder P ⟨[⟨24, hScores oPost base oScores pos 24 4 256 capacity 64 scale⟩], barrier⟩ m m') :
    ∀ h < 24, ∀ t < pos + 1, m' (.ws, oScores + h * capacity + t) =
      (∑ d ∈ range 256, m (.kCache, base + (t * (4 * 256) + (h / (24 / 4) * 256 + d))) *
        m (.ws, oPost + h * 256 + d)) * scale := by
  have hrace : RaceFree P ⟨[⟨24, hScores oPost base oScores pos 24 4 256 capacity 64 scale⟩], barrier⟩ :=
    (scores_separate hcap hpos).raceFree hP
  have happart : ∀ t < 24, ∀ u < 24, t ≠ u →
      Disjoint (hScores oPost base oScores pos 24 4 256 capacity 64 scale t).writes
        (hScores oPost base oScores pos 24 4 256 capacity 64 scale u).writes := by
    intro t ht u hu hne
    rw [Set.disjoint_left]
    rintro ⟨b, j⟩ ⟨_, v, hv⟩ ⟨_, _, hv'⟩
    obtain ⟨i, hi, hst⟩ := hScores_stores (by omega) hv
    obtain ⟨i', hi', hst'⟩ := hScores_stores (by omega) hv'
    have hj := (Prod.mk.inj hst).2
    have hj' := (Prod.mk.inj hst').2
    exact hne (LaneLaunch.rows_apart (show i < capacity by omega) (show i' < capacity by omega) (by omega))
  intro h hh t ht
  refine hrun.single hP hrace happart hh ?_ fun v hv => ?_
  · dsimp only [hScores]
    exact (mem_blockStores (by omega)).mpr ⟨t, ht, rfl⟩
  · dsimp only [hScores] at hv
    obtain ⟨i, -, heq⟩ := (mem_blockStores (by omega)).mp hv
    obtain ⟨hloc, hval⟩ := Prod.mk.inj heq
    have hj := (Prod.mk.inj hloc).2
    obtain rfl : t = i := by omega
    exact hval

/-- The context of each head: its probabilities against the value rows, times the sigmoid of its gate. -/
lemma values_at (hrun : InAnyOrder P
      ⟨[⟨24, hValuesGate f oProbs base (oPost + 24 * 256) oHeads pos 24 4 256 capacity 64⟩], barrier⟩ m m') :
    ∀ h < 24, ∀ i < 256, m' (.ws, oHeads + h * 256 + i) = (∑ t ∈ range (pos + 1), m (.ws, oProbs + h * capacity + t) *
        m (.vCache, base + (t * (4 * 256) + (h / (24 / 4) * 256 + i)))) *
      (1 / (1 + f.exp (-m (.ws, oPost + 24 * 256 + h * 256 + i)))) := by
  have hrace : RaceFree P
      ⟨[⟨24, hValuesGate f oProbs base (oPost + 24 * 256) oHeads pos 24 4 256 capacity 64⟩], barrier⟩ :=
    (values_separate hcap hpos).raceFree hP
  have happart : ∀ t < 24, ∀ u < 24, t ≠ u →
      Disjoint (hValuesGate f oProbs base (oPost + 24 * 256) oHeads pos 24 4 256 capacity 64 t).writes
        (hValuesGate f oProbs base (oPost + 24 * 256) oHeads pos 24 4 256 capacity 64 u).writes := by
    intro t ht u hu hne
    rw [Set.disjoint_left]
    rintro ⟨b, j⟩ ⟨_, v, hv⟩ ⟨_, _, hv'⟩
    obtain ⟨i, hi, hst⟩ := hValuesGate_stores hv
    obtain ⟨_, hi', hst'⟩ := hValuesGate_stores hv'
    simp only [Prod.mk.injEq] at hst hst'
    omega
  intro h hh i hi
  have hsum := WorkerTasks.sum_masked_blocks (show 0 < 64 by omega) (pos + 1) fun t =>
    m (.ws, oProbs + h * capacity + t) * m (.vCache, base + (t * (4 * 256) + (h / (24 / 4) * 256 + i)))
  rw [← hsum]
  exact hrun.single hP hrace happart hh (mem_storeRow.mpr ⟨i, hi, rfl⟩) fun v hv => storeRow_at hv

variable [LinearOrder V]

/-- The probabilities of each head: its shifted exponentials over their sum. -/
lemma softmax_at {BTR : ℕ} (hBTR : capacity ≤ BTR)
    (hrun : InAnyOrder P ⟨[⟨24, hSoftmax f oScores pos oProbs capacity BTR⟩], barrier⟩ m m') :
    ∀ h < 24, ∀ t < pos + 1, m' (.ws, oProbs + h * capacity + t) = softmaxWeight f oScores pos capacity BTR h m t *
        (1 / ∑ t ∈ range BTR, softmaxWeight f oScores pos capacity BTR h m t) := by
  have hrace : RaceFree P ⟨[⟨24, hSoftmax f oScores pos oProbs capacity BTR⟩], barrier⟩ :=
    (softmax_separate hcap hpos).raceFree hP
  have happart : ∀ t < 24, ∀ u < 24, t ≠ u → Disjoint (hSoftmax f oScores pos oProbs capacity BTR t).writes
      (hSoftmax f oScores pos oProbs capacity BTR u).writes := by
    intro t ht u hu hne
    rw [Set.disjoint_left]
    rintro ⟨b, j⟩ ⟨_, v, hv⟩ ⟨_, _, hv'⟩
    obtain ⟨i, -, hi, hst⟩ := hSoftmax_stores hv
    obtain ⟨_, -, hi', hst'⟩ := hSoftmax_stores hv'
    have hj := (Prod.mk.inj hst).2
    have hj' := (Prod.mk.inj hst').2
    exact hne (LaneLaunch.rows_apart hi hi' (by omega))
  intro h hh t ht
  refine hrun.single hP hrace happart hh ?_ fun v hv => ?_
  · exact mem_laneStores.mpr ⟨t, by omega, by omega, by rw [if_pos ht]⟩
  · obtain ⟨i, -, -, heq⟩ := mem_laneStores.mp hv
    obtain ⟨hloc, hval⟩ := Prod.mk.inj heq
    have hj := (Prod.mk.inj hloc).2
    obtain rfl : t = i := by omega
    rw [hval, if_pos ht]

end

end

lemma softmax_mean {V : Type} [Field V] [LinearOrder V] {f : Maths V} (hE : Exponential f.exp) {x pos SCAP BTR h : ℕ}
    {m : Mem V} (hlanes : pos + 1 ≤ BTR) (v : ℕ → ℕ → V) (i : ℕ) :
    ∑ t ∈ range (pos + 1), softmaxWeight f x pos SCAP BTR h m t *
        (1 / ∑ t ∈ range BTR, softmaxWeight f x pos SCAP BTR h m t) * v t i =
      attention f.exp (fun t => m (.ws, x + h * SCAP + t)) v (range (pos + 1)) i := by
  let mr := (SplitSoftmax.maxOver BTR (maskedScore x pos SCAP h m)).getD 0
  let score (t : ℕ) := m (.ws, x + h * SCAP + t)
  have hmass : ∑ t ∈ range BTR, softmaxWeight f x pos SCAP BTR h m t = mass f.exp score (range (pos + 1)) mr :=
    Wavefront.sum_bounded hlanes fun t => f.exp _
  have hweight : ∀ t ∈ range (pos + 1), softmaxWeight f x pos SCAP BTR h m t = f.exp (score t - mr) :=
    fun t ht => if_pos (mem_range.mp ht)
  rw [hmass, ← SplitSoftmax.moment_div_mass hE, moment, sum_div]
  refine sum_congr rfl fun t ht => ?_
  rw [hweight t ht]
  ring

/-! ## A layer -/

section

variable [LinearOrder V] (f : Maths V) (d : Dims V) (w : Weights V) (fi pos : ℕ)

/-- The query of head `h`, out of the projections in `m`: normed, then rotated. -/
def queryOf (m : Mem V) (h : ℕ) : ℕ → V :=
  rotated w.cos w.sin pos d.ROT (normed f d.D d.EPS (advance w.fqn (fi * d.D)) (d.O_PROJ + h * 2 * d.D) m)

/-- The key of key-value head `kvh`. -/
def keyOf (m : Mem V) (kvh : ℕ) : ℕ → V :=
  rotated w.cos w.sin pos d.ROT (normed f d.D d.EPS (advance w.fkn (fi * d.D)) (d.O_PROJ + d.H * 2 * d.D + kvh * d.D) m)

/-- The value of key-value head `kvh`. -/
def valueOf (m : Mem V) (kvh i : ℕ) : V := m (.ws, d.O_ZAB + d.FK_N + kvh * d.D + i)

/-- The gate of head `h`, beside its query. -/
def gateOf (m : Mem V) (h i : ℕ) : V := m (.ws, d.O_PROJ + h * 2 * d.D + (d.D + i))

/-- **The gated softmax-weighted mean** of the value rows `0`, …, `pos`. -/
def context (d : Dims V) (pos : ℕ) (q : ℕ → V) (k v : ℕ → ℕ → V) (gate : ℕ → V) (i : ℕ) : V :=
  attention f.exp (fun t => (∑ e ∈ range d.D, k t e * q e) * d.FSCALE) v (range (pos + 1)) i *
    (1 / (1 + f.exp (-gate i)))

variable {f w fi pos}

omit [LinearOrder V] in
lemma context_congr {d : Dims V} {q gate : ℕ → V} {k k' v v' : ℕ → ℕ → V} {i : ℕ}
    (hk : ∀ t ≤ pos, ∀ e < d.D, k t e = k' t e) (hv : ∀ t ≤ pos, v t i = v' t i) :
    context f d pos q k v gate i = context f d pos q k' v' gate i := by
  refine congrArg (· * _) (SplitSoftmax.attention_congr (fun t ht => ?_) fun t ht => hv t ?_)
  · refine congrArg (· * _) (sum_congr rfl fun e he => ?_)
    rw [hk t (Nat.lt_succ_iff.mp (mem_range.mp ht)) e (mem_range.mp he)]
  · exact Nat.lt_succ_iff.mp (mem_range.mp ht)

variable {P : ℕ} (hP : 0 < P) {capacity : ℕ} {c : Scales V} {bi : ℤ} {s : ℕ → Mem V}
  (htrace : IsTrace P (fullAttention f (hybridDims capacity c) w pos pos P fi bi) s)
include hP htrace

lemma appended_rows : ∀ kvh < 4, ∀ i < 256,
    s 3 (.kCache, rowsBase capacity fi + (pos * (4 * 256) + (kvh * 256 + i))) =
        keyOf f (hybridDims capacity c) w fi pos (s 1) kvh i ∧
      s 3 (.vCache, rowsBase capacity fi + (pos * (4 * 256) + (kvh * 256 + i))) =
        valueOf (hybridDims capacity c) (s 1) kvh i := by
  have hlen : (fullAttention f (hybridDims capacity c) w pos pos P fi bi).length = 8 := rfl
  have hnorm := htrace 1 (by omega)
  have hrope := htrace 2 (by omega)
  dsimp only [fullAttention, hybridDims, List.getElem_cons_succ, List.getElem_cons_zero, cacheBase] at hnorm hrope
  obtain ⟨-, hkeys⟩ := qknorm_at hP hnorm
  obtain ⟨-, hk, hv⟩ := rope_at hP hrope
  intro kvh hkvh i hi
  constructor
  · rw [show rowsBase capacity fi = fi * (capacity * 4 * 256) from rfl, hk kvh hkvh i hi]
    exact rotated_congr (show 64 / 2 + 64 / 2 ≤ 256 by omega) (fun e he => hkeys kvh hkvh e he) hi
  · rw [show rowsBase capacity fi = fi * (capacity * 4 * 256) from rfl, hv kvh hkvh i hi]
    refine hnorm.frame hP fun hmem => ?_
    have hpost := qknorm_separate.writes hmem
    exact Set.disjoint_left.mp (disjoint_cells (show regionsApart [rZab] [rPost] = true from rfl))
      (mem_part (show Region.part .ws oZab 6272 ∈ _ from List.mem_cons_self) (by omega) (by omega)) hpost

lemma kept_rows {cell : Cell} (hcell : cell.1 = .kCache ∨ cell.1 = .vCache)
    (hrow : cell ∉ rowCells (rowsBase capacity fi) pos) : s 3 cell = s 0 cell := by
  exact htrace.left.unchanged hP fun ph hph hmem => hrow ((appending_sound hP ph hph).caches cell hmem hcell)

variable (hcap : capacity ≤ 512) (hpos : pos < capacity)
include hcap hpos

lemma rows_after {cell : Cell} (hcell : cell.1 = .kCache ∨ cell.1 = .vCache) {j : ℕ} (hj : j ≤ 5) :
    s (3 + j) cell = s 3 cell := by
  rw [← List.take_append_drop 3 (fullAttention f (hybridDims capacity c) w pos pos P fi bi)] at htrace
  have hlen : ((fullAttention f (hybridDims capacity c) w pos pos P fi bi).drop 3).length = 5 := rfl
  refine htrace.right.frame hP (Nat.zero_le j) (by omega) fun k hk _ _ hmem => ?_
  exact (attending_sound (S := ∅) hP hcap hpos _ (List.getElem_mem hk)).caches cell hmem hcell

lemma fullAttention_context (hE : Exponential f.exp) : ∀ h < 24, ∀ i < 256,
    s 6 (.ws, oHeads + h * 256 + i) = context f (hybridDims capacity c) pos
      (queryOf f (hybridDims capacity c) w fi pos (s 1) h)
      (fun t e => s 3 (.kCache, rowsBase capacity fi + (t * (4 * 256) + (h / (24 / 4) * 256 + e))))
      (fun t e => s 3 (.vCache, rowsBase capacity fi + (t * (4 * 256) + (h / (24 / 4) * 256 + e))))
      (gateOf (hybridDims capacity c) (s 1) h) i := by
  have hlen : (fullAttention f (hybridDims capacity c) w pos pos P fi bi).length = 8 := rfl
  have hnorm := htrace 1 (by omega)
  have hrope := htrace 2 (by omega)
  have hscores := htrace 3 (by omega)
  have hsoftmax := htrace 4 (by omega)
  have hvalues := htrace 5 (by omega)
  have hrows {cell : Cell} (hcell : cell.1 = .kCache ∨ cell.1 = .vCache) : s 5 cell = s 3 cell :=
    rows_after hP htrace hcap hpos hcell (show 2 ≤ 5 by omega)
  dsimp only [fullAttention, hybridDims, List.getElem_cons_succ, List.getElem_cons_zero, cacheBase]
    at hnorm hrope hscores hsoftmax hvalues
  intro h hh i hi
  -- what the phases in between leave alone
  have hgate : s 5 (.ws, oPost + 24 * 256 + h * 256 + i) = gateOf (hybridDims capacity c) (s 1) h i := by
    have h5 : s 5 (.ws, oPost + 24 * 256 + h * 256 + i) = s 4 (.ws, oPost + 24 * 256 + h * 256 + i) :=
      hsoftmax.frame hP fun hmem => Set.disjoint_left.mp (disjoint_cells (show regionsApart [rPost] [rProbs] = true from rfl))
        (mem_part (show Region.part .ws oPost 20480 ∈ _ from List.mem_cons_self) (by omega) (by omega))
        ((softmax_separate hcap hpos).writes hmem)
    have h4 : s 4 (.ws, oPost + 24 * 256 + h * 256 + i) = s 3 (.ws, oPost + 24 * 256 + h * 256 + i) :=
      hscores.frame hP fun hmem => Set.disjoint_left.mp (disjoint_cells (show regionsApart [rPost] [rScores] = true from rfl))
        (mem_part (show Region.part .ws oPost 20480 ∈ _ from List.mem_cons_self) (by omega) (by omega))
        ((scores_separate hcap hpos).writes hmem)
    have h3 : s 3 (.ws, oPost + 24 * 256 + h * 256 + i) = s 2 (.ws, oPost + 24 * 256 + h * 256 + i) := by
      refine hrope.frame hP ?_
      rintro ⟨_, hcall, u, hu, _, v, hv⟩
      obtain rfl := List.mem_singleton.mp hcall
      obtain ⟨e, he, hst, hu'⟩ | ⟨e, -, hst, -⟩ | ⟨e, -, hst, -⟩ := hRopeAppend_stores (by omega) hv
      all_goals simp only [Prod.mk.injEq, reduceCtorEq, false_and, true_and] at hst
      omega
    rw [h5, h4, h3]
    exact ((qknorm_at hP hnorm).1 h hh i hi).2
  have hquery : ∀ e < 256, s 3 (.ws, oPost + h * 256 + e) = queryOf f (hybridDims capacity c) w fi pos (s 1) h e := by
    intro e he
    rw [(rope_at hP hrope).1 h hh e he]
    exact rotated_congr (show 64 / 2 + 64 / 2 ≤ 256 by omega) (fun e he => ((qknorm_at hP hnorm).1 h hh e he).1) he
  have hlanes : capacity ≤ min 1024 (nextPowerOf2 capacity) := le_min (by omega) (LaneLaunch.le_nextPowerOf2 capacity)
  rw [values_at hP hcap hpos hvalues h hh i hi, hgate]
  refine congrArg (· * _) ?_
  -- the probabilities, then the scores
  calc _ = _ := sum_congr rfl fun t ht => by
        rw [softmax_at hP hcap hpos hlanes hsoftmax h hh t (mem_range.mp ht), hrows (.inr rfl)]
    _ = _ := softmax_mean hE (show pos + 1 ≤ min 1024 (nextPowerOf2 capacity) by omega)
        (fun t i => s 3 (.vCache, fi * (capacity * 4 * 256) + (t * (4 * 256) + (h / (24 / 4) * 256 + i)))) i
    _ = _ := SplitSoftmax.attention_congr (fun t ht => ?_) fun _ _ => rfl
  rw [scores_at hP hcap hpos hscores h hh t (mem_range.mp ht)]
  refine congrArg (· * _) (sum_congr rfl fun e he => ?_)
  rw [hquery e (mem_range.mp he)]
  rfl

end

end VKernels.Hybrid
