import Mathlib.Algebra.BigOperators.Pi
import VKernels.Lib.LinearRecurrences

/-!
# The two references of the gated delta rule

`_kda_chunk_reference_impl` and `kda_recurrent_reference` of `torch_ops/glm_kda_chunk.py`, in exact arithmetic.  The
heads of a batch are independent of each other; a head's tokens are read with zeros after the last one.

* `recurrentToken`, `kdaRecurrentReference` — token by token.

## Results

* `substitute_inverse` — the rows solved are the inverse.
* `chunk_spec` — a chunk is its tokens.
* `kdaChunkReference_eq` — the chunked reference is the recurrent one on the scaled query.
-/

namespace VKernels.Kda.Reference

open Finset LinearRecurrences
open Function (update update_of_ne)

/-- Sums of logarithms to products. -/
structure Exponential (Λ F : Type) [AddCommGroup Λ] [CommRing F] where
  exp : Λ → F
  exp_zero : exp 0 = 1
  exp_add : ∀ a b, exp (a + b) = exp a * exp b

/-- A head's tokens; `g` are the logarithms of the gates. -/
structure Tokens (F Λ : Type) (K V : ℕ) where
  q : ℕ → Fin K → F
  k : ℕ → Fin K → F
  v : ℕ → Fin V → F
  g : ℕ → Fin K → Λ
  beta : ℕ → F

abbrev State (F : Type) (K V : ℕ) := Fin K → Fin V → F

section

variable {F Λ ι : Type} [CommRing F] [AddCommGroup Λ] {K V : ℕ}

namespace Tokens

/-- `F.pad`: zeros from token `S` on. -/
def pad (tok : Tokens F Λ K V) (S : ℕ) : Tokens F Λ K V where
  q t := if t < S then tok.q t else 0
  k t := if t < S then tok.k t else 0
  v t := if t < S then tok.v t else 0
  g t := if t < S then tok.g t else 0
  beta t := if t < S then tok.beta t else 0

/-- The query times the scale. -/
def scaled (tok : Tokens F Λ K V) (scale : F) : Tokens F Λ K V := { tok with q := fun t kk => tok.q t kk * scale }

/-- The tokens from `t0` on. -/
def drop (tok : Tokens F Λ K V) (t0 : ℕ) : Tokens F Λ K V :=
  ⟨fun t => tok.q (t0 + t), fun t => tok.k (t0 + t), fun t => tok.v (t0 + t), fun t => tok.g (t0 + t),
    fun t => tok.beta (t0 + t)⟩

end Tokens

variable (E : Exponential Λ F) (tok : Tokens F Λ K V)

/-! ## Token by token -/

def delta (state : State F K V) (i : ℕ) (d : Fin V) : F :=
  (tok.v i d - ∑ kk, state kk d * E.exp (tok.g i kk) * tok.k i kk) * tok.beta i

def recurrentToken (state : State F K V) (i : ℕ) : State F K V := fun kk d =>
  state kk d * E.exp (tok.g i kk) + tok.k i kk * delta E tok state i d

/-- The state and the rows of the output. -/
def recurrentHead (S : ℕ) (state : State F K V) : State F K V × (ℕ → Fin V → F) :=
  (List.range S).foldl (fun s i =>
    let state := recurrentToken E tok s.1 i
    (state, update s.2 i fun d => ∑ kk, state kk d * tok.q i kk)) (state, 0)

/-- `kda_recurrent_reference`. -/
def kdaRecurrentReference (toks : ι → Tokens F Λ K V) (S : ℕ) (initial : Option (ι → State F K V)) (final : Bool) :
    (ι → ℕ → Fin V → F) × Option (ι → State F K V) :=
  let r := fun hd => recurrentHead E (toks hd) S (initial.getD 0 hd)
  (fun hd => (r hd).2, if final then some fun hd => (r hd).1 else none)

/-! ## In chunks -/

/-- `g.cumsum`. -/
def cum (i : ℕ) (kk : Fin K) : Λ := ∑ l ∈ range (i + 1), tok.g l kk

def decayMask (i j : ℕ) (kk : Fin K) : F := E.exp (cum tok i kk - cum tok j kk)

/-- Before the substitution: zero from the diagonal on. -/
def attn0 (i j : ℕ) : F :=
  if j < i then -∑ kk, tok.k i kk * tok.beta i * tok.k j kk * decayMask E tok i j kk else 0

/-- `attn[i, :i] = row + (row @ attn[:i, :i])`, row by row. -/
def substitute (A : ℕ → ℕ → F) (cs : ℕ) : ℕ → ℕ → F :=
  (List.range' 1 (cs - 1)).foldl (fun (A : ℕ → ℕ → F) i =>
    update A i fun j => if j < i then A i j + ∑ l ∈ range i, A i l * A l j else A i j) A

variable (cs : ℕ)

def attn (i j : ℕ) : F := substitute (attn0 E tok) cs i j + if i = j then 1 else 0

def solvedValue (i : ℕ) (d : Fin V) : F := ∑ j ∈ range cs, attn E tok cs i j * (tok.v j d * tok.beta j)

def kCumdecay (i : ℕ) (kk : Fin K) : F :=
  ∑ j ∈ range cs, attn E tok cs i j * (tok.k j kk * tok.beta j * E.exp (cum tok j kk))

variable (state : State F K V)

def vNew (i : ℕ) (d : Fin V) : F := solvedValue E tok cs i d - ∑ kk, kCumdecay E tok cs i kk * state kk d

def attnIntra (i j : ℕ) : F := if j ≤ i then ∑ kk, tok.q i kk * tok.k j kk * decayMask E tok i j kk else 0

def chunkOut (i : ℕ) (d : Fin V) : F :=
  ∑ kk, tok.q i kk * E.exp (cum tok i kk) * state kk d + ∑ j ∈ range cs, attnIntra E tok i j * vNew E tok cs state j d

def chunkState : State F K V := fun kk d =>
  state kk d * E.exp (cum tok (cs - 1) kk) +
    ∑ j ∈ range cs, tok.k j kk * E.exp (cum tok (cs - 1) kk - cum tok j kk) * vNew E tok cs state j d

/-- Chunk `c`: the state, and the rows of the output. -/
def chunkStep (s : State F K V × (ℕ → Fin V → F)) (c : ℕ) : State F K V × (ℕ → Fin V → F) :=
  let chunk := tok.drop (c * cs)
  (chunkState E chunk cs s.1, fun t =>
    if c * cs ≤ t ∧ t < c * cs + cs then chunkOut E chunk cs s.1 (t - c * cs) else s.2 t)

def chunkHead (S : ℕ) : State F K V × (ℕ → Fin V → F) :=
  let total := S + (cs - S % cs) % cs
  (List.range (total / cs)).foldl (chunkStep E tok cs) (state, 0)

/-- `_kda_chunk_reference_impl`. -/
def kdaChunkReference (toks : ι → Tokens F Λ K V) (scale : F) (S : ℕ) (initial : Option (ι → State F K V)) (final : Bool) :
    (ι → ℕ → Fin V → F) × Option (ι → State F K V) :=
  let r := fun hd => chunkHead E (((toks hd).pad S).scaled scale) cs (initial.getD 0 hd) S
  (fun hd t => if t < S then (r hd).2 t else 0, if final then some fun hd => (r hd).1 else none)

end

/-! ## The triangular solve -/

section

variable {F : Type} [CommRing F] {A : ℕ → ℕ → F} {cs : ℕ}

lemma substitute_rows (hA : ∀ i j, i ≤ j → A i j = 0) (n : ℕ) :
    let T := (List.range' 1 n).foldl (fun (A : ℕ → ℕ → F) i =>
      update A i fun j => if j < i then A i j + ∑ l ∈ range i, A i l * A l j else A i j) A
    (∀ i, n < i → T i = A i) ∧ ∀ i ≤ n, ∀ j, T i j = if j < i then A i j + ∑ l ∈ range i, A i l * T l j else 0 := by
  induction n with
  | zero =>
    refine ⟨fun i _ => rfl, fun i hi j => ?_⟩
    rw [if_neg (by omega)]
    exact hA i j (by omega)
  | succ n ih =>
    rw [List.range'_1_concat, List.foldl_concat]
    generalize (List.range' 1 n).foldl _ A = T at ih ⊢
    obtain ⟨hrest, hrows⟩ := ih
    have hrow := hrest (1 + n) (by omega)
    have hkeep {i : ℕ} (row : ℕ → F) (hi : i ≤ n) : update T (1 + n) row i = T i :=
      update_of_ne (by omega) _ _
    refine ⟨fun i hi => ?_, fun i hi j => ?_⟩
    · rw [update_of_ne (by omega)]
      exact hrest i (by omega)
    · have hsum (row : ℕ → F) : ∑ l ∈ range i, A i l * update T (1 + n) row l j = ∑ l ∈ range i, A i l * T l j := by
        refine sum_congr rfl fun l hl => ?_
        rw [hkeep row (by have := mem_range.mp hl; omega)]
      rw [hsum]
      obtain hi | rfl : i ≤ n ∨ i = 1 + n := by omega
      · rw [hkeep _ hi]
        exact hrows i hi j
      · rw [Function.update_self, hrow]
        split
        · rfl
        · exact hA _ _ (by omega)

lemma substitute_inverse (hA : ∀ i j, i ≤ j → A i j = 0) (cs : ℕ) :
    IsInverse (fun i l => -A i l) (fun i j => substitute A cs i j + if i = j then 1 else 0) cs := by
  obtain ⟨-, hrows⟩ := substitute_rows hA _
  intro t ht j _
  have hT (i : ℕ) (hi : i < cs) : substitute A cs i j =
      if j < i then A i j + ∑ l ∈ range i, A i l * substitute A cs l j else 0 := hrows i (by omega) j
  have hsum : ∑ l ∈ range t, -A t l * (substitute A cs l j + if l = j then 1 else 0) =
      -∑ l ∈ range t, A t l * substitute A cs l j + if j < t then -A t j else 0 := by
    simp [mul_add, sum_add_distrib, mul_ite, mul_one, mul_zero, sum_ite_eq', mem_range, neg_mul, sum_neg_distrib]
  dsimp only
  rw [hsum, hT t ht]
  by_cases hj : j < t
  · rw [if_pos hj, if_pos hj, if_neg (by omega)]
    ring
  · have hzero : ∑ l ∈ range t, A t l * substitute A cs l j = 0 := by
      refine sum_eq_zero fun l hl => ?_
      have hl := mem_range.mp hl
      rw [hT l (by omega), if_neg (by omega), mul_zero]
    rw [if_neg hj, if_neg hj, hzero]
    ring

end

/-! ## One chunk -/

section

variable {F Λ : Type} [CommRing F] [AddCommGroup Λ] {K V : ℕ} {E : Exponential Λ F} {tok : Tokens F Λ K V}

variable (E tok) in
/-- The state after `n` tokens. -/
def stateAfter (state : State F K V) (n : ℕ) : State F K V := (List.range n).foldl (recurrentToken E tok) state

lemma stateAfter_succ (state : State F K V) (n : ℕ) :
    stateAfter E tok state (n + 1) = recurrentToken E tok (stateAfter E tok state n) n := by
  rw [stateAfter, List.range_succ, List.foldl_append]
  rfl

lemma stateAfter_add (state : State F K V) (n m : ℕ) :
    stateAfter E tok state (n + m) = stateAfter E (tok.drop n) (stateAfter E tok state n) m := by
  induction m with
  | zero => rfl
  | succ m ih =>
    rw [← add_assoc, stateAfter_succ, stateAfter_succ, ih]
    rfl

lemma gates_eq (a : ℕ) {b : ℕ} (kk : Fin K) (h : a ≤ b) :
    gates (fun i kk => E.exp (tok.g i kk)) a b kk = E.exp (∑ l ∈ Ico a b, tok.g l kk) := by
  induction b, h using Nat.le_induction with
  | base => simp [E.exp_zero]
  | succ b h ih => rw [gates_succ _ h, Pi.mul_apply, ih, sum_Ico_succ_top h, E.exp_add]

omit [CommRing F] in
lemma cum_sub {i j : ℕ} (h : j ≤ i) (kk : Fin K) :
    ∑ l ∈ Ico (j + 1) (i + 1), tok.g l kk = cum tok i kk - cum tok j kk :=
  sum_Ico_eq_sub _ (by omega)

/-- **The recurrence in closed form**, after the gates of token `i`. -/
theorem gated_closed (state : State F K V) (d : Fin V) (i : ℕ) (kk : Fin K) :
    stateAfter E tok state i kk d * E.exp (tok.g i kk) = E.exp (cum tok i kk) * state kk d +
      ∑ j ∈ range i, decayMask E tok i j kk * (tok.k j kk * delta E tok (stateAfter E tok state j) j d) := by
  have hstep (i : ℕ) : (fun kk => stateAfter E tok state (i + 1) kk d) =
      (fun kk => E.exp (tok.g i kk)) * (fun kk => stateAfter E tok state i kk d) +
        fun kk => tok.k i kk * delta E tok (stateAfter E tok state i) i d := by
    rw [stateAfter_succ]
    funext kk
    simp only [recurrentToken, Pi.add_apply, Pi.mul_apply]
    ring
  have hclosed := congrFun (unroll (g := fun i kk => E.exp _) (x := fun i kk => stateAfter E tok state i kk d)
    (n := i + 1) fun i _ => hstep i) kk
  rw [congrFun (hstep i) kk, sum_range_succ, gates_self, one_mul, ← add_assoc] at hclosed
  have hclosed := add_right_cancel hclosed
  simp only [Pi.mul_apply, Pi.add_apply, Finset.sum_apply] at hclosed
  rw [mul_comm, hclosed, gates_eq 0 kk (Nat.zero_le _), ← range_eq_Ico]
  congr 1
  refine sum_congr rfl fun j hj => ?_
  have hj := mem_range.mp hj
  rw [gates_eq (j + 1) kk (by omega), cum_sub hj.le, decayMask]

/-- **A chunk's corrected values** are those of the recurrence. -/
theorem vNew_eq (state : State F K V) (d : Fin V) {cs i : ℕ} (hi : i < cs) :
    vNew E tok cs state i d = delta E tok (stateAfter E tok state i) i d := by
  have hA : ∀ i j, i ≤ j → attn0 E tok i j = 0 := fun i j hij => if_neg (by omega)
  let rhs (j : ℕ) : F := tok.v j d * tok.beta j - ∑ kk, tok.k j kk * tok.beta j * E.exp (cum tok j kk) * state kk d
  have hsolved : Solves (fun i l => -attn0 E tok i l) cs (fun i => vNew E tok cs state i d) rhs := by
    have heq : (fun i => vNew E tok cs state i d) = fun i => ∑ j ∈ range cs, attn E tok cs i j * rhs j := by
      funext i
      simp only [vNew, solvedValue, kCumdecay, rhs, mul_sub, sum_sub_distrib, sum_mul, mul_sum]
      congr 1
      rw [sum_comm]
      exact sum_congr rfl fun j _ => sum_congr rfl fun kk _ => by ring
    rw [heq]
    exact (substitute_inverse hA cs).solves rhs
  have hrecurrent : Solves (fun i l => -attn0 E tok i l) cs
      (fun i => delta E tok (stateAfter E tok state i) i d) rhs := by
    intro t _
    have hterm (l : ℕ) (hl : l ∈ range t) : -attn0 E tok t l * delta E tok (stateAfter E tok state l) l d =
        ∑ kk, decayMask E tok t l kk * (tok.k l kk * delta E tok (stateAfter E tok state l) l d) * tok.k t kk * tok.beta t := by
      rw [attn0, if_pos (mem_range.mp hl), neg_neg, sum_mul]
      exact sum_congr rfl fun kk _ => by ring
    rw [sum_congr rfl hterm, sum_comm]
    have hpredicted : (∑ kk, stateAfter E tok state t kk d * E.exp (tok.g t kk) * tok.k t kk) * tok.beta t =
        ∑ kk, tok.k t kk * tok.beta t * E.exp (cum tok t kk) * state kk d + ∑ kk, ∑ l ∈ range t,
          decayMask E tok t l kk * (tok.k l kk * delta E tok (stateAfter E tok state l) l d) * tok.k t kk * tok.beta t := by
      rw [← sum_add_distrib, sum_mul]
      refine sum_congr rfl fun kk _ => ?_
      rw [gated_closed, add_mul, add_mul, sum_mul, sum_mul]
      ring
    show (tok.v t d - _) * tok.beta t + _ = _
    rw [sub_mul, hpredicted]
    ring
  exact hsolved.unique hrecurrent i hi

lemma stateAfter_closed (state : State F K V) (d : Fin V) (i : ℕ) (kk : Fin K) :
    stateAfter E tok state (i + 1) kk d = E.exp (cum tok i kk) * state kk d +
      ∑ j ∈ range (i + 1), decayMask E tok i j kk * (tok.k j kk * delta E tok (stateAfter E tok state j) j d) := by
  have hself : decayMask E tok i i kk = 1 := by rw [decayMask, sub_self, E.exp_zero]
  rw [stateAfter_succ, recurrentToken, gated_closed, sum_range_succ, hself]
  ring

variable (E tok) in
lemma chunk_spec (state : State F K V) {cs : ℕ} (hcs : 1 ≤ cs) : chunkState E tok cs state = stateAfter E tok state cs ∧
    ∀ i < cs, chunkOut E tok cs state i = fun d => ∑ kk, stateAfter E tok state (i + 1) kk d * tok.q i kk := by
  constructor
  · funext kk d
    obtain ⟨_, rfl⟩ : ∃ last, cs = last + 1 := ⟨cs - 1, by omega⟩
    rw [stateAfter_closed, chunkState, Nat.add_sub_cancel, mul_comm]
    refine congrArg _ (sum_congr rfl fun j hj => ?_)
    rw [vNew_eq state d (mem_range.mp hj), decayMask]
    ring
  · intro i hi
    funext d
    have hintra : ∑ j ∈ range cs, attnIntra E tok i j * vNew E tok cs state j d =
        ∑ j ∈ range (i + 1), ∑ kk, tok.q i kk * tok.k j kk * decayMask E tok i j kk *
          delta E tok (stateAfter E tok state j) j d := by
      rw [← sum_subset (range_subset_range.mpr hi) fun j _ hj => by
        rw [attnIntra, if_neg (by simpa using hj), zero_mul]]
      refine sum_congr rfl fun j hj => ?_
      have hj := mem_range.mp hj
      rw [attnIntra, if_pos (by omega), vNew_eq state d (by omega), sum_mul]
    rw [chunkOut, hintra, sum_comm, ← sum_add_distrib]
    refine sum_congr rfl fun kk _ => ?_
    rw [stateAfter_closed, add_mul, sum_mul]
    congr 1
    · ring
    · exact sum_congr rfl fun j _ => by ring

/-! ## The calls -/

lemma recurrentHead_eq (S : ℕ) (state : State F K V) : recurrentHead E tok S state = (stateAfter E tok state S,
    fun t => if t < S then fun d => ∑ kk, stateAfter E tok state (t + 1) kk d * tok.q t kk else 0) := by
  induction S with
  | zero => rfl
  | succ S ih =>
    rw [recurrentHead, List.range_succ, List.foldl_concat, ← recurrentHead, ih]
    refine Prod.ext (stateAfter_succ state S).symm ?_
    funext t
    by_cases ht : t = S
    · subst ht
      simp [stateAfter_succ]
    · have hiff : t < S + 1 ↔ t < S := by omega
      simp [update_of_ne ht, hiff]

variable (E tok) in
lemma chunks_spec (state : State F K V) {cs : ℕ} (hcs : 1 ≤ cs) (n : ℕ) :
    let s := (List.range n).foldl (chunkStep E tok cs) (state, 0)
    s.1 = stateAfter E tok state (n * cs) ∧
      ∀ t < n * cs, s.2 t = fun d => ∑ kk, stateAfter E tok state (t + 1) kk d * tok.q t kk := by
  induction n with
  | zero =>
    rw [Nat.zero_mul]
    exact ⟨rfl, fun t ht => absurd ht (Nat.not_lt_zero t)⟩
  | succ n ih =>
    obtain ⟨hstate, hrows⟩ := ih
    rw [List.range_succ, List.foldl_concat, Nat.add_one_mul]
    obtain ⟨hchunk, hout⟩ := chunk_spec E _ _ hcs
    dsimp only [chunkStep]
    rw [hstate]
    refine ⟨hchunk.trans (stateAfter_add state _ cs).symm, fun t ht => ?_⟩
    by_cases hold : t < n * cs
    · rw [if_neg (by omega)]
      exact hrows t hold
    · obtain ⟨i, rfl⟩ := Nat.exists_eq_add_of_le (not_lt.mp hold)
      rw [if_pos (by omega), Nat.add_sub_cancel_left, hout i (by omega), Nat.add_assoc, stateAfter_add state]
      rfl

/-- **Padding leaves no trace** in the state. -/
theorem stateAfter_padded (scale : F) (S : ℕ) (state : State F K V) (n : ℕ) :
    stateAfter E ((tok.pad S).scaled scale) state n = stateAfter E (tok.scaled scale) state (min n S) := by
  induction n with
  | zero => simp [stateAfter]
  | succ n ih =>
    rw [stateAfter_succ, ih]
    by_cases hn : n < S
    · rw [min_eq_left hn.le, min_eq_left (show n + 1 ≤ S from hn), stateAfter_succ]
      funext kk d
      simp [recurrentToken, delta, Tokens.pad, Tokens.scaled, hn]
    · rw [min_eq_right (by omega), min_eq_right (by omega)]
      funext kk d
      simp [recurrentToken, Tokens.pad, Tokens.scaled, hn, E.exp_zero]

lemma padded_length {cs : ℕ} (hcs : 1 ≤ cs) (S : ℕ) :
    (S + (cs - S % cs) % cs) / cs * cs = S + (cs - S % cs) % cs := by
  refine Nat.div_mul_cancel (Nat.dvd_of_mod_eq_zero ?_)
  have hlt := Nat.mod_lt S hcs
  rcases eq_zero_or_pos (S % cs) with hzero | hpos
  · rw [hzero, Nat.sub_zero, Nat.mod_self, Nat.add_zero, hzero]
  · rw [Nat.mod_eq_of_lt (show cs - S % cs < cs by omega), Nat.add_mod, Nat.mod_eq_of_lt (show cs - S % cs < cs by omega),
      Nat.add_sub_cancel' hlt.le, Nat.mod_self]

end

/-- **The chunked reference is the recurrent one** on the scaled query, for every length, every size of the chunks and
every initial state. -/
theorem kdaChunkReference_eq {F Λ ι : Type} [CommRing F] [AddCommGroup Λ] {K V : ℕ} (E : Exponential Λ F)
    (toks : ι → Tokens F Λ K V) (scale : F) (S cs : ℕ) (hcs : 1 ≤ cs) (initial : Option (ι → State F K V)) (final : Bool) :
    kdaChunkReference E cs toks scale S initial final =
      kdaRecurrentReference E (fun hd => (toks hd).scaled scale) S initial final := by
  have hhead (hd : ι) : (chunkHead E (((toks hd).pad S).scaled scale) cs (initial.getD 0 hd) S).1 =
      (recurrentHead E ((toks hd).scaled scale) S (initial.getD 0 hd)).1 ∧ ∀ t < S,
      (chunkHead E (((toks hd).pad S).scaled scale) cs (initial.getD 0 hd) S).2 t =
        (recurrentHead E ((toks hd).scaled scale) S (initial.getD 0 hd)).2 t := by
    obtain ⟨hstate, hrows⟩ := chunks_spec E (((toks hd).pad S).scaled scale) (initial.getD 0 hd) hcs
      ((S + (cs - S % cs) % cs) / cs)
    rw [padded_length hcs] at hstate hrows
    rw [recurrentHead_eq]
    refine ⟨?_, fun t ht => ?_⟩
    · rw [chunkHead]
      rw [hstate, stateAfter_padded, min_eq_right (Nat.le_add_right _ _)]
    · rw [chunkHead]
      dsimp only
      rw [hrows t (by omega), if_pos ht, stateAfter_padded, min_eq_left (show t + 1 ≤ S from ht)]
      simp [Tokens.pad, Tokens.scaled, ht]
  unfold kdaChunkReference kdaRecurrentReference
  refine Prod.ext ?_ ?_
  · funext hd t
    dsimp only
    split
    · exact (hhead hd).2 t ‹_›
    · rw [recurrentHead_eq]
      dsimp only
      rw [if_neg ‹_›]
  · split
    · exact congrArg some (funext fun hd => (hhead hd).1)
    · rfl

def powers : Exponential ℤ ℚ := ⟨fun n => 2 ^ n, zpow_zero 2, fun a b => zpow_add₀ (by norm_num) a b⟩

def fiveTokens : Unit → Tokens ℚ ℤ 1 1 := fun _ => ⟨fun t _ => t, fun _ _ => 1, fun t _ => t, fun _ _ => -1, fun _ => 1 / 2⟩

/-- In chunks of two. -/
theorem kdaChunkReference_eq_five : kdaChunkReference powers 2 fiveTokens (1 / 2) 5 none true =
    kdaRecurrentReference powers (fun hd => (fiveTokens hd).scaled (1 / 2)) 5 none true :=
  kdaChunkReference_eq powers fiveTokens (1 / 2) 5 2 (by norm_num) none true

end VKernels.Kda.Reference
