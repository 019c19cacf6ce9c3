import Mathlib.Tactic.NormNum
import VKernels.Kda.ExactGates
import VKernels.Lib.Sweeps

/-!
# The state-carrying delta rule

`kda_naive_delta_rule_fwd_state_cpu` and `kda_delta_rule_fwd_state_cpu` of `kernels/kda.cpp`: the recurrence with a
forget gate for every key dimension, token by token and in chunks by forward substitution, from a state to a state.

* `kdaNaiveDeltaRuleFwdStateCpu`, `kdaDeltaRuleFwdStateCpu` — the calls, over named state buffers.

## Results

* `forwardSubst_inverse` — forward substitution inverts `I + M`, whatever the chunk before left below the diagonal.
* `chunk_spec` — a chunk is its tokens.
* `kdaDeltaRuleFwdStateCpu_eq` — the chunked call is the naive one.
* `state_forward` — and shards are one pass, where no empty shard has a buffer of its own to hand on.
-/

namespace VKernels.Kda

open VKernels.LinearRecurrences VKernels.Sweeps Finset
open Function (update update_of_ne update_self)

/-- The inputs of one head, by token. -/
structure Tokens (F : Type) (D : ℕ) where
  q : ℕ → Fin D → F
  k : ℕ → Fin D → F
  v : ℕ → Fin D → F
  g : ℕ → Fin D → F
  beta : ℕ → F

/-- The tokens from `t0` on. -/
def Tokens.from {F : Type} {D : ℕ} (tok : Tokens F D) (t0 : ℕ) : Tokens F D :=
  ⟨fun t => tok.q (t0 + t), fun t => tok.k (t0 + t), fun t => tok.v (t0 + t), fun t => tok.g (t0 + t),
    fun t => tok.beta (t0 + t)⟩

/-- `S[v][k]`. -/
abbrev State (F : Type) (D : ℕ) := Fin D → Fin D → F

abbrev Head := ℕ × ℕ

/-- `for b, for h`. -/
def heads (B H : ℕ) : List Head := (List.range B).product (List.range H)

/-! ## Token by token -/

section

variable {F : Type} [CommRing F] {D : ℕ} (tok : Tokens F D)

/-- Gate, predict from the gated state, update. -/
def naiveToken (t : ℕ) (state : State F D) : State F D :=
  let gated : State F D := fun v k => state v k * tok.g t k
  let a := fun v => dot (gated v) (tok.k t)
  fun v k => gated v k + tok.beta t * (tok.v t v - a v) * tok.k t k

/-- The loop over the tokens of a head, on the state and the rows of `out`. -/
def naiveHead (S : ℕ) (state : State F D) (out : ℕ → Fin D → F) : State F D × (ℕ → Fin D → F) :=
  (List.range S).foldl (fun s t =>
    let state := naiveToken tok t s.1
    (state, update s.2 t fun v => dot (state v) (tok.q t))) (state, out)

/-- The state after `n` tokens. -/
def naiveState (state : State F D) (n : ℕ) : State F D := (List.range n).foldl (fun s t => naiveToken tok t s) state

variable {tok}

lemma naiveState_succ (state : State F D) (n : ℕ) :
    naiveState tok state (n + 1) = naiveToken tok n (naiveState tok state n) := by
  unfold naiveState
  rw [List.range_succ, List.foldl_append]
  rfl

lemma naiveState_add (state : State F D) (n m : ℕ) :
    naiveState tok state (n + m) = naiveState (tok.from n) (naiveState tok state n) m := by
  induction m with
  | zero => rfl
  | succ m ih =>
    rw [← add_assoc, naiveState_succ, naiveState_succ, ih]
    rfl

lemma naiveHead_eq (S : ℕ) (state : State F D) (out : ℕ → Fin D → F) :
    naiveHead tok S state out = (naiveState tok state S, fun t =>
      if t < S then fun v => dot (naiveState tok state (t + 1) v) (tok.q t) else out t) := by
  induction S with
  | zero => simp [naiveHead, naiveState]
  | succ S ih =>
    unfold naiveHead at ih ⊢
    rw [List.range_succ, List.foldl_append, ih]
    refine Prod.ext (naiveState_succ state S).symm ?_
    funext t
    by_cases ht : t = S
    · subst ht
      simp [naiveState_succ]
    · have hiff : t < S + 1 ↔ t < S := by omega
      simp [update_of_ne ht, hiff]

end

/-! ## In chunks -/

section

variable {F Λ : Type} [Field F] [LinearOrder F] [AddCommGroup Λ] {D : ℕ}

/-- Forward substitution, column by column: `Ainv` is written from the diagonal down. -/
def forwardSubst (M : ℕ → ℕ → F) (cs : ℕ) (Ainv : ℕ → ℕ → F) : ℕ → ℕ → F :=
  (List.range cs).foldl (fun A j =>
    (List.range (cs - j)).foldl (fun A i =>
      let t := j + i
      let x := (if t = j then 1 else 0) - ∑ l ∈ Ico j t, M t l * A l j
      update A t (update (A t) j x)) A) Ainv

/-- What a chunk finds and leaves: the buffer of the inverse, the carried state and the rows of `out`. -/
structure Work (F : Type) (D : ℕ) where
  Ainv : ℕ → ℕ → F
  C : State F D
  out : ℕ → Fin D → F

section

variable (E : ExactGates F Λ) (tok : Tokens F D) (cs : ℕ)

/-- The inclusive sum of the logarithms of a key dimension. -/
def L (t : ℕ) (kk : Fin D) : Λ := logCumsum E (fun l => tok.g l kk) t

/-- `M`, strictly lower triangular. -/
def gramM (t j : ℕ) : F :=
  if j < t then tok.beta j * ∑ kk, E.exp (L E tok t kk - L E tok j kk) * tok.k j kk * tok.k t kk else 0

/-- `N`, with its diagonal. -/
def gramN (t j : ℕ) : F := tok.beta j * ∑ kk, E.exp (L E tok t kk - L E tok j kk) * tok.k j kk * tok.q t kk

def kgw (t : ℕ) (kk : Fin D) : F := E.exp (L E tok t kk) * tok.k t kk

def qgw (t : ℕ) (kk : Fin D) : F := E.exp (L E tok t kk) * tok.q t kk

def kgb (t : ℕ) (kk : Fin D) : F := tok.beta t * E.exp (L E tok (cs - 1) kk - L E tok t kk) * tok.k t kk

def diagG (kk : Fin D) : F := E.exp (L E tok (cs - 1) kk)

variable (Ainv : ℕ → ℕ → F)

def uv (t : ℕ) (d : Fin D) : F := ∑ j ∈ range cs, Ainv t j * tok.v j d

def wRows (t : ℕ) (d : Fin D) : F := ∑ j ∈ range cs, Ainv t j * kgw E tok j d

def tRows (t : ℕ) (d : Fin D) : F := ∑ j ∈ range (t + 1), gramN E tok t j * uv tok cs Ainv j d

def pRows (t : ℕ) (d : Fin D) : F := ∑ j ∈ range (t + 1), gramN E tok t j * wRows E tok cs Ainv j d

def opar (t : ℕ) (d : Fin D) : F := qgw E tok t d - pRows E tok cs Ainv t d

variable (C : State F D)

/-- The serial pass: the corrected values, the rows of `out`, and the state. -/
def uRows (t : ℕ) (d : Fin D) : F := uv tok cs Ainv t d - ∑ kk, wRows E tok cs Ainv t kk * C d kk

def oRows (t : ℕ) (d : Fin D) : F := tRows E tok cs Ainv t d + ∑ kk, opar E tok cs Ainv t kk * C d kk

def carry (d kk : Fin D) : F :=
  diagG E tok cs kk * C d kk + ∑ t ∈ range cs, kgb E tok cs t kk * uRows E tok cs Ainv C t d

end

variable (E : ExactGates F Λ) (tok : Tokens F D) (cs : ℕ)

/-- Chunk `c` of a head. -/
def chunk (w : Work F D) (c : ℕ) : Work F D :=
  let t0 := c * cs
  let toks := tok.from t0
  let Ainv := forwardSubst (gramM E toks) cs w.Ainv
  { Ainv := Ainv
    C := carry E toks cs Ainv w.C
    out := fun t => if t0 ≤ t ∧ t < t0 + cs then oRows E toks cs Ainv w.C (t - t0) else w.out t }

def chunkedHead (nc : ℕ) (w : Work F D) : Work F D := (List.range nc).foldl (chunk E tok cs) w

end

/-! ## The calls -/

/-- The state buffers and the rows of `out`. -/
@[ext] structure Memory (F Buf : Type) (D : ℕ) where
  state : Buf → Head → State F D
  out : Head → ℕ → Fin D → F

/-- The state and the rows of a head written back. -/
def Memory.write {F Buf : Type} [DecidableEq Buf] {D : ℕ} (m : Memory F Buf D) (stateOut : Buf) (hd : Head)
    (state : State F D) (out : ℕ → Fin D → F) : Memory F Buf D where
  state := update m.state stateOut (update (m.state stateOut) hd state)
  out := update m.out hd out

section

variable {F Buf : Type} [CommRing F] [DecidableEq Buf] {D : ℕ}

/-- One head: read its state, run, write its state and its rows. -/
def naiveBody (toks : Head → Tokens F D) (S : ℕ) (stateIn stateOut : Buf) (hd : Head) (m : Memory F Buf D) :
    Memory F Buf D :=
  let r := naiveHead (toks hd) S (m.state stateIn hd) (m.out hd)
  m.write stateOut hd r.1 r.2

def kdaNaiveDeltaRuleFwdStateCpu (toks : Head → Tokens F D) (stateIn stateOut : Buf) (B H S : ℕ)
    (m : Memory F Buf D) : Except String (Memory F Buf D) :=
  if D = 0 then .error "D must be positive"
  else if B = 0 ∨ H = 0 ∨ S = 0 then .ok m
  else .ok (sweep (heads B H) (naiveBody toks S stateIn stateOut) m)

end

variable {F Λ Buf : Type} [Field F] [LinearOrder F] [AddCommGroup Λ] [DecidableEq Buf] {D : ℕ}

/-- One head in chunks.  The buffer of the inverse is the call's, not the head's. -/
def chunkedBody (E : ExactGates F Λ) (toks : Head → Tokens F D) (S cs : ℕ) (stateIn stateOut : Buf) (hd : Head)
    (s : (ℕ → ℕ → F) × Memory F Buf D) : (ℕ → ℕ → F) × Memory F Buf D :=
  let w := chunkedHead E (toks hd) cs (S / cs) ⟨s.1, s.2.state stateIn hd, s.2.out hd⟩
  (w.Ainv, s.2.write stateOut hd w.C w.out)

def kdaDeltaRuleFwdStateCpu (E : ExactGates F Λ) (toks : Head → Tokens F D) (stateIn stateOut : Buf) (B H S cs : ℕ)
    (m : Memory F Buf D) : Except String (Memory F Buf D) :=
  if D = 0 then .error "D must be positive"
  else if ¬ (0 < cs ∧ S % cs = 0) then .error "chunk_size must divide S"
  else if B = 0 ∨ H = 0 ∨ S = 0 then .ok m
  else .ok (sweep (heads B H) (chunkedBody E toks S cs stateIn stateOut) (fun _ _ => 0, m)).2

/-- A shard: its tokens, its chunks, and the buffer that takes its state. -/
structure Shard (Buf : Type) where
  len : ℕ
  chunkSize : ℕ
  stateOut : Buf

/-- The shards from token `offset` on, the first one from the buffer `stateIn`. -/
def runShards (E : ExactGates F Λ) (toks : Head → Tokens F D) (B H : ℕ) :
    List (Shard Buf) → Buf → ℕ → Memory F Buf D → Except String (Buf × Memory F Buf D)
  | [], stateIn, _, m => .ok (stateIn, m)
  | sh :: shards, stateIn, offset, m => do
    let r ← kdaDeltaRuleFwdStateCpu E (fun hd => (toks hd).from offset) stateIn sh.stateOut B H sh.len sh.chunkSize
      { m with out := fun hd t => m.out hd (offset + t) }
    runShards E toks B H shards sh.stateOut (offset + sh.len)
      { r with out := fun hd t => if offset ≤ t then r.out hd (t - offset) else m.out hd t }

/-! ## Forward substitution -/

section

variable {F : Type} [Field F]

/-- Zero above the diagonal. -/
def UpperZero (cs : ℕ) (A : ℕ → ℕ → F) : Prop := ∀ t j, t < j → j < cs → A t j = 0

lemma column_spec (M : ℕ → ℕ → F) (A₀ : ℕ → ℕ → F) (j n : ℕ) :
    let A := (List.range n).foldl (fun A i =>
      let t := j + i
      let x := (if t = j then 1 else 0) - ∑ l ∈ Ico j t, M t l * A l j
      update A t (update (A t) j x)) A₀
    (∀ t, j ≤ t → t < j + n → A t j = (if t = j then 1 else 0) - ∑ l ∈ Ico j t, M t l * A l j) ∧
      ∀ t j', ¬ (j' = j ∧ j ≤ t ∧ t < j + n) → A t j' = A₀ t j' := by
  induction n with
  | zero => exact ⟨fun t hjt ht => absurd ht (by omega), fun _ _ _ => rfl⟩
  | succ n ih =>
    rw [List.range_succ, List.foldl_concat]
    generalize (List.range n).foldl _ A₀ = A at ih ⊢
    obtain ⟨hrows, hrest⟩ := ih
    -- the entries above the new one are not touched
    have hold : ∀ {t} x, t ≠ j + n → update A (j + n) (update (A (j + n)) j x) t = A t :=
      fun x hne => update_of_ne hne _ _
    constructor
    · intro t hjt ht
      have hsum : ∀ x, ∑ l ∈ Ico j t, M t l *
          update A (j + n) (update (A (j + n)) j x) l j = ∑ l ∈ Ico j t, M t l * A l j := by
        intro x
        apply sum_congr rfl
        intro l hl
        have hlt := (mem_Ico.mp hl).2
        rw [hold x (by omega)]
      rw [hsum]
      by_cases hlast : t = j + n
      · subst hlast
        rw [update_self, update_self]
      · rw [hold _ hlast]
        exact hrows t hjt (by omega)
    · intro t j' hother
      by_cases hlast : t = j + n
      · have hj' : j' ≠ j := fun heq => hother ⟨heq, by omega, by omega⟩
        rw [hlast, update_self, update_of_ne hj']
        exact hrest _ _ fun h => hj' h.1
      · rw [hold _ hlast]
        exact hrest _ _ fun h => hother ⟨h.1, h.2.1, by omega⟩

/-- **Forward substitution inverts** `I + M`, and leaves the zeros above the diagonal. -/
theorem forwardSubst_inverse (M : ℕ → ℕ → F) (cs : ℕ) {A₀ : ℕ → ℕ → F} (hupper : UpperZero cs A₀) :
    IsInverse M (forwardSubst M cs A₀) cs ∧ UpperZero cs (forwardSubst M cs A₀) := by
  have hcolumns : ∀ n ≤ cs, ∀ A, (List.range n).foldl (fun A j =>
      (List.range (cs - j)).foldl (fun A i =>
        let t := j + i
        let x := (if t = j then 1 else 0) - ∑ l ∈ Ico j t, M t l * A l j
        update A t (update (A t) j x)) A) A₀ = A →
      (∀ j < n, ∀ t, j ≤ t → t < cs → A t j = (if t = j then 1 else 0) - ∑ l ∈ Ico j t, M t l * A l j) ∧
        ∀ t j, t < j ∨ n ≤ j → A t j = A₀ t j := by
    intro n
    induction n with
    | zero =>
      rintro - A rfl
      exact ⟨fun j hj => absurd hj (Nat.not_lt_zero j), fun _ _ _ => rfl⟩
    | succ n ih =>
      rintro hn A hA
      rw [List.range_succ, List.foldl_concat] at hA
      obtain ⟨hsolved, hrest⟩ := ih (by omega) _ rfl
      obtain ⟨hcolumn, hother⟩ := column_spec M _ n _
      rw [hA] at hcolumn hother
      constructor
      · intro j hj t hjt ht
        rcases Nat.lt_succ_iff_lt_or_eq.mp hj with hlt | rfl
        · have hkeep : ∀ l, A l j = _ := fun l => hother l j (by omega)
          rw [hkeep t, hsolved j hlt t hjt ht]
          simp [hkeep]
        · exact hcolumn t hjt (by omega)
      · intro t j htj
        rw [hother t j (by omega)]
        exact hrest t j (by omega)
  obtain ⟨hsolved, hrest⟩ := hcolumns cs le_rfl _ rfl
  have hzero : UpperZero cs (forwardSubst M cs A₀) := fun t j htj hj =>
    (hrest t j (.inl htj)).trans (hupper t j htj hj)
  refine ⟨fun t ht j hj => ?_, hzero⟩
  have hbelow : ∑ l ∈ range t, M t l * forwardSubst M cs A₀ l j = ∑ l ∈ Ico j t, M t l * forwardSubst M cs A₀ l j := by
    symm
    apply sum_subset
    · intro l hl
      exact mem_range.mpr (mem_Ico.mp hl).2
    · intro l hl hnot
      have hlt := mem_range.mp hl
      rw [hzero l j (by_contra fun hge => hnot (mem_Ico.mpr ⟨by omega, hlt⟩)) hj, mul_zero]
  rw [hbelow]
  rcases Nat.lt_or_ge t j with htj | hjt
  · rw [hzero t j htj hj, Ico_eq_empty (by omega), sum_empty, if_neg (by omega), add_zero]
  · have hrow : forwardSubst M cs A₀ t j = _ := hsolved j hj t hjt ht
    rw [hrow]
    exact sub_add_cancel _ _

end

/-! ## One chunk -/

section

section

variable {F : Type} [CommRing F] {D : ℕ} (tok : Tokens F D)

/-- The corrected value of a token, which the recurrence adds under `beta`. -/
def delta (C : State F D) (t : ℕ) (d : Fin D) : F :=
  tok.v t d - dot (fun kk => naiveState tok C t d kk * tok.g t kk) (tok.k t)

/-- What a token adds to a row. -/
def added (C : State F D) (d : Fin D) (t : ℕ) : Fin D → F := (tok.beta t * delta tok C t d) • tok.k t

lemma naiveState_row (C : State F D) (d : Fin D) (t : ℕ) :
    naiveState tok C (t + 1) d = tok.g t * naiveState tok C t d + added tok C d t := by
  rw [naiveState_succ]
  funext kk
  simp only [naiveToken, added, delta, Pi.add_apply, Pi.mul_apply, Pi.smul_apply, smul_eq_mul]
  ring

lemma naiveState_closed (C : State F D) (d : Fin D) (n : ℕ) : naiveState tok C n d =
      gates tok.g 0 n * C d + ∑ j ∈ range n, gates tok.g (j + 1) n * added tok C d j :=
  unroll (x := fun t => naiveState tok C t d) (w := added tok C d) fun t _ => naiveState_row tok C d t

lemma gated_closed (C : State F D) (d : Fin D) (t : ℕ) : tok.g t * naiveState tok C t d =
      gates tok.g 0 (t + 1) * C d + ∑ j ∈ range t, gates tok.g (j + 1) (t + 1) * added tok C d j := by
  have hclosed := naiveState_closed tok C d (t + 1)
  rw [naiveState_row, sum_range_succ, gates_self, one_mul, ← add_assoc] at hclosed
  exact add_right_cancel hclosed

end

section

variable {F Λ : Type} [Field F] [LinearOrder F] [AddCommGroup Λ] {D : ℕ} (E : ExactGates F Λ) {tok : Tokens F D}
  {cs : ℕ} (hg : ∀ t < cs, ∀ kk, 0 < tok.g t kk)
include hg

lemma exp_L {t : ℕ} (ht : t < cs) (kk : Fin D) : E.exp (L E tok t kk) = gates tok.g 0 (t + 1) kk := by
  rw [gates_apply]
  exact exp_logCumsum E fun l hl => hg l (by omega) kk

lemma exp_L_sub {j t : ℕ} (hjt : j ≤ t) (ht : t < cs) (kk : Fin D) :
    E.exp (L E tok t kk - L E tok j kk) = gates tok.g (j + 1) (t + 1) kk := by
  rw [gates_apply]
  exact exp_logCumsum_sub E hjt fun l hl => hg l (by omega) kk

lemma dot_entering (C : State F D) (d : Fin D) {t : ℕ} (ht : t < cs) (y : Fin D → F) :
    dot (gates tok.g 0 (t + 1) * C d) y = ∑ kk, E.exp (L E tok t kk) * y kk * C d kk := by
  unfold dot dotProduct
  apply sum_congr rfl
  intro _ _
  rw [exp_L E hg ht, Pi.mul_apply]
  ring

lemma dot_added (C : State F D) (d : Fin D) {j t : ℕ} (hjt : j ≤ t) (ht : t < cs) (y : Fin D → F) :
    dot (gates tok.g (j + 1) (t + 1) * added tok C d j) y =
      (tok.beta j * ∑ kk, E.exp (L E tok t kk - L E tok j kk) * tok.k j kk * y kk) * delta tok C j d := by
  unfold dot dotProduct
  rw [mul_sum, sum_mul]
  apply sum_congr rfl
  intro _ _
  rw [exp_L_sub E hg hjt ht]
  simp only [added, Pi.mul_apply, Pi.smul_apply, smul_eq_mul]
  ring

lemma delta_solves (C : State F D) (d : Fin D) :
    Solves (gramM E tok) cs (fun t => delta tok C t d) fun t => tok.v t d - ∑ kk, kgw E tok t kk * C d kk := by
  intro t ht
  have hgated : (fun kk => naiveState tok C t d kk * tok.g t kk) = tok.g t * naiveState tok C t d := by
    funext kk
    exact mul_comm _ _
  have hentering := dot_entering E hg C d ht (tok.k t)
  have hadded : ∑ j ∈ range t, dot (gates tok.g (j + 1) (t + 1) * added tok C d j) (tok.k t) =
      ∑ j ∈ range t, gramM E tok t j * delta tok C j d := by
    apply sum_congr rfl
    intro j hj
    have hjt := mem_range.mp hj
    rw [dot_added E hg C d hjt.le ht, gramM, if_pos hjt]
  show tok.v t d - dot _ _ + _ = _
  rw [hgated, gated_closed, dot_unrolled, hentering, hadded]
  simp only [kgw]
  ring

variable {Ainv : ℕ → ℕ → F} (hinv : IsInverse (gramM E tok) Ainv cs)
include hinv

lemma uRows_eq (C : State F D) (d : Fin D) {t : ℕ} (ht : t < cs) : uRows E tok cs Ainv C t d = delta tok C t d := by
  have happly : uRows E tok cs Ainv C t d = ∑ j ∈ range cs, Ainv t j * (tok.v j d - ∑ kk, kgw E tok j kk * C d kk) := by
    simp only [uRows, uv, wRows, mul_sub, sum_sub_distrib, sum_mul, mul_sum]
    rw [sum_comm]
    congr 1
    apply sum_congr rfl
    intro j _
    apply sum_congr rfl
    intro _ _
    ring
  rw [happly]
  exact (hinv.solves _).unique (delta_solves E hg C d) t ht

/-- **A row of `out`** is that of the token. -/
theorem oRows_eq (C : State F D) (d : Fin D) {t : ℕ} (ht : t < cs) :
    oRows E tok cs Ainv C t d = dot (naiveState tok C (t + 1) d) (tok.q t) := by
  have hsplit : oRows E tok cs Ainv C t d = ∑ kk, qgw E tok t kk * C d kk +
        ∑ j ∈ range (t + 1), gramN E tok t j * uRows E tok cs Ainv C j d := by
    simp only [oRows, tRows, opar, pRows, uRows, sub_mul, mul_sub, sum_sub_distrib, sum_mul, mul_sum]
    rw [sum_comm]
    have hassoc : ∑ j ∈ range (t + 1), ∑ kk, gramN E tok t j * wRows E tok cs Ainv j kk * C d kk =
        ∑ j ∈ range (t + 1), ∑ kk, gramN E tok t j * (wRows E tok cs Ainv j kk * C d kk) := by
      simp [mul_assoc]
    ring
  have hentering := dot_entering E hg C d ht (tok.q t)
  have hadded : ∑ j ∈ range (t + 1), dot (gates tok.g (j + 1) (t + 1) * added tok C d j) (tok.q t) =
      ∑ j ∈ range (t + 1), gramN E tok t j * uRows E tok cs Ainv C j d := by
    apply sum_congr rfl
    intro j hj
    have hjt := Nat.lt_succ_iff.mp (mem_range.mp hj)
    rw [dot_added E hg C d hjt ht, uRows_eq E hg hinv C d (by omega), gramN]
  rw [hsplit, naiveState_closed, dot_unrolled, hentering, hadded]
  simp [qgw]

/-- **The carried state** is that after the tokens of the chunk. -/
theorem carry_eq (hcs : 0 < cs) (C : State F D) : carry E tok cs Ainv C = naiveState tok C cs := by
  obtain ⟨n, rfl⟩ : ∃ n, cs = n + 1 := ⟨cs - 1, by omega⟩
  funext d kk
  have hlast : n < n + 1 := Nat.lt_succ_self n
  rw [naiveState_closed]
  simp only [Pi.add_apply, Pi.mul_apply, Finset.sum_apply]
  rw [← exp_L E hg hlast]
  unfold carry
  congr 1
  apply sum_congr rfl
  intro j hj
  have hjn := Nat.lt_succ_iff.mp (mem_range.mp hj)
  rw [uRows_eq E hg hinv C d (by omega), ← exp_L_sub E hg hjn hlast]
  simp only [kgb, added, Pi.smul_apply, smul_eq_mul, Nat.add_sub_cancel]
  ring

end

end

/-! ## Heads -/

section

variable {F Λ : Type} [Field F] [LinearOrder F] [AddCommGroup Λ] {D : ℕ} (E : ExactGates F Λ) {tok : Tokens F D}

/-- **A chunk is its tokens**, and leaves the zeros that the next one needs. -/
theorem chunk_spec {cs : ℕ} (hcs : 0 < cs) {c : ℕ} (hg : ∀ t < cs, ∀ kk, 0 < tok.g (c * cs + t) kk)
    {w : Work F D} (hupper : UpperZero cs w.Ainv) : UpperZero cs (chunk E tok cs w c).Ainv ∧
      (chunk E tok cs w c).C = naiveState (tok.from (c * cs)) w.C cs ∧
      ∀ t, (chunk E tok cs w c).out t = if c * cs ≤ t ∧ t < c * cs + cs then
        fun d => dot (naiveState (tok.from (c * cs)) w.C (t - c * cs + 1) d) (tok.q t) else w.out t := by
  obtain ⟨hinv, hzero⟩ := forwardSubst_inverse (gramM E (tok.from _)) cs hupper
  refine ⟨hzero, carry_eq E hg hinv hcs w.C, fun t => ?_⟩
  simp only [chunk]
  split
  · rename_i hin
    have hq : (tok.from (c * cs)).q (t - c * cs) = tok.q t := by
      show tok.q (c * cs + (t - c * cs)) = _
      rw [Nat.add_sub_cancel' hin.1]
    funext d
    rw [oRows_eq E hg hinv w.C d (by omega), hq]
  · rfl

lemma chunkedHead_spec {cs : ℕ} (hcs : 0 < cs) (nc : ℕ) (hg : ∀ t < nc * cs, ∀ kk, 0 < tok.g t kk)
    {w : Work F D} (hupper : UpperZero cs w.Ainv) : UpperZero cs (chunkedHead E tok cs nc w).Ainv ∧
      ((chunkedHead E tok cs nc w).C, (chunkedHead E tok cs nc w).out) = naiveHead tok (nc * cs) w.C w.out := by
  induction nc with
  | zero => exact ⟨hupper, by simp [chunkedHead, naiveHead]⟩
  | succ nc ih =>
    have hlast : (nc + 1) * cs = nc * cs + cs := by ring
    rw [hlast] at hg ⊢
    obtain ⟨hzero, hhead⟩ := ih fun t ht => hg t (by omega)
    have hsucc : chunkedHead E tok cs (nc + 1) w = chunk E tok cs (chunkedHead E tok cs nc w) nc := by
      unfold chunkedHead
      rw [List.range_succ, List.foldl_append]
      rfl
    rw [hsucc]
    obtain ⟨hzero', hC, hout⟩ := chunk_spec E hcs (fun t ht => hg (nc * cs + t) (by omega)) hzero
    rw [naiveHead_eq] at hhead
    obtain ⟨hC₀, hout₀⟩ := Prod.mk.injEq .. ▸ hhead
    refine ⟨hzero', ?_⟩
    rw [naiveHead_eq, Prod.mk.injEq]
    constructor
    · rw [hC, hC₀, naiveState_add]
    · funext t
      rw [hout, hC₀, hout₀]
      by_cases hin : nc * cs ≤ t ∧ t < nc * cs + cs
      · have hstate : naiveState tok w.C (t + 1) =
            naiveState (tok.from (nc * cs)) (naiveState tok w.C (nc * cs)) (t - nc * cs + 1) := by
          rw [← naiveState_add]
          congr 1
          omega
        rw [if_pos hin, if_pos hin.2, hstate]
      · have hiff : t < nc * cs + cs ↔ t < nc * cs := by omega
        rw [if_neg hin]
        simp [hiff]

end

/-! ## Calls -/

section

variable {F Buf : Type} {D : ℕ}

def Memory.slice (m : Memory F Buf D) (hd : Head) : (Buf → State F D) × (ℕ → Fin D → F) :=
  (fun buf => m.state buf hd, m.out hd)

lemma Memory.slice_ext {m m' : Memory F Buf D} (h : ∀ hd, m.slice hd = m'.slice hd) : m = m' := by
  apply Memory.ext
  · funext buf hd
    exact congrFun (congrArg Prod.fst (h hd)) buf
  · funext hd
    exact congrArg Prod.snd (h hd)

lemma Memory.slice_write [DecidableEq Buf] (m : Memory F Buf D) (stateOut : Buf) (key : Head) (state : State F D)
    (out : ℕ → Fin D → F) (hd : Head) : (m.write stateOut key state out).slice hd =
      if hd = key then (update (m.slice hd).1 stateOut state, out) else m.slice hd := by
  by_cases hhd : hd = key
  · subst hhd
    refine Prod.ext ?_ (by simp [slice, write])
    funext buf
    by_cases hbuf : buf = stateOut
    · subst hbuf
      simp [slice, write]
    · simp [slice, write, hbuf]
  · refine Prod.ext ?_ (by simp [slice, write, hhd])
    funext buf
    by_cases hbuf : buf = stateOut
    · subst hbuf
      simp [slice, write, hhd]
    · simp [slice, write, hbuf, hhd]

end

section

variable {F Buf : Type} [CommRing F] [DecidableEq Buf] {D : ℕ}

/-- What the recurrence makes of a slice. -/
def naiveSlice (toks : Head → Tokens F D) (S : ℕ) (stateIn stateOut : Buf) (hd : Head)
    (x : (Buf → State F D) × (ℕ → Fin D → F)) : (Buf → State F D) × (ℕ → Fin D → F) :=
  let r := naiveHead (toks hd) S (x.1 stateIn) x.2
  (update x.1 stateOut r.1, r.2)

lemma heads_nodup (B H : ℕ) : (heads B H).Nodup := List.nodup_range.product List.nodup_range

variable {toks : Head → Tokens F D} {stateIn stateOut : Buf} {B H S : ℕ}

lemma naive_sweep (m : Memory F Buf D) :
    (∀ hd ∈ heads B H, (sweep (heads B H) (naiveBody toks S stateIn stateOut) m).slice hd =
      naiveSlice toks S stateIn stateOut hd (m.slice hd)) ∧
    ∀ hd, hd ∉ heads B H → (sweep (heads B H) (naiveBody toks S stateIn stateOut) m).slice hd = m.slice hd := by
  have hlocal : Local (heads B H) (fun _ => True) Memory.slice (naiveBody toks S stateIn stateOut)
      (naiveSlice toks S stateIn stateOut) := by
    intro _ _ m _
    refine ⟨trivial, fun hd => ?_⟩
    rw [naiveBody, Memory.slice_write]
    split
    · rename_i hhd
      subst hhd
      rfl
    · rfl
  exact (sweep_slice hlocal (heads_nodup B H) trivial).2

/-- A call hands its state on: it has tokens, or it reads and writes one buffer. -/
def HandsOn (S : ℕ) (stateIn stateOut : Buf) : Prop := 0 < S ∨ stateOut = stateIn

lemma naive_call (toks : Head → Tokens F D) (B H : ℕ) (hD : D ≠ 0) (hhands : HandsOn S stateIn stateOut) (m : Memory F Buf D) :
    ∃ m', kdaNaiveDeltaRuleFwdStateCpu toks stateIn stateOut B H S m = .ok m' ∧ ∀ hd ∈ heads B H,
      m'.state stateOut hd = naiveState (toks hd) (m.state stateIn hd) S ∧ ∀ t, m'.out hd t = if t < S then
          fun d => dot (naiveState (toks hd) (m.state stateIn hd) (t + 1) d) ((toks hd).q t) else m.out hd t := by
  unfold kdaNaiveDeltaRuleFwdStateCpu
  rw [if_neg hD]
  by_cases hempty : B = 0 ∨ H = 0 ∨ S = 0
  · rw [if_pos hempty]
    refine ⟨m, rfl, fun hd hhd => ?_⟩
    have hBH := List.mem_product.mp hhd
    simp only [List.mem_range] at hBH
    have hS : S = 0 := by omega
    obtain hpos | rfl := hhands
    · omega
    · subst hS
      exact ⟨rfl, fun t => rfl⟩
  · rw [if_neg hempty]
    refine ⟨_, rfl, fun hd hhd => ?_⟩
    have hslice : (sweep (heads B H) (naiveBody toks S stateIn stateOut) m).slice hd = _ := (naive_sweep m).1 hd hhd
    rw [naiveSlice, naiveHead_eq] at hslice
    obtain ⟨hstate, hout⟩ := Prod.ext_iff.mp hslice
    constructor
    · have hread := congrFun hstate stateOut
      simpa [Memory.slice] using hread
    · intro t
      exact congrFun hout t

end

section

variable {toks : Head → Tokens F D} {stateIn stateOut : Buf} {B H S : ℕ}

lemma chunked_sweep (E : ExactGates F Λ) {cs : ℕ} (hcs : 0 < cs) (hS : cs ∣ S)
    (hg : ∀ hd ∈ heads B H, ∀ t < S, ∀ kk, 0 < (toks hd).g t kk) (m : Memory F Buf D) : (∀ hd ∈ heads B H,
      ((sweep (heads B H) (chunkedBody E toks S cs stateIn stateOut) (fun _ _ => 0, m)).2).slice hd =
        naiveSlice toks S stateIn stateOut hd (m.slice hd)) ∧ ∀ hd, hd ∉ heads B H →
      ((sweep (heads B H) (chunkedBody E toks S cs stateIn stateOut) (fun _ _ => 0, m)).2).slice hd = m.slice hd := by
  have hmul : S / cs * cs = S := Nat.div_mul_cancel hS
  have hlocal : Local (heads B H) (fun s => UpperZero cs s.1)
      (fun (s : (ℕ → ℕ → F) × Memory F Buf D) hd => s.2.slice hd)
      (chunkedBody E toks S cs stateIn stateOut) (naiveSlice toks S stateIn stateOut) := by
    intro key hkey s hs
    obtain ⟨hzero, hhead⟩ := chunkedHead_spec E hcs _ (hmul.symm ▸ hg key hkey)
      (w := ⟨s.1, s.2.state stateIn key, s.2.out key⟩) hs
    refine ⟨hzero, fun hd => ?_⟩
    rw [chunkedBody]
    dsimp only
    rw [Memory.slice_write]
    split
    · rename_i hhd
      subst hhd
      have hslice : naiveHead (toks hd) S ((s.2.slice hd).1 stateIn) (s.2.slice hd).2 = (_, _) := hmul ▸ hhead.symm
      rw [naiveSlice, hslice]
    · rfl
  exact (sweep_slice hlocal (heads_nodup B H) fun _ _ _ _ => rfl).2

lemma kdaDeltaRuleFwdStateCpu_eq (E : ExactGates F Λ) {cs : ℕ} (hcs : 0 < cs) (hS : cs ∣ S)
    (hg : ∀ hd ∈ heads B H, ∀ t < S, ∀ kk, 0 < (toks hd).g t kk) (m : Memory F Buf D) :
    kdaDeltaRuleFwdStateCpu E toks stateIn stateOut B H S cs m =
      kdaNaiveDeltaRuleFwdStateCpu toks stateIn stateOut B H S m := by
  have hmod : S % cs = 0 := Nat.mod_eq_zero_of_dvd hS
  unfold kdaDeltaRuleFwdStateCpu kdaNaiveDeltaRuleFwdStateCpu
  rw [if_neg (not_not.mpr ⟨hcs, hmod⟩)]
  split
  · rfl
  · split
    · rfl
    · congr 1
      apply Memory.slice_ext
      intro hd
      by_cases hhd : hd ∈ heads B H
      · rw [(naive_sweep m).1 hd hhd, (chunked_sweep E hcs hS hg m).1 hd hhd]
      · rw [(naive_sweep m).2 hd hhd, (chunked_sweep E hcs hS hg m).2 hd hhd]

end

/-! ## Shards -/

def totalLen (shards : List (Shard Buf)) : ℕ := (shards.map Shard.len).sum

/-- Every shard is cut into whole chunks and hands its state on. -/
def Chained : Buf → List (Shard Buf) → Prop
  | _, [] => True
  | stateIn, sh :: shards =>
    0 < sh.chunkSize ∧ sh.chunkSize ∣ sh.len ∧ HandsOn sh.len stateIn sh.stateOut ∧ Chained sh.stateOut shards

lemma runShards_spec (E : ExactGates F Λ) (toks : Head → Tokens F D) {B H : ℕ} (hD : D ≠ 0)
    (shards : List (Shard Buf)) {stateIn : Buf} (hchain : Chained stateIn shards) (offset : ℕ)
    (hg : ∀ hd ∈ heads B H, ∀ t < totalLen shards, ∀ kk, 0 < (toks hd).g (offset + t) kk) (m : Memory F Buf D) :
    ∃ stateLast m', runShards E toks B H shards stateIn offset m = .ok (stateLast, m') ∧ ∀ hd ∈ heads B H,
      m'.state stateLast hd = naiveState ((toks hd).from offset) (m.state stateIn hd) (totalLen shards) ∧
        ∀ t, m'.out hd t = if offset ≤ t ∧ t < offset + totalLen shards then
          fun d => dot (naiveState ((toks hd).from offset) (m.state stateIn hd) (t - offset + 1) d) ((toks hd).q t)
          else m.out hd t := by
  induction shards generalizing stateIn offset m with
  | nil =>
    refine ⟨stateIn, m, rfl, fun hd _ => ⟨rfl, fun t => ?_⟩⟩
    have hempty : ¬ (offset ≤ t ∧ t < offset + totalLen ([] : List (Shard Buf))) := by
      simp only [totalLen, List.map_nil, List.sum_nil]
      omega
    rw [if_neg hempty]
  | cons sh shards ih =>
    obtain ⟨hcs, hdvd, hhands, hrest⟩ := hchain
    have htotal : totalLen (sh :: shards) = sh.len + totalLen shards := by simp [totalLen]
    rw [htotal] at hg ⊢
    obtain ⟨m₁, hcall, hm₁⟩ := naive_call (fun hd => (toks hd).from offset) B H hD hhands
      { m with out := fun hd t => m.out hd _ }
    have hchunked : kdaDeltaRuleFwdStateCpu E (fun hd => (toks hd).from offset) stateIn sh.stateOut B H sh.len
        sh.chunkSize { m with out := fun hd t => m.out hd (offset + t) } = _ :=
      kdaDeltaRuleFwdStateCpu_eq E hcs hdvd (fun hd hhd t ht => hg hd hhd t (by omega)) _
    have hnext : ∀ hd ∈ heads B H, ∀ t < totalLen shards, ∀ kk, 0 < (toks hd).g (offset + sh.len + t) kk := by
      intro hd hhd t ht kk
      rw [add_assoc]
      exact hg hd hhd _ (by omega) kk
    obtain ⟨stateLast, m', hrun, hm'⟩ := ih hrest _ hnext
      { m₁ with out := fun hd t => if offset ≤ t then m₁.out hd _ else m.out hd t }
    refine ⟨stateLast, m', ?_, fun hd hhd => ?_⟩
    · unfold runShards
      rw [hchunked, hcall]
      exact hrun
    · obtain ⟨hstate₁, hout₁⟩ := hm₁ hd hhd
      obtain ⟨hstate, hout⟩ := hm' hd hhd
      have hfrom : ((toks hd).from offset).from sh.len = (toks hd).from (offset + sh.len) := by
        simp [Tokens.from, add_assoc]
      constructor
      · rw [hstate, naiveState_add, hfrom, ← hstate₁]
      · intro t
        rw [hout]
        by_cases hlater : offset + sh.len ≤ t ∧ t < offset + sh.len + totalLen shards
        · have hin : offset ≤ t ∧ t < offset + (sh.len + totalLen shards) := by omega
          have hsplit : naiveState ((toks hd).from offset) (m.state stateIn hd) (t - offset + 1) =
              naiveState ((toks hd).from (offset + sh.len)) (m₁.state sh.stateOut hd) (t - (offset + sh.len) + 1) := by
            rw [hstate₁, ← hfrom, ← naiveState_add]
            congr 1
            omega
          rw [if_pos hlater, if_pos hin, hsplit]
        · rw [if_neg hlater]
          dsimp only
          by_cases hge : offset ≤ t
          · rw [if_pos hge, hout₁]
            by_cases hlt : t - offset < sh.len
            · have hin : offset ≤ t ∧ t < offset + (sh.len + totalLen shards) := by omega
              have hq : ((toks hd).from offset).q (t - offset) = (toks hd).q t := by
                show (toks hd).q (offset + (t - offset)) = _
                rw [Nat.add_sub_cancel' hge]
              rw [if_pos hlt, if_pos hin, hq]
            · have hout : ¬ (offset ≤ t ∧ t < offset + (sh.len + totalLen shards)) := by omega
              rw [if_neg hlt, if_neg hout]
              show m.out hd (offset + (t - offset)) = _
              rw [Nat.add_sub_cancel' hge]
          · have hout : ¬ (offset ≤ t ∧ t < offset + (sh.len + totalLen shards)) := by omega
            rw [if_neg hge, if_neg hout]

/-- **The state-carrying forward**: in chunks it is the recurrence, memory for memory; and shards that hand their
states on leave the state and the rows of one pass, in any state buffers. -/
theorem state_forward (E : ExactGates F Λ) (toks : Head → Tokens F D) {B H S : ℕ} (hD : 0 < D)
    (hg : ∀ hd ∈ heads B H, ∀ t < S, ∀ kk, 0 < (toks hd).g t kk) {cs : ℕ} (hcs : 0 < cs) (hdvd : cs ∣ S)
    (stateIn stateOut : Buf) (m : Memory F Buf D) : kdaDeltaRuleFwdStateCpu E toks stateIn stateOut B H S cs m =
        kdaNaiveDeltaRuleFwdStateCpu toks stateIn stateOut B H S m ∧
      ∀ shards, totalLen shards = S → Chained stateIn shards → HandsOn S stateIn stateOut →
        ∃ onePass stateLast sharded, kdaDeltaRuleFwdStateCpu E toks stateIn stateOut B H S cs m = .ok onePass ∧
          runShards E toks B H shards stateIn 0 m = .ok (stateLast, sharded) ∧ ∀ hd ∈ heads B H,
            sharded.state stateLast hd = onePass.state stateOut hd ∧ sharded.out hd = onePass.out hd := by
  have hchunked : kdaDeltaRuleFwdStateCpu E toks stateIn stateOut B H S cs m =
      kdaNaiveDeltaRuleFwdStateCpu toks stateIn stateOut B H S m := kdaDeltaRuleFwdStateCpu_eq E hcs hdvd hg m
  refine ⟨hchunked, fun shards htotal hchain hhands => ?_⟩
  obtain ⟨onePass, hone, honePass⟩ := naive_call toks B H hD.ne' hhands m
  obtain ⟨stateLast, sharded, hrun, hsharded⟩ := runShards_spec E toks hD.ne' shards hchain 0 (fun hd hhd t ht kk => by
      rw [zero_add]
      exact hg hd hhd t (htotal ▸ ht) kk) m
  refine ⟨onePass, stateLast, sharded, hchunked.trans hone, hrun, fun hd hhd => ?_⟩
  obtain ⟨hstate, hout⟩ := honePass hd hhd
  obtain ⟨hstate', hout'⟩ := hsharded hd hhd
  have hfrom : (toks hd).from 0 = toks hd := by simp [Tokens.from]
  rw [hfrom, htotal] at hstate' hout'
  constructor
  · rw [hstate', hstate]
  · funext t
    rw [hout', hout]
    simp

/-- One head of one dimension, whose tokens are all ones. -/
def onesTokens : Head → Tokens ℚ 1 := fun _ =>
  ⟨fun _ _ => 1, fun _ _ => 1, fun _ _ => 1, fun _ _ => 1 / 2, fun _ => 1 / 2⟩

def zeroMemory : Memory ℚ ℕ 1 := ⟨fun _ _ _ _ => 0, fun _ _ _ => 0⟩

/-- Four tokens as shards of two, one and one, the states in two buffers by turns. -/
theorem state_forward_ones : ∃ onePass stateLast sharded,
      kdaDeltaRuleFwdStateCpu productGates onesTokens 0 5 1 1 4 2 zeroMemory = .ok onePass ∧
        runShards productGates onesTokens 1 1 [⟨2, 2, 1⟩, ⟨1, 1, 0⟩, ⟨1, 1, 1⟩] 0 0 zeroMemory = .ok (stateLast, sharded) ∧
          ∀ hd ∈ heads 1 1, sharded.state stateLast hd = onePass.state 5 hd ∧ sharded.out hd = onePass.out hd :=
  (state_forward productGates onesTokens (by decide) (fun _ _ _ _ _ => by norm_num [onesTokens]) (by decide) (by decide) 0 5
    zeroMemory).2 [⟨2, 2, 1⟩, ⟨1, 1, 0⟩, ⟨1, 1, 1⟩] rfl (by simp [Chained, HandsOn]) (.inl (by decide))

/-- A token, and an empty shard that should hand its state on in a buffer of its own: the buffer is not written. -/
theorem empty_shard_drops_state :
    let read := fun (m : Memory ℚ ℕ 1) (buf : ℕ) => m.state buf (0, 0) 0 0
    (kdaDeltaRuleFwdStateCpu productGates onesTokens 0 1 1 1 1 1 zeroMemory).toOption.map (read · 1) = some (1 / 2) ∧
      (runShards productGates onesTokens 1 1 [⟨1, 1, 1⟩, ⟨0, 1, 2⟩] 0 0 zeroMemory).toOption.map
        (fun r => (r.1, read r.2 r.1)) = some (2, 0) := by
  decide +kernel

end VKernels.Kda
