import VKernels.Kda.StateForward

/-!
# The standard gated delta rule in chunks

`kda_delta_rule_fwd_cpu` of `kernels/kda.cpp` and the passes that it runs: one gate for a token, and a prediction before
the gate.  Each pass is a loop over the heads; `Bufs` is what belongs to one head.

## Results

* `gateProdIntra_eq` — a window of the sums is the product of its gates, empty windows included.
* `intra_spec`, `inter_spec`, `glaFwdO_spec` — what each pass leaves, from the state that enters its chunk.
* `standard_forward` — the forward is the recurrence, in chunks of any size.
-/

namespace VKernels.Kda.Standard

open VKernels.LinearRecurrences VKernels.Sweeps Finset
open Function (update update_of_ne update_self)
open List hiding mem_range range

/-- The inputs of one head, by token, with a scalar gate. -/
structure Tokens (F : Type) (D : ℕ) where
  q : ℕ → Fin D → F
  k : ℕ → Fin D → F
  v : ℕ → Fin D → F
  g : ℕ → F
  beta : ℕ → F

/-- The buffers of one head: by chunk the sums and the entering states, by token the corrected values and the rows. -/
structure Bufs (F Λ : Type) (D : ℕ) where
  intraLog : ℕ → ℕ → Λ
  interLog : ℕ → Λ
  interState : ℕ → State F D
  u : ℕ → Fin D → F
  out : ℕ → Fin D → F

variable {F Λ : Type} [Field F] [LinearOrder F] [AddCommGroup Λ]

section

variable {D : ℕ} (E : ExactGates F Λ)

/-- `gate_prod_intra`. -/
def gateProdIntra (L : ℕ → Λ) (a b : ℤ) : F :=
  if b < a then 1 else E.exp (L b.toNat - if 0 < a then L (a - 1).toNat else 0)

variable (tok : Tokens F D) (cs : ℕ)

/-- `kda_gate_chunk_cumsum_cpu`. -/
def gateChunkCumsum (nc : ℕ) (m : Bufs F Λ D) : Bufs F Λ D :=
  ((List.range nc).foldl (fun s c =>
    let sums := (List.range cs).foldl (fun r t =>
      let acc := r.1 + logGate E (tok.g (c * cs + t))
      (acc, update r.2 t acc)) ((0 : Λ), s.2.intraLog c)
    (s.1 + sums.1, { s.2 with
      intraLog := update s.2.intraLog c sums.2
      interLog := update s.2.interLog c s.1 })) ((0 : Λ), m)).2

/-- One token of `kda_delta_rule_intra_cpu`. -/
def intraToken (L : ℕ → Λ) (Cin : State F D) (c : ℕ) (u : ℕ → Fin D → F) (t : ℕ) : ℕ → Fin D → F :=
  let kt := tok.k (c * cs + t)
  let pred := fun d => gateProdIntra E L 0 (t - 1) * dot (Cin d) kt
  let corr := fun d => ∑ j ∈ range t,
    gateProdIntra E L (j + 1) (t - 1) * tok.beta (c * cs + j) * dot (tok.k (c * cs + j)) kt * u (c * cs + j) d
  update u (c * cs + t) fun d => tok.v (c * cs + t) d - pred d - corr d

/-- `kda_delta_rule_intra_cpu` on chunk `c`. -/
def deltaRuleIntra (c : ℕ) (m : Bufs F Λ D) : Bufs F Λ D :=
  { m with u := (List.range cs).foldl (intraToken E tok cs (m.intraLog c) (m.interState c) c) m.u }

/-- `kda_delta_rule_inter_cpu` on chunk `c`. -/
def deltaRuleInter (c : ℕ) (m : Bufs F Λ D) : Bufs F Λ D :=
  let L := m.intraLog c
  { m with
    interState := update m.interState (c + 1) fun d e =>
      gateProdIntra E L 0 (cs - 1) * m.interState c d e +
        ∑ t ∈ range cs, gateProdIntra E L (t + 1) (cs - 1) * tok.beta (c * cs + t) * m.u (c * cs + t) d *
          tok.k (c * cs + t) e }

/-- One token of `kda_gla_fwd_o_cpu`. -/
def outToken (m : Bufs F Λ D) (c t : ℕ) : Fin D → F :=
  let qt := tok.q (c * cs + t)
  let L := m.intraLog c
  fun d => gateProdIntra E L 0 t * dot (m.interState c d) qt +
    ∑ j ∈ range (t + 1),
      gateProdIntra E L (j + 1) t * tok.beta (c * cs + j) * dot (tok.k (c * cs + j)) qt * m.u (c * cs + j) d

/-- `kda_gla_fwd_o_cpu`. -/
def glaFwdO (nc : ℕ) (m : Bufs F Λ D) : Bufs F Λ D :=
  { m with
    out := (List.range nc).foldl (fun out c => (List.range cs).foldl (fun out t =>
      update out (c * cs + t) (outToken E tok cs m c t)) out) m.out }

def perHead (B H : ℕ) (pass : Head → Bufs F Λ D → Bufs F Λ D) (m : Head → Bufs F Λ D) : Head → Bufs F Λ D :=
  sweep (heads B H) (fun hd m => update m hd (pass hd (m hd))) m

variable (toks : Head → Tokens F D)

/-- `kda_delta_rule_fwd_cpu`, on the rows of `out`; the other buffers are its own. -/
def kdaDeltaRuleFwdCpu (B H S : ℕ) (out : Head → ℕ → Fin D → F) : Except String (Head → ℕ → Fin D → F) :=
  if D = 0 then .error "D must be positive"
  else if ¬ (0 < cs ∧ S % cs = 0) then .error "chunk_size must divide S"
  else if B = 0 ∨ H = 0 ∨ S = 0 then .ok out
  else
    let nc := S / cs
    let m := perHead B H (fun hd => gateChunkCumsum E (toks hd) cs nc)
      fun hd => ⟨fun _ _ => 0, fun _ => 0, fun _ _ _ => 0, fun _ _ => 0, out hd⟩
    let m := (List.range nc).foldl (fun m c =>
      perHead B H (fun hd => deltaRuleInter E (toks hd) cs c)
        (perHead B H (fun hd => deltaRuleIntra E (toks hd) cs c) m)) m
    let m := perHead B H (fun hd => glaFwdO E (toks hd) cs nc) m
    .ok fun hd => (m hd).out

end

/-! ## The recurrence -/

section

variable {F : Type} [CommRing F] {D : ℕ} (tok : Tokens F D)

/-- `S_t = g_t S_{t-1} + beta_t (v_t - S_{t-1} k_t) k_t`. -/
def standardToken (t : ℕ) (state : State F D) : State F D := fun v k =>
  tok.g t * state v k + tok.beta t * (tok.v t v - dot (state v) (tok.k t)) * tok.k t k

/-- The state after `n` tokens, from zero. -/
def standardState : ℕ → State F D
  | 0 => fun _ _ => 0
  | n + 1 => standardToken tok n (standardState n)

/-- `o_t = S_t q_t`. -/
def standardOut (t : ℕ) : Fin D → F := fun d => dot (standardState tok (t + 1) d) (tok.q t)

/-- The corrected value of a token. -/
def delta (t : ℕ) (d : Fin D) : F := tok.v t d - dot (standardState tok t d) (tok.k t)

/-- What a token adds to a row. -/
def added (d : Fin D) (t : ℕ) : Fin D → F := (tok.beta t * delta tok t d) • tok.k t

lemma standardState_closed (t0 t : ℕ) (d : Fin D) :
    standardState tok (t0 + t) d = (gates (fun l => tok.g (t0 + l)) 0 t) • standardState tok t0 d +
      ∑ j ∈ range t, (gates (fun l => tok.g (t0 + l)) (j + 1) t) • added tok d (t0 + j) := by
  have hstep : ∀ l < t, standardState tok (t0 + (l + 1)) d =
      (fun _ => tok.g (t0 + l)) * standardState tok (t0 + l) d + added tok d (t0 + l) := by
    intro l _
    funext kk
    show standardToken tok (t0 + l) (standardState tok (t0 + l)) d kk = _
    simp [standardToken, added, delta, Pi.add_apply, Pi.mul_apply, Pi.smul_apply, smul_eq_mul]
  have hconst : ∀ a b (y : Fin D → F), gates (fun l (_ : Fin D) => tok.g (t0 + l)) a b * y =
      gates (fun l => tok.g (t0 + l)) a b • y := by
    intro a b y
    funext kk
    rw [Pi.mul_apply, gates_apply, Pi.smul_apply, smul_eq_mul]
  have hclosed := unroll (x := fun l => standardState tok _ d) (w := fun l => added tok d _) hstep
  simp only [hconst] at hclosed
  exact hclosed

lemma dot_closed (t0 t : ℕ) (d : Fin D) (y : Fin D → F) :
    dot (standardState tok (t0 + t) d) y = gates (fun l => tok.g (t0 + l)) 0 t * dot (standardState tok t0 d) y +
      ∑ j ∈ range t, gates (fun l => tok.g (t0 + l)) (j + 1) t * tok.beta (t0 + j) *
        dot (tok.k (t0 + j)) y * delta tok (t0 + j) d := by
  rw [standardState_closed, dot_unrolled]
  simp only [dot, added, smul_dotProduct, smul_eq_mul]
  congr 1
  apply sum_congr rfl
  intro j _
  ring

end

section

variable (E : ExactGates F Λ)

/-- **A window of the sums** is the product of the gates from `a` to before `b`. -/
theorem gateProdIntra_eq {L : ℕ → Λ} {g : ℕ → F} {cs : ℕ} (hL : ∀ t < cs, L t = logCumsum E g t)
    (hg : ∀ t < cs, 0 < g t) {a b : ℕ} (hab : a ≤ b) (hb : b ≤ cs) : gateProdIntra E L a (b - 1) = gates g a b := by
  unfold gateProdIntra
  rcases eq_or_lt_of_le hab with rfl | hlt
  · rw [if_pos (by omega), gates_self]
  · obtain ⟨n, rfl⟩ : ∃ n, b = n + 1 := ⟨b - 1, by omega⟩
    have hlast : ((n + 1 : ℕ) - 1 : ℤ).toNat = n := by omega
    rw [if_neg (by omega), hlast, hL n (by omega)]
    rcases eq_zero_or_pos a with rfl | ha
    · rw [if_neg (by simp), sub_zero, exp_logCumsum E fun l hl => hg l (by omega)]
    · obtain ⟨j, rfl⟩ : ∃ j, a = j + 1 := ⟨a - 1, by omega⟩
      have hfirst : ((j + 1 : ℕ) - 1 : ℤ).toNat = j := by omega
      rw [if_pos (by omega), hfirst, hL j (by omega), exp_logCumsum_sub E (by omega) fun l hl => hg l (by omega)]

end

/-! ## The passes on a head -/

section

variable {D : ℕ} (E : ExactGates F Λ) {tok : Tokens F D} {cs : ℕ}

def Sums (tok : Tokens F D) (cs c : ℕ) (L : ℕ → Λ) : Prop :=
  ∀ t < cs, L t = logCumsum E (fun l => tok.g (c * cs + l)) t

lemma sums_fold (g : ℕ → F) (L₀ : ℕ → Λ) (n : ℕ) :
    let r := (List.range n).foldl (fun r t =>
      let acc := r.1 + logGate E (g t)
      (acc, update r.2 t acc)) ((0 : Λ), L₀)
    r.1 = (List.range n).foldl (fun acc l => acc + logGate E (g l)) 0 ∧ ∀ t < n, r.2 t = logCumsum E g t := by
  induction n with
  | zero => exact ⟨rfl, fun t ht => absurd ht (Nat.not_lt_zero t)⟩
  | succ n ih =>
    rw [range_succ, foldl_append, foldl_append]
    obtain ⟨hacc, hwritten⟩ := ih
    have hlast : (List.range n).foldl (fun acc l => acc + logGate E (g l)) 0 + logGate E (g n) = logCumsum E g n := by
      unfold logCumsum
      rw [range_succ, foldl_append]
      rfl
    simp only [foldl_cons, foldl_nil]
    rw [hacc, hlast]
    refine ⟨rfl, fun t ht => ?_⟩
    rcases Nat.lt_succ_iff_lt_or_eq.mp ht with hlt | rfl
    · rw [update_of_ne hlt.ne]
      exact hwritten t hlt
    · rw [update_self]

lemma gateChunkCumsum_spec (nc : ℕ) (m : Bufs F Λ D) :
    (∀ c < nc, Sums E tok cs c ((gateChunkCumsum E tok cs nc m).intraLog c)) ∧
      (gateChunkCumsum E tok cs nc m).interState = m.interState ∧ (gateChunkCumsum E tok cs nc m).out = m.out := by
  unfold gateChunkCumsum
  induction nc with
  | zero => exact ⟨fun c hc => absurd hc (Nat.not_lt_zero c), rfl, rfl⟩
  | succ nc ih =>
    rw [range_succ, foldl_concat]
    obtain ⟨hsums, hstates, hout⟩ := ih
    refine ⟨fun c hc t ht => ?_, hstates, hout⟩
    dsimp only
    rcases Nat.lt_succ_iff_lt_or_eq.mp hc with hlt | rfl
    · rw [update_of_ne hlt.ne]
      exact hsums c hlt t ht
    · rw [update_self]
      exact (sums_fold E (fun l => tok.g _) _ cs).2 t ht

section

variable {c : ℕ} {m : Bufs F Λ D} (hg : ∀ t < cs, 0 < tok.g (c * cs + t)) (hsums : Sums E tok cs c (m.intraLog c))
  (hstate : m.interState c = standardState tok (c * cs))
include hg hsums hstate

/-- **The solve** finds the corrected values of the chunk, one after the other. -/
theorem intra_spec : (∀ t < cs, (deltaRuleIntra E tok cs c m).u (c * cs + t) = delta tok (c * cs + t)) ∧
      ∀ τ < c * cs, (deltaRuleIntra E tok cs c m).u τ = m.u τ := by
  have hprefix : ∀ n ≤ cs, ∀ u, (List.range n).foldl (intraToken E tok cs (m.intraLog c) (m.interState c) c) m.u = u →
      (∀ t < n, u (c * cs + t) = delta tok (c * cs + t)) ∧ ∀ τ < c * cs, u τ = m.u τ := by
    intro n
    induction n with
    | zero =>
      rintro - u rfl
      exact ⟨fun t ht => absurd ht (Nat.not_lt_zero t), fun _ _ => rfl⟩
    | succ n ih =>
      rintro hn u hu
      rw [range_succ, foldl_concat] at hu
      obtain ⟨hsolved, hbefore⟩ := ih (by omega) _ rfl
      subst hu
      constructor
      · intro t ht
        rcases Nat.lt_succ_iff_lt_or_eq.mp ht with hlt | rfl
        · rw [intraToken, update_of_ne (by omega)]
          exact hsolved t hlt
        · -- the token solved last: the prediction from the entering state, and the tokens of the chunk before it
          funext d
          have hentering : gateProdIntra E (m.intraLog c) 0 ((t : ℤ) - 1) = gates (fun l => tok.g (c * cs + l)) 0 t :=
            gateProdIntra_eq E hsums hg (Nat.zero_le t) (by omega)
          have hwindow : ∀ j < t, gateProdIntra E (m.intraLog c) ((j : ℤ) + 1) ((t : ℤ) - 1) =
              gates (fun l => tok.g (c * cs + l)) (j + 1) t := by
            intro j hj
            have heq := gateProdIntra_eq E hsums hg hj (show t ≤ cs by omega)
            rwa [Nat.cast_succ] at heq
          rw [intraToken, update_self, delta, dot_closed, hentering, hstate, sub_sub]
          congr 2
          apply sum_congr rfl
          intro j hj
          have hlt := mem_range.mp hj
          rw [hwindow j hlt, ← hstate, hsolved j hlt]
      · intro τ hτ
        rw [intraToken, update_of_ne (by omega)]
        exact hbefore τ hτ
  exact hprefix cs le_rfl _ rfl

variable (hu : ∀ t < cs, m.u (c * cs + t) = delta tok (c * cs + t))
include hu

lemma inter_spec : (deltaRuleInter E tok cs c m).interState (c + 1) = standardState tok ((c + 1) * cs) := by
  funext d e
  have hentering : gateProdIntra E (m.intraLog c) 0 ((cs : ℤ) - 1) = gates (fun l => tok.g (c * cs + l)) 0 cs :=
    gateProdIntra_eq E hsums hg (Nat.zero_le cs) le_rfl
  rw [add_one_mul, standardState_closed]
  simp only [deltaRuleInter, update_self, Pi.add_apply, Pi.smul_apply, smul_eq_mul, Finset.sum_apply]
  rw [hentering, hstate]
  congr 1
  apply sum_congr rfl
  intro t ht
  have hlt := mem_range.mp ht
  have hwindow : gateProdIntra E (m.intraLog c) ((t : ℤ) + 1) ((cs : ℤ) - 1) =
      gates (fun l => tok.g (c * cs + l)) (t + 1) cs := by
    have heq := gateProdIntra_eq E hsums hg hlt le_rfl
    rwa [Nat.cast_succ] at heq
  rw [hwindow, hu t hlt]
  simp only [added, Pi.smul_apply, smul_eq_mul]
  ring

lemma outToken_eq {t : ℕ} (ht : t < cs) : outToken E tok cs m c t = standardOut tok (c * cs + t) := by
  funext d
  have hentering : gateProdIntra E (m.intraLog c) 0 (t : ℤ) = gates (fun l => tok.g (c * cs + l)) 0 (t + 1) := by
    have heq := gateProdIntra_eq E hsums hg (Nat.zero_le (t + 1)) ht
    rwa [Nat.cast_succ, add_sub_cancel_right] at heq
  rw [standardOut, add_assoc, dot_closed]
  unfold outToken
  rw [hentering, hstate]
  congr 1
  apply sum_congr rfl
  intro j hj
  have hjt := mem_range.mp hj
  have hwindow : gateProdIntra E (m.intraLog c) ((j : ℤ) + 1) (t : ℤ) =
      gates (fun l => tok.g (c * cs + l)) (j + 1) (t + 1) := by
    have heq := gateProdIntra_eq E hsums hg hjt ht
    rwa [Nat.cast_succ, Nat.cast_succ, add_sub_cancel_right] at heq
  rw [hwindow, hu j (by omega)]

end

/-- Before chunk `n`: the sums of all chunks, the states up to the chunk, the values before it. -/
structure Ready (tok : Tokens F D) (cs nc n : ℕ) (out : ℕ → Fin D → F) (m : Bufs F Λ D) : Prop where
  sums : ∀ c < nc, Sums E tok cs c (m.intraLog c)
  states : ∀ c ≤ n, m.interState c = standardState tok (c * cs)
  corrected : ∀ τ < n * cs, m.u τ = delta tok τ
  out : m.out = out

variable {nc n : ℕ} {out : ℕ → Fin D → F} {m : Bufs F Λ D}

lemma Ready.chunk (h : Ready E tok cs nc n out m) (hn : n < nc) (hg : ∀ t < nc * cs, 0 < tok.g t) :
    Ready E tok cs nc (n + 1) out (deltaRuleInter E tok cs n (deltaRuleIntra E tok cs n m)) := by
  have hlast : n * cs + cs ≤ nc * cs := by
    rw [← add_one_mul]
    exact Nat.mul_le_mul_right cs hn
  have hgates : ∀ t < cs, 0 < tok.g (n * cs + t) := fun t ht => hg _ (by omega)
  obtain ⟨hsolved, hbefore⟩ := intra_spec E hgates (h.sums n hn) (h.states n le_rfl)
  refine ⟨h.sums, fun c hc => ?_, fun τ hτ => ?_, h.out⟩
  · rcases lt_or_eq_of_le hc with hlt | rfl
    · have hkeep : (deltaRuleInter E tok cs n (deltaRuleIntra E tok cs n m)).interState c = m.interState c :=
        update_of_ne hlt.ne _ _
      rw [hkeep]
      exact h.states c (Nat.lt_succ_iff.mp hlt)
    · exact inter_spec E hgates (m := deltaRuleIntra E tok cs n m) (h.sums n hn) (h.states n le_rfl) hsolved
  · show (deltaRuleIntra E tok cs n m).u τ = _
    rw [add_one_mul] at hτ
    by_cases hin : n * cs ≤ τ
    · obtain ⟨t, rfl⟩ := Nat.exists_eq_add_of_le hin
      exact hsolved t (by omega)
    · rw [hbefore τ (by omega)]
      exact h.corrected τ (by omega)

/-- **The rows** once every chunk is ready. -/
theorem glaFwdO_spec (h : Ready E tok cs nc nc out m) (hg : ∀ t < nc * cs, 0 < tok.g t) (t : ℕ) :
    (glaFwdO E tok cs nc m).out t = if t < nc * cs then standardOut tok t else out t := by
  have htoken : ∀ c < nc, ∀ t < cs, outToken E tok cs m c t = standardOut tok (c * cs + t) := by
    intro c hc t ht
    have hlast : c * cs + cs ≤ nc * cs := by
      rw [← add_one_mul]
      exact Nat.mul_le_mul_right cs hc
    exact outToken_eq E (fun t ht => hg _ (by omega)) (h.sums c hc) (h.states c hc.le)
      (fun t ht => h.corrected _ (by omega)) ht
  have hrow : ∀ c < nc, ∀ n ≤ cs, ∀ out₀ t, (List.range n).foldl (fun out t =>
      update out (c * cs + t) (outToken E tok cs m c t)) out₀ t =
        if c * cs ≤ t ∧ t < c * cs + n then standardOut tok t else out₀ t := by
    intro c hc n
    induction n with
    | zero =>
      intro _ out₀ t
      rw [if_neg (by omega)]
      rfl
    | succ n ih =>
      intro hn _ t
      rw [range_succ, foldl_concat]
      by_cases ht : t = c * cs + n
      · subst ht
        rw [update_self, if_pos (by omega)]
        exact htoken c hc n hn
      · have hiff : c * cs ≤ t ∧ t < c * cs + (n + 1) ↔ c * cs ≤ t ∧ t < c * cs + n := by omega
        rw [update_of_ne ht, ih (by omega)]
        simp [hiff]
  have hrows : ∀ n ≤ nc, ∀ t, (List.range n).foldl (fun out c => (List.range cs).foldl (fun out t =>
      update out (c * cs + t) (outToken E tok cs m c t)) out) m.out t =
        if t < n * cs then standardOut tok t else out t := by
    intro n
    induction n with
    | zero =>
      intro _ t
      rw [if_neg (by omega), ← h.out]
      rfl
    | succ n ih =>
      intro hn t
      rw [range_succ, foldl_concat, hrow n hn cs le_rfl, ih (by omega), add_one_mul]
      by_cases ht : t < n * cs
      · rw [if_neg (by omega), if_pos ht, if_pos (by omega)]
      · by_cases hin : t < n * cs + cs
        · rw [if_pos (by omega), if_pos hin]
        · rw [if_neg (by omega), if_neg ht, if_neg hin]
  exact hrows nc le_rfl t

end

/-! ## The forward -/

section

variable {F Λ : Type} {D : ℕ}

lemma perHead_spec (B H : ℕ) (pass : Head → Bufs F Λ D → Bufs F Λ D) (m : Head → Bufs F Λ D) :
    (∀ hd ∈ heads B H, perHead B H pass m hd = pass hd (m hd)) ∧ ∀ hd, hd ∉ heads B H → perHead B H pass m hd = m hd := by
  have hlocal : Local (heads B H) (fun _ => True) (fun (m : Head → Bufs F Λ D) hd => m hd)
      (fun hd m => update m hd (pass hd (m hd))) pass := by
    intro key _ m _
    refine ⟨trivial, fun hd => ?_⟩
    by_cases hhd : hd = key
    · subst hhd
      simp
    · simp [hhd]
  exact (sweep_slice hlocal (heads_nodup B H) trivial).2

lemma mem_heads {B H : ℕ} {hd : Head} : hd ∈ heads B H ↔ hd.1 < B ∧ hd.2 < H := by
  apply List.mem_product.trans
  simp

end

section

variable {D : ℕ}

/-- **The standard forward is the recurrence**: whatever the chunk size, the rows of the heads are those of the token by
token run from zero, and nothing else is written. -/
theorem standard_forward (E : ExactGates F Λ) (toks : Head → Tokens F D) {B H S : ℕ} (hD : 0 < D)
    (hg : ∀ b < B, ∀ h < H, ∀ t < S, 0 < (toks (b, h)).g t) {cs : ℕ} (hcs : 0 < cs) (hdvd : cs ∣ S)
    (out : Head → ℕ → Fin D → F) : kdaDeltaRuleFwdCpu E cs toks B H S out =
      .ok fun hd t => if hd.1 < B ∧ hd.2 < H ∧ t < S then standardOut (toks hd) t else out hd t := by
  have hmod : S % cs = 0 := Nat.mod_eq_zero_of_dvd hdvd
  have hmul : S / cs * cs = S := Nat.div_mul_cancel hdvd
  unfold kdaDeltaRuleFwdCpu
  rw [if_neg hD.ne', if_neg (not_not.mpr ⟨hcs, hmod⟩)]
  split
  · congr 1
    funext hd t
    rw [if_neg (by omega)]
  · dsimp only
    generalize hnc : S / cs = nc at *
    have hchunks : ∀ n ≤ nc, ∀ m, (List.range n).foldl (fun m c =>
        perHead B H (fun hd => deltaRuleInter E (toks hd) cs c)
          (perHead B H (fun hd => deltaRuleIntra E (toks hd) cs c) m))
        (perHead B H (fun hd => gateChunkCumsum E (toks hd) cs nc)
          fun hd => ⟨fun _ _ => 0, fun _ => 0, fun _ _ _ => 0, fun _ _ => 0, out hd⟩) = m →
        (∀ hd ∈ heads B H, Ready E (toks hd) cs nc n (out hd) (m hd)) ∧ ∀ hd, hd ∉ heads B H → (m hd).out = out hd := by
      intro n
      induction n with
      | zero =>
        rintro - m rfl
        constructor
        · intro hd hhd
          rw [List.range_zero, foldl_nil, (perHead_spec B H _ _).1 hd hhd]
          obtain ⟨hsums, hstates, hout⟩ := gateChunkCumsum_spec E nc _
          refine ⟨hsums, fun c hc => ?_, fun τ hτ => absurd hτ (by omega), hout⟩
          obtain rfl : c = 0 := Nat.le_zero.mp hc
          rw [hstates, Nat.zero_mul]
          rfl
        · intro hd hhd
          rw [List.range_zero, foldl_nil, (perHead_spec B H _ _).2 hd hhd]
      | succ n ih =>
        rintro hn m hm
        rw [range_succ, foldl_concat] at hm
        obtain ⟨hready, hrest⟩ := ih (by omega) _ rfl
        subst hm
        constructor
        · intro hd hhd
          rw [(perHead_spec B H _ _).1 hd hhd, (perHead_spec B H _ _).1 hd hhd]
          obtain ⟨hb, hh⟩ := mem_heads.mp hhd
          exact (hready hd hhd).chunk E hn fun t ht => hg hd.1 hb hd.2 hh t (hmul ▸ ht)
        · intro hd hhd
          rw [(perHead_spec B H _ _).2 hd hhd, (perHead_spec B H _ _).2 hd hhd]
          exact hrest hd hhd
    obtain ⟨hready, hrest⟩ := hchunks nc le_rfl _ rfl
    congr 1
    funext hd t
    by_cases hhd : hd ∈ heads B H
    · obtain ⟨hb, hh⟩ := mem_heads.mp hhd
      rw [(perHead_spec B H _ _).1 hd hhd,
        glaFwdO_spec E (hready hd hhd) (fun t ht => hg hd.1 hb hd.2 hh t (hmul ▸ ht)) t, hmul]
      simp only [hb, hh, true_and]
    · have hnot : ¬ (hd.1 < B ∧ hd.2 < H ∧ t < S) := fun h => hhd (mem_heads.mpr ⟨h.1, h.2.1⟩)
      rw [(perHead_spec B H _ _).2 hd hhd, hrest hd hhd, if_neg hnot]

/-- One head of one dimension, whose gates and deltas are one half. -/
def halfTokens : Head → Tokens ℚ 1 := fun _ =>
  ⟨fun _ _ => 1, fun _ _ => 1, fun _ _ => 1, fun _ => 1 / 2, fun _ => 1 / 2⟩

/-- Three tokens in one chunk. -/
theorem standard_forward_half : kdaDeltaRuleFwdCpu productGates 3 halfTokens 1 1 3 (fun _ _ _ => 0) =
      .ok fun hd t => if hd.1 < 1 ∧ hd.2 < 1 ∧ t < 3 then standardOut (halfTokens hd) t else fun _ => 0 :=
  standard_forward productGates halfTokens (by decide) (fun _ _ _ _ _ _ => by norm_num [halfTokens]) (by decide) (by decide)
    fun _ _ _ => 0

end

end VKernels.Kda.Standard
