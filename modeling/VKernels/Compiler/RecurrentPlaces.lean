import VKernels.Compiler.RecurrentDevice

/-!
# The recurrent device bodies at the places of the reference

The tensors and the pools of the reference bodies lie row-major in the flat buffers of the device bodies; there a device
task stores what its reference task stores.

* `ConvShape.place`, …, `ConvBuffers.tensors`, … — the places and the tensors.
* `tGdnConvTiled_eq`, `tGdnHeadsBatched_eq`, `tKdaHeadsBatched_eq`, `tKdaFused_eq` — one task.
-/

namespace VKernels.Recurrent

open Finset LocalActions OwnedTasks
open LaneLaunch (rows_apart)
open List hiding min not_le not_lt range sum_range_succ

/-! ## Places -/

variable {a b a' b' : ℕ}

/-- Row-major. -/
def ConvShape.place (s : ConvShape) : ConvLoc → Cell
  | .state b j c => (.state, b * (s.Km1 * s.C) + j * s.C + c)
  | .out b c => (.out, b * s.C + c)

def DeltaShape.place (s : DeltaShape) : DeltaLoc → Cell
  | .state b h r c => (.state, b * (s.NV * s.HV * s.HK) + h * s.HV * s.HK + r * s.HK + c)
  | .out b h r => (.out, b * (s.NV * s.HV) + h * s.HV + r)

def KdaShape.place (s : KdaShape) : KdaLoc → Cell
  | .state b h k v => (.state, b * (s.H * s.K * s.V) + h * s.K * s.V + k * s.V + v)
  | .out b h v => (.out, b * (s.H * s.V) + h * s.V + v)

def FusedShape.place (s : FusedShape) : FusedLoc → Cell
  | .conv slot j c => (.conv, slot * (s.Kw * (3 * s.seg)) + j * (3 * s.seg) + c)
  | .ssm slot h r d => (.ssm, slot * (s.H * s.K * s.K) + h * s.K * s.K + r * s.K + d)
  | .out b h r => (.out, b * (s.H * s.K) + h * s.K + r)

lemma pool_cell {A B C c d c' d' : ℕ} (hb : b < A) (hc : c < B) (hd : d < C) (hb' : b' < A) (hc' : c' < B)
    (hd' : d' < C) (h : (a * (A * B * C) + b * B * C + c * C + d : ℤ) = a' * (A * B * C) + b' * B * C + c' * C + d') :
    a = a' ∧ b = b' ∧ c = c' ∧ d = d' := by
  have hcell : ((a * A + b) * B + c) * C + d = ((a' * A + b') * B + c') * C + d' := by linarith
  obtain ⟨hrow, rfl⟩ := Blocks.place_inj hd hd' hcell
  obtain ⟨hhead, rfl⟩ := Blocks.place_inj hc hc' hrow
  obtain ⟨rfl, rfl⟩ := Blocks.place_inj hb hb' hhead
  exact ⟨rfl, rfl, rfl, rfl⟩

lemma row_cell {A B c c' : ℕ} (hb : b < A) (hc : c < B) (hb' : b' < A) (hc' : c' < B)
    (h : (a * (A * B) + b * B + c : ℤ) = a' * (A * B) + b' * B + c') : a = a' ∧ b = b' ∧ c = c' := by
  have hcell : (a * A + b) * B + c = (a' * A + b') * B + c' := by linarith
  obtain ⟨hrow, rfl⟩ := Blocks.place_inj hc hc' hcell
  obtain ⟨rfl, rfl⟩ := Blocks.place_inj hb hb' hrow
  exact ⟨rfl, rfl, rfl⟩

lemma ConvShape.place_injOn (s : ConvShape) : Set.InjOn s.place s.range := by
  intro l hl l' hl' heq
  obtain ⟨hbuf, hcell⟩ := Prod.mk.inj heq
  match l, l' with
  | .state b j c, .state b' j' c' =>
    obtain ⟨rfl, rfl, rfl⟩ := row_cell hl.2.1 hl.2.2 hl'.2.1 hl'.2.2 hcell
    rfl
  | .out b c, .out b' c' =>
    have hrow : (b * s.C + c : ℤ) = b' * s.C + c' := hcell
    obtain ⟨rfl, rfl⟩ := Blocks.place_inj hl.2 hl'.2 (by exact_mod_cast hrow)
    rfl
  | .state .., .out .. | .out .., .state .. => cases hbuf

lemma DeltaShape.place_injOn (s : DeltaShape) : Set.InjOn s.place s.range := by
  intro l hl l' hl' heq
  obtain ⟨hbuf, hcell⟩ := Prod.mk.inj heq
  match l, l' with
  | .state b h r c, .state b' h' r' c' =>
    obtain ⟨rfl, rfl, rfl, rfl⟩ := pool_cell hl.2.1 hl.2.2.1 hl.2.2.2 hl'.2.1 hl'.2.2.1 hl'.2.2.2 hcell
    rfl
  | .out b h r, .out b' h' r' =>
    obtain ⟨rfl, rfl, rfl⟩ := row_cell hl.2.1 hl.2.2 hl'.2.1 hl'.2.2 hcell
    rfl
  | .state .., .out .. | .out .., .state .. => cases hbuf

lemma KdaShape.place_injOn (s : KdaShape) : Set.InjOn s.place s.range := by
  intro l hl l' hl' heq
  obtain ⟨hbuf, hcell⟩ := Prod.mk.inj heq
  match l, l' with
  | .state b h k v, .state b' h' k' v' =>
    obtain ⟨rfl, rfl, rfl, rfl⟩ := pool_cell hl.2.1 hl.2.2.1 hl.2.2.2 hl'.2.1 hl'.2.2.1 hl'.2.2.2 hcell
    rfl
  | .out b h v, .out b' h' v' =>
    obtain ⟨rfl, rfl, rfl⟩ := row_cell hl.2.1 hl.2.2 hl'.2.1 hl'.2.2 hcell
    rfl
  | .state .., .out .. | .out .., .state .. => cases hbuf

lemma FusedShape.place_injOn (s : FusedShape) : Set.InjOn s.place s.range := by
  intro l hl l' hl' heq
  obtain ⟨hbuf, hcell⟩ := Prod.mk.inj heq
  match l, l' with
  | .conv slot j c, .conv slot' j' c' =>
    have hcast : (slot * (s.Kw * (3 * s.seg)) + j * (3 * s.seg) + c : ℤ) =
        slot' * (s.Kw * (3 * s.seg)) + j' * (3 * s.seg) + c' := hcell
    obtain ⟨rfl, rfl, rfl⟩ := row_cell hl.2.1 hl.2.2 hl'.2.1 hl'.2.2 (by exact_mod_cast hcast)
    rfl
  | .ssm slot h r d, .ssm slot' h' r' d' =>
    obtain ⟨rfl, rfl, rfl, rfl⟩ := pool_cell hl.2.1 hl.2.2.1 hl.2.2.2 hl'.2.1 hl'.2.2.1 hl'.2.2.2 hcell
    rfl
  | .out b h r, .out b' h' r' =>
    obtain ⟨rfl, rfl, rfl⟩ := row_cell hl.2.1 hl.2.2 hl'.2.1 hl'.2.2 hcell
    rfl
  | .conv .., .ssm .. | .conv .., .out .. | .ssm .., .conv .. | .ssm .., .out .. | .out .., .conv .. | .out .., .ssm .. =>
    cases hbuf

/-! ## Tensors -/

section

variable {V : Type}

/-- The tensors of the buffers, row-major. -/
def ConvBuffers.tensors (p : ConvBuffers V) (s : ConvShape) : ConvInputs V where
  x b c := p.x (b * s.C + c)
  w c j := p.w (c * (s.Km1 + 1) + j)

def DeltaBuffers.tensors (p : DeltaBuffers V) (s : DeltaShape) : DeltaInputs V where
  q b h c := p.q (b * (s.NK * s.HK) + h * s.HK + c)
  k b h c := p.k (b * (s.NK * s.HK) + h * s.HK + c)
  v b h r := p.v (b * (s.NV * s.HV) + h * s.HV + r)
  z b h r := p.z (b * (s.NV * s.HV) + h * s.HV + r)
  a b h := p.a (b * s.NV + h)
  b b h := p.b (b * s.NV + h)
  aLog := p.alog
  dtBias := p.dtb
  normW := p.normw
  scale := p.scale
  eps := p.eps

def KdaBuffers.tensors (p : KdaBuffers V) (s : KdaShape) : KdaInputs V where
  q b h k := p.q (b * (s.H * s.K) + h * s.K + k)
  k b h k := p.k (b * (s.H * s.K) + h * s.K + k)
  v b h v := p.v (b * (s.H * s.V) + h * s.V + v)
  f b h k := p.f (b * (s.H * s.K) + h * s.K + k)
  b b h := p.b (b * s.H + h)
  dtBias h k := p.dtb (h * s.K + k)
  aLog := p.alog
  scale := p.scale
  lowerBound := p.lowerBound

def FusedBuffers.tensors (p : FusedBuffers V) (s : FusedShape) : FusedInputs V where
  slotIds := p.ids
  qkvRaw b c := p.qkv (b * (3 * s.seg) + c)
  fRaw b h d := p.f (b * (s.H * s.K) + h * s.K + d)
  bRaw b h := p.b (b * s.H + h)
  gRaw b h d := p.g (b * (s.H * s.K) + h * s.K + d)
  taps j c := p.taps (j * (3 * s.seg) + c)
  dtBias h d := p.dtb (h * s.K + d)
  aLog := p.alog
  oNorm := p.onorm
  scale := p.scale
  eps := p.eps
  lowerBound := p.lowerBound

end

/-! ## Tasks -/

section

variable {V : Type} [Field V] {f : Functions V}

lemma bodyGdnConv_run {s : ConvShape} {k : ℕ} (hk : s.Km1 = k + 1) {i : ConvInputs V} {b t : ℕ}
    (hfit : (t + 1) * s.tile ≤ s.C) (m : Mem V) : ((bodyGdnConv f s i (b, t)).place s.place).run m =
      store s.tile (fun l => s.place (.state b k (t * s.tile + l))) (fun l => i.x b (t * s.tile + l))
        (storeTile k s.tile (fun j l => s.place (.state b j (t * s.tile + l)))
          (fun j l => m (s.place (.state b (j + 1) (t * s.tile + l))))
          (store s.tile (fun l => s.place (.out b (t * s.tile + l)))
            (fun l => f.toOut (convAcc s i (m ∘ s.place) b (t * s.tile + l) /
              (1 + f.exp (-convAcc s i (m ∘ s.place) b (t * s.tile + l))))) m)) := by
  have hwidth : min ((t + 1) * s.tile) s.C - t * s.tile = s.tile := by
    rw [min_eq_left hfit, Nat.add_one_mul, Nat.add_sub_cancel_left]
  have hlast : ¬k + 1 < s.Km1 := by omega
  have hrows (loc : ℕ → ℕ → Cell) (val : ℕ → ℕ → V) : storeRows s.Km1 s.tile loc val =
      storeRows k s.tile loc val ++ storeRow s.tile (loc k) (val k) := by rw [hk, storeRows_succ]
  unfold Action.run Action.place bodyGdnConv
  dsimp only
  rw [hwidth, map_append, map_storeRow, map_storeRows, hrows, assign_append, assign_append]
  simp only [hlast, if_false]
  have hshift : storeRows k s.tile (fun j l => s.place (.state b j (t * s.tile + l)))
      (fun j l => if j + 1 < s.Km1 then (m ∘ s.place) (.state b (j + 1) (t * s.tile + l)) else i.x b (t * s.tile + l)) =
      storeRows k s.tile (fun j l => s.place (.state b j (t * s.tile + l)))
        fun j l => m (s.place (.state b (j + 1) (t * s.tile + l))) := by
    refine storeRows_congr (fun _ _ _ _ => rfl) fun j hj l _ => ?_
    exact if_pos (by omega)
  rw [hshift]
  rfl

lemma tGdnConvTiled_eq (s : ConvShape) (p : ConvBuffers V) (htaps : 0 < s.Km1) {task : ℕ}
    (htask : task < s.B * (s.C / s.tile)) (m : Mem V) : tGdnConvTiled f (s.Km1 + 1) s.C s.tile p task m =
      ((bodyGdnConv f s (p.tensors s) (task / (s.C / s.tile), task % (s.C / s.tile))).place s.place).run m := by
  obtain ⟨k, hk⟩ := Nat.exists_eq_add_of_lt htaps
  rw [zero_add] at hk
  have htile : task % (s.C / s.tile) < s.C / s.tile := Nat.mod_lt _ (Nat.pos_of_mul_pos_left (Nat.zero_lt_of_lt htask))
  have hfit : (task % (s.C / s.tile) + 1) * s.tile ≤ s.C :=
    (Nat.mul_le_mul_right _ htile).trans (Nat.div_mul_le_self s.C s.tile)
  have hb : task / (s.C / s.tile) < s.B := Nat.div_lt_of_lt_mul (by rwa [mul_comm])
  rw [bodyGdnConv_run hk hfit]
  have hadd (n : ℕ) : (((n + 1 : ℕ) : ℤ) - 1) = n := by omega
  have hlast : (((s.Km1 + 1 : ℕ) : ℤ) - 2) = k := by omega
  have hmoves : s.Km1 + 1 - 2 = k := by omega
  unfold tGdnConvTiled
  simp only [hadd, hlast, hmoves]
  generalize task / (s.C / s.tile) = b at hb ⊢
  generalize task % (s.C / s.tile) = t at hfit ⊢
  have hinside {l : ℕ} (hl : l ∈ List.range s.tile) : t * s.tile + l < s.C := by
    rw [add_one_mul] at hfit
    have := List.mem_range.mp hl
    omega
  have hacc (l : ℕ) : ∑ j ∈ range s.Km1, p.w ((t * s.tile + l) * (s.Km1 + 1) + j) *
        m (s.place (.state b j (t * s.tile + l))) +
        p.w ((t * s.tile + l) * (s.Km1 + 1) + s.Km1) * p.x (b * s.C + (t * s.tile + l)) =
      convAcc s (p.tensors s) (m ∘ s.place) b (t * s.tile + l) := by
    simp only [mul_comm (p.w _)]
    rfl
  have hshift (m : Mem V) : (List.range k).foldl (fun m j => store s.tile (fun l => s.place (.state b j (t * s.tile + l)))
        (fun l => m (s.place (.state b (j + 1) (t * s.tile + l)))) m) m =
      storeTile k s.tile (fun j l => s.place (.state b j (t * s.tile + l)))
        (fun j l => m (s.place (.state b (j + 1) (t * s.tile + l)))) m := by
    refine foldl_shift m (fun j j' hj hj' l hl l' hl' heq => ?_) le_rfl
    have hrange (j : ℕ) (hj : j ≤ k) {l : ℕ} (hl : l ∈ List.range s.tile) :
        ConvLoc.state b j (t * s.tile + l) ∈ s.range := ⟨hb, by omega, hinside hl⟩
    have hloc := s.place_injOn (hrange j (by omega) hl) (hrange j' hj' hl') heq
    have := (ConvLoc.state.inj hloc).2.1
    omega
  have hkept (m' : ℕ → V) (j l : ℕ) : store s.tile (fun l => s.place (.out b (t * s.tile + l))) m' m
      (s.place (.state b (j + 1) (t * s.tile + l))) = m (s.place (.state b (j + 1) (t * s.tile + l))) := by
    refine assign_notMem (fun st hst heq => ?_) m
    obtain ⟨_, -, rfl⟩ := mem_storeRow.mp hst
    cases (Prod.mk.inj heq).1
  simp only [← hacc]
  refine congrArg _ ((hshift _).trans ?_)
  exact congrArg (fun val => storeTile k s.tile _ val _) (funext fun j => funext fun l => hkept _ j l)

variable [LinearOrder V]

lemma tGdnHeadsBatched_eq (s : DeltaShape) (p : DeltaBuffers V) (task : ℕ) (m : Mem V) :
    tGdnHeadsBatched f s.NV s.NK s.HV s.HK p task m =
      ((bodyGdnDelta f s (p.tensors s) (task / s.NV, task % s.NV)).place s.place).run m := by
  have hbody : ((bodyGdnDelta f s (p.tensors s) (task / s.NV, task % s.NV)).place s.place).run m =
      store s.HV (fun r => s.place (.out (task / s.NV) (task % s.NV) r))
        (fun r => f.toOut (gdnOut f s (p.tensors s) (m ∘ s.place) (task / s.NV) (task % s.NV) r))
        (storeTile s.HV s.HK (fun r c => s.place (.state (task / s.NV) (task % s.NV) r c))
          (gdnState f s (p.tensors s) (m ∘ s.place) (task / s.NV) (task % s.NV)) m) := by
    unfold Action.run Action.place bodyGdnDelta
    rw [map_append, map_storeRows, map_storeRow, assign_append]
    rfl
  rw [hbody]
  unfold tGdnHeadsBatched
  simp only [mul_one_div]
  rfl

lemma tKdaHeadsBatched_eq (s : KdaShape) (p : KdaBuffers V) (task : ℕ) (m : Mem V) :
    tKdaHeadsBatched f s.H s.K s.V p task m =
      ((bodyKdaDelta f s (p.tensors s) (task / s.H, task % s.H)).place s.place).run m := by
  have hbody : ((bodyKdaDelta f s (p.tensors s) (task / s.H, task % s.H)).place s.place).run m =
      store s.V (fun v => s.place (.out (task / s.H) (task % s.H) v))
        (fun v => f.toOut (kdaOut f s (p.tensors s) (m ∘ s.place) (task / s.H) (task % s.H) v))
        (storeTile s.K s.V (fun k v => s.place (.state (task / s.H) (task % s.H) k v))
          (kdaState f s (p.tensors s) (m ∘ s.place) (task / s.H) (task % s.H)) m) := by
    unfold Action.run Action.place bodyKdaDelta
    rw [map_append, map_storeRows, map_storeRow, assign_append]
    rfl
  rw [hbody]
  unfold tKdaHeadsBatched
  simp only [mul_one_div]
  rfl

section

variable {s : FusedShape} {p : FusedBuffers V} {slot bb h : ℕ} {y : ℕ → ℕ → V} {m M : Mem V}

omit [Field V] [LinearOrder V] in
lemma tDecay_eq [Field V] [LinearOrder V] (f : Functions V) (lowerBound : Option V) (A xDt : V) :
    tDecay f lowerBound A xDt = fusedDecay f lowerBound A xDt := by
  rw [fusedDecay_eq]
  cases lowerBound <;> rfl

lemma fusedHead_eq (hssm : ∀ r d, M (s.place (.ssm slot h r d)) = m (s.place (.ssm slot h r d)))
    (hy : ∀ part < 3, ∀ l < s.K, y part l = fusedConv f s (p.tensors s) (m ∘ s.place) slot bb h part l) :
    fusedHead f s.H s.K p slot bb h y M = store s.K (fun r => s.place (.out bb h r))
        (fun r => f.toOut (f.bf16 (fusedOut f s (p.tensors s) (m ∘ s.place) slot bb h r)))
        (storeTile s.K s.K (fun r d => s.place (.ssm slot h r d))
          (fusedState f s (p.tensors s) (m ∘ s.place) slot bb h) M) := by
  let decay (d : ℕ) := fusedDecay f p.lowerBound (f.exp (p.alog h))
    (f.bf16 (p.f (bb * (s.H * s.K) + h * s.K + d)) + p.dtb (h * s.K + d))
  let beta := 1 / (1 + f.exp (-f.bf16 (p.b (bb * s.H + h))))
  let state := deltaUpdate s.K beta (y 2) (l2norm f s.K (y 1)) fun r d => M (s.place (.ssm slot h r d)) * decay d
  let o := readout s.K state fun d => l2norm f s.K (y 0) d * p.scale
  have hdevice : fusedHead f s.H s.K p slot bb h y M =
      store s.K (fun r => s.place (.out bb h r)) (fun r => f.toOut (f.bf16 (o r *
          (1 / f.sqrt (meanSquare s.K o + p.eps)) * p.onorm r *
          (1 / (1 + f.exp (-f.bf16 (p.g (bb * (s.H * s.K) + h * s.K + r))))))))
        (storeTile s.K s.K (fun r d => s.place (.ssm slot h r d)) state M) := by
    have hnorm (x : ℕ → V) (d : ℕ) : x d * (1 / f.sqrt (∑ e ∈ range s.K, x e * x e + l2Eps V)) = l2norm f s.K x d :=
      mul_one_div _ _
    have hbeta (r : ℕ) (t : V) : (y 2 r - t) * (1 / (1 + f.exp (-f.bf16 (p.b (bb * s.H + h))))) = beta * (y 2 r - t) :=
      mul_comm _ _
    unfold fusedHead
    simp only [hnorm, hbeta, tDecay_eq]
    rfl
  have hstate (r : ℕ) (hr : r < s.K) (d : ℕ) (hd : d < s.K) :
      state r d = fusedState f s (p.tensors s) (m ∘ s.place) slot bb h r d := by
    unfold fusedState
    refine deltaUpdate_congr (hy 2 (by decide) r hr) (fun e he => ?_) (fun e _ => ?_) hd
    · exact l2norm_congr (fun e he => hy 1 (by decide) e he) he
    · exact congrArg (· * decay e) (hssm r e)
  have ho (r : ℕ) (hr : r < s.K) : o r = readout s.K (fusedState f s (p.tensors s) (m ∘ s.place) slot bb h)
      (fun d => l2norm f s.K (fusedConv f s (p.tensors s) (m ∘ s.place) slot bb h 0) d * p.scale) r := by
    refine readout_congr (hstate r hr) fun e he => ?_
    rw [l2norm_congr (fun e he => hy 0 (by decide) e he) he]
  have hrows : storeRows s.K s.K (fun r d => s.place (.ssm slot h r d)) state = storeRows s.K s.K
      (fun r d => s.place (.ssm slot h r d)) (fusedState f s (p.tensors s) (m ∘ s.place) slot bb h) :=
    storeRows_congr (fun _ _ _ _ => rfl) hstate
  have hrow : storeRow s.K (fun r => s.place (.out bb h r)) (fun r => f.toOut (f.bf16 (o r *
      (1 / f.sqrt (meanSquare s.K o + p.eps)) * p.onorm r *
      (1 / (1 + f.exp (-f.bf16 (p.g (bb * (s.H * s.K) + h * s.K + r)))))))) = storeRow s.K (fun r => s.place (.out bb h r))
        fun r => f.toOut (f.bf16 (fusedOut f s (p.tensors s) (m ∘ s.place) slot bb h r)) := by
    refine storeRow_congr (fun _ _ => rfl) fun r hr => ?_
    rw [ho r hr, meanSquare_congr ho]
    rfl
  rw [hdevice]
  unfold store storeTile
  rw [hrows, hrow]

/-- The lanes of the three segments. -/
def lanes (s : FusedShape) : List (ℕ × ℕ) := List.range 3 ×ˢ List.range s.K

def window (s : FusedShape) (slot h j : ℕ) (q : ℕ × ℕ) : Cell := s.place (.conv slot j (s.col h q.1 q.2))

lemma cols_eq (part l : ℕ) : cols s.K (3 * s.seg) h part l = s.col h part l := by
  rw [cols, FusedShape.col, Nat.mul_div_cancel_left _ (by decide), Nat.add_assoc]

lemma window_eq (s : FusedShape) (slot h j part l : ℕ) : (DeviceBuffer.conv, (slot : ℤ) * ((s.Kw : ℕ) * ((3 * s.seg : ℕ) : ℤ)) +
    (j : ℤ) * ((3 * s.seg : ℕ) : ℤ) + ((s.col h part l : ℕ) : ℤ)) = window s slot h j (part, l) := by
  rfl

lemma window_apart (hslot : slot < s.slots) (hh : h < s.H) {k : ℕ} (hk : k < s.Kw) : ∀ j j', j < j' → j' ≤ k →
    ∀ q ∈ lanes s, ∀ q' ∈ lanes s, window s slot h j q ≠ window s slot h j' q' := by
  intro j j' hj hj' q hq q' hq' heq
  have hrange {j : ℕ} (hj : j ≤ k) {q : ℕ × ℕ} (hq : q ∈ lanes s) :
      FusedLoc.conv slot j (s.col h q.1 q.2) ∈ s.range := by
    obtain ⟨hpart, hl⟩ := List.mem_product.mp hq
    exact ⟨hslot, by omega, col_lt (List.mem_range.mp hpart) hh (List.mem_range.mp hl)⟩
  have hloc := s.place_injOn (hrange (by omega) hq) (hrange hj' hq') heq
  have := (FusedLoc.conv.inj hloc).2.1
  omega

omit [LinearOrder V] in
lemma fusedTap_eq [LinearOrder V] (w : ℕ) (r : (ℕ → ℕ → V) × Mem V) :
    fusedTap s.K (3 * s.seg) s.Kw p ((slot : ℤ) * ((s.Kw : ℕ) * ((3 * s.seg : ℕ) : ℤ))) h w r =
      (fun part l => r.1 part l + p.taps (w * (3 * s.seg) + s.col h part l) * r.2 (window s slot h w (part, l)),
        if w < s.Kw - 1 then assign ((lanes s).map fun q => (window s slot h w q, r.2 (window s slot h (w + 1) q))) r.2
        else r.2) := by
  have hnext (part l : ℕ) := window_eq s slot h (w + 1) part l
  rw [Nat.cast_succ] at hnext
  unfold fusedTap storeTile
  simp only [cols_eq, window_eq, hnext, storeRows_eq_map]
  split <;> rfl

lemma fusedTaps_eq (hslot : slot < s.slots) (hh : h < s.H) {k : ℕ} (hk : s.Kw = k + 1) (m : Mem V) {n : ℕ} (hn : n ≤ k) :
    let r := (List.range n).foldl
      (fun r w => fusedTap s.K (3 * s.seg) s.Kw p ((slot : ℤ) * ((s.Kw : ℕ) * ((3 * s.seg : ℕ) : ℤ))) h w r)
      (fun _ _ => 0, m)
    (∀ part < 3, ∀ l < s.K, r.1 part l =
      ∑ j ∈ range n, p.taps (j * (3 * s.seg) + s.col h part l) * m (window s slot h j (part, l))) ∧
    r.2 = assign (shiftStores (lanes s) (window s slot h) m n) m := by
  have hapart := window_apart (k := k) hslot hh (by omega)
  induction n with
  | zero => exact ⟨fun _ _ _ _ => rfl, rfl⟩
  | succ n ih =>
    obtain ⟨hacc, hmem⟩ := ih (by omega)
    rw [range_succ, foldl_append]
    simp only [foldl_cons, foldl_nil]
    rw [fusedTap_eq, if_pos (by omega)]
    refine ⟨fun part hpart l hl => ?_, ?_⟩
    · have hq : (part, l) ∈ lanes s := List.mem_product.mpr ⟨List.mem_range.mpr hpart, List.mem_range.mpr hl⟩
      dsimp only
      rw [hacc part hpart l hl, hmem, shiftStores_above m hapart le_rfl (by omega) hq, sum_range_succ]
    · rw [hmem]
      exact shiftStores_succ m hapart hn

variable (f p bb) in
/-- **The convolution**: the channels of the reference, and the window moved by one. -/
theorem fusedChannels_eq (hslot : slot < s.slots) (hh : h < s.H) {k : ℕ} (hk : s.Kw = k + 1) (m : Mem V) :
    (∀ part < 3, ∀ l < s.K, (fusedChannels f s.K (3 * s.seg) s.Kw p slot bb h m).1 part l =
      fusedConv f s (p.tensors s) (m ∘ s.place) slot bb h part l) ∧
    (fusedChannels f s.K (3 * s.seg) s.Kw p slot bb h m).2 = storeTile 3 s.K (fun part l => window s slot h k (part, l))
        (fun part l => f.bf16 (p.qkv (bb * (3 * s.seg) + s.col h part l)))
        (assign (shiftStores (lanes s) (window s slot h) m k) m) := by
  obtain ⟨hacc, hmem⟩ := fusedTaps_eq (p := p) hslot hh hk m le_rfl
  have hapart := window_apart (k := k) hslot hh (by omega)
  have hlast (part l : ℕ) := window_eq s slot h k part l
  have hrange : List.range s.Kw = List.range k ++ [k] := by rw [hk, range_succ]
  have hint : ((s.Kw : ℕ) : ℤ) - 1 = (k : ℕ) := by omega
  have hnot : ¬k < s.Kw - 1 := by omega
  unfold fusedChannels
  simp only [hrange, foldl_concat]
  generalize (List.range k).foldl _ _ = r at hacc hmem ⊢
  simp only [fusedTap_eq, if_neg hnot, hint, cols_eq, hlast]
  refine ⟨fun part hpart l hl => ?_, ?_⟩
  · have hq : (part, l) ∈ lanes s := List.mem_product.mpr ⟨List.mem_range.mpr hpart, List.mem_range.mpr hl⟩
    rw [hacc part hpart l hl, hmem, shiftStores_above m hapart le_rfl le_rfl hq, ← sum_range_succ, ← hk]
    rw [fusedConv, mul_one_div]
    rfl
  · rw [hmem]

lemma bodyKdaFusedLive_run {k : ℕ} (hk : s.Kw = k + 1) (i : FusedInputs V) (m : Mem V) :
    ((bodyKdaFusedLive f s i slot bb h).place s.place).run m = store s.K (fun r => s.place (.out bb h r))
        (fun r => f.toOut (f.bf16 (fusedOut f s i (m ∘ s.place) slot bb h r)))
        (storeTile s.K s.K (fun r d => s.place (.ssm slot h r d)) (fusedState f s i (m ∘ s.place) slot bb h)
          (storeTile 3 s.K (fun part l => window s slot h k (part, l))
            (fun part l => f.bf16 (i.qkvRaw bb (s.col h part l)))
            (assign (shiftStores (lanes s) (window s slot h) m k) m))) := by
  have hlast : ¬k + 1 < s.Kw := by omega
  have hrange : List.range s.Kw = List.range k ++ [k] := by rw [hk, range_succ]
  have hwindow : ((List.range s.Kw).flatMap fun j => storeRows 3 s.K (fun part l => FusedLoc.conv slot j (s.col h part l))
        fun part l => fusedWindow f s i (m ∘ s.place) slot bb j (s.col h part l)).map (fun p => (s.place p.1, p.2)) =
      shiftStores (lanes s) (window s slot h) m k ++ storeRows 3 s.K (fun part l => window s slot h k (part, l))
        fun part l => f.bf16 (i.qkvRaw bb (s.col h part l)) := by
    rw [hrange, flatMap_append, map_append, map_flatMap, flatMap_singleton, map_storeRows]
    congr 1
    · refine flatMap_congr fun j hj => ?_
      have hnext : j + 1 < s.Kw := by
        have := List.mem_range.mp hj
        omega
      rw [map_storeRows, storeRows_eq_map]
      simp only [fusedWindow, if_pos hnext]
      rfl
    · simp only [fusedWindow, if_neg hlast]
      rfl
  unfold Action.run Action.place bodyKdaFusedLive
  rw [map_append, map_append, hwindow, map_storeRows, map_storeRow, assign_append, assign_append, assign_append]
  rfl

lemma tKdaFused_eq (s : FusedShape) (p : FusedBuffers V) (htaps : 0 < s.Kw) (hrange : LiveInRange s.B s.slots p.ids)
    {task : ℕ} (htask : task < s.B * s.H) (m : Mem V) : tKdaFused f s.H s.K (3 * s.seg) s.Kw p task m =
      ((bodyKdaFusedDecode f s (p.tensors s) (task / s.H, task % s.H)).place s.place).run m := by
  obtain ⟨k, hk⟩ := Nat.exists_eq_add_of_lt htaps
  rw [zero_add] at hk
  have hh : task % s.H < s.H := Nat.mod_lt _ (Nat.pos_of_mul_pos_left (Nat.zero_lt_of_lt htask))
  have hb : task / s.H < s.B := Nat.div_lt_of_lt_mul (by rwa [mul_comm])
  unfold tKdaFused
  generalize task / s.H = bb at hb ⊢
  generalize task % s.H = h at hh ⊢
  by_cases hlive : 0 ≤ p.ids bb
  · have hslot : (p.ids bb).toNat < s.slots := by
      have := hrange bb hb
      omega
    have hbody : ((bodyKdaFusedDecode f s (p.tensors s) (bb, h)).place s.place).run m =
        ((bodyKdaFusedLive f s (p.tensors s) (p.ids bb).toNat bb h).place s.place).run m := by
      have hnot : ¬(p.tensors s).slotIds (bb, h).1 < 0 := not_lt.mpr hlive
      unfold Action.run Action.place bodyKdaFusedDecode
      rw [if_neg hnot]
      rfl
    obtain ⟨hy, hM⟩ := fusedChannels_eq f p bb hslot hh hk m
    have hssm (r d : ℕ) : (fusedChannels f s.K (3 * s.seg) s.Kw p (p.ids bb).toNat bb h m).2
        (s.place (.ssm (p.ids bb).toNat h r d)) = m (s.place (.ssm (p.ids bb).toNat h r d)) := by
      rw [hM, storeTile, assign_notMem, assign_notMem]
      · intro st hst heq
        obtain ⟨j, -, hst⟩ := mem_flatMap.mp hst
        obtain ⟨q, -, rfl⟩ := mem_map.mp hst
        cases (Prod.mk.inj heq).1
      · intro _ hst heq
        obtain ⟨_, -, l, -, rfl⟩ := mem_storeRows.mp hst
        cases (Prod.mk.inj heq).1
    rw [if_pos hlive, tKdaFusedLive, fusedHead_eq hssm hy, hM, hbody, bodyKdaFusedLive_run hk]
    rfl
  · have hpad : (p.tensors s).slotIds (bb, h).1 < 0 := not_le.mp hlive
    rw [if_neg hlive]
    unfold Action.run Action.place bodyKdaFusedDecode
    rw [if_pos hpad, map_storeRow]
    rfl

end

end

end VKernels.Recurrent
