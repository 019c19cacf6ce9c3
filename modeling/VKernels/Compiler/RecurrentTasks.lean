import VKernels.Compiler.Recurrent

/-!
# The tasks of the recurrent families

Every task of a family stays within its own row, head or channel tile; so whatever their order, a pool element and an
output hold what the body of their task stores.

* `gdnConv_owned`, `gdnDelta_owned`, `kdaDelta_owned`, `kdaFusedDecode_owned`, `rmsNormGated_owned`.
* `gdnConv_state`, `gdnConv_out`, … — the element after a step.
-/

namespace VKernels.Recurrent

open Finset LocalActions OwnedTasks
open Grouping (blocksFor le_blocksFor blocksFor_lt)
open List hiding mem_range min not_lt range
open FusedLoc (conv out ssm)

lemma product_nodup (m n : ℕ) : (List.range m ×ˢ List.range n).Nodup := nodup_range.product nodup_range

/-! ## `gdn_conv` -/

section

variable {V : Type} [Field V] {f : Functions V} {s : ConvShape} {i : ConvInputs V}

/-- The elements of the pool and of the outputs. -/
def ConvShape.range (s : ConvShape) : Set ConvLoc := fun loc =>
  match loc with
  | .state b j c => b < s.B ∧ j < s.Km1 ∧ c < s.C
  | .out b c => b < s.B ∧ c < s.C

def convPool : Set ConvLoc := fun loc =>
  match loc with
  | .state _ _ _ => True
  | .out _ _ => False

def ConvShape.own (s : ConvShape) (t : ℕ × ℕ) : Set ConvLoc := fun loc =>
  match loc with
  | .state b j c => (b, c / s.tile) = t ∧ j < s.Km1 ∧ c < s.C
  | .out b c => (b, c / s.tile) = t ∧ c < s.C

lemma mem_convTasks {t : ℕ × ℕ} : t ∈ s.tasks ↔ t.1 < s.B ∧ t.2 < blocksFor s.tile s.C := by
  obtain ⟨b, n⟩ := t
  simp [ConvShape.tasks]

lemma ConvShape.own_subset {t : ℕ × ℕ} (ht : t ∈ s.tasks) : s.own t ⊆ s.range := by
  intro loc hloc
  have hb := (mem_convTasks.mp ht).1
  cases loc with
  | state b j c =>
    obtain ⟨rfl, hloc⟩ := hloc
    exact ⟨hb, hloc⟩
  | out b c =>
    obtain ⟨rfl, hloc⟩ := hloc
    exact ⟨hb, hloc⟩

lemma tile_channel {t l : ℕ} (hl : l < min ((t + 1) * s.tile) s.C - t * s.tile) :
    (t * s.tile + l) / s.tile = t ∧ t * s.tile + l < s.C := by
  rw [add_one_mul] at hl
  exact ⟨Blocks.block_div t (by omega), by omega⟩

variable (f s i) in
lemma gdnConv_owned : Owned s.tasks convPool s.own (bodyGdnConv f s i) := by
  refine ⟨product_nodup _ _, fun t _ m m' hagree => ?_, fun t _ m st hst => ?_, fun t _ u _ hne => ?_⟩
  · have hstate (j l : ℕ) (hj : j < s.Km1) (hl : l < min ((t.2 + 1) * s.tile) s.C - t.2 * s.tile) :
        m (.state t.1 j (t.2 * s.tile + l)) = m' (.state t.1 j (t.2 * s.tile + l)) := by
      obtain ⟨htile, hc⟩ := tile_channel hl
      exact hagree _ ⟨Prod.ext rfl htile, hj, hc⟩ trivial
    unfold bodyGdnConv
    dsimp only
    congr 1
    · refine storeRow_congr (fun _ _ => rfl) fun l hl => ?_
      have hacc : convAcc s i m t.1 (t.2 * s.tile + l) = convAcc s i m' t.1 (t.2 * s.tile + l) := by
        unfold convAcc
        congr 1
        exact sum_congr rfl fun j hj => by rw [hstate j l (mem_range.mp hj) hl]
      rw [hacc]
    · refine storeRows_congr (fun _ _ _ _ => rfl) fun j _ l hl => ?_
      split
      · rename_i hj
        rw [hstate (j + 1) l hj hl]
      · rfl
  · rcases mem_append.mp hst with hst | hst
    · obtain ⟨l, hl, rfl⟩ := mem_storeRow.mp hst
      obtain ⟨htile, hc⟩ := tile_channel hl
      exact ⟨Prod.ext rfl htile, hc⟩
    · obtain ⟨j, hj, l, hl, rfl⟩ := mem_storeRows.mp hst
      obtain ⟨htile, hc⟩ := tile_channel hl
      exact ⟨Prod.ext rfl htile, hj, hc⟩
  · refine Set.disjoint_left.mpr fun loc hloc hloc' => hne ?_
    cases loc with
    | state b j c => exact hloc.1.symm.trans hloc'.1
    | out b c => exact hloc.1.symm.trans hloc'.1

lemma channel_tile (htile : 0 < s.tile) {c : ℕ} (hc : c < s.C) : c / s.tile < blocksFor s.tile s.C ∧
    ∃ l < min ((c / s.tile + 1) * s.tile) s.C - c / s.tile * s.tile, c / s.tile * s.tile + l = c := by
  have hdiv := Nat.div_add_mod c s.tile
  have hmod := Nat.mod_lt c htile
  have hcover := le_blocksFor htile s.C
  rw [mul_comm] at hdiv
  refine ⟨?_, c % s.tile, ?_, hdiv⟩
  · apply Nat.div_lt_of_lt_mul
    rw [mul_comm]
    omega
  · rw [add_one_mul]
    omega

variable {m m' : ConvLoc → V} (hrun : TasksInAnyOrder s.tasks (bodyGdnConv f s i) m m') (htile : 0 < s.tile) {b c : ℕ}
  (hb : b < s.B) (hc : c < s.C)
include hrun htile hb hc

lemma gdnConv_state {j : ℕ} (hj : j < s.Km1) :
    m' (.state b j c) = if j + 1 < s.Km1 then m (.state b (j + 1) c) else i.x b c := by
  obtain ⟨htask, l, hl, hcl⟩ := channel_tile htile hc
  have hown : ConvLoc.state b j c ∈ s.own (b, c / s.tile) := ⟨rfl, hj, hc⟩
  refine hrun.value (gdnConv_owned f s i) (mem_convTasks.mpr ⟨hb, htask⟩) hown ?_ fun v hv => ?_
  · refine mem_append_right _ (mem_storeRows.mpr ⟨j, hj, l, hl, ?_⟩)
    rw [hcl]
  · rcases mem_append.mp hv with hv | hv
    · obtain ⟨l', -, heq⟩ := mem_storeRow.mp hv
      cases (Prod.mk.inj heq).1
    · obtain ⟨_, -, _, -, heq⟩ := mem_storeRows.mp hv
      obtain ⟨hloc, rfl⟩ := Prod.mk.inj heq
      obtain ⟨-, rfl, hcol⟩ := ConvLoc.state.inj hloc
      rw [← hcol]

lemma gdnConv_out : m' (.out b c) = f.toOut (convAcc s i m b c / (1 + f.exp (-convAcc s i m b c))) := by
  obtain ⟨htask, l, hl, hcl⟩ := channel_tile htile hc
  have hown : ConvLoc.out b c ∈ s.own (b, c / s.tile) := ⟨rfl, hc⟩
  refine hrun.value (gdnConv_owned f s i) (mem_convTasks.mpr ⟨hb, htask⟩) hown ?_ fun v hv => ?_
  · refine mem_append_left _ (mem_storeRow.mpr ⟨l, hl, ?_⟩)
    simp [hcl]
  · rcases mem_append.mp hv with hv | hv
    · obtain ⟨l', -, heq⟩ := mem_storeRow.mp hv
      obtain ⟨hloc, rfl⟩ := Prod.mk.inj heq
      obtain ⟨-, hcol⟩ := ConvLoc.out.inj hloc
      dsimp only at hcol ⊢
      rw [← hcol]
    · obtain ⟨_, -, _, -, heq⟩ := mem_storeRows.mp hv
      cases (Prod.mk.inj heq).1

end

variable {V : Type} [Field V] [LinearOrder V]

/-! ## `gdn_delta` -/

section

variable (f : Functions V) (s : DeltaShape) (i : DeltaInputs V)

def DeltaShape.range (s : DeltaShape) : Set DeltaLoc := fun loc =>
  match loc with
  | .state b h r c => b < s.B ∧ h < s.NV ∧ r < s.HV ∧ c < s.HK
  | .out b h r => b < s.B ∧ h < s.NV ∧ r < s.HV

def deltaPool : Set DeltaLoc := fun loc =>
  match loc with
  | .state _ _ _ _ => True
  | .out _ _ _ => False

def DeltaShape.own (s : DeltaShape) (t : ℕ × ℕ) : Set DeltaLoc := fun loc =>
  match loc with
  | .state b h r c => (b, h) = t ∧ r < s.HV ∧ c < s.HK
  | .out b h r => (b, h) = t ∧ r < s.HV

omit i in
variable {s} in
lemma mem_deltaTasks {t : ℕ × ℕ} : t ∈ s.tasks ↔ t.1 < s.B ∧ t.2 < s.NV := by
  obtain ⟨b, h⟩ := t
  simp [DeltaShape.tasks]

lemma DeltaShape.own_subset {t : ℕ × ℕ} (ht : t ∈ s.tasks) : s.own t ⊆ s.range := by
  intro loc hloc
  obtain ⟨hb, hh⟩ := mem_deltaTasks.mp ht
  cases loc with
  | state b h r c =>
    obtain ⟨rfl, hloc⟩ := hloc
    exact ⟨hb, hh, hloc⟩
  | out b h r =>
    obtain ⟨rfl, hloc⟩ := hloc
    exact ⟨hb, hh, hloc⟩

lemma gdnDelta_owned : Owned s.tasks deltaPool s.own (bodyGdnDelta f s i) := by
  refine ⟨product_nodup _ _, fun t _ m m' hagree => ?_, fun t _ m st hst => ?_, fun t _ u _ hne => ?_⟩
  · have hstate (r : ℕ) (hr : r < s.HV) (c : ℕ) (hc : c < s.HK) :
        gdnState f s i m t.1 t.2 r c = gdnState f s i m' t.1 t.2 r c := by
      have hagree' (e : ℕ) (he : e < s.HK) : m (.state t.1 t.2 r e) = m' (.state t.1 t.2 r e) :=
        hagree _ ⟨rfl, hr, he⟩ trivial
      unfold gdnState
      refine deltaUpdate_congr rfl (fun _ _ => rfl) (fun e he => ?_) hc
      rw [hagree' e he]
    have hread (qn : ℕ → V) : ∀ r < s.HV,
        readout s.HK (gdnState f s i m t.1 t.2) qn r = readout s.HK (gdnState f s i m' t.1 t.2) qn r :=
      fun r hr => readout_congr (hstate r hr) fun _ _ => rfl
    unfold bodyGdnDelta
    congr 1
    · exact storeRows_congr (fun _ _ _ _ => rfl) hstate
    · refine storeRow_congr (fun _ _ => rfl) fun r hr => ?_
      simp [gdnOut, hread _ r hr, meanSquare_congr (hread _)]
  · rcases mem_append.mp hst with hst | hst
    · obtain ⟨r, hr, c, hc, rfl⟩ := mem_storeRows.mp hst
      exact ⟨rfl, hr, hc⟩
    · obtain ⟨r, hr, rfl⟩ := mem_storeRow.mp hst
      exact ⟨rfl, hr⟩
  · refine Set.disjoint_left.mpr fun loc hloc hloc' => hne ?_
    cases loc with
    | state b h r c => exact hloc.1.symm.trans hloc'.1
    | out b h r => exact hloc.1.symm.trans hloc'.1

end

/-! ## `kda_delta` -/

section

variable {f : Functions V} {s : KdaShape} {i : KdaInputs V}

def KdaShape.range (s : KdaShape) : Set KdaLoc := fun loc =>
  match loc with
  | .state b h k v => b < s.B ∧ h < s.H ∧ k < s.K ∧ v < s.V
  | .out b h v => b < s.B ∧ h < s.H ∧ v < s.V

def kdaPool : Set KdaLoc := fun loc =>
  match loc with
  | .state _ _ _ _ => True
  | .out _ _ _ => False

def KdaShape.own (s : KdaShape) (t : ℕ × ℕ) : Set KdaLoc := fun loc =>
  match loc with
  | .state b h k v => (b, h) = t ∧ k < s.K ∧ v < s.V
  | .out b h v => (b, h) = t ∧ v < s.V

lemma mem_kdaTasks {t : ℕ × ℕ} : t ∈ s.tasks ↔ t.1 < s.B ∧ t.2 < s.H := by
  obtain ⟨b, h⟩ := t
  simp [KdaShape.tasks]

lemma KdaShape.own_subset {t : ℕ × ℕ} (ht : t ∈ s.tasks) : s.own t ⊆ s.range := by
  intro loc hloc
  obtain ⟨hb, hh⟩ := mem_kdaTasks.mp ht
  cases loc with
  | state b h k v =>
    obtain ⟨rfl, hloc⟩ := hloc
    exact ⟨hb, hh, hloc⟩
  | out b h v =>
    obtain ⟨rfl, hloc⟩ := hloc
    exact ⟨hb, hh, hloc⟩

variable (f s i) in
lemma kdaDelta_owned : Owned s.tasks kdaPool s.own (bodyKdaDelta f s i) := by
  refine ⟨product_nodup _ _, fun t _ m m' hagree => ?_, fun t _ m st hst => ?_, fun t _ u _ hne => ?_⟩
  · have hdecayed (v : ℕ) (hv : v < s.V) (k : ℕ) (hk : k < s.K) :
        kdaDecayed f i m t.1 t.2 k v = kdaDecayed f i m' t.1 t.2 k v := by
      rw [kdaDecayed, kdaDecayed, hagree (.state t.1 t.2 k v) ⟨rfl, hk, hv⟩ trivial]
    have hstate (v : ℕ) (hv : v < s.V) (k : ℕ) (hk : k < s.K) :
        kdaState f s i m t.1 t.2 k v = kdaState f s i m' t.1 t.2 k v := by
      have hmem : ∑ e ∈ range s.K, kdaDecayed f i m t.1 t.2 e v * l2norm f s.K (i.k t.1 t.2) e =
          ∑ e ∈ range s.K, kdaDecayed f i m' t.1 t.2 e v * l2norm f s.K (i.k t.1 t.2) e :=
        sum_congr rfl fun e he => by rw [hdecayed v hv e (mem_range.mp he)]
      simp [kdaState, hmem, hdecayed v hv k hk]
    unfold bodyKdaDelta
    congr 1
    · exact storeRows_congr (fun _ _ _ _ => rfl) fun k hk v hv => hstate v hv k hk
    · refine storeRow_congr (fun _ _ => rfl) fun v hv => congrArg f.toOut ?_
      exact sum_congr rfl fun k hk => by rw [hstate v hv k (mem_range.mp hk)]
  · rcases mem_append.mp hst with hst | hst
    · obtain ⟨k, hk, v, hv, rfl⟩ := mem_storeRows.mp hst
      exact ⟨rfl, hk, hv⟩
    · obtain ⟨v, hv, rfl⟩ := mem_storeRow.mp hst
      exact ⟨rfl, hv⟩
  · refine Set.disjoint_left.mpr fun loc hloc hloc' => hne ?_
    cases loc with
    | state b h k v => exact hloc.1.symm.trans hloc'.1
    | out b h v => exact hloc.1.symm.trans hloc'.1

variable {m m' : KdaLoc → V} (hrun : TasksInAnyOrder s.tasks (bodyKdaDelta f s i) m m') {b h : ℕ} (hb : b < s.B)
  (hh : h < s.H)
include hrun hb hh

lemma kdaDelta_state {k v : ℕ} (hk : k < s.K) (hv : v < s.V) : m' (.state b h k v) = kdaState f s i m b h k v := by
  have hown : KdaLoc.state b h k v ∈ s.own (b, h) := ⟨rfl, hk, hv⟩
  refine hrun.value (kdaDelta_owned f s i) (mem_kdaTasks.mpr ⟨hb, hh⟩) hown
    (mem_append_left _ (mem_storeRows.mpr ⟨k, hk, v, hv, rfl⟩)) fun w hw => ?_
  rcases mem_append.mp hw with hw | hw
  · obtain ⟨_, -, v', -, heq⟩ := mem_storeRows.mp hw
    obtain ⟨hloc, rfl⟩ := Prod.mk.inj heq
    obtain ⟨-, -, rfl, rfl⟩ := KdaLoc.state.inj hloc
    rfl
  · obtain ⟨_, -, heq⟩ := mem_storeRow.mp hw
    cases (Prod.mk.inj heq).1

lemma kdaDelta_out {v : ℕ} (hv : v < s.V) : m' (.out b h v) = f.toOut (kdaOut f s i m b h v) := by
  have hown : KdaLoc.out b h v ∈ s.own (b, h) := ⟨rfl, hv⟩
  refine hrun.value (kdaDelta_owned f s i) (mem_kdaTasks.mpr ⟨hb, hh⟩) hown
    (mem_append_right _ (mem_storeRow.mpr ⟨v, hv, rfl⟩)) fun w hw => ?_
  rcases mem_append.mp hw with hw | hw
  · obtain ⟨_, -, v', -, heq⟩ := mem_storeRows.mp hw
    cases (Prod.mk.inj heq).1
  · obtain ⟨_, -, heq⟩ := mem_storeRow.mp hw
    obtain ⟨hloc, rfl⟩ := Prod.mk.inj heq
    obtain ⟨-, -, rfl⟩ := KdaLoc.out.inj hloc
    rfl

end

/-! ## `rms_norm_gated` -/

section

variable {f : Functions V} {s : NormShape} {x gate : ℕ → ℕ → ℕ → V} {weight : ℕ → V} {eps : V}

def NormShape.own (t : ℕ × ℕ) : Set NormLoc := fun loc =>
  match loc with
  | .out b h _ => (b, h) = t

variable (f s x gate weight eps) in
lemma rmsNormGated_owned : Owned s.tasks ∅ NormShape.own (bodyRmsNormGated f s x gate weight eps) := by
  refine ⟨product_nodup _ _, fun _ _ _ _ _ => rfl, fun t _ m st hst => ?_, fun t _ u _ hne => ?_⟩
  · obtain ⟨v, -, rfl⟩ := mem_storeRow.mp hst
    exact rfl
  · refine Set.disjoint_left.mpr fun loc hloc hloc' => hne ?_
    cases loc with
    | out b h v => exact Eq.trans (Eq.symm hloc) hloc'

lemma rmsNormGated_out {m m' : NormLoc → V}
    (hrun : TasksInAnyOrder s.tasks (bodyRmsNormGated f s x gate weight eps) m m') {b h v : ℕ} (hb : b < s.B)
    (hh : h < s.H) (hv : v < s.V) :
    m' (.out b h v) = f.toOut (x b h v * (1 / f.sqrt (meanSquare s.V (x b h) + eps)) * weight v *
      stableSigmoid f (gate b h v)) := by
  have ht : (b, h) ∈ s.tasks := by simp [NormShape.tasks, hb, hh]
  have hown : NormLoc.out b h v ∈ NormShape.own (b, h) := rfl
  refine hrun.value (rmsNormGated_owned f s x gate weight eps) ht hown (mem_storeRow.mpr ⟨v, hv, rfl⟩) fun w hw => ?_
  obtain ⟨_, -, heq⟩ := mem_storeRow.mp hw
  obtain ⟨hloc, rfl⟩ := Prod.mk.inj heq
  obtain ⟨-, -, rfl⟩ := NormLoc.out.inj hloc
  rfl

end

/-! ## `kda_fused_decode` -/

section

variable {f : Functions V} {s : FusedShape} {i : FusedInputs V}

/-- The elements of the pools and of the outputs. -/
def FusedShape.range (s : FusedShape) : Set FusedLoc := fun loc =>
  match loc with
  | .conv slot j c => slot < s.slots ∧ j < s.Kw ∧ c < 3 * s.seg
  | .ssm slot h r d => slot < s.slots ∧ h < s.H ∧ r < s.K ∧ d < s.K
  | .out b h r => b < s.B ∧ h < s.H ∧ r < s.K

def fusedPool : Set FusedLoc := fun loc =>
  match loc with
  | .conv _ _ _ => True
  | .ssm _ _ _ _ => True
  | .out _ _ _ => False

/-- The elements of a task: its head in the slot of its row, and its output row. -/
def FusedShape.own (s : FusedShape) (ids : ℕ → ℤ) (t : ℕ × ℕ) : Set FusedLoc := fun loc =>
  match loc with
  | .conv slot j c => (slot : ℤ) = ids t.1 ∧ c % s.seg / s.K = t.2 ∧ j < s.Kw ∧ c < 3 * s.seg
  | .ssm slot h r d => (slot : ℤ) = ids t.1 ∧ h = t.2 ∧ r < s.K ∧ d < s.K
  | .out b h r => (b, h) = t ∧ r < s.K

/-- The live slots of the rows are distinct. -/
def LiveDistinct (B : ℕ) (ids : ℕ → ℤ) : Prop := ∀ b < B, ∀ b' < B, 0 ≤ ids b → ids b = ids b' → b = b'

lemma mem_fusedTasks {t : ℕ × ℕ} : t ∈ s.tasks ↔ t.1 < s.B ∧ t.2 < s.H := by
  obtain ⟨b, h⟩ := t
  simp [FusedShape.tasks]

lemma col_lt {h part l : ℕ} (hpart : part < 3) (hh : h < s.H) (hl : l < s.K) : s.col h part l < 3 * s.seg := by
  have hlast := Blocks.block_le hh s.K
  have hparts := Blocks.block_le hpart s.seg
  have hseg : s.seg = s.H * s.K := rfl
  unfold FusedShape.col
  omega

lemma head_of_col {h part l : ℕ} (hh : h < s.H) (hl : l < s.K) : s.col h part l % s.seg / s.K = h := by
  have hlt : h * s.K + l < s.seg := Blocks.block_lt hh hl
  rw [FusedShape.col, Blocks.block_mod part hlt, Blocks.block_div h hl]

lemma col_surjective {c : ℕ} (hc : c < 3 * s.seg) : ∃ part < 3, ∃ h < s.H, ∃ l < s.K, s.col h part l = c := by
  have hseg : 0 < s.seg := by
    apply pos_of_ne_zero
    intro hzero
    omega
  have hK : 0 < s.K := Nat.pos_of_mul_pos_left hseg
  have hmod := Nat.mod_lt c hseg
  have hpart : c / s.seg < 3 := by
    apply Nat.div_lt_of_lt_mul
    rwa [mul_comm]
  have hhead : c % s.seg / s.K < s.H := by
    apply Nat.div_lt_of_lt_mul
    rw [mul_comm]
    exact hmod
  refine ⟨c / s.seg, hpart, c % s.seg / s.K, hhead, c % s.seg % s.K, Nat.mod_lt _ hK, ?_⟩
  rw [FusedShape.col, Nat.div_add_mod', Nat.div_add_mod']

-- what a head computes depends on its own channels and state
section

variable {m m' : FusedLoc → V} {slot bb h : ℕ}
  (hconv : ∀ j < s.Kw, ∀ part < 3, ∀ l < s.K, m (.conv slot j (s.col h part l)) = m' (.conv slot j (s.col h part l)))
  (hssm : ∀ r < s.K, ∀ d < s.K, m (.ssm slot h r d) = m' (.ssm slot h r d))
include hconv

omit [LinearOrder V] in
lemma fusedConv_congr {part l : ℕ} (hpart : part < 3) (hl : l < s.K) :
    fusedConv f s i m slot bb h part l = fusedConv f s i m' slot bb h part l := by
  have hsum : ∑ j ∈ range s.Kw, i.taps j (s.col h part l) * m (.conv slot j (s.col h part l)) =
      ∑ j ∈ range s.Kw, i.taps j (s.col h part l) * m' (.conv slot j (s.col h part l)) :=
    sum_congr rfl fun j hj => by rw [hconv j (mem_range.mp hj) part hpart l hl]
  simp [fusedConv, hsum]

include hssm

lemma fusedState_congr {r d : ℕ} (hr : r < s.K) (hd : d < s.K) :
    fusedState f s i m slot bb h r d = fusedState f s i m' slot bb h r d := by
  unfold fusedState
  refine deltaUpdate_congr (fusedConv_congr hconv (by decide) hr) (fun e he => ?_) (fun e he => ?_) hd
  · exact l2norm_congr (fun e he => fusedConv_congr hconv (by decide) he) he
  · rw [hssm r hr e he]

lemma fusedOut_congr {r : ℕ} (hr : r < s.K) : fusedOut f s i m slot bb h r = fusedOut f s i m' slot bb h r := by
  have hreadout (r : ℕ) (hr : r < s.K) :
      readout s.K (fusedState f s i m slot bb h) (fun d => l2norm f s.K (fusedConv f s i m slot bb h 0) d * i.scale) r =
        readout s.K (fusedState f s i m' slot bb h)
          (fun d => l2norm f s.K (fusedConv f s i m' slot bb h 0) d * i.scale) r := by
    refine readout_congr (fun e he => fusedState_congr hconv hssm hr he) fun e he => ?_
    rw [l2norm_congr (fun e he => fusedConv_congr hconv (by decide) he) he]
  simp [fusedOut, hreadout r hr, meanSquare_congr hreadout]

end

variable (f s i) in
lemma kdaFusedDecode_owned (hids : LiveDistinct s.B i.slotIds) :
    Owned s.tasks fusedPool (s.own i.slotIds) (bodyKdaFusedDecode f s i) := by
  refine ⟨product_nodup _ _, fun t ht m m' hagree => ?_, fun t ht m st hst => ?_, ?_⟩
  · unfold bodyKdaFusedDecode
    split
    · rfl
    · rename_i hlive
      have hslot : ((i.slotIds t.1).toNat : ℤ) = i.slotIds t.1 := Int.toNat_of_nonneg (not_lt.mp hlive)
      have hh := (mem_fusedTasks.mp ht).2
      have hconv : ∀ j < s.Kw, ∀ part < 3, ∀ l < s.K, m (.conv (i.slotIds t.1).toNat j (s.col t.2 part l)) =
          m' (.conv (i.slotIds t.1).toNat j (s.col t.2 part l)) :=
        fun j hj part hpart l hl => hagree _ ⟨hslot, head_of_col hh hl, hj, col_lt hpart hh hl⟩ trivial
      have hssm : ∀ r < s.K, ∀ d < s.K,
          m (.ssm (i.slotIds t.1).toNat t.2 r d) = m' (.ssm (i.slotIds t.1).toNat t.2 r d) :=
        fun r hr d hd => hagree _ ⟨hslot, rfl, hr, hd⟩ trivial
      unfold bodyKdaFusedLive
      congr 1
      · refine flatMap_congr fun j _ => storeRows_congr (fun _ _ _ _ => rfl) fun part hpart l hl => ?_
        unfold fusedWindow
        split
        · rename_i hlast
          rw [hconv (j + 1) hlast part hpart l hl]
        · rfl
      · congr 1
        · exact storeRows_congr (fun _ _ _ _ => rfl) fun r hr d hd => fusedState_congr hconv hssm hr hd
        · exact storeRow_congr (fun _ _ => rfl) fun r hr => by rw [fusedOut_congr hconv hssm hr]
  · unfold bodyKdaFusedDecode at hst
    split at hst
    · obtain ⟨r, hr, rfl⟩ := mem_storeRow.mp hst
      exact ⟨rfl, hr⟩
    · rename_i hlive
      have hslot : ((i.slotIds t.1).toNat : ℤ) = i.slotIds t.1 := Int.toNat_of_nonneg (not_lt.mp hlive)
      have hh := (mem_fusedTasks.mp ht).2
      rcases mem_append.mp hst with hst | hst
      · obtain ⟨j, hj, hst⟩ := mem_flatMap.mp hst
        obtain ⟨_, hpart, l, hl, rfl⟩ := mem_storeRows.mp hst
        exact ⟨hslot, head_of_col hh hl, List.mem_range.mp hj, col_lt hpart hh hl⟩
      · rcases mem_append.mp hst with hst | hst
        · obtain ⟨r, hr, d, hd, rfl⟩ := mem_storeRows.mp hst
          exact ⟨hslot, rfl, hr, hd⟩
        · obtain ⟨r, hr, rfl⟩ := mem_storeRow.mp hst
          exact ⟨rfl, hr⟩
  · intro t ht u hu hne
    refine Set.disjoint_left.mpr fun loc hloc hloc' => hne ?_
    have hrow (slot : ℕ) (h : (slot : ℤ) = i.slotIds t.1) (h' : (slot : ℤ) = i.slotIds u.1) : t.1 = u.1 :=
      hids t.1 (mem_fusedTasks.mp ht).1 u.1 (mem_fusedTasks.mp hu).1 (h ▸ Int.natCast_nonneg slot) (h.symm.trans h')
    match loc with
    | .conv slot _ _ => exact Prod.ext (hrow slot hloc.1 hloc'.1) (hloc.2.1.symm.trans hloc'.2.1)
    | .ssm slot _ _ _ => exact Prod.ext (hrow slot hloc.1 hloc'.1) (hloc.2.1.symm.trans hloc'.2.1)
    | .out _ _ _ => exact hloc.1.symm.trans hloc'.1

def LiveInRange (B slots : ℕ) (ids : ℕ → ℤ) : Prop := ∀ b < B, ids b < slots

lemma FusedShape.own_subset {ids : ℕ → ℤ} (hrange : LiveInRange s.B s.slots ids) {t : ℕ × ℕ} (ht : t ∈ s.tasks) :
    s.own ids t ⊆ s.range := by
  intro loc hloc
  obtain ⟨hb, hh⟩ := mem_fusedTasks.mp ht
  cases loc with
  | conv slot j c => exact ⟨by exact_mod_cast hloc.1.trans_lt (hrange t.1 hb), hloc.2.2⟩
  | ssm slot h r d =>
    obtain ⟨hslot, rfl, hloc⟩ := hloc
    exact ⟨by exact_mod_cast hslot.trans_lt (hrange t.1 hb), hh, hloc⟩
  | out b h r =>
    obtain ⟨rfl, hloc⟩ := hloc
    exact ⟨hb, hh, hloc⟩

/-! ### A step -/

section

variable {m m' : FusedLoc → V} (hids : LiveDistinct s.B i.slotIds)
  (hrun : TasksInAnyOrder s.tasks (bodyKdaFusedDecode f s i) m m') {b h slot : ℕ} (hb : b < s.B) (hh : h < s.H)
include hids hrun hb hh

variable (hslot : i.slotIds b = slot)
include hslot

omit hids hrun hb hh [LinearOrder V] in
lemma live_body [LinearOrder V] : bodyKdaFusedDecode f s i (b, h) m = bodyKdaFusedLive f s i slot b h m := by
  have hlive : ¬i.slotIds b < 0 := by omega
  rw [bodyKdaFusedDecode, if_neg hlive, hslot, Int.toNat_natCast]

lemma fused_ssm {r d : ℕ} (hr : r < s.K) (hd : d < s.K) : m' (.ssm slot h r d) = fusedState f s i m slot b h r d := by
  have ht : (b, h) ∈ s.tasks := mem_fusedTasks.mpr ⟨hb, hh⟩
  have hown : ssm slot h r d ∈ s.own i.slotIds (b, h) := ⟨hslot.symm, rfl, hr, hd⟩
  refine hrun.value (kdaFusedDecode_owned f s i hids) ht hown ?_ fun v hv => ?_
  · rw [live_body hslot]
    exact mem_append_right _ (mem_append_left _ (mem_storeRows.mpr ⟨r, hr, d, hd, rfl⟩))
  · rw [live_body hslot] at hv
    rcases mem_append.mp hv with hv | hv
    · obtain ⟨j, -, hv⟩ := mem_flatMap.mp hv
      obtain ⟨_, -, l, -, heq⟩ := mem_storeRows.mp hv
      cases (Prod.mk.inj heq).1
    · rcases mem_append.mp hv with hv | hv
      · obtain ⟨r', -, _, -, heq⟩ := mem_storeRows.mp hv
        obtain ⟨hloc, rfl⟩ := Prod.mk.inj heq
        obtain ⟨-, -, rfl, rfl⟩ := ssm.inj hloc
        rfl
      · obtain ⟨_, -, heq⟩ := mem_storeRow.mp hv
        cases (Prod.mk.inj heq).1

lemma fused_out {r : ℕ} (hr : r < s.K) : m' (.out b h r) = f.toOut (f.bf16 (fusedOut f s i m slot b h r)) := by
  have ht : (b, h) ∈ s.tasks := mem_fusedTasks.mpr ⟨hb, hh⟩
  have hown : out b h r ∈ s.own i.slotIds (b, h) := ⟨rfl, hr⟩
  refine hrun.value (kdaFusedDecode_owned f s i hids) ht hown ?_ fun v hv => ?_
  · rw [live_body hslot]
    exact mem_append_right _ (mem_append_right _ (mem_storeRow.mpr ⟨r, hr, rfl⟩))
  · rw [live_body hslot] at hv
    rcases mem_append.mp hv with hv | hv
    · obtain ⟨j, -, hv⟩ := mem_flatMap.mp hv
      obtain ⟨_, -, l, -, heq⟩ := mem_storeRows.mp hv
      cases (Prod.mk.inj heq).1
    · rcases mem_append.mp hv with hv | hv
      · obtain ⟨r', -, _, -, heq⟩ := mem_storeRows.mp hv
        cases (Prod.mk.inj heq).1
      · obtain ⟨_, -, heq⟩ := mem_storeRow.mp hv
        obtain ⟨hloc, rfl⟩ := Prod.mk.inj heq
        obtain ⟨-, -, rfl⟩ := out.inj hloc
        rfl

omit hh in
lemma fused_conv {j c : ℕ} (hj : j < s.Kw) (hc : c < 3 * s.seg) :
    m' (.conv slot j c) = fusedWindow f s i m slot b j c := by
  obtain ⟨part, hpart, h, hh, l, hl, rfl⟩ := col_surjective hc
  have ht : (b, h) ∈ s.tasks := mem_fusedTasks.mpr ⟨hb, hh⟩
  have hown : conv slot j (s.col h part l) ∈ s.own i.slotIds (b, h) := ⟨hslot.symm, head_of_col hh hl, hj, hc⟩
  refine hrun.value (kdaFusedDecode_owned f s i hids) ht hown ?_ fun v hv => ?_
  · rw [live_body hslot]
    exact mem_append_left _ (mem_flatMap.mpr ⟨j, List.mem_range.mpr hj, mem_storeRows.mpr ⟨part, hpart, l, hl, rfl⟩⟩)
  · rw [live_body hslot] at hv
    rcases mem_append.mp hv with hv | hv
    · obtain ⟨_, -, hv⟩ := mem_flatMap.mp hv
      obtain ⟨_, -, _, -, heq⟩ := mem_storeRows.mp hv
      obtain ⟨hloc, rfl⟩ := Prod.mk.inj heq
      obtain ⟨-, rfl, hcol⟩ := conv.inj hloc
      rw [hcol]
    · rcases mem_append.mp hv with hv | hv
      · obtain ⟨r', -, _, -, heq⟩ := mem_storeRows.mp hv
        cases (Prod.mk.inj heq).1
      · obtain ⟨_, -, heq⟩ := mem_storeRow.mp hv
        cases (Prod.mk.inj heq).1

end

end

end VKernels.Recurrent
