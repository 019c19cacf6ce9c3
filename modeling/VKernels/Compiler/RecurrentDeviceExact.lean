import VKernels.Compiler.KdaFusedDecode
import VKernels.Compiler.RecurrentPlaces

/-!
# The recurrent device bodies against the reference bodies

## Results

* `recurrent_device_bodies` — the four bodies, on widths that the compiler accepts and two taps or more.
* `odd_width_raises` — other widths, and a single tap.
-/

namespace VKernels.Recurrent

open Finset LocalActions OwnedTasks
open LaneLaunch (arange arange_ok tile_ok)
open Grouping (blocksFor)
open WorkerTasks (workerTasks)
open List hiding cons mem_range
open ConvShape (own_subset place range tasks)

section

lemma coords_eq (B w : ℕ) : (List.range (B * w)).map (fun t => (t / w, t % w)) = List.range B ×ˢ List.range w := by
  rw [← Blocks.map_blocks]
  refine flatMap_congr fun b _ => map_congr_left fun i hi => ?_
  have hi' : i < w := mem_range.mp hi
  rw [Blocks.block_div b hi', Blocks.block_mod b hi']

variable {L V : Type} {B w : ℕ} {task : ℕ → Mem V → Mem V} {act : ℕ × ℕ → Action L V} {g : L → Cell} {m m' : Mem V}

/-- **A launch** carries out the tasks at the places of their locations. -/
theorem Launched.inAnyOrder (h : Launched (B * w) task m m')
    (htask : ∀ t < B * w, ∀ m, task t m = ((act (t / w, t % w)).place g).run m) :
    TasksInAnyOrder (List.range B ×ˢ List.range w) (fun t => (act t).place g) m m' := by
  obtain ⟨P, hP, order, horder, rfl⟩ := h
  have hperm := horder.trans (WorkerTasks.workerTasks_perm hP)
  refine ⟨order.map fun t => (t / w, t % w), coords_eq B w ▸ hperm.map _, ?_⟩
  have hmem (t : ℕ) (ht : t ∈ order) : t < B * w := mem_range.mp (hperm.mem_iff.mp ht)
  clear horder hperm
  induction order generalizing m with
  | nil => rfl
  | cons t order ih =>
    rw [foldl_cons, htask t (hmem t mem_cons_self), ih fun u hu => hmem u (mem_cons_of_mem t hu)]
    rfl

end

/-! ## Runs -/

section

variable {L V : Type}

/-- **Device and reference agree**: the device compiles, and over every run from equal pools the pools stay equal, every
step leaves equal outputs, and no cell changes but those of the touched locations. -/
def Agrees (place : L → Cell) (elements pool : Set L) (touched : ℕ → Set L)
    (device : ℕ → Except String (Mem V → Mem V → Prop)) (reference : ℕ → (L → V) → (L → V) → Prop) : Prop :=
  ∃ step : ℕ → Mem V → Mem V → Prop, (∀ t, device t = .ok (step t)) ∧
    ∀ (n : ℕ) (d : ℕ → Mem V) (m : ℕ → L → V), (∀ t < n, step t (d t) (d (t + 1))) →
      (∀ t < n, reference t (m t) (m (t + 1))) → (∀ l ∈ elements, l ∈ pool → d 0 (place l) = m 0 l) →
      (∀ t ≤ n, ∀ l ∈ elements, l ∈ pool → d t (place l) = m t l) ∧
      (∀ t < n, ∀ l ∈ elements, l ∉ pool → d (t + 1) (place l) = m (t + 1) l) ∧
      ∀ t < n, ∀ c, c ∉ place '' touched t → d (t + 1) c = d t c

variable [DecidableEq L] {B w : ℕ} {place : L → Cell} {elements pool : Set L} {touched : ℕ → Set L}
  {device : ℕ → Except String (Mem V → Mem V → Prop)} {own : ℕ → ℕ × ℕ → Set L} {act : ℕ → ℕ × ℕ → Action L V}
  {task : ℕ → ℕ → Mem V → Mem V}

variable (own) in
lemma agrees_of_owned {tasks : List (ℕ × ℕ)} (htasks : tasks = List.range B ×ˢ List.range w)
    (hinj : Set.InjOn place elements) (howned : ∀ t, Owned tasks pool (own t) (act t))
    (hown : ∀ t, ∀ u ∈ tasks, own t u ⊆ elements ∩ touched t)
    (houts : ∀ t, ∀ l ∈ elements, l ∉ pool → ∃ u ∈ tasks, l ∈ own t u)
    (hwrites : ∀ t m, ∀ u ∈ tasks, ∀ l ∈ own t u, l ∈ pool ∨ l ∈ (act t u m).map Prod.fst)
    (hdevice : ∀ t, device t = .ok (Launched (B * w) (task t)))
    (htask : ∀ t, ∀ k < B * w, ∀ m, task t k m = ((act t (k / w, k % w)).place place).run m) :
    Agrees place elements pool touched device fun t => TasksInAnyOrder tasks (act t) := by
  refine ⟨_, hdevice, fun n d m hstep hreference hstart => ?_⟩
  obtain ⟨hpools, houtputs, hframe⟩ := runs_agree (fun t _ => howned t) hinj
    (fun t _ u hu => (hown t u hu).trans Set.inter_subset_left) (fun t _ u hu l hl => hwrites t (m t) u hu l hl)
    hreference (fun t ht => htasks ▸ (hstep t ht).inAnyOrder (htask t)) hstart
  refine ⟨hpools, fun t ht l hl hpool => ?_, fun t ht c hc => hframe t ht c fun u hu hcu => hc ?_⟩
  · obtain ⟨u, hu, hlu⟩ := houts t l hl hpool
    exact houtputs t ht u hu l hlu
  · exact Set.image_mono ((hown t u hu).trans Set.inter_subset_right) hcu

end

/-! ## The four bodies -/

/-- A tile that the compiler accepts. -/
structure Tile (m n : ℕ) : Prop where
  rows : ∃ i, m = 2 ^ i
  cols : ∃ i, n = 2 ^ i
  numel : m * n ≤ 1048576

section

variable {V : Type} [Field V] {f : Functions V}

lemma blocksFor_of_dvd {size n : ℕ} (hsize : 0 < size) (h : size ∣ n) : blocksFor size n = n / size := by
  obtain ⟨q, rfl⟩ := h
  rw [blocksFor, Nat.add_sub_assoc hsize, Nat.mul_add_div hsize, Nat.div_eq_of_lt (by omega), Nat.add_zero,
    Nat.mul_div_cancel_left _ hsize]

lemma gdnConv_agrees_tile (s : ConvShape) (hELEM : ∃ i, s.tile = 2 ^ i) (hdvd : s.tile ∣ s.C) (htaps : 0 < s.Km1)
    (p : ℕ → ConvBuffers V) :
    Agrees s.place s.range convPool (fun _ => s.range) (fun t => gdnConvTiled f (s.Km1 + 1) s.C s.tile (p t) s.B)
      fun t => TasksInAnyOrder s.tasks (bodyGdnConv f s ((p t).tensors s)) := by
  have htile : 0 < s.tile := by
    obtain ⟨i, hi⟩ := hELEM
    rw [hi]
    exact Nat.two_pow_pos i
  have htasks : s.tasks = List.range s.B ×ˢ List.range (s.C / s.tile) := by
    rw [tasks, blocksFor_of_dvd htile hdvd]
  refine agrees_of_owned (fun _ => s.own) htasks s.place_injOn (fun t => gdnConv_owned f s _)
    (fun t u hu => Set.subset_inter (own_subset hu) (own_subset hu)) (fun t l hl hpool => ?_)
    (fun t m u hu l hl => ?_) (fun t => ?_) fun t k hk m => tGdnConvTiled_eq s (p t) htaps hk m
  · cases l with
    | state b j c => exact absurd trivial hpool
    | out b c =>
      obtain ⟨hblock, -⟩ := channel_tile htile hl.2
      exact ⟨(b, c / s.tile), mem_convTasks.mpr ⟨hl.1, hblock⟩, rfl, hl.2⟩
  · cases l with
    | state b j c => exact .inl trivial
    | out b c =>
      obtain ⟨rfl, hc⟩ := hl
      obtain ⟨-, l, hl, hcol⟩ := channel_tile htile hc
      refine .inr (mem_map.mpr ⟨_, mem_append_left _ (mem_storeRow.mpr ⟨l, hl, rfl⟩), ?_⟩)
      rw [hcol]
  · rw [gdnConvTiled, arange_ok hELEM]
    rfl

lemma gdnConv_tilings {s s' : ConvShape} {i : ConvInputs V} {m₁ m₁' m₂ m₂' : ConvLoc → V}
    (hrun : TasksInAnyOrder s.tasks (bodyGdnConv f s i) m₁ m₁') (hrun' : TasksInAnyOrder s'.tasks (bodyGdnConv f s' i) m₂ m₂')
    (hB : s'.B = s.B) (hKm1 : s'.Km1 = s.Km1) (hC : s'.C = s.C) (htile : 0 < s.tile) (htile' : 0 < s'.tile)
    (hpools : ∀ l ∈ s.range, l ∈ convPool → m₁ l = m₂ l) : ∀ l ∈ s.range, m₁' l = m₂' l := by
  intro l hl
  cases l with
  | state b j c =>
    obtain ⟨hb, hj, hc⟩ := hl
    rw [gdnConv_state hrun htile hb hc hj, gdnConv_state hrun' htile' (hB ▸ hb) (hC ▸ hc) (hKm1 ▸ hj), hKm1]
    split
    · rename_i hnext
      exact hpools _ ⟨hb, hnext, hc⟩ trivial
    · rfl
  | out b c =>
    obtain ⟨hb, hc⟩ := hl
    have hacc : convAcc s i m₁ b c = convAcc s' i m₂ b c := by
      rw [convAcc, convAcc, hKm1]
      congr 1
      refine sum_congr rfl fun j hj => ?_
      have hrange : ConvLoc.state b j c ∈ s.range := ⟨hb, mem_range.mp hj, hc⟩
      rw [hpools _ hrange trivial]
    rw [gdnConv_out hrun htile hb hc, gdnConv_out hrun' htile' (hB ▸ hb) (hC ▸ hc), hacc]

lemma gdnConv_agrees (s : ConvShape) {ELEM : ℕ} (hELEM : ∃ i, ELEM = 2 ^ i) (hdvd : ELEM ∣ s.C) (htile : 0 < s.tile)
    (htaps : 0 < s.Km1) (p : ℕ → ConvBuffers V) :
    Agrees s.place s.range convPool (fun _ => s.range) (fun t => gdnConvTiled f (s.Km1 + 1) s.C ELEM (p t) s.B)
      fun t => TasksInAnyOrder s.tasks (bodyGdnConv f s ((p t).tensors s)) := by
  let s' : ConvShape := { s with tile := ELEM }
  have hpos : 0 < s'.tile := by
    obtain ⟨i, rfl⟩ := hELEM
    exact Nat.two_pow_pos i
  obtain ⟨step, hdevice, hruns⟩ := gdnConv_agrees_tile (f := f) s' hELEM hdvd htaps p
  refine ⟨step, hdevice, fun n d m hstep hreference hstart => ?_⟩
  -- the reference of the device's tiling, from the same start
  let m' : ℕ → ConvLoc → V :=
    fun t => Nat.rec (m 0) (fun t m => runAll (s'.tasks.map (bodyGdnConv f s' ((p t).tensors s'))) m) t
  have hrun' (t : ℕ) : TasksInAnyOrder s'.tasks (bodyGdnConv f s' ((p t).tensors s')) (m' t) (m' (t + 1)) :=
    ⟨_, Perm.refl _, rfl⟩
  have hboth (t : ℕ) (ht : t < n) (hpools : ∀ l ∈ s.range, l ∈ convPool → m t l = m' t l) :
      ∀ l ∈ s.range, m (t + 1) l = m' (t + 1) l :=
    gdnConv_tilings (hreference t ht) (hrun' t) rfl rfl rfl htile hpos hpools
  have hpools (t : ℕ) (ht : t ≤ n) : ∀ l ∈ s.range, l ∈ convPool → m t l = m' t l := by
    induction t with
    | zero => exact fun _ _ _ => rfl
    | succ t ih => exact fun l hl _ => hboth t ht (ih (by omega)) l hl
  obtain ⟨hsame, houts, hframe⟩ := hruns n d m' hstep (fun t _ => hrun' t) hstart
  refine ⟨fun t ht l hl hpool => ?_, fun t ht l hl hpool => ?_, hframe⟩
  · rw [hpools t ht l hl hpool]
    exact hsame t ht l hl hpool
  · rw [hboth t ht (hpools t ht.le) l hl]
    exact houts t ht l hl hpool

end

section

variable {V : Type} [Field V] [LinearOrder V] {f : Functions V}

lemma gdnDelta_agrees (s : DeltaShape) (htile : Tile s.HV s.HK) (p : ℕ → DeltaBuffers V) :
    Agrees s.place s.range deltaPool (fun _ => s.range) (fun t => gdnHeadsBatched f s.NV s.NK s.HV s.HK (p t) s.B)
      fun t => TasksInAnyOrder s.tasks (bodyGdnDelta f s ((p t).tensors s)) := by
  refine agrees_of_owned (fun _ => s.own) rfl s.place_injOn (fun t => gdnDelta_owned f s _)
    (fun t u hu => Set.subset_inter (s.own_subset hu) (s.own_subset hu)) (fun t l hl hpool => ?_)
    (fun t m u hu l hl => ?_) (fun t => ?_) fun t k _ m => tGdnHeadsBatched_eq s (p t) k m
  · cases l with
    | state b h r c => exact absurd trivial hpool
    | out b h r => exact ⟨(b, h), mem_deltaTasks.mpr ⟨hl.1, hl.2.1⟩, rfl, hl.2.2⟩
  · cases l with
    | state b h r c => exact .inl trivial
    | out b h r =>
      obtain ⟨rfl, hr⟩ := hl
      exact .inr (mem_map.mpr ⟨_, mem_append_right _ (mem_storeRow.mpr ⟨r, hr, rfl⟩), rfl⟩)
  · rw [gdnHeadsBatched, arange_ok htile.rows, arange_ok htile.cols, tile_ok htile.numel]
    rfl

lemma kdaDelta_agrees (s : KdaShape) (htile : Tile s.K s.V) (p : ℕ → KdaBuffers V) :
    Agrees s.place s.range kdaPool (fun _ => s.range) (fun t => kdaHeadsBatched f s.H s.K s.V (p t) s.B)
      fun t => TasksInAnyOrder s.tasks (bodyKdaDelta f s ((p t).tensors s)) := by
  refine agrees_of_owned (fun _ => s.own) rfl s.place_injOn (fun t => kdaDelta_owned f s _)
    (fun t u hu => Set.subset_inter (KdaShape.own_subset hu) (KdaShape.own_subset hu)) (fun t l hl hpool => ?_)
    (fun t m u hu l hl => ?_) (fun t => ?_) fun t k _ m => tKdaHeadsBatched_eq s (p t) k m
  · cases l with
    | state b h k v => exact absurd trivial hpool
    | out b h v => exact ⟨(b, h), mem_kdaTasks.mpr ⟨hl.1, hl.2.1⟩, rfl, hl.2.2⟩
  · cases l with
    | state b h k v => exact .inl trivial
    | out b h v =>
      obtain ⟨rfl, hv⟩ := hl
      exact .inr (mem_map.mpr ⟨_, mem_append_right _ (mem_storeRow.mpr ⟨v, hv, rfl⟩), rfl⟩)
  · rw [kdaHeadsBatched, arange_ok htile.rows, arange_ok htile.cols, tile_ok htile.numel]
    rfl

/-- The pool rows of the live slots, and the outputs. -/
def FusedShape.addressed (s : FusedShape) (ids : ℕ → ℤ) : Set FusedLoc := fun loc =>
  match loc with
  | .conv slot _ _ => ∃ b < s.B, ids b = slot
  | .ssm slot _ _ _ => ∃ b < s.B, ids b = slot
  | .out _ _ _ => True

lemma own_subset_addressed {s : FusedShape} {ids : ℕ → ℤ} {u : ℕ × ℕ} (hu : u ∈ s.tasks) :
    s.own ids u ⊆ s.addressed ids := by
  intro l hl
  have hb := (mem_fusedTasks.mp hu).1
  cases l with
  | conv slot j c => exact ⟨u.1, hb, hl.1.symm⟩
  | ssm slot h r d => exact ⟨u.1, hb, hl.1.symm⟩
  | out b h r => exact trivial

lemma kdaFused_agrees (s : FusedShape) (htile : Tile s.K s.K) (htaps : 0 < s.Kw) (p : ℕ → FusedBuffers V)
    (hids : ∀ t, LiveDistinct s.B (p t).ids) (hrange : ∀ t, LiveInRange s.B s.slots (p t).ids) :
    Agrees s.place s.range fusedPool (fun t => s.range ∩ s.addressed (p t).ids)
      (fun t => kdaFused f s.H s.K (3 * s.seg) s.Kw (p t) s.B)
      fun t => TasksInAnyOrder s.tasks (bodyKdaFusedDecode f s ((p t).tensors s)) := by
  refine agrees_of_owned (fun t => s.own (p t).ids) rfl s.place_injOn
    (fun t => kdaFusedDecode_owned f s ((p t).tensors s) (hids t)) (fun t u hu => ?_) (fun t l hl hpool => ?_)
    (fun t m u hu l hl => ?_) (fun t => ?_) fun t k hk m => tKdaFused_eq s (p t) htaps (hrange t) hk m
  · have hown := FusedShape.own_subset (hrange t) hu
    exact Set.subset_inter hown (Set.subset_inter hown (own_subset_addressed hu))
  · match l with
    | .conv .. => exact absurd trivial hpool
    | .ssm .. => exact absurd trivial hpool
    | .out b h r => exact ⟨(b, h), mem_fusedTasks.mpr ⟨hl.1, hl.2.1⟩, rfl, hl.2.2⟩
  · match l with
    | .conv .. => exact .inl trivial
    | .ssm .. => exact .inl trivial
    | .out b h r =>
      obtain ⟨rfl, hr⟩ := hl
      refine .inr ?_
      unfold bodyKdaFusedDecode
      split
      · exact mem_map.mpr ⟨_, mem_storeRow.mpr ⟨r, hr, rfl⟩, rfl⟩
      · refine mem_map.mpr ⟨_, mem_append_right _ (mem_append_right _ (mem_storeRow.mpr ⟨r, hr, rfl⟩)), rfl⟩
  · rw [kdaFused, arange_ok htile.rows, tile_ok htile.numel]
    rfl

variable (f) in
/-- **The device bodies** leave the pools and the outputs of the reference bodies over every run, and nothing else, on
widths that the compiler accepts and two taps or more. -/
theorem recurrent_device_bodies :
    (∀ (s : ConvShape) (ELEM : ℕ) (p : ℕ → ConvBuffers V), (∃ i, ELEM = 2 ^ i) → ELEM ∣ s.C → 0 < s.tile → 0 < s.Km1 →
      Agrees s.place s.range convPool (fun _ => s.range) (fun t => gdnConvTiled f (s.Km1 + 1) s.C ELEM (p t) s.B)
        fun t => TasksInAnyOrder s.tasks (bodyGdnConv f s ((p t).tensors s))) ∧
    (∀ (s : DeltaShape) (p : ℕ → DeltaBuffers V), Tile s.HV s.HK → Agrees s.place s.range deltaPool (fun _ => s.range)
        (fun t => gdnHeadsBatched f s.NV s.NK s.HV s.HK (p t) s.B)
        fun t => TasksInAnyOrder s.tasks (bodyGdnDelta f s ((p t).tensors s))) ∧
    (∀ (s : KdaShape) (p : ℕ → KdaBuffers V), Tile s.K s.V →
      Agrees s.place s.range kdaPool (fun _ => s.range) (fun t => kdaHeadsBatched f s.H s.K s.V (p t) s.B)
        fun t => TasksInAnyOrder s.tasks (bodyKdaDelta f s ((p t).tensors s))) ∧
    ∀ (s : FusedShape) (p : ℕ → FusedBuffers V), Tile s.K s.K → 0 < s.Kw → (∀ t, LiveDistinct s.B (p t).ids) →
      (∀ t, LiveInRange s.B s.slots (p t).ids) →
      Agrees s.place s.range fusedPool (fun t => s.range ∩ s.addressed (p t).ids)
        (fun t => kdaFused f s.H s.K (3 * s.seg) s.Kw (p t) s.B)
        fun t => TasksInAnyOrder s.tasks (bodyKdaFusedDecode f s ((p t).tensors s)) :=
  ⟨fun s _ p hELEM hdvd htile htaps => gdnConv_agrees s hELEM hdvd htile htaps p, fun s p htile => gdnDelta_agrees s htile p,
    fun s p htile => kdaDelta_agrees s htile p,
    fun s p htile htaps hids hrange => kdaFused_agrees s htile htaps p hids hrange⟩

end

/-! ### Small shapes -/

section

lemma Agrees.at {L V : Type} {place : L → Cell} {elements pool : Set L} {touched : ℕ → Set L}
    {device : ℕ → Except String (Mem V → Mem V → Prop)} {reference : ℕ → (L → V) → (L → V) → Prop}
    (h : Agrees place elements pool touched device reference) {step : ℕ → Mem V → Mem V → Prop}
    {d : ℕ → Mem V} {m : ℕ → L → V} (hd : ∀ t, step t (d t) (d (t + 1))) (hstep : ∀ t, device t = .ok (step t))
    (hm : ∀ t, reference t (m t) (m (t + 1))) (hstart : ∀ l ∈ elements, l ∈ pool → d 0 (place l) = m 0 l) :
    (∀ t, ∀ l ∈ elements, l ∈ pool → d t (place l) = m t l) ∧
      (∀ t, ∀ l ∈ elements, l ∉ pool → d (t + 1) (place l) = m (t + 1) l) ∧
      ∀ t c, c ∉ place '' touched t → d (t + 1) c = d t c := by
  obtain ⟨step', hstep', hruns⟩ := h
  have heq (t : ℕ) : step t = step' t := Except.ok.inj ((hstep t).symm.trans (hstep' t))
  have hall (n : ℕ) := hruns n d m (fun t _ => heq t ▸ hd t) (fun t _ => hm t) hstart
  exact ⟨fun t => (hall t).1 t le_rfl, fun t => (hall (t + 1)).2.1 t t.lt_succ_self, fun t =>
    (hall (t + 1)).2.2 t t.lt_succ_self⟩

/-- The tasks of three workers one after another, at every step. -/
noncomputable def deviceRun (n : ℕ) (task : ℕ → Mem ℝ → Mem ℝ) (t : ℕ) : Mem ℝ :=
  Nat.rec (fun _ => 0) (fun _ m => (workerTasks 3 n).foldl (fun m t => task t m) m) t

noncomputable def bodyRun {L : Type} [DecidableEq L] (tasks : List (ℕ × ℕ)) (act : ℕ × ℕ → Action L ℝ) (t : ℕ) : L → ℝ :=
  Nat.rec (fun _ => 0) (fun _ m => runAll (tasks.map act) m) t

lemma deviceRun_step (n : ℕ) (task : ℕ → Mem ℝ → Mem ℝ) (t : ℕ) :
    Launched n task (deviceRun n task t) (deviceRun n task (t + 1)) := ⟨3, by decide, _, Perm.refl _, rfl⟩

lemma bodyRun_step {L : Type} [DecidableEq L] (tasks : List (ℕ × ℕ)) (act : ℕ × ℕ → Action L ℝ) (t : ℕ) :
    TasksInAnyOrder tasks act (bodyRun tasks act t) (bodyRun tasks act (t + 1)) := ⟨_, Perm.refl _, rfl⟩

/-- A row in slot 1 and a padded row, two heads of two dimensions, three taps. -/
noncomputable def paddedBuffers : FusedBuffers ℝ where
  ids b := if b = 0 then 1 else -1
  qkv c := c
  f _ := 1
  b _ := 1
  g c := c
  taps _ := 1
  dtb _ := 1
  alog _ := 1
  onorm _ := 1
  scale := 1
  eps := 1
  lowerBound := some (-5)

noncomputable def channelBuffers : ConvBuffers ℝ := ⟨fun _ => 1, fun c => c⟩

noncomputable def headBuffers : DeltaBuffers ℝ :=
  ⟨fun c => c, fun c => c, fun c => c, fun c => c, fun _ => 1, fun _ => 1, fun _ => 1, fun _ => 1, fun _ => 1, 1, 1⟩

noncomputable def gateBuffers : KdaBuffers ℝ :=
  ⟨fun c => c, fun c => c, fun c => c, fun c => c, fun _ => 1, fun _ => 1, fun _ => 1, 1, none⟩

def paddedShape : FusedShape := ⟨2, 2, 2, 2, 2⟩

/-- Four channels in tiles of two, three taps. -/
def channelShape : ConvShape := ⟨2, 2, 4, 2⟩

/-- Two value heads of one key head. -/
def headShape : DeltaShape := ⟨1, 2, 1, 2, 4⟩

def gateShape : KdaShape := ⟨1, 2, 2, 2⟩

/-- Two steps of each. -/
theorem small_shapes_agree :
    deviceRun 4 (tGdnConvTiled realFunctions 3 4 2 channelBuffers) 2 (channelShape.place (.state 1 0 3)) =
      bodyRun channelShape.tasks (bodyGdnConv realFunctions channelShape (channelBuffers.tensors channelShape)) 2
        (.state 1 0 3) ∧
    deviceRun 2 (tGdnHeadsBatched realFunctions 2 1 2 4 headBuffers) 2 (headShape.place (.out 0 1 1)) =
      bodyRun headShape.tasks (bodyGdnDelta realFunctions headShape (headBuffers.tensors headShape)) 2 (.out 0 1 1) ∧
    deviceRun 2 (tKdaHeadsBatched realFunctions 2 2 2 gateBuffers) 2 (gateShape.place (.state 0 1 1 0)) =
      bodyRun gateShape.tasks (bodyKdaDelta realFunctions gateShape (gateBuffers.tensors gateShape)) 2
        (.state 0 1 1 0) ∧
    deviceRun 4 (tKdaFused realFunctions 2 2 12 2 paddedBuffers) 2 (paddedShape.place (.out 1 1 0)) =
      bodyRun paddedShape.tasks (bodyKdaFusedDecode realFunctions paddedShape (paddedBuffers.tensors paddedShape)) 2
        (.out 1 1 0) ∧
    deviceRun 4 (tKdaFused realFunctions 2 2 12 2 paddedBuffers) 1 (paddedShape.place (.ssm 0 1 1 0)) = 0 := by
  obtain ⟨hconv, hdelta, hkda, hfused⟩ := recurrent_device_bodies realFunctions
  have htwo : ∃ i, 2 = 2 ^ i := ⟨1, rfl⟩
  have hfour : ∃ i, 4 = 2 ^ i := ⟨2, rfl⟩
  have hsquare : Tile 2 2 := ⟨htwo, htwo, by decide⟩
  have hids : LiveDistinct paddedShape.B paddedBuffers.ids := by
    intro b hb _ hb' hlive heq
    simp only [paddedBuffers, paddedShape] at hb hb' hlive heq
    split at hlive <;> split at heq <;> omega
  have hrange : LiveInRange paddedShape.B paddedShape.slots paddedBuffers.ids := by
    intro b _
    simp only [paddedBuffers, paddedShape]
    split <;> decide
  obtain ⟨hstate, -, -⟩ := (hconv channelShape 2 (fun _ => channelBuffers) htwo (by decide) (by decide) (by decide)).at
    (deviceRun_step 4 (tGdnConvTiled realFunctions 3 4 2 channelBuffers)) (fun _ => rfl) (bodyRun_step _ _)
    fun _ _ _ => rfl
  obtain ⟨-, hheads, -⟩ := (hdelta headShape (fun _ => headBuffers) ⟨htwo, hfour, by decide⟩).at
    (deviceRun_step 2 (tGdnHeadsBatched realFunctions 2 1 2 4 headBuffers)) (fun _ => rfl) (bodyRun_step _ _)
    fun _ _ _ => rfl
  obtain ⟨hgates, -, -⟩ := (hkda gateShape (fun _ => gateBuffers) hsquare).at
    (deviceRun_step 2 (tKdaHeadsBatched realFunctions 2 2 2 gateBuffers)) (fun _ => rfl) (bodyRun_step _ _)
    fun _ _ _ => rfl
  obtain ⟨-, hrows, hframe⟩ := (hfused paddedShape (fun _ => paddedBuffers) hsquare (by decide) (fun _ => hids)
    fun _ => hrange).at (deviceRun_step 4 (tKdaFused realFunctions 2 2 12 2 paddedBuffers)) (fun _ => rfl)
    (bodyRun_step _ _) fun _ _ _ => rfl
  refine ⟨hstate 2 _ ⟨by decide, by decide, by decide⟩ trivial, hheads 1 _ ⟨by decide, by decide, by decide⟩ id,
    hgates 2 _ ⟨by decide, by decide, by decide, by decide⟩ trivial, hrows 1 _ ⟨by decide, by decide, by decide⟩ id, ?_⟩
  refine hframe 0 _ ?_
  rintro ⟨l, ⟨hl, haddressed⟩, heq⟩
  have hzero : FusedLoc.ssm 0 1 1 0 ∈ paddedShape.range := ⟨by decide, by decide, by decide, by decide⟩
  obtain rfl := paddedShape.place_injOn hl hzero heq
  obtain ⟨b, -, hslot⟩ := haddressed
  simp only [paddedBuffers] at hslot
  split at hslot <;> omega

/-- **Three-wide heads** do not compile, and **a single tap** makes the device store below its pool. -/
theorem odd_shapes_disagree :
    ¬Agrees (KdaShape.place ⟨1, 1, 3, 3⟩) (KdaShape.range ⟨1, 1, 3, 3⟩) kdaPool (fun _ => KdaShape.range ⟨1, 1, 3, 3⟩)
      (fun _ => kdaHeadsBatched realFunctions 1 3 3 gateBuffers 1)
      (fun _ => TasksInAnyOrder (KdaShape.tasks ⟨1, 1, 3, 3⟩)
        (bodyKdaDelta realFunctions ⟨1, 1, 3, 3⟩ (gateBuffers.tensors ⟨1, 1, 3, 3⟩))) ∧
    ¬Agrees (place ⟨1, 0, 1, 1⟩) (range ⟨1, 0, 1, 1⟩) convPool (fun _ => range ⟨1, 0, 1, 1⟩)
      (fun _ => gdnConvTiled realFunctions 1 1 1 ⟨fun _ => 1, fun _ => 1⟩ 1)
      (fun _ => TasksInAnyOrder (tasks ⟨1, 0, 1, 1⟩)
        (bodyGdnConv realFunctions ⟨1, 0, 1, 1⟩ (ConvBuffers.tensors ⟨fun _ => 1, fun _ => 1⟩ ⟨1, 0, 1, 1⟩))) := by
  constructor
  · rintro ⟨_, hstep, -⟩
    have hrange : arange 3 = .error "arange's range must be a power of 2" := by
      have hlog : Nat.log2 3 = 1 := by rw [Nat.log2_eq_iff] <;> decide
      simp [arange, hlog]
    have h := hstep 0
    cases h
  · intro h
    obtain ⟨-, -, hframe⟩ := h.at
      (deviceRun_step 1 (tGdnConvTiled realFunctions 1 1 1 ⟨fun _ => 1, fun _ => 1⟩)) (fun _ => rfl) (bodyRun_step _ _)
      fun _ _ _ => rfl
    have hbelow : ((DeviceBuffer.state, (-1 : ℤ)) : Cell) ∉
        place ⟨1, 0, 1, 1⟩ '' range ⟨1, 0, 1, 1⟩ := by
      rintro ⟨l, hl, heq⟩
      cases l with
      | state b j c => exact absurd hl.2.1 (Nat.not_lt_zero j)
      | out b c => cases (Prod.mk.inj heq).1
    have hkept := hframe 0 _ hbelow
    have horder : workerTasks 3 1 = [0] := by decide
    simp [deviceRun, horder, tGdnConvTiled, store, storeRow, assign] at hkept

end

end VKernels.Recurrent
