import VKernels.Comm.PackedLayer

/-!
# Bounds of the direct path

Which bytes of an import the direct cross-node path reads and writes.

* `DirectPlan` — a plan of either direction that its constructor accepted for a graph-capturable
  transport; `DirectPlan.moves` are the copies of its closure.
* `fabric_bounds_iff` — a call stays inside the import exactly when it moves nothing or the layer
  fits at the offset.  No constructor compares the layer with the size of the import, and `execute`
  checks no offset; the host-bounce restore does compare its chunk with the layer.
-/

namespace VKernels.Comm

open ByteCopies Effects

inductive DirectPlan (a : CrossNodeArgs) (fabric : Option FabricImport) where
  | restore (self : CrossNodeKvRestorePlan) (transport : FabricImportTransport)
      (capturable : isImportGraphCapturable transport = true)
      (accepted : CrossNodeKvRestorePlan.construct a transport fabric = .ok self)
  | donate (self : CrossNodeKvDonatePlan) (transport : FabricImportTransport)
      (capturable : isImportGraphCapturable transport = true)
      (accepted : CrossNodeKvDonatePlan.construct a transport fabric = .ok self)

namespace DirectPlan

variable {a : CrossNodeArgs} {fabric : Option FabricImport} (plan : DirectPlan a fabric)

def execute (k v : ℕ) (remote : FabricHandle) (offset : ℕ) (stream graph : Bool)
    (channel : Option ℕ) : Eff (Node UInt8) Unit :=
  match plan with
  | .restore self _ _ _ => self.execute k v offset stream graph channel
  | .donate self _ _ _ => self.execute k v remote offset stream graph channel

/-- What `write_back` copies. -/
def writeBackMoves (fabric : FabricImport) (remote : FabricHandle) : List Copy :=
  if fabric.transport = .fabricMapped then [⟨remote.bytes, fabric.mirror, fabric.size⟩] else []

/-- The copies of the closure; without pages `execute` returns before it. -/
def moves (k v : ℕ) (remote : FabricHandle) (offset : ℕ) : List Copy :=
  if a.numPages = 0 then [] else
  match plan with
  | .restore _ _ _ _ => restoreCopies (a.direct (devicePtr fabric) k v offset)
  | .donate _ _ _ _ => donateCopies (a.direct (devicePtr fabric) k v offset) ++
      fabric.toList.flatMap fun f => writeBackMoves f remote

/-- The call touches byte `x` on the import's side: a restore reads there, a donation stores there
    and then reads the mirror back. -/
def Touches (k v : ℕ) (remote : FabricHandle) (offset x : ℕ) : Prop :=
  a.numPages ≠ 0 ∧
  match plan with
  | .restore _ _ _ _ => Reads (restoreCopies (a.direct (devicePtr fabric) k v offset)) x
  | .donate _ _ _ _ => Writes (donateCopies (a.direct (devicePtr fabric) k v offset)) x ∨
      ∃ f ∈ fabric, Reads (writeBackMoves f remote) x

/-- The call throws and leaves everything as it was. -/
def Rejects (k v : ℕ) (remote : FabricHandle) (offset : ℕ) : Prop :=
  ∀ (stream graph : Bool) (channel : Option ℕ) (n : Node UInt8),
    ∃ e, perform (plan.execute k v remote offset stream graph channel) n = (.error e, n)

/-- The call throws before it touches memory, or stays inside `[0, size)` of the import. -/
def StaysInBounds (k v : ℕ) (remote : FabricHandle) (offset : ℕ) : Prop :=
  plan.Rejects k v remote offset ∨ ∀ x, plan.Touches k v remote offset x →
    ∃ f ∈ fabric, f.devicePtr ≤ x ∧ x < f.devicePtr + f.size

end DirectPlan

/-! ## What the constructors leave -/

section

variable {a : CrossNodeArgs} {transport : FabricImportTransport} {fabric : Option FabricImport}

lemma CrossNodeArgs.prepare_direct {what direction : String} {slots : Except String Unit}
    {r : Option Unit} (hcap : isImportGraphCapturable transport = true)
    (h : a.prepare what (importCheck direction transport fabric) slots = .ok r)
    (hpages : a.numPages ≠ 0) : a.Checked ∧ fabric.any FabricImport.hasDevicePtr = true := by
  rcases CrossNodeArgs.prepare_ok h with ⟨h0, _⟩ | ⟨_, _, hchecked, himport, _⟩
  · exact absurd h0 hpages
  · refine ⟨hchecked, ?_⟩
    unfold importCheck at himport
    rw [if_pos hcap] at himport
    by_contra hnone
    simp [expects, hnone] at himport

end

namespace DirectPlan

variable {a : CrossNodeArgs} {fabric : Option FabricImport} (plan : DirectPlan a fabric)

lemma checked (plan : DirectPlan a fabric) (hpages : a.numPages ≠ 0) :
    a.Checked ∧ fabric.any FabricImport.hasDevicePtr = true := by
  cases plan with
  | restore self transport hcap h =>
    obtain ⟨r, hr, _⟩ := bind_ok.mp h
    exact CrossNodeArgs.prepare_direct hcap hr hpages
  | donate self transport hcap h =>
    obtain ⟨r, hr, _⟩ := bind_ok.mp h
    exact CrossNodeArgs.prepare_direct hcap hr hpages

/-- **The closure** makes exactly the copies of `moves`; a donation needs a handle that the mirror
    fits into. -/
theorem perform_execute {k v : ℕ} (hk : k ≠ 0) (hv : v ≠ 0) {remote : FabricHandle}
    (hremote : ∀ f ∈ fabric, f.size ≤ remote.size) (offset : ℕ) (graph : Bool) (channel : Option ℕ)
    {n : Node UInt8} (hn : n.graph.inCapture = false) :
    perform (plan.execute k v remote offset false graph channel) n = (.ok (), { n with
      world := { n.world with mem := runAll (plan.moves k v remote offset) n.world.mem } }) := by
  cases plan with
  | restore self transport hcap h =>
    obtain ⟨hargs, htransport, _⟩ := CrossNodeKvRestorePlan.construct_fields h
    show perform (self.execute k v offset false graph channel) n = _
    unfold CrossNodeKvRestorePlan.execute moves
    rw [hargs, htransport, perform_require_bind (.inl hk), perform_require_bind (.inl hv)]
    by_cases hpages : a.numPages = 0
    · rw [if_pos hpages, if_pos hpages]
      rfl
    · rw [if_neg hpages, if_neg hpages, if_pos hcap, perform_byState, if_neg (by simp [hn])]
      simp only [Bool.false_eq_true, if_false]
      rw [perform_runNow, CrossNodeKvRestorePlan.perform_direct h hcap hpages hk hv]
  | donate self transport hcap h =>
    obtain ⟨hargs, htransport, hfabric⟩ := CrossNodeKvDonatePlan.construct_fields h
    show perform (self.execute k v remote offset false graph channel) n = _
    unfold CrossNodeKvDonatePlan.execute moves
    rw [hargs, htransport, perform_require_bind (.inl hk), perform_require_bind (.inl hv)]
    by_cases hpages : a.numPages = 0
    · rw [if_pos hpages, if_pos hpages]
      rfl
    · rw [if_neg hpages, if_neg hpages, if_pos hcap, perform_byState, if_neg (by simp [hn])]
      simp only [Bool.false_eq_true, if_false]
      rw [perform_runNow]
      unfold CrossNodeKvDonatePlan.direct
      rw [perform_bind_ok (CrossNodeKvDonatePlan.perform_store h hcap hpages hk hv offset _)]
      obtain ⟨_, hany⟩ := (DirectPlan.donate self transport hcap h).checked hpages
      unfold CrossNodeKvDonatePlan.writeBack
      rw [hfabric]
      cases fabric with
      | none => simp at hany
      | some f =>
        simp only [Option.toList_some, List.flatMap_cons, List.flatMap_nil, List.append_nil]
        unfold FabricImport.writeBack writeBackMoves
        by_cases hmapped : f.transport = .fabricMapped
        · rw [if_neg (by simp [hmapped]), if_pos hmapped, perform_require_bind (hremote f rfl), runAll_append]
          rfl
        · rw [if_pos hmapped, if_neg hmapped, List.append_nil]
          rfl

lemma rejects_of_null {k v : ℕ} (hpages : a.numPages ≠ 0) (hnull : k = 0 ∨ v = 0)
    (remote : FabricHandle) (offset : ℕ) : plan.Rejects k v remote offset := by
  intro stream graph channel n
  cases plan with
  | restore self transport hcap h =>
    obtain ⟨hargs, _, _⟩ := CrossNodeKvRestorePlan.construct_fields h
    show ∃ e, perform (self.execute k v offset stream graph channel) n = _
    unfold CrossNodeKvRestorePlan.execute
    rw [hargs]
    by_cases hk : k = 0
    · exact ⟨_, perform_require_fails (by simp [hk, hpages]) n⟩
    · rw [perform_require_bind (.inl hk)]
      exact ⟨_, perform_require_fails (by simp [hnull.resolve_left hk, hpages]) n⟩
  | donate self transport hcap h =>
    obtain ⟨hargs, _, _⟩ := CrossNodeKvDonatePlan.construct_fields h
    show ∃ e, perform (self.execute k v remote offset stream graph channel) n = _
    unfold CrossNodeKvDonatePlan.execute
    rw [hargs]
    by_cases hk : k = 0
    · exact ⟨_, perform_require_fails (by simp [hk, hpages]) n⟩
    · rw [perform_require_bind (.inl hk)]
      exact ⟨_, perform_require_fails (by simp [hnull.resolve_left hk, hpages]) n⟩

/-- A node whose graph captures: the closure is recorded there. -/
def capturing : Node UInt8 := ⟨⟨fun _ => 0, fun _ => []⟩, ⟨true, 0, 0, []⟩, .idle UInt8⟩

lemma not_rejects {k v : ℕ} (hpages : a.numPages ≠ 0) (hk : k ≠ 0) (hv : v ≠ 0)
    (remote : FabricHandle) (offset : ℕ) : ¬ plan.Rejects k v remote offset := by
  intro hrej
  obtain ⟨e, he⟩ := hrej false true none capturing
  cases plan with
  | restore self transport hcap h =>
    obtain ⟨hargs, htransport, _⟩ := CrossNodeKvRestorePlan.construct_fields h
    change perform (self.execute k v offset false true none) capturing = _ at he
    unfold CrossNodeKvRestorePlan.execute at he
    rw [hargs, htransport, perform_require_bind (.inl hk), perform_require_bind (.inl hv),
      if_neg hpages, if_pos hcap] at he
    cases he
  | donate self transport hcap h =>
    obtain ⟨hargs, htransport, _⟩ := CrossNodeKvDonatePlan.construct_fields h
    change perform (self.execute k v remote offset false true none) capturing = _ at he
    unfold CrossNodeKvDonatePlan.execute at he
    rw [hargs, htransport, perform_require_bind (.inl hk), perform_require_bind (.inl hv),
      if_neg hpages, if_pos hcap] at he
    cases he

lemma touches_layer {k v : ℕ} (hpages : a.numPages ≠ 0) (remote : FabricHandle) (offset : ℕ)
    {j : ℕ} (hj : j < a.totalBytes) : plan.Touches k v remote offset (devicePtr fabric + offset + j) := by
  refine ⟨hpages, ?_⟩
  cases plan with
  | restore => exact restoreCopies_reads_iff.mpr ⟨by omega, by omega⟩
  | donate => exact .inl (donateCopies_writes_iff.mpr ⟨by omega, by omega⟩)

end DirectPlan

/-! ## The bounds -/

/-- An import of a published handle; its own vector, if it has one, is at `mirror`. -/
structure Imported where
  transport : FabricImportTransport
  handle : FabricHandle
  mirror : ℕ

def Imported.fabric (i : Imported) : FabricImport :=
  FabricImport.ofHandle i.transport i.handle i.mirror

/-- **Bounds of the direct path.**  A call of an accepted plan throws before it touches memory or
    stays inside the import exactly when there is no page to move, a cache pointer is null, or the
    layer fits into the import at the offset. -/
theorem fabric_bounds_iff (a : CrossNodeArgs) (imported : Option Imported)
    (plan : DirectPlan a (imported.map Imported.fabric)) (k v : ℕ) (remote : FabricHandle)
    (offset : ℕ) : plan.StaysInBounds k v remote offset ↔ a.numPages = 0 ∨ k = 0 ∨ v = 0 ∨
        ∃ i ∈ imported, offset + a.totalBytes ≤ i.handle.size := by
  by_cases hpages : a.numPages = 0
  · exact iff_of_true (.inr fun x hx => absurd hpages hx.1) (.inl hpages)
  by_cases hnull : k = 0 ∨ v = 0
  · refine iff_of_true (.inl (plan.rejects_of_null hpages hnull remote offset)) ?_
    tauto
  obtain ⟨hk, hv⟩ := not_or.mp hnull
  obtain ⟨hchecked, hany⟩ := plan.checked hpages
  have htotal : 0 < a.totalBytes := by
    rw [a.totalBytes_eq]
    exact mul_pos (mul_pos (by omega) hchecked.pageSize) (mul_pos (by omega) hchecked.slotBytes)
  cases imported with
  | none => simp at hany
  | some i =>
    have hptr : devicePtr (Option.map Imported.fabric (some i)) = i.fabric.devicePtr := rfl
    constructor
    · rintro (hrej | hin)
      · exact absurd hrej (plan.not_rejects hpages hk hv remote offset)
      · -- the last byte of the layer is touched
        obtain ⟨f, hf, _, hlt⟩ := hin _ (plan.touches_layer hpages remote offset (j := a.totalBytes - 1) (by omega))
        cases hf
        have hsize : i.fabric.size = i.handle.size := rfl
        exact .inr (.inr (.inr ⟨i, rfl, by omega⟩))
    · rintro (h0 | h0 | h0 | ⟨_, hi', hfits⟩)
      · exact absurd h0 hpages
      · exact absurd h0 hk
      · exact absurd h0 hv
      · cases hi'
        refine .inr fun x hx => ⟨i.fabric, rfl, ?_⟩
        have hsize : i.fabric.size = i.handle.size := rfl
        obtain ⟨_, hx⟩ := hx
        cases plan with
        | restore =>
          have hx := restoreCopies_reads_iff.mp hx
          omega
        | donate =>
          rcases hx with hx | ⟨f, hf, hx⟩
          · have hx := donateCopies_writes_iff.mp hx
            omega
          · -- the write-back reads the mirror, which is what the device pointer names
            cases hf
            unfold DirectPlan.writeBackMoves at hx
            by_cases hmapped : i.fabric.transport = .fabricMapped
            · rw [if_pos hmapped] at hx
              obtain ⟨c, hc, hle, hlt⟩ := hx
              cases List.mem_singleton.mp hc
              have hmirror : i.fabric.devicePtr = i.fabric.mirror := by
                change i.transport = .fabricMapped at hmapped
                unfold Imported.fabric FabricImport.ofHandle
                rw [hmapped]
              rw [hmirror]
              exact ⟨hle, hlt⟩
            · rw [if_neg hmapped] at hx
              obtain ⟨c, hc, _⟩ := hx
              exact absurd hc List.not_mem_nil

/-- An import of four bytes, mapped at 500. -/
def fourBytes : Imported := ⟨.fabricMapped, ⟨100, 4⟩, 500⟩

/-- **A restore past the import**: the constructor accepts the plan, and at offset 4 the layer is
    read from the four bytes after the import. -/
theorem restore_past_import : ∃ plan : DirectPlan oneToken ((some fourBytes).map Imported.fabric),
    ¬ plan.StaysInBounds 1000 2000 ⟨100, 4⟩ 4 := by
  obtain ⟨self, hself⟩ : ∃ self, CrossNodeKvRestorePlan.construct oneToken .fabricMapped
    ((some fourBytes).map Imported.fabric) = .ok self := ⟨_, rfl⟩
  refine ⟨.restore self .fabricMapped rfl hself, ?_⟩
  rintro (hrej | hin)
  · exact DirectPlan.not_rejects _ (by decide) (by decide) (by decide) _ _ hrej
  · obtain ⟨f, hf, _, hlt⟩ := hin _ (DirectPlan.touches_layer _ (by decide) _ _ (j := 0) (by decide))
    cases hf
    exact absurd hlt (by decide)

end VKernels.Comm
