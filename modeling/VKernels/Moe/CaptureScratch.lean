import Mathlib.Algebra.Order.Ring.Int
import Mathlib.Data.List.Induction
import VKernels.Lib.PyDict

/-!
# Scratch buffers under graph capture

`CaptureSafeScratch` of `vllm_experts.py`.  An allocation takes a storage that no tensor has, or raises.  `reset` is
left out.

* `World` — the buffers, the capture state, and the views that captured graphs refer to; `World.run` — a run of calls
  and switches.
* `Honoured` — what a call promises; `Meets` — the call asks for the type of the buffer that it reuses, and grows no
  buffer of a captured graph.

## Results

* `get_error` — a call that raises changes nothing.
* `run_honoured_iff` — in a run every call keeps its promise exactly if every call meets the condition.
-/

namespace VKernels.Moe

open PyDict

/-- `torch.device`. -/
structure Device where
  type : String
  index : Option ℕ

/-- A one-dimensional tensor, and the storage that it is a view of. -/
structure Tensor (D : Type) where
  storage : ℕ
  dtype : D
  numel : ℕ

/-- `store[:count]`. -/
def Tensor.slice {D : Type} (store : Tensor D) (count : ℕ) : Tensor D := { store with numel := min count store.numel }

inductive Raised
  | valueError (text : String)
  | runtimeError (text : String)

/-- The buffers by device index and key. -/
structure CaptureSafeScratch (K D : Type) where
  buffers : Dict (Option ℕ × K) (Tensor D)

/-- The arguments of `get`. -/
structure GetCall (K D : Type) where
  key : K
  count : ℤ
  dtype : D
  device : Device
  capacity : Option ℤ
  name : String

variable {K D : Type} [DecidableEq K] (reprKey : K → String)

def showIndex : Option ℕ → String
  | none => "None"
  | some i => toString i

/-- The elements to allocate. -/
def GetCall.cap (c : GetCall K D) : ℤ :=
  match c.capacity with
  | some capacity => max c.count capacity
  | none => c.count

def GetCall.slot (c : GetCall K D) : Option ℕ × K := (c.device.index, c.key)

/-- The refusal to grow. -/
def tooSmall (c : GetCall K D) (cap : ℕ) : Raised :=
  .runtimeError ("[vkernels] persistent " ++ c.name ++ " (dev=" ++ showIndex c.device.index ++ ", key=" ++
    reprKey c.key ++ ", cap=" ++ toString cap ++ ") is too small for " ++ toString c.count ++
    " elements AND a CUDA-graph capture is active — refusing to grow (would corrupt replay). Size it on the eager " ++
    "profile/warmup run (before capture) via a larger max-token budget, or disable cudagraph capture for this layer.")

/-- `torchEmpty` allocates so many elements of a type. -/
def CaptureSafeScratch.get (captureProbe : Bool) (torchEmpty : ℕ → D → Except Raised (Tensor D))
    (self : CaptureSafeScratch K D) (c : GetCall K D) : Except Raised (Tensor D × CaptureSafeScratch K D) :=
  if c.count < 0 then
    .error (.valueError (c.name ++ ": count must be non-negative, got " ++ toString c.count))
  else
    let store := self.buffers.get? c.slot
    let reuse := store.filter fun (store : Tensor D) => c.count ≤ store.numel
    match reuse with
    | some store => .ok (store.slice c.count.toNat, self)
    | none =>
      if captureProbe then .error (tooSmall reprKey c ((store.map Tensor.numel).getD 0))
      else do
        let store ← torchEmpty c.cap.toNat c.dtype
        return (store.slice c.count.toNat, ⟨self.buffers.set c.slot store⟩)

/-! ## Runs -/

/-- The buffers, the capture state, the next storage, and the views handed out while a capture was active. -/
structure World (K D : Type) where
  scratch : CaptureSafeScratch K D
  capturing : Bool
  next : ℕ
  graphs : List (Tensor D)

/-- Before the first call. -/
def World.init (K D : Type) (capturing : Bool) : World K D := ⟨⟨Dict.empty⟩, capturing, 0, []⟩

/-- A call, with the text of the error if its allocation raises, or a switch of the capture state. -/
inductive Op (K D : Type)
  | switch (capturing : Bool)
  | get (c : GetCall K D) (outOfMemory : Option String)

section

/-- `torch.empty`. -/
def World.empty (w : World K D) (outOfMemory : Option String) (numel : ℕ) (dtype : D) : Except Raised (Tensor D) :=
  match outOfMemory with
  | some text => .error (.runtimeError text)
  | none => .ok ⟨w.next, dtype, numel⟩

def World.get (w : World K D) (c : GetCall K D) (outOfMemory : Option String) : Except Raised (Tensor D) × World K D :=
  match w.scratch.get reprKey w.capturing (w.empty outOfMemory) c with
  | .error e => (.error e, w)
  | .ok (view, scratch) => (.ok view,
      { w with scratch, next := w.next + 1, graphs := if w.capturing then view :: w.graphs else w.graphs })

def World.step (w : World K D) : Op K D → World K D
  | .switch capturing => { w with capturing }
  | .get c outOfMemory => (w.get reprKey c outOfMemory).2

def World.run (w : World K D) (ops : List (Op K D)) : World K D := ops.foldl (World.step reprKey) w

/-! ## What a call promises -/

/-- The storages that captured graphs refer to are held. -/
def World.HoldsGraphs (w : World K D) : Prop :=
  ∀ view ∈ w.graphs, ∃ k store, w.scratch.buffers.get? k = some store ∧ store.storage = view.storage

structure Honoured (w : World K D) (c : GetCall K D) (outOfMemory : Option String) : Prop where
  view : ∀ view, (w.get reprKey c outOfMemory).1 = .ok view → (view.numel : ℤ) = c.count ∧ view.dtype = c.dtype
  raises : ∀ e, (w.get reprKey c outOfMemory).1 = .error e → (w.get reprKey c outOfMemory).2.scratch = w.scratch
  graphs : (w.get reprKey c outOfMemory).2.HoldsGraphs

/-- What the call finds under its key. -/
structure Meets (w : World K D) (c : GetCall K D) (outOfMemory : Option String) : Prop where
  dtype : ∀ store, w.scratch.buffers.get? c.slot = some store → 0 ≤ c.count → c.count ≤ store.numel →
    store.dtype = c.dtype
  growth : ∀ store, w.scratch.buffers.get? c.slot = some store → store.numel < c.count → w.capturing = false →
    outOfMemory = none → ∀ view ∈ w.graphs, view.storage ≠ store.storage

/-! ## Calls -/

variable {w : World K D} {c : GetCall K D} {outOfMemory : Option String}

/-- The views that graphs refer to after a view is handed out. -/
def World.graphsWith (w : World K D) (view : Tensor D) : List (Tensor D) :=
  if w.capturing then view :: w.graphs else w.graphs

lemma get_hit {store : Tensor D} (hstore : w.scratch.buffers.get? c.slot = some store) (hcount : 0 ≤ c.count)
    (hle : c.count ≤ store.numel) : w.get reprKey c outOfMemory = (.ok (store.slice c.count.toNat),
      { w with next := w.next + 1, graphs := w.graphsWith (store.slice c.count.toNat) }) := by
  have hreuse : (some store).filter (fun (store : Tensor D) => c.count ≤ store.numel) = some store := by
    simp [hle]
  have hget : w.scratch.get reprKey w.capturing (w.empty outOfMemory) c =
      .ok (store.slice c.count.toNat, w.scratch) := by
    unfold CaptureSafeScratch.get
    rw [if_neg (by omega)]
    simp [hstore, hreuse]
  unfold World.get
  rw [hget]
  rfl

lemma get_grow (hcount : 0 ≤ c.count)
    (hsmall : ∀ store, w.scratch.buffers.get? c.slot = some store → store.numel < c.count)
    (hcapturing : w.capturing = false) : w.get reprKey c none =
      (.ok ((⟨w.next, c.dtype, c.cap.toNat⟩ : Tensor D).slice c.count.toNat),
        { w with scratch := ⟨w.scratch.buffers.set c.slot ⟨w.next, c.dtype, c.cap.toNat⟩⟩, next := w.next + 1 }) := by
  have hreuse : (w.scratch.buffers.get? c.slot).filter (fun (store : Tensor D) => c.count ≤ store.numel) = none := by
    rw [Option.filter_eq_none_iff]
    intro store hstore
    have := hsmall store hstore
    simp only [decide_eq_true_eq]
    omega
  have hget : w.scratch.get reprKey w.capturing (w.empty none) c =
      .ok ((⟨w.next, c.dtype, c.cap.toNat⟩ : Tensor D).slice c.count.toNat,
        ⟨w.scratch.buffers.set c.slot ⟨w.next, c.dtype, c.cap.toNat⟩⟩) := by
    unfold CaptureSafeScratch.get
    rw [if_neg (by omega)]
    simp only [hreuse, hcapturing]
    rfl
  unfold World.get
  rw [hget, hcapturing]
  rfl

/-- **A call** raises and changes nothing, slices the buffer that it finds, or allocates one. -/
theorem get_cases (w : World K D) (c : GetCall K D) (outOfMemory : Option String) :
    (∃ e, w.get reprKey c outOfMemory = (.error e, w)) ∨
    (∃ store, w.scratch.buffers.get? c.slot = some store ∧ 0 ≤ c.count ∧ c.count ≤ store.numel) ∨
    (0 ≤ c.count ∧ (∀ store, w.scratch.buffers.get? c.slot = some store → store.numel < c.count) ∧
      w.capturing = false ∧ outOfMemory = none) := by
  by_cases hcount : c.count < 0
  · refine .inl ⟨.valueError (c.name ++ ": count must be non-negative, got " ++ toString c.count), ?_⟩
    unfold World.get CaptureSafeScratch.get
    rw [if_pos hcount]
  · by_cases hfound : ∃ store, w.scratch.buffers.get? c.slot = some store ∧ c.count ≤ store.numel
    · obtain ⟨store, hstore, hle⟩ := hfound
      exact .inr (.inl ⟨store, hstore, by omega, hle⟩)
    · have hsmall : ∀ store, w.scratch.buffers.get? c.slot = some store → store.numel < c.count :=
        fun store hstore => lt_of_not_ge fun hle => hfound ⟨store, hstore, hle⟩
      have hreuse : (w.scratch.buffers.get? c.slot).filter (fun (store : Tensor D) => c.count ≤ store.numel) =
          none := by
        rw [Option.filter_eq_none_iff]
        intro store hstore
        simpa using hsmall store hstore
      cases hcapturing : w.capturing with
      | true =>
        refine .inl ⟨tooSmall reprKey c (((w.scratch.buffers.get? c.slot).map Tensor.numel).getD 0), ?_⟩
        unfold World.get CaptureSafeScratch.get
        rw [if_neg hcount]
        simp only [hreuse, hcapturing]
        rfl
      | false =>
        cases outOfMemory with
        | none => exact .inr (.inr ⟨by omega, hsmall, rfl, rfl⟩)
        | some text =>
          refine .inl ⟨.runtimeError text, ?_⟩
          unfold World.get CaptureSafeScratch.get
          rw [if_neg hcount]
          simp only [hreuse, hcapturing]
          rfl

lemma get_error {e : Raised} (h : (w.get reprKey c outOfMemory).1 = .error e) :
    (w.get reprKey c outOfMemory).2 = w := by
  rcases get_cases reprKey w c outOfMemory with ⟨_, he⟩ | ⟨_, hstore, hcount, hle⟩ | ⟨hcount, hsmall, hcap, rfl⟩
  · rw [he]
  · rw [get_hit reprKey hstore hcount hle] at h
    cases h
  · rw [get_grow reprKey hcount hsmall hcap] at h
    cases h

omit [DecidableEq K] in
lemma cap_ge : c.count.toNat ≤ c.cap.toNat := by
  unfold GetCall.cap
  cases c.capacity with
  | none => exact le_rfl
  | some capacity => exact Int.toNat_le_toNat (le_max_left c.count capacity)

/-! ## Storages -/

/-- Every buffer and every view has a storage that was allocated, and no two keys have one storage. -/
structure World.Apart (w : World K D) : Prop where
  held : ∀ k store, w.scratch.buffers.get? k = some store → store.storage < w.next
  viewed : ∀ view ∈ w.graphs, view.storage < w.next
  keys : ∀ k k' store store', w.scratch.buffers.get? k = some store → w.scratch.buffers.get? k' = some store' →
    store.storage = store'.storage → k = k'

lemma init_apart (capturing : Bool) : (World.init K D capturing).Apart where
  held := by
    intro k store h
    cases h
  viewed := by
    intro _ h
    cases h
  keys := by
    intro k _ _ _ h
    cases h

lemma Apart.get (h : w.Apart) (c : GetCall K D) (outOfMemory : Option String) :
    (w.get reprKey c outOfMemory).2.Apart := by
  rcases get_cases reprKey w c outOfMemory with ⟨e, he⟩ | ⟨store, hstore, hcount, hle⟩ | ⟨hcount, hsmall, hcap, rfl⟩
  · rw [he]
    exact h
  · rw [get_hit reprKey hstore hcount hle]
    refine ⟨fun k store hk => Nat.lt_succ_of_lt (h.held k store hk), fun view hview => ?_, h.keys⟩
    simp only [World.graphsWith] at hview
    split at hview
    · rcases List.mem_cons.mp hview with rfl | hview
      · exact Nat.lt_succ_of_lt (h.held c.slot store hstore)
      · exact Nat.lt_succ_of_lt (h.viewed view hview)
    · exact Nat.lt_succ_of_lt (h.viewed view hview)
  · rw [get_grow reprKey hcount hsmall hcap]
    refine ⟨fun k store hk => ?_, fun view hview => Nat.lt_succ_of_lt (h.viewed view hview),
      fun k k' store store' hk hk' heq => ?_⟩
    · simp only [Dict.get?_set] at hk
      split at hk
      · cases hk
        exact Nat.lt_succ_self w.next
      · exact Nat.lt_succ_of_lt (h.held k store hk)
    · simp only [Dict.get?_set] at hk hk'
      -- the new storage is under no other key
      split at hk
      · rename_i hkey
        cases hk
        split at hk'
        · rename_i hkey'
          exact hkey.trans hkey'.symm
        · exact absurd heq (ne_of_gt (h.held k' store' hk'))
      · split at hk'
        · cases hk'
          exact absurd heq (ne_of_lt (h.held k store hk))
        · exact h.keys k k' store store' hk hk' heq

/-- A call that meets the condition keeps the storages of the graphs. -/
lemma HoldsGraphs.get (h : w.HoldsGraphs) (hmeets : Meets w c outOfMemory) :
    (w.get reprKey c outOfMemory).2.HoldsGraphs := by
  rcases get_cases reprKey w c outOfMemory with ⟨e, he⟩ | ⟨store, hstore, hcount, hle⟩ | ⟨hcount, hsmall, hcap, rfl⟩
  · rw [he]
    exact h
  · rw [get_hit reprKey hstore hcount hle]
    intro view hview
    simp only [World.graphsWith] at hview
    split at hview
    · rcases List.mem_cons.mp hview with rfl | hview
      · exact ⟨c.slot, store, hstore, rfl⟩
      · exact h view hview
    · exact h view hview
  · rw [get_grow reprKey hcount hsmall hcap]
    intro view hview
    obtain ⟨k, store, hk, heq⟩ := h view hview
    have hne : k ≠ c.slot := by
      rintro rfl
      exact hmeets.growth store hk (hsmall store hk) hcap rfl view hview heq.symm
    refine ⟨k, store, ?_, heq⟩
    simp only [Dict.get?_set, if_neg hne]
    exact hk

lemma replaced_notHeld (h : w.Apart) {store : Tensor D} (hstore : w.scratch.buffers.get? c.slot = some store)
    (hlt : store.numel < c.count) (hcap : w.capturing = false) (k : Option ℕ × K) (store' : Tensor D)
    (hk : (w.get reprKey c none).2.scratch.buffers.get? k = some store') : store'.storage ≠ store.storage := by
  have hsmall : ∀ s, w.scratch.buffers.get? c.slot = some s → s.numel < c.count := by
    intro s hs
    rw [hstore] at hs
    cases hs
    exact hlt
  rw [get_grow reprKey (by omega) hsmall hcap] at hk
  simp only [Dict.get?_set] at hk
  split at hk
  · cases hk
    exact ne_of_gt (h.held _ _ hstore)
  · rename_i hne
    exact fun heq => hne (h.keys k c.slot store' store hk hstore heq)

lemma honoured_of_meets (hgraphs : w.HoldsGraphs) (hmeets : Meets w c outOfMemory) :
    Honoured reprKey w c outOfMemory where
  view := by
    intro _ hview
    rcases get_cases reprKey w c outOfMemory with
      ⟨e, he⟩ | ⟨store, hstore, hcount, hle⟩ | ⟨hcount, hsmall, hcap, rfl⟩
    · rw [he] at hview
      cases hview
    · rw [get_hit reprKey hstore hcount hle] at hview
      cases hview
      refine ⟨?_, hmeets.dtype store hstore hcount hle⟩
      have hmin : min c.count.toNat store.numel = c.count.toNat := min_eq_left (by omega)
      show ((min c.count.toNat store.numel : ℕ) : ℤ) = c.count
      rw [hmin, Int.toNat_of_nonneg hcount]
    · rw [get_grow reprKey hcount hsmall hcap] at hview
      cases hview
      refine ⟨?_, rfl⟩
      have hmin : min c.count.toNat c.cap.toNat = c.count.toNat := min_eq_left cap_ge
      show ((min c.count.toNat c.cap.toNat : ℕ) : ℤ) = c.count
      rw [hmin, Int.toNat_of_nonneg hcount]
  raises e he := by rw [get_error reprKey he]
  graphs := HoldsGraphs.get reprKey hgraphs hmeets

lemma meets_of_honoured (hapart : w.Apart) (h : Honoured reprKey w c outOfMemory) : Meets w c outOfMemory where
  dtype store hstore hcount hle := by
    have hhit : (w.get reprKey c outOfMemory).1 = .ok (store.slice c.count.toNat) := by
      rw [get_hit reprKey hstore hcount hle]
    exact (h.view _ hhit).2
  growth store hstore hlt hcap hmemory view hview heq := by
    subst hmemory
    have hsame : (w.get reprKey c none).2.graphs = w.graphs := by
      have hsmall : ∀ s, w.scratch.buffers.get? c.slot = some s → s.numel < c.count := by
        intro s hs
        rw [hstore] at hs
        cases hs
        exact hlt
      rw [get_grow reprKey (by omega) hsmall hcap]
    obtain ⟨k, store', hk, heq'⟩ := h.graphs view (by rw [hsame]; exact hview)
    exact replaced_notHeld reprKey hapart hstore hlt hcap k store' hk (heq'.trans heq)

/-! ## Runs of calls -/

lemma run_append (w : World K D) (ops ops' : List (Op K D)) :
    w.run reprKey (ops ++ ops') = (w.run reprKey ops).run reprKey ops' := List.foldl_append

lemma run_apart (capturing : Bool) (ops : List (Op K D)) : ((World.init K D capturing).run reprKey ops).Apart := by
  induction ops using List.reverseRecOn with
  | nil => exact init_apart capturing
  | append_singleton ops op ih =>
    rw [run_append]
    cases op with
    | switch on => exact ⟨ih.held, ih.viewed, ih.keys⟩
    | get c outOfMemory => exact Apart.get reprKey ih c outOfMemory

/-- Every call of the run satisfies `P` in the state that it starts from. -/
def World.Throughout (capturing : Bool) (ops : List (Op K D))
    (P : World K D → GetCall K D → Option String → Prop) : Prop :=
  ∀ before c outOfMemory later, ops = before ++ .get c outOfMemory :: later →
    P ((World.init K D capturing).run reprKey before) c outOfMemory

lemma run_holdsGraphs {capturing : Bool} {ops : List (Op K D)}
    (hops : World.Throughout reprKey capturing ops fun w c outOfMemory =>
      w.HoldsGraphs → (w.get reprKey c outOfMemory).2.HoldsGraphs) :
    ((World.init K D capturing).run reprKey ops).HoldsGraphs := by
  induction ops using List.reverseRecOn with
  | nil =>
    intro _ hview
    cases hview
  | append_singleton ops op ih =>
    have hbefore := ih fun before c outOfMemory later hsplit =>
      hops before c outOfMemory (later ++ [op]) (by rw [hsplit]; simp)
    rw [run_append]
    cases op with
    | switch on => exact hbefore
    | get c outOfMemory => exact hops ops c outOfMemory [] rfl hbefore

lemma Throughout.before {capturing : Bool} {ops before later : List (Op K D)} {op : Op K D}
    {P : World K D → GetCall K D → Option String → Prop} (h : World.Throughout reprKey capturing ops P)
    (hsplit : ops = before ++ op :: later) : World.Throughout reprKey capturing before P :=
  fun before' c outOfMemory later' hsplit' =>
    h before' c outOfMemory (later' ++ op :: later) (by rw [hsplit, hsplit']; simp)

/-- **Every run**: all calls keep their promise exactly if each of them asks for the type of the buffer that it reuses
    and grows no buffer that a captured graph refers to. -/
theorem run_honoured_iff (capturing : Bool) (ops : List (Op K D)) :
    World.Throughout reprKey capturing ops (Honoured reprKey) ↔ World.Throughout reprKey capturing ops Meets := by
  constructor
  · intro h before c outOfMemory later hsplit
    exact meets_of_honoured reprKey (run_apart reprKey capturing before) (h before c outOfMemory later hsplit)
  · intro h before c outOfMemory later hsplit
    have hgraphs : ((World.init K D capturing).run reprKey before).HoldsGraphs :=
      run_holdsGraphs reprKey fun b c' oom l hs hw =>
        HoldsGraphs.get reprKey hw (Throughout.before reprKey h hsplit b c' oom l hs)
    exact honoured_of_meets reprKey hgraphs (h before c outOfMemory later hsplit)

end

/-- A call for `count` elements of a type, always under the same key. -/
def getOut (dtype count : ℕ) : Op ℕ ℕ := .get ⟨0, count, dtype, ⟨"cuda", some 0⟩, none, "out"⟩ none

/-- A buffer is handed out with the wrong type, and the buffer of a captured graph is replaced. -/
theorem run_breaks_promise : ¬ World.Throughout toString false [getOut 0 4, getOut 1 4] (Honoured toString) ∧
    ¬ World.Throughout toString false
      [getOut 0 4, .switch true, getOut 0 4, .switch false, getOut 0 8] (Honoured toString) := by
  constructor
  · intro h
    have hcall := (h [getOut 0 4] ⟨0, 4, 1, ⟨"cuda", some 0⟩, none, "out"⟩ none [] rfl).view ⟨0, 0, 4⟩ rfl
    exact absurd hcall.2 (by decide)
  · intro h
    have hcall := h [getOut 0 4, .switch true, getOut 0 4, .switch false]
      ⟨0, 8, 0, ⟨"cuda", some 0⟩, none, "out"⟩ none [] rfl
    obtain ⟨k, store, hk, hstorage⟩ := hcall.graphs ⟨0, 0, 4⟩ List.mem_cons_self
    have hitems : (Dict.set Dict.empty (some 0, 0) ⟨0, 0, 4⟩ |>.set (some 0, 0) ⟨2, 0, 8⟩).get? k = some store := hk
    rw [Dict.get?_set, Dict.get?_set, Dict.get?_empty] at hitems
    split at hitems
    · cases hitems
      exact absurd hstorage (by decide)
    · cases hitems

end VKernels.Moe
