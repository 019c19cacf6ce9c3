import VKernels.Comm.KvCall

/-!
# Prepared KV plans

The fields and constructors that `P2PKvDonatePlan` and `P2PKvRestorePlan` have in common.

* `KvPlan` — geometry, slots and peer bases; `KvPlan.initialFields`, `KvPlan.validateShape`,
  `KvPlan.ownPeers` are the parts of a constructor and `constructPlan` their order.
* `KvPlan.Carries` — what the executes need: the plan carries the arguments' geometry, slots and
  peers.  `ownPeers_carries`, `initialFields_carries` establish it.
-/

namespace VKernels.Comm

open ByteCopies

structure KvPlan where
  numSlots : ℕ
  numKvHeads : ℕ
  headDim : ℕ
  elemSize : ℕ
  pageSize : ℕ
  numPages : ℕ
  slotBytes : ℕ
  tokenStride : ℕ
  totalBytes : ℕ
  slotIds : Arr ℤ
  peerBases : ℕ → ℕ

inductive PlanSlots where
  | host
  | device
  | deviceInt64
  deriving DecidableEq, Repr

/-- `static_cast<int>` of an `int64`. -/
def toInt32 (x : ℤ) : ℤ := Int.bmod x (2 ^ 32)

lemma toInt32_of_lt {x : ℤ} (h0 : 0 ≤ x) (h : x < 2 ^ 31) : toInt32 x = x := by
  unfold toInt32
  rw [Int.bmod_eq_of_le (by omega) (by omega)]

/-- A constructor body: the shape, the early return of the empty plan, the slots, the metadata. -/
def constructPlan {P : Type} (shape slots : Except String Unit) (numPages : ℕ) (empty owned : P) :
    Except String P := do
  shape
  if numPages = 0 then return empty
  slots
  return owned

lemma constructPlan_ok {P : Type} {shape slots : Except String Unit} {numPages : ℕ}
    (hshape : shape = .ok ()) (hslots : numPages ≠ 0 → slots = .ok ()) (empty owned : P) :
    constructPlan shape slots numPages empty owned = .ok (if numPages = 0 then empty else owned) := by
  unfold constructPlan
  rw [hshape]
  by_cases hpages : numPages = 0
  · rw [if_pos hpages, if_pos hpages]
    rfl
  · rw [if_neg hpages, if_neg hpages, hslots hpages]
    rfl

namespace KvPlan

/-- The member initialisers. -/
def initialFields (numSlots : ℕ) (a : KvArgs) (slotIds : Arr ℤ) : KvPlan where
  numSlots := numSlots
  numKvHeads := a.numKvHeads
  headDim := a.headDim
  elemSize := a.elemSize
  pageSize := a.pageSize
  numPages := a.numPages
  slotBytes := perSlotBytes a.numKvHeads a.headDim a.elemSize
  tokenStride := tokenStrideBytes a.numKvHeads a.headDim a.elemSize
  totalBytes := 0
  slotIds := slotIds
  peerBases := fun _ => 0

/-- The owned array of the `int64` constructor. -/
def narrowSlots (a : KvArgs) : Arr ℤ :=
  if 0 < a.numPages * a.pageSize then some fun i => toInt32 (a.slot i) else none

/-- `validate_shape`; the parameter is the name of the pointer array. -/
def validateShape (peersName : String) (self : KvPlan) (peerPtrs : Arr ℕ) : Except String Unit := do
  expects (0 < self.numSlots ∨ self.numPages = 0) "num_slots must be positive"
    "num_slots_ > 0 || num_pages_ == 0"
  expects (0 < self.pageSize ∨ self.numPages = 0) "page_size must be positive"
    "page_size_ > 0 || num_pages_ == 0"
  expects (0 < self.numKvHeads ∨ self.numPages = 0) "num_kv_heads must be positive"
    "num_kv_heads_ > 0 || num_pages_ == 0"
  expects (0 < self.headDim ∨ self.numPages = 0) "head_dim must be positive"
    "head_dim_ > 0 || num_pages_ == 0"
  expects (self.elemSize = 2) "elem_size must be 2 for BF16/FP16" "elem_size_ == 2"
  if self.numPages = 0 then return ()
  expects self.slotIds.isSome "slot_ids must be non-null" "slot_ids_ != nullptr"
  expects peerPtrs.isSome (peersName ++ " must be non-null") (peersName ++ " != nullptr")
  expectsAll self.numPages fun p =>
    expects ((peerPtrs.getD fun _ => 0) p ≠ 0) (peersName ++ "[p] must be non-null")
      (peersName ++ "[p] != nullptr")

/-- The peer bases and the byte count, set once everything is validated. -/
def ownPeers (self : KvPlan) (a : KvArgs) : KvPlan :=
  { self with
    peerBases := a.peer
    totalBytes := self.numPages * self.pageSize * self.tokenStride }

def pageSlots (self : KvPlan) (p t : ℕ) : ℤ :=
  (self.slotIds.getD fun _ => 0) (p * self.pageSize + t)

/-- A task, run at once without a stream. -/
def runOrSubmit (cs : List Copy) (stream : Bool) : Call :=
  if stream = false then copies cs else submit (runAll cs)

lemma finish_runOrSubmit (cs : List Copy) (stream : Bool) (m : Mem UInt8) :
    finish (runOrSubmit cs stream) m = some (runAll cs m) := by
  cases stream <;> rfl

structure Carries (plan : KvPlan) (a : KvArgs) : Prop where
  numPages : plan.numPages = a.numPages
  pageSize : plan.pageSize = a.pageSize
  slotBytes : plan.slotBytes = a.slotBytes
  tokenStride : plan.tokenStride = a.tokenStride
  slots : ∀ p < a.numPages, ∀ t < a.pageSize, plan.pageSlots p t = a.pageSlots p t
  peers : ∀ p < a.numPages, plan.peerBases p = a.peer p

variable {a : KvArgs} {numSlots : ℕ} {S : ℕ → Prop}

variable {slotIds : Arr ℤ}

lemma validateShape_ok (peersName : String) (hv : a.Valid numSlots S) (hslots : a.numPages ≠ 0 → slotIds.isSome) :
    (initialFields numSlots a slotIds).validateShape peersName a.peerPtrs = .ok () := by
  have hpos := hv.positive
  have hptr := hv.pointers
  have hfields : (initialFields numSlots a slotIds).numPages = a.numPages := rfl
  unfold validateShape
  rw [expects_of (by simp only [initialFields]; tauto), expects_of (by simp only [initialFields]; tauto),
    expects_of (by simp only [initialFields]; tauto),
    expects_of (by simp only [initialFields]; tauto), expects_of (by exact hv.elem)]
  by_cases hpages : a.numPages = 0
  · simp only [hfields, hpages, if_true]
    rfl
  · have hpeers : expectsAll a.numPages (fun p => expects ((a.peerPtrs.getD fun _ => 0) p ≠ 0)
        (peersName ++ "[p] must be non-null") (peersName ++ "[p] != nullptr")) = .ok () :=
      expectsAll_of fun p hp => expects_of (hv.peers p hp) _ _
    rw [expects_of (by exact hslots hpages), expects_of (by tauto)]
    simp only [hfields, hpages, if_false, hpeers]
    rfl

lemma narrowSlots_isSome (hv : a.Valid numSlots S) (hpages : a.numPages ≠ 0) : (narrowSlots a).isSome := by
  have hpos := hv.positive
  have htokens : 0 < a.numPages * a.pageSize := mul_pos (by omega) (by tauto)
  unfold narrowSlots
  rw [if_pos htokens]
  rfl

lemma narrowSlots_eq (hv : a.Valid numSlots S) :
    ∀ i < a.numPages * a.pageSize, ((narrowSlots a).getD fun _ => 0) i = a.slot i := by
  intro i hi
  obtain ⟨h0, _, hlt⟩ := hv.slots i hi
  unfold narrowSlots
  rw [if_pos (by omega)]
  exact toInt32_of_lt h0 hlt

lemma ownPeers_carries (numSlots : ℕ)
    (hslots : ∀ i < a.numPages * a.pageSize, (slotIds.getD fun _ => 0) i = a.slot i) :
    ((initialFields numSlots a slotIds).ownPeers a).Carries a where
  numPages := rfl
  pageSize := rfl
  slotBytes := rfl
  tokenStride := rfl
  slots _ hp _ ht := hslots _ (KvArgs.token_lt hp ht)
  peers _ _ := rfl

lemma initialFields_carries (numSlots : ℕ) (hpages : a.numPages = 0) (slotIds : Arr ℤ) :
    (initialFields numSlots a slotIds).Carries a where
  numPages := rfl
  pageSize := rfl
  slotBytes := rfl
  tokenStride := rfl
  slots p hp := by omega
  peers p hp := by omega

/-- A constructor that accepts its arguments returns a plan that carries them, empty or not. -/
lemma constructPlan_carries {P : Type} {plan : P → KvPlan} {shape slots : Except String Unit} {empty owned : P}
    {ids : Arr ℤ} (hshape : shape = .ok ()) (hslots : slots = .ok ())
    (hempty : plan empty = initialFields numSlots a ids)
    (howned : plan owned = (initialFields numSlots a slotIds).ownPeers a)
    (hids : ∀ i < a.numPages * a.pageSize, (slotIds.getD fun _ => 0) i = a.slot i) :
    ∃ self, constructPlan shape slots a.numPages empty owned = .ok self ∧ (plan self).Carries a := by
  refine ⟨_, constructPlan_ok hshape (fun _ => hslots) _ _, ?_⟩
  split
  · rw [hempty]
    exact initialFields_carries numSlots ‹_› ids
  · rw [howned]
    exact ownPeers_carries numSlots hids

end KvPlan

/-- A call on a freshly constructed plan. -/
def withPlan {P : Type} (plan : Except String P) (k : P → Call) : Call :=
  match plan with
  | .ok self => k self
  | .error e => check (.error e)

lemma withPlan_ok {P : Type} {plan : Except String P} {self : P} (h : plan = .ok self)
    (k : P → Call) : withPlan plan k = k self := by
  rw [h]
  rfl

lemma finish_checked {x : Except String Unit} (hx : x = .ok ()) (c : Call) (m : Mem UInt8) :
    finish (do check x; c) m = finish c m := by
  unfold finish
  rw [exec_bind, exec_check, hx]

/-- `std::vector<std::uint8_t> scratch(n)` at the address the allocator chose. -/
def allocate (scratch n : ℕ) (m : Mem UInt8) : Mem UInt8 :=
  fun x => if scratch ≤ x ∧ x < scratch + n then 0 else m x

lemma allocate_eqOff {S : ℕ → Prop} {scratch n : ℕ} (hscratch : ∀ j < n, S (scratch + j))
    (m : Mem UInt8) : EqOff S (allocate scratch n m) m := by
  intro x hx
  refine if_neg fun ⟨hle, hlt⟩ => hx ?_
  have := hscratch (x - scratch) (by omega)
  rwa [Nat.add_sub_cancel' hle] at this

end VKernels.Comm
