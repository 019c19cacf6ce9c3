import Mathlib.Algebra.Group.Int.Defs
import Mathlib.Data.List.Basic

/-!
# Calls with checked `int32_t` arithmetic

Calls that check their contract, and in which signed overflow ends the run.

* `bind_ok`, `bind_fits` — one call after another.
* `storeEach` — a loop of stores, each of a checked value; `storeEach_ok` reads the buffer afterwards.
-/

namespace VKernels.CheckedCalls

/-- How a call ends without a result: `VK_EXPECTS` throws, and signed overflow is undefined. -/
inductive Fault where
  | rejected (what : String)
  | overflow
  deriving DecidableEq, Repr

/-- `VK_EXPECTS(cond, msg)`. -/
def expects (cond : Prop) [Decidable cond] (msg text : String) : Except Fault Unit :=
  if cond then .ok () else .error (.rejected (msg ++ ": " ++ text))

/-- The value behind a pointer that must not be null. -/
def nonNull {A : Type} (p : Option A) (msg text : String) : Except Fault A :=
  match p with
  | some x => .ok x
  | none => .error (.rejected (msg ++ ": " ++ text))

/-- A value of `int32_t`. -/
def InInt32 (x : ℤ) : Prop := -2 ^ 31 ≤ x ∧ x < 2 ^ 31

instance (x : ℤ) : Decidable (InInt32 x) := inferInstanceAs (Decidable (_ ∧ _))

/-- The result of an operation on `int32_t`. -/
def int32 (x : ℤ) : Except Fault ℤ := if InInt32 x then .ok x else .error .overflow

/-- `n` stores from `start` on, each of its value. -/
def storeEach (start n : ℕ) (value : ℕ → Except Fault ℤ) (dst : ℕ → ℤ) : Except Fault (ℕ → ℤ) :=
  (List.range n).foldlM (fun dst i => do
    let v ← value i
    return Function.update dst (start + i) v) dst

section

variable {A B : Type}

variable {f : A → Except Fault B} {cond : Prop} {msg : String} {a : A} {x : ℤ}

lemma bind_ok {x : Except Fault A} {b : B} : (x >>= f) = .ok b ↔ ∃ a, x = .ok a ∧ f a = .ok b := by
  cases x with
  | error e => simp [bind, Except.bind]
  | ok a => simp [bind, Except.bind]

lemma bind_fits {x : Except Fault A} (hx : x ≠ .error .overflow)
    (hf : ∀ a, x = .ok a → f a ≠ .error .overflow) : (x >>= f) ≠ .error .overflow := by
  cases x with
  | error e => exact fun h => hx (by simpa [bind, Except.bind] using h)
  | ok a => exact hf a rfl

lemma expects_unit_ok [Decidable cond] {text : String} : expects cond msg text = .ok () ↔ cond := by
  unfold expects
  split <;> simp [*]

lemma expects_unit_fits [Decidable cond] {text : String} : expects cond msg text ≠ .error .overflow := by
  unfold expects
  split <;> simp

lemma expects_ok [Decidable cond] {text : String} {k : Unit → Except Fault A} :
    (expects cond msg text >>= k) = .ok a ↔ cond ∧ k () = .ok a := by
  rw [bind_ok]
  exact ⟨fun ⟨_, hcond, hk⟩ => ⟨expects_unit_ok.mp hcond, hk⟩, fun ⟨hcond, hk⟩ => ⟨(), expects_unit_ok.mpr hcond, hk⟩⟩

lemma expects_fits [Decidable cond] {text : String} {k : Unit → Except Fault A}
    (h : cond → k () ≠ .error .overflow) : (expects cond msg text >>= k) ≠ .error .overflow :=
  bind_fits expects_unit_fits fun _ hcond => h (expects_unit_ok.mp hcond)

lemma nonNull_ok {p : Option A} {text : String} : nonNull p msg text = .ok a ↔ p = some a := by
  unfold nonNull
  split <;> simp

lemma nonNull_fits {p : Option A} {text : String} : nonNull p msg text ≠ .error .overflow := by
  unfold nonNull
  split <;> simp

lemma int32_ok {y : ℤ} : int32 x = .ok y ↔ InInt32 x ∧ x = y := by
  unfold int32
  split <;> simp [*]

lemma int32_fits (h : InInt32 x) : int32 x ≠ .error .overflow := by
  rw [int32, if_pos h]
  simp

lemma int32_bind_ok {k : ℤ → Except Fault A} : (int32 x >>= k) = .ok a ↔ InInt32 x ∧ k x = .ok a := by
  rw [bind_ok]
  constructor
  · rintro ⟨y, hy, hk⟩
    obtain ⟨hx, rfl⟩ := int32_ok.mp hy
    exact ⟨hx, hk⟩
  · rintro ⟨hx, hk⟩
    exact ⟨x, int32_ok.mpr ⟨hx, rfl⟩, hk⟩

lemma int32_bind_fits {k : ℤ → Except Fault A} (hx : InInt32 x) (hk : k x ≠ .error .overflow) :
    (int32 x >>= k) ≠ .error .overflow := by
  refine bind_fits (int32_fits hx) fun y hy => ?_
  obtain ⟨-, rfl⟩ := int32_ok.mp hy
  exact hk

lemma storeEach_succ (start n : ℕ) (value : ℕ → Except Fault ℤ) (dst : ℕ → ℤ) :
    storeEach start (n + 1) value dst = storeEach start n value dst >>= fun dst' =>
      value n >>= fun v => .ok (Function.update dst' (start + n) v) := by
  unfold storeEach
  rw [List.range_succ, List.foldlM_append]
  congr 1
  funext dst'
  rw [List.foldlM_cons]
  simp only [List.foldlM_nil, bind_pure]
  rfl

lemma storeEach_ok {start n : ℕ} {value : ℕ → Except Fault ℤ} {dst dst' : ℕ → ℤ}
    (h : storeEach start n value dst = .ok dst') : (∀ i < n, value i = .ok (dst' (start + i))) ∧
      ∀ p, p < start ∨ start + n ≤ p → dst' p = dst p := by
  induction n generalizing dst' with
  | zero =>
    cases h
    exact ⟨fun i hi => absurd hi (Nat.not_lt_zero i), fun p _ => rfl⟩
  | succ n ih =>
    rw [storeEach_succ] at h
    obtain ⟨_, hmid, h⟩ := bind_ok.mp h
    obtain ⟨v, hv, h⟩ := bind_ok.mp h
    obtain rfl := Except.ok.inj h
    obtain ⟨hvalues, hframe⟩ := ih hmid
    refine ⟨fun i hi => ?_, fun p hp => ?_⟩
    · obtain hi | rfl := Nat.lt_succ_iff_lt_or_eq.mp hi
      · rw [Function.update_of_ne (by omega)]
        exact hvalues i hi
      · rw [Function.update_self]
        exact hv
    · rw [Function.update_of_ne (by omega)]
      exact hframe p (by omega)

lemma storeEach_fits {start n : ℕ} {value : ℕ → Except Fault ℤ} {dst : ℕ → ℤ}
    (h : ∀ i < n, value i ≠ .error .overflow) : storeEach start n value dst ≠ .error .overflow := by
  induction n with
  | zero => simp [storeEach, pure, Except.pure]
  | succ n ih =>
    rw [storeEach_succ]
    refine bind_fits (ih fun i hi => h i (by omega)) fun dst' _ => ?_
    exact bind_fits (h n (Nat.lt_succ_self n)) fun v _ => by simp

end

end VKernels.CheckedCalls
