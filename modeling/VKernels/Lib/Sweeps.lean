import Mathlib.Data.List.Nodup

/-!
# Sweeps over keys

One body run at each of a list of keys, where each run changes its own slice of the state only.

* `sweep_slice` — every slice ends as one run leaves it, whatever the order of the keys.
-/

namespace VKernels.Sweeps

variable {κ σ X : Type}

/-- The body at every key, one after the other. -/
def sweep (keys : List κ) (body : κ → σ → σ) (s : σ) : σ := keys.foldl (fun s key => body key s) s

lemma sweep_congr {body body' : κ → σ → σ} (h : ∀ key s, body key s = body' key s) (keys : List κ) (s : σ) :
    sweep keys body s = sweep keys body' s := by
  unfold sweep
  congr 1
  funext s key
  exact h key s

/-- A body that changes its own slice only, at each of the keys, under what holds between the runs. -/
def Local [DecidableEq κ] (keys : List κ) (Inv : σ → Prop) (slice : σ → κ → X) (body : κ → σ → σ)
    (g : κ → X → X) : Prop :=
  ∀ key ∈ keys, ∀ s, Inv s → Inv (body key s) ∧
    ∀ k, slice (body key s) k = if k = key then g k (slice s k) else slice s k

lemma sweep_slice [DecidableEq κ] {Inv : σ → Prop} {slice : σ → κ → X} {body : κ → σ → σ} {g : κ → X → X}
    {keys : List κ} (hlocal : Local keys Inv slice body g) (hnodup : keys.Nodup) {s : σ} (hs : Inv s) :
    Inv (sweep keys body s) ∧ (∀ k ∈ keys, slice (sweep keys body s) k = g k (slice s k)) ∧
      ∀ k, k ∉ keys → slice (sweep keys body s) k = slice s k := by
  induction keys generalizing s with
  | nil => exact ⟨hs, fun k hk => absurd hk List.not_mem_nil, fun k _ => rfl⟩
  | cons key keys ih =>
    obtain ⟨hkey, hkeys⟩ := List.nodup_cons.mp hnodup
    obtain ⟨hinv, hslice⟩ := hlocal key List.mem_cons_self s hs
    obtain ⟨hrest, hin, hout⟩ := ih (fun k hk => hlocal k (List.mem_cons_of_mem key hk)) hkeys hinv
    have hcons : sweep (key :: keys) body s = sweep keys body (body key s) := rfl
    rw [hcons]
    refine ⟨hrest, fun k hk => ?_, fun k hk => ?_⟩
    · rcases List.mem_cons.mp hk with rfl | hk
      · rw [hout k hkey, hslice, if_pos rfl]
      · have hne : k ≠ key := fun heq => hkey (heq ▸ hk)
        rw [hin k hk, hslice, if_neg hne]
    · obtain ⟨hne, hk⟩ := not_or.mp (mt List.mem_cons.mpr hk)
      rw [hout k hk, hslice, if_neg hne]

end VKernels.Sweeps
