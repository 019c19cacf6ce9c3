import VKernels.Comm.CrossNodeLanes

/-!
# The sizes of the stripes

`compute_cross_node_kv_stripes` over the whole range of `size_t`.

* `StripesExact` — what the chunk layout promises: a tiling in order, a lane of its own for each
  chunk, near-equal sizes, and no chunk under the minimum once there are two.

## Results

* `stripeChunks_bytes`, `stripeChunks_distinct` — sizes and lanes of the split.
* `computeCrossNodeKvStripes_ok` — the branches of an accepted call.
* `stripes_exact_iff` — the promises hold exactly when the product of the lane count and the minimum
  chunk keeps the split from starting too early; a product that wraps does not.
-/

namespace VKernels.Comm

open List

variable {total : ℕ} {config : CrossNodeKvStripeConfig} {cs : List CrossNodeKvStripeChunk}

structure StripesExact (total : ℕ) (config : CrossNodeKvStripeConfig)
    (cs : List CrossNodeKvStripeChunk) : Prop where
  tile : Tiles cs 0 total
  lanes : ∀ c ∈ cs, c.lane < config.laneCount
  distinct : (cs.map CrossNodeKvStripeChunk.lane).Nodup
  near : ∀ c ∈ cs, ∀ d ∈ cs, c.bytes ≤ d.bytes + 1
  long : 1 < cs.length → ∀ c ∈ cs, config.minChunkBytes ≤ c.bytes

/-! ## The split -/

lemma stripeChunks_length (base rem : ℕ) : ∀ n l offset : ℕ, (stripeChunks base rem n l offset).length = n
  | 0, _, _ => rfl
  | n + 1, l, _ => congrArg (· + 1) (stripeChunks_length base rem n (l + 1) _)

lemma stripeChunks_bytes (base rem : ℕ) : ∀ n l offset : ℕ,
    ∀ c ∈ stripeChunks base rem n l offset, c.bytes = base + if c.lane < rem then 1 else 0
  | 0, _, _, _, hc => absurd hc not_mem_nil
  | n + 1, l, offset, c, hc => by
    rcases mem_cons.mp hc with rfl | hc
    · rfl
    · exact stripeChunks_bytes base rem n (l + 1) _ c hc

lemma stripeChunks_distinct (base rem : ℕ) : ∀ n l offset : ℕ,
    ((stripeChunks base rem n l offset).map CrossNodeKvStripeChunk.lane).Nodup
  | 0, _, _ => nodup_nil
  | n + 1, l, offset => by
    unfold stripeChunks
    rw [map_cons, nodup_cons]
    refine ⟨fun hmem => ?_, stripeChunks_distinct base rem n (l + 1) _⟩
    obtain ⟨c, hc, hlane⟩ := mem_map.mp hmem
    have := (stripeChunks_lanes base rem n (l + 1) _ c hc).1
    simp only at hlane
    omega

lemma stripeChunks_last {base rem n : ℕ} (hrem : rem < n) : ∃ c ∈ stripeChunks base rem n 0 0, c.bytes = base := by
  have hlanes : ∀ (n l offset : ℕ), ∀ j < n, ∃ c ∈ stripeChunks base rem n l offset, c.lane = l + j := by
    intro n
    induction n with
    | zero => intro l offset j hj; omega
    | succ n ih =>
      intro l offset j hj
      cases j with
      | zero => exact ⟨_, mem_cons_self, rfl⟩
      | succ j =>
        obtain ⟨c, hc, hlane⟩ := ih (l + 1) (offset + (base + if l < rem then 1 else 0)) j (by omega)
        exact ⟨c, mem_cons_of_mem _ hc, by omega⟩
  obtain ⟨c, hc, hlane⟩ := hlanes n 0 0 rem hrem
  refine ⟨c, hc, ?_⟩
  rw [stripeChunks_bytes _ _ _ _ _ c hc, if_neg (by omega)]
  rfl

/-! ## The layout -/

lemma computeCrossNodeKvStripes_ok (h : computeCrossNodeKvStripes total config = .ok cs) :
    0 < config.laneCount ∧ 0 < config.minChunkBytes ∧ ((total = 0 ∧ cs = []) ∨
        (total ≠ 0 ∧ total < wrap (config.laneCount * config.minChunkBytes) ∧ cs = [⟨0, total, 0⟩]) ∨
        (total ≠ 0 ∧ ¬ total < wrap (config.laneCount * config.minChunkBytes) ∧
          cs = stripeChunks (total / config.laneCount) (total % config.laneCount) config.laneCount 0 0)) := by
  obtain ⟨hlanes, h⟩ := expects_ok.mp h
  obtain ⟨hmin, h⟩ := expects_ok.mp h
  refine ⟨hlanes, hmin, ?_⟩
  by_cases hzero : total = 0
  · rw [if_pos hzero] at h
    cases h
    exact .inl ⟨hzero, rfl⟩
  rw [if_neg hzero] at h
  by_cases hsmall : total < wrap (config.laneCount * config.minChunkBytes)
  · rw [if_pos hsmall] at h
    cases h
    exact .inr (.inl ⟨hzero, hsmall, rfl⟩)
  · rw [if_neg hsmall] at h
    cases h
    exact .inr (.inr ⟨hzero, hsmall, rfl⟩)

lemma stripes_promises (h : computeCrossNodeKvStripes total config = .ok cs) :
    StripesExact total config cs ↔ (1 < cs.length → ∀ c ∈ cs, config.minChunkBytes ≤ c.bytes) := by
  refine ⟨StripesExact.long, fun hlong => ⟨stripes_tile h, stripes_lanes h, ?_, ?_, hlong⟩⟩
  · obtain ⟨-, -, ⟨-, rfl⟩ | ⟨-, -, rfl⟩ | ⟨-, -, rfl⟩⟩ := computeCrossNodeKvStripes_ok h
    · simp
    · simp
    · exact stripeChunks_distinct _ _ _ _ _
  · obtain ⟨-, -, ⟨-, rfl⟩ | ⟨-, -, rfl⟩ | ⟨-, -, rfl⟩⟩ := computeCrossNodeKvStripes_ok h
    · simp
    · simp
    · intro c hc d hd
      rw [stripeChunks_bytes _ _ _ _ _ c hc, stripeChunks_bytes _ _ _ _ _ d hd]
      split <;> split <;> omega

/-- **The stripes.**  Of every accepted call with 64-bit arguments: the promises hold exactly when
    nothing is transferred, the wrapped product already exceeds the total, or the total is at least
    the product itself. -/
theorem stripes_exact_iff (hmin : config.minChunkBytes < 2 ^ 64) (h : computeCrossNodeKvStripes total config = .ok cs) :
    StripesExact total config cs ↔ total = 0 ∨ total < wrap (config.laneCount * config.minChunkBytes) ∨
      config.laneCount * config.minChunkBytes ≤ total := by
  rw [stripes_promises h]
  obtain ⟨hlanes, hpos, ⟨hzero, rfl⟩ | ⟨hzero, hsmall, rfl⟩ | ⟨hzero, hsmall, rfl⟩⟩ :=
    computeCrossNodeKvStripes_ok h
  · simp [hzero]
  · simp [hsmall]
  -- the split: every chunk has at least the quotient, and the last has no more
  have hrem : total % config.laneCount < config.laneCount := Nat.mod_lt total hlanes
  have hquot : config.minChunkBytes ≤ total / config.laneCount ↔
      config.laneCount * config.minChunkBytes ≤ total := by
    rw [Nat.le_div_iff_mul_le hlanes, Nat.mul_comm]
  rw [stripeChunks_length]
  constructor
  · intro hlong
    by_cases hone : config.laneCount = 1
    · -- one lane: the product is the minimum and does not wrap
      rw [hone, one_mul, wrap_of_lt hmin] at hsmall
      exact .inr (.inr (by rw [hone]; omega))
    · obtain ⟨c, hc, hbytes⟩ := @stripeChunks_last (total / config.laneCount) _ _ hrem
      have hle := hlong (by omega) c hc
      rw [hbytes] at hle
      exact .inr (.inr (hquot.mp hle))
  · rintro (h0 | hlt | hle)
    · exact absurd h0 hzero
    · exact absurd hlt hsmall
    · intro _ c hc
      rw [stripeChunks_bytes _ _ _ _ _ c hc]
      exact (hquot.mpr hle).trans (Nat.le_add_right _ _)

/-- Ten bytes over two lanes of at least four. -/
theorem stripes_exact_ten : StripesExact 10 ⟨2, 4⟩ [⟨0, 5, 0⟩, ⟨5, 5, 1⟩] :=
  (@stripes_exact_iff 10 ⟨2, 4⟩ _ (by decide) rfl).mpr
    (.inr (.inr (by decide)))

/-- Two lanes of at least `2^63` bytes: the product wraps to nothing, and ten bytes are split. -/
theorem stripes_wrapped : computeCrossNodeKvStripes 10 ⟨2, 2 ^ 63⟩ = .ok [⟨0, 5, 0⟩, ⟨5, 5, 1⟩] ∧
    ¬ StripesExact 10 ⟨2, 2 ^ 63⟩ [⟨0, 5, 0⟩, ⟨5, 5, 1⟩] := by
  refine ⟨rfl, fun h => ?_⟩
  have := h.long (by decide) ⟨0, 5, 0⟩ (by simp)
  simp at this

end VKernels.Comm
