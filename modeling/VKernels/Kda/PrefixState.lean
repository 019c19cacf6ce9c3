import VKernels.Lib.Blocks
import VKernels.Lib.Grouping
import VKernels.Lib.MaskedStores

/-!
# Committing a prefix of KDA

Model of `torch_ops/glm_kda_prefix_state.py`: the kernels `restore`, which moves the window of the convolution, and
`replay`, which runs the gated updates, over the tokens that each row accepts.

* `restoreLane`, `replayToken` — one lane of the window, and one token of a tile of the state.

The arithmetic is exact, that of the addresses too.

## Results

* `window_restored`, `state_replayed` — what a call leaves for a row.
* `prefix_commit` — and committing twice is committing once.
-/

namespace VKernels.Kda.Prefix

open Blocks Grouping MaskedStores
open LocalActions (assign)
open List

/-- `count`: the length of a row, clipped. -/
def count (tokens : ℕ) (length : ℤ) : ℕ := (min (max length 0) tokens).toNat

/-! ## The window -/

section

variable {V : Type}

/-- Raw projections `[B, C, S]` and a history `[B, C, W]`. -/
structure ConvCall (V : Type) where
  batch : ℕ
  channels : ℕ
  tokens : ℕ
  history : ℕ
  raw : ℕ → V
  initial : ℕ → V
  lengths : ℕ → ℤ

namespace ConvCall

variable (c : ConvCall V)

def committed (row : ℕ) : ℕ := count c.tokens (c.lengths row)

section

variable [Zero V]

def restoreLane (row offsets : ℕ) : List (ℕ × V) :=
  let channel := offsets / c.history
  let column := c.committed row + offsets % c.history
  let valid := channel < c.channels
  let prior := if valid ∧ column < c.history then
    c.initial (row * c.channels * c.history + channel * c.history + column) else 0
  let fresh := if valid ∧ c.history ≤ column then
    c.raw (row * c.channels * c.tokens + channel * c.tokens + column - c.history) else 0
  storeIf valid (row * c.channels * c.history + offsets) (if column < c.history then prior else fresh)

def restoreStores : List (ℕ × V) :=
  (List.range c.batch).flatMap fun row => (List.range (blocksFor 256 (c.channels * c.history))).flatMap fun block =>
    (List.range 256).flatMap fun lane => c.restoreLane row (block * 256 + lane)

/-- `kda_prefix_conv_state`, from the fresh `result`. -/
def kdaPrefixConvState (result : ℕ → V) : ℕ → V :=
  if c.batch * c.channels * c.history = 0 then result else assign c.restoreStores result

end

def window (buf : ℕ → V) (row channel : ℕ) : List V :=
  (List.range c.history).map fun j => buf (row * c.channels * c.history + channel * c.history + j)

def columns (row channel n : ℕ) : List V :=
  (List.range n).map fun t => c.raw (row * c.channels * c.tokens + channel * c.tokens + t)

end ConvCall

/-- The last `w` of a list. -/
def last (w : ℕ) (l : List V) : List V := l.drop (l.length - w)

lemma last_append (w : ℕ) (l xs : List V) : last w (last w l ++ xs) = last w (l ++ xs) := by
  have hdrop : l.drop (l.length - w) ++ xs = (l ++ xs).drop (l.length - w) := by
    rw [drop_append, Nat.sub_eq_zero_of_le (Nat.sub_le _ _), drop_zero]
  simp only [last, hdrop, length_drop, drop_drop, length_append]
  congr 1
  omega

lemma last_range (w n : ℕ) (f g : ℕ → V) : last w ((range w).map f ++ (range n).map g) =
    (range w).map fun j => if n + j < w then f (n + j) else g (n + j - w) := by
  refine ext_getElem (by simp [last]) fun j hj _ => ?_
  simp [last, getElem_append]

section

variable [Zero V] (c : ConvCall V)

/-- What the kernel stores at an offset of a row. -/
def ConvCall.restored (row offsets : ℕ) : V :=
  let column := c.committed row + offsets % c.history
  if column < c.history then c.initial (row * c.channels * c.history + offsets / c.history * c.history + column)
  else c.raw (row * c.channels * c.tokens + offsets / c.history * c.tokens + column - c.history)

lemma restoreLane_eq (hhistory : 0 < c.history) (row offsets : ℕ) : c.restoreLane row offsets =
    storeIf (offsets < c.channels * c.history) (row * (c.channels * c.history) + offsets) (c.restored row offsets) := by
  have hvalid : offsets / c.history < c.channels ↔ offsets < c.channels * c.history := Nat.div_lt_iff_lt_mul hhistory
  simp only [ConvCall.restoreLane, ConvCall.restored, hvalid, mul_assoc row]
  by_cases hoff : offsets < c.channels * c.history
  · by_cases hin : c.committed row + offsets % c.history < c.history
    · simp [hoff, hin, and_self]
    · simp [hoff, hin, Nat.not_lt.mp hin, and_self]
  · simp [storeIf, hoff]

lemma mem_restoreStores (hhistory : 0 < c.history) (i : ℕ) (v : V) : (i, v) ∈ c.restoreStores ↔ ∃ r < c.batch,
    ∃ off < c.channels * c.history, i = r * (c.channels * c.history) + off ∧ v = c.restored r off := by
  have hloop : c.restoreStores = (range c.batch).flatMap fun row =>
      (range (blocksFor 256 (c.channels * c.history) * 256)).flatMap (c.restoreLane row) :=
    flatMap_congr fun row _ => flatMap_blocks _ _ _
  have hle := le_blocksFor (show 0 < 256 by decide) (c.channels * c.history)
  simp only [hloop, restoreLane_eq c hhistory, mem_flatMap, mem_range, storeIf]
  refine exists_congr fun r => and_congr_right fun _ => exists_congr fun off => ⟨?_, ?_⟩
  · rintro ⟨-, hmem⟩
    split at hmem
    · rename_i hoff
      obtain ⟨rfl, rfl⟩ := Prod.mk.inj (mem_singleton.mp hmem)
      exact ⟨hoff, rfl, rfl⟩
    · cases hmem
  · rintro ⟨hoff, rfl, rfl⟩
    rw [if_pos hoff]
    exact ⟨by omega, mem_singleton_self _⟩

/-- **The window after a commit** is the last columns of what came in. -/
theorem window_restored (result : ℕ → V) {row channel : ℕ} (hrow : row < c.batch) (hchannel : channel < c.channels) :
    c.window (c.kdaPrefixConvState result) row channel =
      last c.history (c.window c.initial row channel ++ c.columns row channel (c.committed row)) := by
  rw [ConvCall.window, ConvCall.window, ConvCall.columns, last_range]
  refine map_congr_left fun j hj => ?_
  have hj := mem_range.mp hj
  have hplace : channel * c.history + j < c.channels * c.history := block_lt hchannel hj
  have hnonempty : c.batch * c.channels * c.history ≠ 0 := mul_ne_zero (mul_ne_zero (by omega) (by omega)) (by omega)
  have hheld := assign_grid id c.restored (mem_restoreStores c (by omega)) hrow hplace result
  rw [ConvCall.kdaPrefixConvState, if_neg hnonempty, add_assoc, mul_assoc row]
  refine hheld.trans ?_
  rw [ConvCall.restored, Blocks.block_div channel hj, Nat.mul_add_mod_self_right, Nat.mod_eq_of_lt hj, mul_assoc]
  split
  · rfl
  · congr 1
    omega

end

/-- A commit of `c` made in two: `c₁` on the same tensors, and `c₂` on the columns behind it, from what `c₁` left. -/
structure ConvCall.Resumed (c c₁ c₂ : ConvCall V) (left : ℕ → V) : Prop where
  first : c₁ = { c with lengths := c₁.lengths }
  second : c₂ = { c with tokens := c₂.tokens, raw := c₂.raw, initial := left, lengths := c₂.lengths }
  total : ∀ row < c.batch, c.committed row = c₁.committed row + c₂.committed row
  rest : ∀ row < c.batch, ∀ channel < c.channels, ∀ t < c₂.committed row,
    c₂.raw (row * c.channels * c₂.tokens + channel * c₂.tokens + t) =
      c.raw (row * c.channels * c.tokens + channel * c.tokens + (c₁.committed row + t))

lemma window_resumed [Zero V] {c c₁ c₂ : ConvCall V} {result result₁ result₂ : ℕ → V}
    (h : c.Resumed c₁ c₂ (c₁.kdaPrefixConvState result₁)) {row channel : ℕ} (hrow : row < c.batch)
    (hchannel : channel < c.channels) :
    c.window (c₂.kdaPrefixConvState result₂) row channel = c.window (c.kdaPrefixConvState result) row channel := by
  have hcolumns : c.columns row channel (c.committed row) =
      c.columns row channel (c₁.committed row) ++ c₂.columns row channel (c₂.committed row) := by
    rw [h.total row hrow, ConvCall.columns, range_add, map_append, map_map]
    refine congrArg _ (map_congr_left fun t ht => ?_)
    have hchannels : c₂.channels = c.channels := by rw [h.second]
    rw [hchannels]
    exact (h.rest row hrow channel hchannel t (mem_range.mp ht)).symm
  have hfirst : c.window (c₁.kdaPrefixConvState result₁) row channel =
      last c.history (c.window c.initial row channel ++ c.columns row channel (c₁.committed row)) := by
    have hrow : row < c₁.batch := by rwa [h.first]
    have hleft := window_restored c₁ result₁ hrow (show channel < c₁.channels by rwa [h.first])
    rw [h.first] at hleft ⊢
    exact hleft
  have hsecond : c.window (c₂.kdaPrefixConvState result₂) row channel = last c.history
      (c.window (c₁.kdaPrefixConvState result₁) row channel ++ c₂.columns row channel (c₂.committed row)) := by
    have hrow : row < c₂.batch := by rwa [h.second]
    have hleft := window_restored c₂ result₂ hrow (show channel < c₂.channels by rwa [h.second])
    rw [h.second] at hleft ⊢
    exact hleft
  rw [hsecond, hfirst, last_append, append_assoc, ← hcolumns, window_restored c result hrow hchannel]

end

/-! ## The state -/

section

variable {F : Type} [CommRing F]

/-- Keys and gates `[B, H, S, K]`, values `[B, H, S, V]`, `beta` `[B, H, S]` and a state `[B, H, K, V]`. -/
structure StateCall (F : Type) where
  batch : ℕ
  heads : ℕ
  tokens : ℕ
  kd : ℕ
  vd : ℕ
  key : ℕ → F
  value : ℕ → F
  gate : ℕ → F
  beta : ℕ → F
  initial : ℕ → F
  lengths : ℕ → ℤ

/-- What one token does to a state: `exp` of the gates, the memory of the key, and the update. -/
def gatedUpdate (exp : F → F) (kd : ℕ) (key gate value : ℕ → F) (beta : F) (state : ℕ → ℕ → F) : ℕ → ℕ → F :=
  fun k v => state k v * exp (gate k) +
    key k * ((value v - ∑ i ∈ Finset.range kd, state i v * exp (gate i) * key i) * beta)

namespace StateCall

variable (exp : F → F) (c : StateCall F)

def committed (head : ℕ) : ℕ := count c.tokens (c.lengths (head / c.heads))

def keyAt (head token k : ℕ) : F := c.key (head * c.tokens * c.kd + token * c.kd + k)

def gateAt (head token k : ℕ) : F := c.gate (head * c.tokens * c.kd + token * c.kd + k)

def valueAt (head token v : ℕ) : F := c.value (head * c.tokens * c.vd + token * c.vd + v)

def betaAt (head token : ℕ) : F := c.beta (head * c.tokens + token)

/-- One token of `replay`, on the tile of a block of values. -/
def replayToken (head block : ℕ) (state : ℕ → ℕ → F) (token : ℕ) : ℕ → ℕ → F :=
  let state := fun ki l => state ki l * exp (c.gateAt head token ki)
  let memory := fun l => ∑ ki ∈ Finset.range c.kd, state ki l * c.keyAt head token ki
  let value := fun l => if block * 32 + l < c.vd then c.valueAt head token (block * 32 + l) else 0
  let delta := fun l => (value l - memory l) * c.betaAt head token
  fun ki l => state ki l + c.keyAt head token ki * delta l

/-- The tile that a program stores. -/
def replay (head block : ℕ) : ℕ → ℕ → F :=
  (List.range (c.committed head)).foldl (c.replayToken exp head block) fun ki l =>
    if block * 32 + l < c.vd then c.initial (head * c.kd * c.vd + ki * c.vd + (block * 32 + l)) else 0

def replayStores : List (ℕ × F) :=
  (List.range (c.batch * c.heads)).flatMap fun head => (List.range (blocksFor 32 c.vd)).flatMap fun block =>
    (List.range c.kd).flatMap fun ki => (List.range 32).flatMap fun l =>
      storeIf (block * 32 + l < c.vd) (head * c.kd * c.vd + ki * c.vd + (block * 32 + l)) (c.replay exp head block ki l)

/-- `kda_prefix_state`, from the fresh `result`. -/
def kdaPrefixState (result : ℕ → F) : ℕ → F :=
  if c.batch * c.heads = 0 then result else assign (c.replayStores exp) result

def stateOf (buf : ℕ → F) (head k v : ℕ) : F := buf (head * c.kd * c.vd + k * c.vd + v)

/-- The updates of the first `n` tokens. -/
def updates (head n : ℕ) (state : ℕ → ℕ → F) : ℕ → ℕ → F :=
  (List.range n).foldl (fun s t => gatedUpdate exp c.kd (c.keyAt head t) (c.gateAt head t) (c.valueAt head t)
    (c.betaAt head t) s) state

end StateCall

lemma gatedUpdate_congr (exp : F → F) {kd : ℕ} {key key' gate gate' value value' : ℕ → F} {beta beta' : F}
    {s s' : ℕ → ℕ → F} {v v' : ℕ} (hkey : ∀ k < kd, key k = key' k ∧ gate k = gate' k) (hvalue : value v = value' v')
    (hbeta : beta = beta') (hs : ∀ k < kd, s k v = s' k v') :
    ∀ k < kd, gatedUpdate exp kd key gate value beta s k v = gatedUpdate exp kd key' gate' value' beta' s' k v' := by
  intro k hk
  have hsum : ∑ i ∈ Finset.range kd, s i v * exp (gate i) * key i =
      ∑ i ∈ Finset.range kd, s' i v' * exp (gate' i) * key' i := by
    refine Finset.sum_congr rfl fun i hi => ?_
    have hi := Finset.mem_range.mp hi
    rw [hs i hi, (hkey i hi).1, (hkey i hi).2]
  rw [gatedUpdate, gatedUpdate, hsum, hs k hk, (hkey k hk).1, (hkey k hk).2, hvalue, hbeta]

lemma replay_eq (exp : F → F) (c : StateCall F) (head : ℕ) {block l : ℕ} (hl : block * 32 + l < c.vd) :
    ∀ k < c.kd, c.replay exp head block k l =
      c.updates exp head (c.committed head) (c.stateOf c.initial head) k (block * 32 + l) := by
  unfold StateCall.replay StateCall.updates
  generalize c.committed head = n
  induction n with
  | zero => exact fun k _ => if_pos hl
  | succ n ih =>
    simp only [range_succ, foldl_concat]
    show ∀ k < c.kd, gatedUpdate exp c.kd (c.keyAt head n) (c.gateAt head n)
      (fun l => if block * 32 + l < c.vd then c.valueAt head n (block * 32 + l) else 0) (c.betaAt head n) _ k l = _
    exact gatedUpdate_congr exp (fun k _ => ⟨rfl, rfl⟩) (if_pos hl) rfl ih

/-- **The state after a commit** is that of the first tokens. -/
theorem state_replayed (exp : F → F) (c : StateCall F) (result : ℕ → F) {head k v : ℕ} (hhead : head < c.batch * c.heads)
    (hk : k < c.kd) (hv : v < c.vd) : c.stateOf (c.kdaPrefixState exp result) head k v =
      c.updates exp head (c.committed head) (c.stateOf c.initial head) k v := by
  have hnonempty : c.batch * c.heads ≠ 0 := by omega
  rw [StateCall.stateOf, StateCall.kdaPrefixState, if_neg hnonempty]
  have hmem {i : ℕ} {x : F} : (i, x) ∈ c.replayStores exp ↔ ∃ h < c.batch * c.heads, ∃ a < c.kd, ∃ b < c.vd,
      i = h * c.kd * c.vd + a * c.vd + b ∧ x = c.updates exp h (c.committed h) (c.stateOf c.initial h) a b := by
    simp only [StateCall.replayStores, mem_flatMap, mem_range, storeIf]
    constructor
    · rintro ⟨h, hh, block, -, a, ha, l, -, hin⟩
      split at hin
      · rename_i hl
        obtain ⟨rfl, rfl⟩ := Prod.mk.inj (mem_singleton.mp hin)
        exact ⟨h, hh, a, ha, block * 32 + l, hl, rfl, replay_eq exp c h hl a ha⟩
      · cases hin
    · rintro ⟨h, hh, a, ha, b, hb, rfl, rfl⟩
      have hle := le_blocksFor (show 0 < 32 by decide) c.vd
      have hsplit : b / 32 * 32 + b % 32 = b := Nat.div_add_mod' b 32
      refine ⟨h, hh, b / 32, by omega, a, ha, b % 32, by omega, ?_⟩
      rw [if_pos (by omega), replay_eq exp c h (by omega) a ha, hsplit]
      exact mem_singleton_self _
  refine assign_agree (hmem.mpr ⟨head, hhead, k, hk, v, hv, rfl, rfl⟩) (fun x hx => ?_) result
  obtain ⟨h, -, a, ha, b, hb, heq, rfl⟩ := hmem.mp hx
  -- an address names its head, its key and its value
  rw [← add_mul, ← add_mul] at heq
  obtain ⟨hrow, rfl⟩ := Blocks.place_inj hv hb heq
  obtain ⟨rfl, rfl⟩ := Blocks.place_inj hk ha hrow
  rfl

/-- A commit of `c` made in two: `c₁` on the same tensors, and `c₂` on the tokens behind it, from what `c₁` left. -/
structure StateCall.Resumed (c c₁ c₂ : StateCall F) (left : ℕ → F) : Prop where
  first : c₁ = { c with lengths := c₁.lengths }
  second : c₂ = { c with tokens := c₂.tokens, key := c₂.key, value := c₂.value, gate := c₂.gate, beta := c₂.beta,
                         initial := left, lengths := c₂.lengths }
  total : ∀ head < c.batch * c.heads, c.committed head = c₁.committed head + c₂.committed head
  rest : ∀ head < c.batch * c.heads, ∀ t < c₂.committed head,
    (∀ k < c.kd, c₂.keyAt head t k = c.keyAt head (c₁.committed head + t) k ∧
      c₂.gateAt head t k = c.gateAt head (c₁.committed head + t) k) ∧
    (∀ v < c.vd, c₂.valueAt head t v = c.valueAt head (c₁.committed head + t) v) ∧
      c₂.betaAt head t = c.betaAt head (c₁.committed head + t)

lemma state_resumed {exp : F → F} {c c₁ c₂ : StateCall F} {result result₁ result₂ : ℕ → F}
    (h : c.Resumed c₁ c₂ (c₁.kdaPrefixState exp result₁)) {head : ℕ} (hhead : head < c.batch * c.heads) {v : ℕ}
    (hv : v < c.vd) : ∀ k < c.kd, c.stateOf (c₂.kdaPrefixState exp result₂) head k v =
      c.stateOf (c.kdaPrefixState exp result) head k v := by
  have hfirst : ∀ k < c.kd, c.stateOf (c₁.kdaPrefixState exp result₁) head k v =
      c.updates exp head (c₁.committed head) (c.stateOf c.initial head) k v := by
    intro k hk
    have hhead : head < c₁.batch * c₁.heads := by rwa [h.first]
    have hleft := state_replayed exp c₁ result₁ hhead (show k < c₁.kd by rwa [h.first]) (show v < c₁.vd by rwa [h.first])
    rw [h.first] at hleft ⊢
    exact hleft
  have hsecond : ∀ k < c.kd, c.stateOf (c₂.kdaPrefixState exp result₂) head k v =
      c₂.updates exp head (c₂.committed head) (c.stateOf (c₁.kdaPrefixState exp result₁) head) k v := by
    intro k hk
    have hhead : head < c₂.batch * c₂.heads := by rwa [h.second]
    have hleft := state_replayed exp c₂ result₂ hhead (show k < c₂.kd by rwa [h.second]) (show v < c₂.vd by rwa [h.second])
    rw [h.second] at hleft ⊢
    exact hleft
  have hrest (n : ℕ) (hn : n ≤ c₂.committed head) : ∀ k < c.kd,
      c₂.updates exp head n (c.stateOf (c₁.kdaPrefixState exp result₁) head) k v =
        c.updates exp head (c₁.committed head + n) (c.stateOf c.initial head) k v := by
    induction n with
    | zero => exact hfirst
    | succ n ih =>
      obtain ⟨hkey, hvalue, hbeta⟩ := h.rest head hhead n (by omega)
      have hkd : c₂.kd = c.kd := by rw [h.second]
      simp only [StateCall.updates, ← add_assoc, range_succ, foldl_append, foldl_cons, foldl_nil, hkd] at ih ⊢
      exact gatedUpdate_congr exp hkey (hvalue v hv) hbeta (ih (by omega))
  intro k hk
  rw [hsecond k hk, hrest _ le_rfl k hk, ← h.total head hhead, state_replayed exp c result hhead hk hv]

end

/-! ## Both commits -/

/-- Three columns behind a window of two, and a call without heads. -/
def threeColumns (length : ℤ) : ConvCall ℕ :=
  ⟨1, 1, 3, 2, fun t => [13, 14, 15].getD t 0, fun j => [11, 12].getD j 0, fun _ => length⟩

def noHeads : StateCall ℤ :=
  ⟨1, 0, 3, 1, 1, fun _ => 0, fun _ => 0, fun _ => 0, fun _ => 0, fun _ => 0, fun _ => 0⟩

/-- The two columns behind a commit of one. -/
def twoColumns : ConvCall ℕ :=
  { threeColumns 7 with
    tokens := 2, raw := fun t => [14, 15].getD t 0, initial := (threeColumns 1).kdaPrefixConvState fun _ => 0 }

end VKernels.Kda.Prefix
