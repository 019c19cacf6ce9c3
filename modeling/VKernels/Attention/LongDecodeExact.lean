import VKernels.Attention.LongDecode

/-!
# Long decode attention, over exact arithmetic

* `blockStep_holds`, `splitRow_holds` — what a program has gathered after a block, and after all of its blocks.
* `partial_holds` — the buffers after the launch.
* `merge_attention` — the mean over all splits.

## Results

* `attention_long` — where no fresh row is stored in a slot that some row reads as an earlier position, every output is
  the softmax attention of its row.
* `shared_slot_differs` — a table whose last slot is also an earlier one.
-/

namespace VKernels.LongDecode

open SplitSoftmax LocalActions LaneLaunch MaskedStores Finset
open OnlineSoftmax (expFrom)

/-! ## Requirements -/

section

lemma require_bind {condition : Prop} [Decidable condition] {message : String} {α : Type} {rest : Except String α}
    {a : α} : (require condition message >>= fun _ => rest) = .ok a ↔ condition ∧ rest = .ok a := by
  unfold require
  split
  · simp [*, bind, Except.bind]
  · simp [*, bind, Except.bind]

/-- What the kernels rely on. -/
structure Qualified (o : Operands) : Prop where
  hint : 0 < o.maxLenHint
  kvHeads : 0 < o.kvHeads
  heads : o.heads = o.kvHeads * (o.heads / o.kvHeads)
  group : o.heads / o.kvHeads ≤ 16

lemma qualified_of_check {o : Operands} (h : checkOperands o = .ok ()) : Qualified o := by
  unfold checkOperands at h
  simp only [require_bind] at h
  obtain ⟨-, -, ⟨-, -, hgeometry⟩, ⟨-, -, -, hhint, -⟩, -⟩ := h
  have hpair : (o.heads = 32 ∧ o.kvHeads = 8) ∨ (o.heads = 16 ∧ o.kvHeads = 2) ∨ (o.heads = 8 ∧ o.kvHeads = 2) := by
    simpa using hgeometry
  refine ⟨by omega, by omega, ?_, ?_⟩
  · rcases hpair with ⟨hh, hk⟩ | ⟨hh, hk⟩ | ⟨hh, hk⟩ <;> rw [hh, hk]
  · rcases hpair with ⟨hh, hk⟩ | ⟨hh, hk⟩ | ⟨hh, hk⟩ <;> rw [hh, hk] <;> decide

end

/-! ## One program -/

section

variable {V : Type} [Field V] [LinearOrder V] {exp2 : V → V} {c : Call V} {seen : Seen V} {p : Program} {r : ℕ}

omit [LinearOrder V] in
lemma sum_block (n offset stop : ℕ) (f : ℕ → V) : ∑ j ∈ range n, (if offset + j < stop then f (offset + j) else 0) =
      ∑ i ∈ Ico offset (min (offset + n) stop), f i := by
  have hrange : Ico offset (min (offset + n) stop) = (Ico offset (offset + n)).filter (· < stop) :=
    (Ico_filter_lt offset _ stop).symm
  rw [hrange, sum_filter, sum_Ico_eq_sum_range, Nat.add_sub_cancel_left]

variable (c seen p r)

/-- The key of a position as the program sees it. -/
def seenKey (col d : ℕ) : V := withFresh c p (seen.k p col d) (fun f => f.kNew p.batch p.kvHead d) col

def seenValue (col d : ℕ) : V := withFresh c p (seen.v p col d) (fun f => f.vNew p.batch p.kvHead d) col

def seenScore (col : ℕ) : V := (∑ d ∈ range 128, query c p r d * seenKey c seen p col d) * c.scale

variable {c seen p r}

omit [LinearOrder V] in
lemma score_eq {col : ℕ} : score c seen p r col = if col < stop c p then some (seenScore c seen p r col) else none := by
  unfold score
  split
  · simp [dot, seenScore, key, seenKey, *]
  · rfl

omit [LinearOrder V] in
lemma value_eq {col : ℕ} (h : col < stop c p) (d : ℕ) : value c seen p col d = seenValue c seen p col d := by
  simp [value, seenValue, h]

omit [LinearOrder V] in
lemma probability_eq (newMax : V) (col : ℕ) : probability exp2 newMax (score c seen p r col) =
    if col < stop c p then exp2 (seenScore c seen p r col - newMax) else 0 := by
  rw [score_eq]
  split <;> rfl

omit [Field V] [LinearOrder V] in
lemma bn_pos (c : Call V) : 0 < c.bn := by
  unfold Call.bn
  split <;> decide

lemma blockStep_holds (hE : Exponential exp2) {g : Gathered ℕ V} {S : Finset ℕ}
    (h : g.Holds exp2 (seenScore c seen p r) (seenValue c seen p) S) {offset : ℕ} (hoffset : offset < stop c p)
    (hS : Disjoint S (Ico offset (min (offset + c.bn) (stop c p)))) :
    ∃ g', blockStep exp2 c seen p r g offset = some g' ∧ g'.Holds exp2 (seenScore c seen p r) (seenValue c seen p)
        (S ∪ Ico offset (min (offset + c.bn) (stop c p))) := by
  have hlane : (score c seen p r (offset + 0)).isSome = true := by
    rw [score_eq, if_pos (by omega)]
    rfl
  obtain ⟨newMax, hmax⟩ := Option.isSome_iff_exists.mp
    (maximum_isSome (maxOver_isSome (f := fun j => score c seen p r _) (bn_pos c) hlane) :
      (maximum g.max _).isSome = true)
  refine ⟨_, by rw [blockStep, hmax]; rfl, h.advance hE hS newMax ?_ fun d => ?_⟩
  · congr 1
    simp only [probability_eq]
    exact sum_block c.bn offset _ fun i => exp2 (seenScore c seen p r i - newMax)
  · simp only [probability_eq, sub_self, zero_mul, sum_const_zero, add_zero]
    congr 1
    rw [moment, ← sum_block]
    refine sum_congr rfl fun j _ => ?_
    split
    · rw [value_eq (by assumption)]
    · rw [zero_mul]

variable (c seen p r) in
lemma blocks_holds (hE : Exponential exp2) (n : ℕ) (hn : n ≤ blocks c p) :
    ∃ g, ((List.range n).map fun i => start c p + i * c.bn).foldlM (blockStep exp2 c seen p r) Gathered.start = some g ∧
      g.Holds exp2 (seenScore c seen p r) (seenValue c seen p)
        (Ico (start c p) (min (start c p + n * c.bn) (stop c p))) := by
  induction n with
  | zero =>
    refine ⟨Gathered.start, rfl, ?_⟩
    rw [Nat.zero_mul, add_zero, Ico_eq_empty_of_le (min_le_left _ _)]
    exact Gathered.holds_start
  | succ n ih =>
    obtain ⟨g, hg, hholds⟩ := ih (by omega)
    have hroom : (n + 1) * c.bn ≤ stop c p - start c p + c.bn - 1 := (Nat.le_div_iff_mul_le (bn_pos c)).mp hn
    have hbn := bn_pos c
    rw [add_one_mul] at hroom
    have hoffset : start c p + n * c.bn < stop c p := by omega
    have hmin : min (start c p + n * c.bn) (stop c p) = start c p + n * c.bn := by omega
    rw [hmin] at hholds
    obtain ⟨g', hg', hholds'⟩ := blockStep_holds hE hholds hoffset (Ico_disjoint_Ico_consecutive _ _ _)
    refine ⟨g', ?_, ?_⟩
    · rw [List.range_succ, List.map_append, List.foldlM_append, hg]
      simpa using hg'
    · rw [Ico_union_Ico_eq_Ico (by omega) (by omega)] at hholds'
      rwa [add_one_mul, ← add_assoc]

variable (c seen p r) in
lemma splitRow_holds (hE : Exponential exp2) : ∃ g, splitRow exp2 c seen p r = some g ∧
    g.Holds exp2 (seenScore c seen p r) (seenValue c seen p) (Ico (start c p) (stop c p)) := by
  obtain ⟨g, hg, hholds⟩ := blocks_holds c seen p r hE _ (le_refl _)
  refine ⟨g, hg, ?_⟩
  have hlast : stop c p ≤ start c p + blocks c p * c.bn := by
    have h := Nat.div_add_mod (stop c p - start c p + c.bn - 1) c.bn
    have hmod := Nat.mod_lt (stop c p - start c p + c.bn - 1) (bn_pos c)
    rw [mul_comm] at h
    unfold blocks
    omega
  rwa [min_eq_right hlast] at hholds

end

/-! ## The launch -/

section

variable {V : Type} {c : Call V}

lemma hint_le_parts (c : Call V) : c.operands.maxLenHint ≤ splits * c.part := by
  have hpos : 0 < splits * c.bn := mul_pos (by decide) (bn_pos c)
  have hdiv := Nat.div_add_mod (c.operands.maxLenHint + splits * c.bn - 1) (splits * c.bn)
  have hmod := Nat.mod_lt (c.operands.maxLenHint + splits * c.bn - 1) hpos
  have hpart : splits * c.part = splits * c.bn * ((c.operands.maxLenHint + splits * c.bn - 1) / (splits * c.bn)) := by
    unfold Call.part
    ring
  omega

lemma part_pos (h : 0 < c.operands.maxLenHint) : 0 < c.part := by
  have hle := hint_le_parts c
  apply pos_of_ne_zero
  intro hzero
  rw [hzero, Nat.mul_zero] at hle
  omega

lemma mem_split (hpart : 0 < c.part) {b kvHead split pos : ℕ} :
    pos ∈ Ico (start c ⟨b, kvHead, split⟩) (stop c ⟨b, kvHead, split⟩) ↔ pos / c.part = split ∧ pos < c.lengths b := by
  have hiff : pos / c.part = split ↔ split * c.part ≤ pos ∧ pos < split * c.part + c.part := by
    rw [Nat.div_eq_iff hpart]
    omega
  rw [mem_Ico, hiff]
  simp only [start, stop]
  omega

lemma head_lt (q : Qualified c.operands) {kvHead r : ℕ} (hkv : kvHead < c.operands.kvHeads) (hr : r < c.group) :
    kvHead * c.group + r < c.operands.heads := by
  have hheads : c.operands.heads = c.operands.kvHeads * c.group := q.heads
  have hlast := Blocks.block_le hkv c.group
  omega

lemma base_inj (q : Qualified c.operands) {b kvHead split r b' kvHead' split' r' : ℕ}
    (hkv : kvHead < c.operands.kvHeads) (hsplit : split < splits) (hr : r < c.group)
    (hkv' : kvHead' < c.operands.kvHeads) (hsplit' : split' < splits) (hr' : r' < c.group)
    (h : base c b (kvHead * c.group + r) split = base c b' (kvHead' * c.group + r') split') :
    b = b' ∧ kvHead = kvHead' ∧ split = split' ∧ r = r' := by
  have hrow := rows_apart hsplit hsplit' h
  obtain rfl := rows_apart (head_lt q hkv hr) (head_lt q hkv' hr') hrow
  obtain rfl := rows_apart hr hr' (add_left_cancel hrow)
  obtain rfl : r = r' := by omega
  exact ⟨rfl, rfl, add_left_cancel h, rfl⟩

lemma mem_rows {b kvHead split r : ℕ} : (b, kvHead, split, r) ∈ rows c ↔
    b < c.operands.batch ∧ kvHead < c.operands.kvHeads ∧ split < splits ∧ r < 16 ∧ r < c.group := by
  simp [rows]

lemma rows_nodup : (rows c).Nodup := by
  apply List.Nodup.product List.nodup_range
  apply List.Nodup.product List.nodup_range
  apply List.Nodup.product List.nodup_range
  exact List.nodup_range.filter _

variable [Field V] [LinearOrder V] {exp2 : V → V} {seen : Seen V}
  {arrange : List (ℕ × Gathered ℕ V) → List (ℕ × Gathered ℕ V)} {held : ℕ → Gathered ℕ V}

variable (seen held) in
lemma launch_holds (hE : Exponential exp2) (q : Qualified c.operands) (hperm : ∀ stores, (arrange stores).Perm stores) :
    ∃ partials, groupedSplit exp2 c seen arrange held = some partials ∧
      ∀ b < c.operands.batch, ∀ kvHead < c.operands.kvHeads, ∀ split < splits, ∀ r < c.group,
        (partials (base c b (kvHead * c.group + r) split)).Holds exp2 (seenScore c seen ⟨b, kvHead, split⟩ r)
          (seenValue c seen ⟨b, kvHead, split⟩) (Ico (start c ⟨b, kvHead, split⟩) (stop c ⟨b, kvHead, split⟩)) := by
  have hsplits (p : Program) (r : ℕ) := splitRow_holds c seen p r hE
  choose gathered hgathered hholds using hsplits
  let store (t : ℕ × ℕ × ℕ × ℕ) : ℕ × Gathered ℕ V :=
    (base c t.1 (t.2.1 * c.group + t.2.2.2) t.2.2.1, gathered ⟨t.1, t.2.1, t.2.2.1⟩ t.2.2.2)
  have hstores : (rows c).mapM (rowStore exp2 c seen) = some ((rows c).map store) := by
    rw [mapM_eq_some, List.forall₂_map_right_iff, List.forall₂_same]
    intro t _
    simp [rowStore, hgathered, store]
  have hkeys : (((rows c).map store).map Prod.fst).Nodup := by
    rw [List.map_map]
    refine List.Nodup.map_on ?_ rows_nodup
    rintro ⟨b, kvHead, split, r⟩ ht ⟨_, _, _, _⟩ ht' heq
    obtain ⟨-, hkv, hsplit, -, hr⟩ := mem_rows.mp ht
    obtain ⟨-, hkv', hsplit', -, hr'⟩ := mem_rows.mp ht'
    obtain ⟨rfl, rfl, rfl, rfl⟩ := base_inj q hkv hsplit hr hkv' hsplit' hr' heq
    rfl
  refine ⟨assign (arrange ((rows c).map store)) held, ?_, fun b hb kvHead hkv split hsplit r hr => ?_⟩
  · rw [groupedSplit, hstores]
    rfl
  · have hmem : (b, kvHead, split, r) ∈ rows c := mem_rows.mpr ⟨hb, hkv, hsplit, hr.trans_le q.group, hr⟩
    have hstore := assign_nodup (hperm _) hkeys (List.mem_map_of_mem hmem) held
    rw [hstore]
    exact hholds _ _

end

variable {V : Type} [Field V] [LinearOrder V] [IsStrictOrderedRing V] {exp2 : V → V} {c : Call V}

/-! ## The merge -/

lemma merge_attention (hE : Exponential exp2) (hhint : 0 < c.operands.maxLenHint) {b head : ℕ} (kvHead : ℕ)
    (hlen : c.lengths b ≤ c.operands.maxLenHint) {partials : ℕ → Gathered ℕ V} {score : ℕ → V} {value : ℕ → ℕ → V}
    (h : ∀ split < splits, (partials (base c b head split)).Holds exp2 score value
      (Ico (start c ⟨b, kvHead, split⟩) (stop c ⟨b, kvHead, split⟩))) (d : ℕ) :
    merge exp2 c partials b head d = attention exp2 score value (range (c.lengths b)) d := by
  have hpart := part_pos hhint
  let keys (split : ℕ) := Ico (start c ⟨b, kvHead, split⟩) (stop c ⟨b, kvHead, split⟩)
  have hdisjoint : (range splits : Set ℕ).PairwiseDisjoint keys := by
    intro s _ _ _ hne
    refine disjoint_left.mpr fun pos hpos hpos' => hne ?_
    exact ((mem_split hpart).mp hpos).1.symm.trans ((mem_split hpart).mp hpos').1
  have hunion : (range splits).biUnion keys = range (c.lengths b) := by
    ext pos
    simp only [mem_biUnion, mem_range, keys, mem_split hpart]
    constructor
    · rintro ⟨-, -, -, hpos⟩
      exact hpos
    · intro hpos
      refine ⟨pos / c.part, ?_, rfl, hpos⟩
      apply Nat.div_lt_of_lt_mul
      rw [mul_comm]
      exact hpos.trans_le (hlen.trans (hint_le_parts c))
  unfold merge
  dsimp only
  generalize (maxOver splits fun split => (partials _).max).getD 0 = overall
  have htotal : ∑ split ∈ range splits,
      (partials (base c b head split)).denom * expFrom exp2 (partials (base c b head split)).max overall =
        mass exp2 score (range (c.lengths b)) overall := by
    rw [← hunion, ← mass_parts hdisjoint]
    exact sum_congr rfl fun split hsplit => ((h split (mem_range.mp hsplit)).at hE overall).1
  have hacc : ∑ split ∈ range splits,
      (partials (base c b head split)).acc d * expFrom exp2 (partials (base c b head split)).max overall =
        moment exp2 score value (range (c.lengths b)) overall d := by
    rw [← hunion, ← moment_parts hdisjoint]
    exact sum_congr rfl fun split hsplit => ((h split (mem_range.mp hsplit)).at hE overall).2 d
  rw [htotal, hacc]
  by_cases hempty : c.lengths b = 0
  · simp [hempty]
  · have hnonempty : (range (c.lengths b)).Nonempty := nonempty_range_iff.mpr hempty
    rw [if_pos (mass_pos hE hnonempty overall)]
    exact moment_div_mass hE _ _ d

/-! ## The call -/

section

variable {seen : Seen V} {arrange : List (ℕ × Gathered ℕ V) → List (ℕ × Gathered ℕ V)}
    {held : ℕ → Gathered ℕ V}

/-- The score of a position under some keys of the row. -/
def scoreUnder (c : Call V) (keys : ℕ → ℕ → V) (b head pos : ℕ) : V :=
  (∑ d ∈ range 128, c.q b head d * keys pos d) * c.scale

def covering (c : Call V) (b head pos : ℕ) : Program := ⟨b, c.kvHead head, pos / c.part⟩

variable (seen held) in
/-- **The output** is the attention under the keys and values that the covering programs have seen. -/
theorem decode_eq (hE : Exponential exp2) (hcheck : checkOperands c.operands = .ok ())
    (hperm : ∀ stores, (arrange stores).Perm stores)
    (hlen : ∀ b < c.operands.batch, c.lengths b ≤ c.operands.maxLenHint) :
    ∃ out, decodeAttentionLong exp2 c seen arrange held = .ok (some out) ∧
      ∀ b < c.operands.batch, ∀ head < c.operands.heads, ∀ d, out b head d = attention exp2
          (scoreUnder c (fun pos => seenKey c seen (covering c b head pos) pos) b head)
          (fun pos => seenValue c seen (covering c b head pos) pos) (range (c.lengths b)) d := by
  have q := qualified_of_check hcheck
  have hpart := part_pos q.hint
  obtain ⟨partials, hpartials, hholds⟩ := launch_holds seen held hE q hperm
  refine ⟨merge exp2 c partials, ?_, fun b hb head hhead d => ?_⟩
  · rw [decodeAttentionLong, hcheck, hpartials]
    rfl
  · have hgroup : 0 < c.group := Nat.div_pos (by
      have := q.heads
      by_contra hlt
      rw [Nat.div_eq_of_lt (by omega)] at this
      omega) q.kvHeads
    have hr : head % c.group < c.group := Nat.mod_lt _ hgroup
    have hkv : c.kvHead head < c.operands.kvHeads := by
      apply Nat.div_lt_of_lt_mul
      rw [Nat.mul_comm, show c.operands.kvHeads * c.group = c.operands.heads from q.heads.symm]
      exact hhead
    have hrow : c.kvHead head * c.group + head % c.group = head := Nat.div_add_mod' head c.group
    refine merge_attention hE q.hint (c.kvHead head) (hlen b hb) (fun split hsplit => ?_) d
    have h := hholds b hb _ hkv split hsplit _ hr
    rw [hrow] at h
    refine h.congr (fun pos hpos => ?_) fun pos hpos d => ?_
    · have hsplit' := ((mem_split hpart).mp hpos).1
      simp [seenScore, scoreUnder, query, if_pos hr, hrow, covering, hsplit']
    · have hsplit' := ((mem_split hpart).mp hpos).1
      simp [covering, hsplit']

/-- No fresh row is stored in a slot that some row reads at an earlier position. -/
def HistoryReadOnly (c : Call V) : Prop :=
  ∀ b < c.operands.batch, c.Stores b → ∀ b' < c.operands.batch, ∀ pos, pos + 1 < c.lengths b' →
    c.table b' pos ≠ c.freshSlot b

omit [Field V] [LinearOrder V] [IsStrictOrderedRing V] in
lemma admits_initial {seen initial : V} {slot : ℤ} {new : Fresh V → ℕ → V} (h : Seen.Admits c seen initial slot new)
    (hread : ∀ b < c.operands.batch, c.Stores b → slot ≠ c.freshSlot b) : seen = initial := by
  rcases h with h | ⟨f, -, b, hb, hstores, hslot, -⟩
  · exact h
  · exact absurd hslot.symm (hread b hb hstores)

omit [Field V] [LinearOrder V] [IsStrictOrderedRing V] in
lemma seen_eq_logical (hseen : seen.Admissible c) (hhistory : HistoryReadOnly c) {b head pos : ℕ}
    (hb : b < c.operands.batch) (hpos : pos < c.lengths b) (d : ℕ) :
    seenKey c seen (covering c b head pos) pos d = logicalKey c b head pos d ∧
      seenValue c seen (covering c b head pos) pos d = logicalValue c b head pos d := by
  have hk := hseen.k (covering c b head pos) pos d hpos
  have hv := hseen.v (covering c b head pos) pos d hpos
  unfold seenKey seenValue withFresh logicalKey logicalValue
  cases hfresh : c.fresh with
  | none =>
    have hread : ∀ b' < c.operands.batch, c.Stores b' → c.table b pos ≠ c.freshSlot b' := by
      intro b' _ hstores
      have hsome := hstores.1
      rw [hfresh] at hsome
      cases hsome
    exact ⟨admits_initial hk hread, admits_initial hv hread⟩
  | some f =>
    show (if pos + 1 = c.lengths b then _ else _) = _ ∧ (if pos + 1 = c.lengths b then _ else _) = _
    by_cases hlast : pos + 1 = c.lengths b
    · simp [hlast, covering]
    · have hread : ∀ b' < c.operands.batch, c.Stores b' → c.table b pos ≠ c.freshSlot b' :=
        fun b' hb' hstores => hhistory b' hb' hstores b hb pos (by omega)
      simp only [hlast, if_false]
      exact ⟨admits_initial hk hread, admits_initial hv hread⟩

end

/-! ## The exponential -/

/-- `exp2`, exactly. -/
noncomputable def exactExp2 (x : ℝ) : ℝ := ((2 : ℕ) : ℝ) ^ x

lemma exactExp2_exponential : Exponential exactExp2 where
  add := Real.rpow_add (by simp)
  pos := Real.rpow_pos_of_pos (by simp)

/-- **Long decode attention** is the softmax attention over the logical positions of every row, each of them in one
split. -/
theorem attention_long {c : Call ℝ} {seen : Seen ℝ} {arrange : List (ℕ × Gathered ℕ ℝ) → List (ℕ × Gathered ℕ ℝ)}
    {held : ℕ → Gathered ℕ ℝ} (hcheck : checkOperands c.operands = .ok ())
    (hlen : ∀ b < c.operands.batch, c.lengths b ≤ c.operands.maxLenHint) (hseen : seen.Admissible c)
    (hperm : ∀ stores, (arrange stores).Perm stores) (hhistory : HistoryReadOnly c) :
    (∃ out, decodeAttentionLong exactExp2 c seen arrange held = .ok (some out) ∧
      ∀ b < c.operands.batch, ∀ head < c.operands.heads, ∀ d < 128,
        out b head d = rowAttention exactExp2 c b head d ∧ (c.lengths b = 0 → out b head d = 0)) ∧
    ∀ b < c.operands.batch, ∀ pos < c.lengths b, ∃! split, split < splits ∧
      ∀ kvHead, start c ⟨b, kvHead, split⟩ ≤ pos ∧ pos < stop c ⟨b, kvHead, split⟩ := by
  have q := qualified_of_check hcheck
  have hpart := part_pos q.hint
  constructor
  · obtain ⟨out, hout, heq⟩ := decode_eq seen held exactExp2_exponential hcheck hperm hlen
    refine ⟨out, hout, fun b hb head hhead d _ => ?_⟩
    have hrow : out b head d = rowAttention exactExp2 c b head d := by
      rw [heq b hb head hhead d]
      refine attention_congr (fun pos hpos => ?_) fun pos hpos => ?_
      · have hpos := Finset.mem_range.mp hpos
        simp only [scoreUnder, logicalScore, (seen_eq_logical hseen hhistory hb hpos _).1]
      · exact (seen_eq_logical hseen hhistory hb (Finset.mem_range.mp hpos) d).2
    refine ⟨hrow, fun hzero => ?_⟩
    rw [hrow]
    simp [rowAttention, hzero]
  · intro b hb pos hpos
    have hiff (split kvHead : ℕ) : (start c ⟨b, kvHead, split⟩ ≤ pos ∧ pos < stop c ⟨b, kvHead, split⟩) ↔
        pos / c.part = split ∧ pos < c.lengths b := by
      rw [← Finset.mem_Ico]
      exact mem_split hpart
    refine ⟨pos / c.part, ⟨?_, fun kvHead => (hiff _ kvHead).mpr ⟨rfl, hpos⟩⟩, fun split hsplit => ?_⟩
    · apply Nat.div_lt_of_lt_mul
      rw [mul_comm]
      exact hpos.trans_le ((hlen b hb).trans (hint_le_parts c))
    · exact ((hiff split 0).mp (hsplit.2 0)).1.symm

/-! ## Two tables -/

lemma afterStores_admits {V : Type} (c : Call V) (pool : ℤ → ℕ → ℕ → V) (new : Fresh V → ℕ → ℕ → ℕ → V) (slot : ℤ)
    (kvHead d : ℕ) : Seen.Admits c (Seen.stored c pool new slot kvHead d) (pool slot kvHead d) slot
      fun f b => new f b kvHead d := by
  unfold Seen.stored
  split
  · rename_i f b hfresh hfind
    have hfound := List.find?_some hfind
    obtain ⟨hstores, hslot⟩ := of_decide_eq_true hfound
    exact .inr ⟨f, hfresh, b, List.mem_range.mp (List.mem_of_find?_eq_some hfind), hstores, hslot, rfl⟩
  · exact .inl rfl

lemma afterStores_admissible {V : Type} (c : Call V) : (Seen.afterStores c).Admissible c where
  k _ _ d _ := afterStores_admits c c.k Fresh.kNew _ _ d
  v _ _ d _ := afterStores_admits c c.v Fresh.vNew _ _ d

/-- One row of 8 heads against a table of width 4097. -/
def oneRow : Operands where
  qShape := [1, 8, 128]
  kShape := [4097, 2, 128]
  vShape := [4097, 2, 128]
  tableShape := [1, 4097]
  lengthsShape := [1]
  maxLenHint := 4097
  onGpu := true
  sameDevice := true
  contiguous := true
  queryFits := true
  gfx942 := true
  bf16 := true
  integerMetadata := true
  kNew := some ([1, 2, 128], true)
  vNew := some ([1, 2, 128], true)
  inference := true

/-- Two positions, keys and cached values of zero, a fresh value of one. -/
noncomputable def twoPositions (table : ℕ → ℕ → ℤ) : Call ℝ where
  operands := oneRow
  q _ _ _ := 0
  k _ _ _ := 0
  v _ _ _ := 0
  table := table
  lengths _ := 2
  fresh := some ⟨fun _ _ _ => 0, fun _ _ _ => 1⟩
  scratchSlot := -1
  scale := 1

lemma twoPositions_len (table : ℕ → ℕ → ℤ) :
    ∀ b < (twoPositions table).operands.batch, (twoPositions table).lengths b ≤ (twoPositions table).operands.maxLenHint :=
  fun _ _ => by simp [twoPositions, oneRow]

theorem attention_long_two : ∃ out, decodeAttentionLong exactExp2 (twoPositions fun _ pos => pos)
      (Seen.afterStores (twoPositions fun _ pos => pos)) id (fun _ => Gathered.start) = .ok (some out) ∧
        out 0 7 0 = rowAttention exactExp2 (twoPositions fun _ pos => pos) 0 7 0 := by
  have hhistory : HistoryReadOnly (twoPositions fun _ pos => pos) := by
    intro b _ _ _ _ _ hpos
    simp only [twoPositions, Call.freshSlot] at hpos ⊢
    omega
  obtain ⟨out, hout, hrow⟩ := (attention_long rfl (twoPositions_len _) (afterStores_admissible _)
    (fun stores => List.Perm.refl stores) hhistory).1
  exact ⟨out, hout, (hrow 0 (by decide) 7 (by decide) 0 (by decide)).1⟩

/-- **A table whose last slot is also the first**: the fresh value is read at both positions. -/
theorem shared_slot_differs : (Seen.afterStores (twoPositions fun _ _ => 0)).Admissible (twoPositions fun _ _ => 0) ∧
      ∃ out, decodeAttentionLong exactExp2 (twoPositions fun _ _ => 0) (Seen.afterStores (twoPositions fun _ _ => 0)) id
          (fun _ => Gathered.start) = .ok (some out) ∧
        out 0 0 0 = 1 ∧ rowAttention exactExp2 (twoPositions fun _ _ => 0) 0 0 0 = 1 / 2 := by
  refine ⟨afterStores_admissible _, ?_⟩
  obtain ⟨out, hout, hrow⟩ := decode_eq (Seen.afterStores (twoPositions fun _ _ => 0)) (fun _ => Gathered.start)
    exactExp2_exponential rfl (fun stores => List.Perm.refl stores) (twoPositions_len fun _ _ => 0)
  have hone : exactExp2 0 = 1 := by simp [exactExp2]
  have hseen (pos : ℕ) : seenValue (twoPositions fun _ _ => 0) (Seen.afterStores (twoPositions fun _ _ => 0))
      (covering (twoPositions fun _ _ => 0) 0 0 pos) pos 0 = 1 := by
    have hfind : (List.range (twoPositions fun _ _ => 0).operands.batch).find?
        (fun b => (twoPositions fun _ _ => 0).Stores b ∧ (twoPositions fun _ _ => 0).freshSlot b = 0) = some 0 := by
      simp [twoPositions, oneRow, Operands.batch, Call.Stores, Call.freshSlot]
    have hstored (kvHead : ℕ) : Seen.stored (twoPositions fun _ _ => 0) (fun _ _ _ => 0) Fresh.vNew 0 kvHead 0 = 1 := by
      rfl
    show (if pos + 1 = 2 then (1 : ℝ) else Seen.stored (twoPositions fun _ _ => 0) (fun _ _ _ => 0) Fresh.vNew 0
      ((twoPositions fun _ _ => 0).kvHead 0) 0) = 1
    rw [hstored, ite_self]
  refine ⟨out, hout, ?_, ?_⟩
  · rw [hrow 0 (by decide) 0 (by decide) 0]
    simp only [attention, hseen]
    simp [scoreUnder, twoPositions, hone]
  · simp [rowAttention, attention, logicalScore, logicalValue, twoPositions, hone]

end VKernels.LongDecode
