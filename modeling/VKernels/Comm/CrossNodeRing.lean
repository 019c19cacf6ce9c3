import VKernels.Comm.KvPlan
import VKernels.Lib.Rings

/-!
# The cross-node ring

`build_cross_node_ring` and `inter_node_ring_edges` of `comm/rccl.cpp`. The sizes that the code narrows to `int` are
narrowed here.

* `NodeTopology` — the place of a rank.
* `rankOrder`, `placeRank`, `buildCrossNodeRing` — the ranks node by node, and their links.
* `Topology` — every node has a rank, every rank a node.
* `RingOf` — what the links are for.

## Results

* `rankOrder_lists`, `rankOrder_sorted` — the order has every rank once, sorted by node.
* `links_get` — what the loop over the order leaves for a rank.
* `ringOf_links` — the links are one ring with as few crossings as any.
* `cross_node_ring_iff` — a topology gets such a ring exactly when its ranks are numbers of type `int`.
-/

namespace VKernels.Comm

open Rings Finset
open List hiding after cons filter_congr lt_irrefl mem_range range

structure NodeTopology where
  rank : ℕ := 0
  world : ℤ := 1
  node : ℤ := 0
  nodes : ℤ := 1
  localRank : ℕ := 0
  localSize : ℤ := 1
  next : ℕ := 0
  prev : ℕ := 0
  nextIsRemote : Bool := false
  prevIsRemote : Bool := false

section

variable (nodeOf : List ℤ) (nodes : ℤ)

def nodeAt (r : ℕ) : ℤ := nodeOf.getD r 0

/-- `order`: node by node, and within a node by rank. -/
def rankOrder (world : ℤ) : List ℕ :=
  (List.range nodes.toNat).flatMap fun n : ℕ => (List.range world.toNat).filter fun r => nodeAt nodeOf r == (n : ℤ)

/-- The links of the rank at a position, and the ranks seen on each node. -/
def placeRank (world : ℤ) (order : List ℕ) (s : (ℤ → ℕ) × List NodeTopology) (pos : ℕ) : (ℤ → ℕ) × List NodeTopology :=
  let r := order.getD pos 0
  let n := nodeAt nodeOf r
  let prevR := order.getD ((pos + order.length - 1) % order.length) 0
  let nextR := order.getD ((pos + 1) % order.length) 0
  (Function.update s.1 n (s.1 n + 1),
    s.2.set r
      { rank := r, world := world, node := n, nodes := nodes
        localRank := s.1 n
        localSize := toInt32 (nodeOf.count n)
        prev := prevR, next := nextR
        prevIsRemote := nodeAt nodeOf prevR != n
        nextIsRemote := nodeAt nodeOf nextR != n })

def links (world : ℤ) (order : List ℕ) : List NodeTopology :=
  ((List.range order.length).foldl (placeRank nodeOf nodes world order)
    (fun _ => 0, replicate world.toNat {})).2

def buildCrossNodeRing : Except String (List NodeTopology) := do
  let world := toInt32 nodeOf.length
  expects (world > 0) "node_of must be non-empty" "world > 0"
  expects (nodes > 0) "nodes must be positive" "nodes > 0"
  expectsAll nodeOf.length fun r =>
    expects (nodeAt nodeOf r ≥ 0 ∧ nodeAt nodeOf r < nodes) "node id out of range [0, nodes)" "n >= 0 && n < nodes"
  let order := rankOrder nodeOf nodes world
  expectsAll nodes.toNat fun i =>
    expects ((i : ℤ) ∈ nodeOf) "every node in [0, nodes) must have a rank" "has_rank[i] == 1"
  return links nodeOf nodes world order

end

def interNodeRingEdges (topo : List NodeTopology) : ℕ :=
  topo.foldl (fun edges t => edges + if t.nextIsRemote then 1 else 0) 0

structure Topology (nodeOf : List ℤ) (nodes : ℤ) : Prop where
  nodes_pos : 0 < nodes
  inRange : ∀ n ∈ nodeOf, 0 ≤ n ∧ n < nodes
  hasRank : ∀ n, 0 ≤ n → n < nodes → n ∈ nodeOf

structure RingOf (nodeOf : List ℤ) (nodes : ℤ) (topo : List NodeTopology) : Prop where
  length : topo.length = nodeOf.length
  /-- One cycle through all ranks. -/
  ring : IsRing nodeOf.length fun r => (topo.getD r {}).next
  prev_lt : ∀ r < nodeOf.length, (topo.getD r {}).prev < nodeOf.length
  prev_next : ∀ r < nodeOf.length, (topo.getD (topo.getD r {}).next {}).prev = r
  next_prev : ∀ r < nodeOf.length, (topo.getD (topo.getD r {}).prev {}).next = r
  /-- The local ranks of a node count its ranks. -/
  localRank : ∀ n, 0 ≤ n → n < nodes → Set.BijOn (fun r => (topo.getD r {}).localRank)
    {r | r < nodeOf.length ∧ nodeAt nodeOf r = n} {i | i < nodeOf.count n}
  localSize : ∀ r < nodeOf.length, (topo.getD r {}).localSize = nodeOf.count (nodeAt nodeOf r)
  /-- The edges counted are those that leave a node. -/
  crossing : interNodeRingEdges topo =
    (crossings nodeOf.length (fun r => (topo.getD r {}).next) (nodeAt nodeOf)).card
  edges : (interNodeRingEdges topo : ℤ) = if 1 < nodes then nodes else 0
  /-- No ring through all ranks has fewer. -/
  minimal : ∀ next, IsRing nodeOf.length next →
    interNodeRingEdges topo ≤ (crossings nodeOf.length next (nodeAt nodeOf)).card

variable {nodeOf : List ℤ} {nodes : ℤ}

/-! ## The order -/

lemma nodeAt_mem {r : ℕ} (hr : r < nodeOf.length) : nodeAt nodeOf r ∈ nodeOf := by
  rw [nodeAt, getD_eq_getElem?_getD, getElem?_eq_getElem hr, Option.getD_some]
  exact getElem_mem hr

lemma mem_rankOrder {world : ℤ} {r : ℕ} : r ∈ rankOrder nodeOf nodes world ↔
    r < world.toNat ∧ 0 ≤ nodeAt nodeOf r ∧ nodeAt nodeOf r < nodes := by
  simp only [rankOrder, mem_flatMap, List.mem_range, List.mem_filter, beq_iff_eq]
  constructor
  · rintro ⟨n, hn, hr, heq⟩
    omega
  · rintro ⟨hr, hlo, hhi⟩
    exact ⟨(nodeAt nodeOf r).toNat, by omega, hr, by omega⟩

lemma rankOrder_sorted (world : ℤ) :
    (rankOrder nodeOf nodes world).Pairwise fun a b => nodeAt nodeOf a ≤ nodeAt nodeOf b := by
  rw [rankOrder, pairwise_flatMap]
  refine ⟨fun n _ => ?_, pairwise_lt_range.imp fun {m n} hmn a ha b hb => ?_⟩
  · refine List.Pairwise.imp_of_mem (fun {a b} ha hb _ => ?_) (pairwise_lt_range.filter _)
    have ha := beq_iff_eq.mp (List.mem_filter.mp ha).2
    have hb := beq_iff_eq.mp (List.mem_filter.mp hb).2
    rw [ha, hb]
  · have ha := beq_iff_eq.mp (List.mem_filter.mp ha).2
    have hb := beq_iff_eq.mp (List.mem_filter.mp hb).2
    omega

lemma rankOrder_nodup (world : ℤ) : (rankOrder nodeOf nodes world).Nodup := by
  rw [rankOrder, nodup_flatMap]
  refine ⟨fun n _ => nodup_range.filter _, pairwise_lt_range.imp fun {m n} hmn a ha hb => ?_⟩
  have ha := beq_iff_eq.mp (mem_filter.mp ha).2
  have hb := beq_iff_eq.mp (mem_filter.mp hb).2
  omega

lemma rankOrder_lists (h : Topology nodeOf nodes) : Lists (rankOrder nodeOf nodes nodeOf.length) nodeOf.length := by
  refine ⟨rankOrder_nodup _, fun r => ?_⟩
  rw [mem_rankOrder, Int.toNat_natCast]
  exact ⟨And.left, fun hr => ⟨hr, h.inRange _ (nodeAt_mem hr)⟩⟩

/-! ## Local ranks -/

section

variable {l : List ℕ} {p : ℕ → Bool}

/-- How many of the elements before `r` satisfy `p`. -/
def countUntil (p : ℕ → Bool) (l : List ℕ) (r : ℕ) : ℕ := (l.take (l.idxOf r)).countP p

lemma countP_take_succ {i : ℕ} (hi : i < l.length) :
    (l.take (i + 1)).countP p = (l.take i).countP p + if p l[i] then 1 else 0 := by
  rw [take_add_one, getElem?_eq_getElem hi, countP_append]
  simp

lemma countUntil_lt {r s : ℕ} (hr : r ∈ l) (hpr : p r = true) (hlt : l.idxOf r < l.idxOf s) :
    countUntil p l r < countUntil p l s := by
  have hi : l.idxOf r < l.length := idxOf_lt_length_of_mem hr
  have hstep := countP_take_succ (p := p) hi
  rw [getElem_idxOf, hpr, if_pos rfl] at hstep
  have hsub : (l.take (l.idxOf r + 1)).Sublist (l.take (l.idxOf s)) :=
    (take_sublist_take_left (by omega))
  have := hsub.countP_le (p := p)
  unfold countUntil
  omega

lemma countUntil_bijOn (hl : l.Nodup) : Set.BijOn (countUntil p l) {r | r ∈ l ∧ p r = true} {i | i < l.countP p} := by
  have hmaps : ∀ r, r ∈ l → p r = true → countUntil p l r < l.countP p := by
    intro r hr hpr
    have hi : l.idxOf r < l.length := idxOf_lt_length_of_mem hr
    have hstep := countP_take_succ (p := p) hi
    rw [getElem_idxOf, hpr, if_pos rfl] at hstep
    have := (take_sublist (l.idxOf r + 1) l).countP_le (p := p)
    unfold countUntil
    omega
  have hinj : ∀ r, r ∈ l → p r = true → ∀ s, s ∈ l → p s = true → countUntil p l r = countUntil p l s → r = s := by
    intro r hr hpr s hs hps heq
    rcases lt_trichotomy (l.idxOf r) (l.idxOf s) with hlt | hidx | hgt
    · exact absurd heq (countUntil_lt hr hpr hlt).ne
    · exact (idxOf_inj hr).mp hidx
    · exact absurd heq.symm (countUntil_lt hs hps hgt).ne
  have hmem (r : ℕ) : r ∈ (l.filter p).toFinset ↔ r ∈ l ∧ p r = true := by
    rw [mem_toFinset, mem_filter]
  refine ⟨fun r hr => hmaps r hr.1 hr.2, fun r hr s hs => hinj r hr.1 hr.2 s hs.1 hs.2, fun i hi => ?_⟩
  -- as many counts as elements
  have hcard : (range (l.countP p)).card ≤ (l.filter p).toFinset.card := by
    rw [card_range, toFinset_card_of_nodup (hl.filter p), countP_eq_length_filter]
  have hsurj := surjOn_of_injOn_of_card_le (s := (l.filter p).toFinset) _
    (t := range _)
    (fun r hr => by
      obtain ⟨hr, hpr⟩ := (hmem r).mp (mem_coe.mp hr)
      exact mem_coe.mpr (mem_range.mpr (hmaps r hr hpr)))
    (fun r hr s hs heq => by
      obtain ⟨hr, hpr⟩ := (hmem r).mp (mem_coe.mp hr)
      obtain ⟨hs, hps⟩ := (hmem s).mp (mem_coe.mp hs)
      exact hinj r hr hpr s hs hps heq) hcard
  obtain ⟨r, hr, hri⟩ := hsurj (mem_coe.mpr (mem_range.mpr hi))
  exact ⟨r, (hmem r).mp (mem_coe.mp hr), hri⟩

end

/-! ## The links -/

section

variable (nodeOf : List ℤ) (nodes world : ℤ) {order : List ℕ} {n : ℕ}

/-- What the loop leaves for a rank. -/
def linkOf (order : List ℕ) (r : ℕ) : NodeTopology where
  rank := r
  world := world
  node := nodeAt nodeOf r
  nodes := nodes
  localRank := countUntil (fun s => nodeAt nodeOf s == nodeAt nodeOf r) order r
  localSize := toInt32 (nodeOf.count (nodeAt nodeOf r))
  prev := before order r
  next := after order r
  prevIsRemote := nodeAt nodeOf (before order r) != nodeAt nodeOf r
  nextIsRemote := nodeAt nodeOf (after order r) != nodeAt nodeOf r

lemma linkOf_localSize (order : List ℕ) (r : ℕ) :
    (linkOf nodeOf nodes world order r).localSize = toInt32 (nodeOf.count (nodeAt nodeOf r)) := by
  simp [linkOf]

/-- After `k` positions: the ranks seen, and the links of the first `k` of the order. -/
structure Placed (order : List ℕ) (n k : ℕ) (s : (ℤ → ℕ) × List NodeTopology) : Prop where
  seen : ∀ m, s.1 m = (order.take k).countP fun r => nodeAt nodeOf r == m
  length : s.2.length = n
  link : ∀ r < n, order.idxOf r < k → s.2.getD r {} = linkOf nodeOf nodes world order r

variable {nodeOf nodes world}

lemma placed_step (h : Lists order n) {k : ℕ} (hk : k < order.length) {s : (ℤ → ℕ) × List NodeTopology}
    (hs : Placed nodeOf nodes world order n k s) :
    Placed nodeOf nodes world order n (k + 1) (placeRank nodeOf nodes world order s k) := by
  have hget : order.getD k 0 = order[k] := by
    rw [getD_eq_getElem?_getD, getElem?_eq_getElem hk, Option.getD_some]
  have hidx : order.idxOf order[k] = k := h.nodup.idxOf_getElem k hk
  refine ⟨fun m => ?_, ?_, fun r hr hrk => ?_⟩
  · have hcount := countP_take_succ (p := fun r => nodeAt nodeOf r == m) hk
    rw [hcount]
    simp only [placeRank, hget]
    by_cases hm : nodeAt nodeOf order[k] = m
    · rw [hm, Function.update_self, hs.seen, if_pos (beq_self_eq_true m)]
    · rw [Function.update_of_ne (Ne.symm hm), hs.seen]
      simp [hm]
  · simp only [placeRank, length_set]
    exact hs.length
  · simp only [placeRank, hget]
    by_cases hrank : r = order[k]
    · subst hrank
      rw [getD_eq_getElem?_getD, getElem?_set_self (by rw [hs.length]; exact hr), Option.getD_some]
      unfold linkOf countUntil before after place
      rw [hidx, hs.seen]
    · have hlt : order.idxOf r < k := by
        refine lt_of_le_of_ne (Nat.le_of_lt_succ hrk) fun heq => hrank ?_
        subst heq
        exact (getElem_idxOf _).symm
      rw [getD_eq_getElem?_getD, getElem?_set_ne (Ne.symm hrank), ← getD_eq_getElem?_getD]
      exact hs.link r hr hlt

lemma links_get (nodeOf : List ℤ) (nodes : ℤ) (h : Lists order n) (hworld : world.toNat = n) :
    (links nodeOf nodes world order).length = n ∧
      ∀ r < n, (links nodeOf nodes world order).getD r {} = linkOf nodeOf nodes world order r := by
  have hplaced : ∀ k ≤ order.length, Placed nodeOf nodes world order n k
      ((List.range k).foldl (placeRank nodeOf nodes world order) (fun _ => 0, replicate world.toNat {})) := by
    intro k
    induction k with
    | zero =>
      intro _
      exact ⟨fun m => rfl, by rw [← hworld]; exact length_replicate, fun r _ hr => absurd hr (Nat.not_lt_zero _)⟩
    | succ k ih =>
      intro hk
      rw [range_succ, foldl_concat]
      exact placed_step h hk (ih (Nat.le_of_succ_le hk))
  have hall := hplaced order.length le_rfl
  exact ⟨hall.length, fun r hr => hall.link r hr (idxOf_lt_length_of_mem ((h.mem_iff r).mpr hr))⟩

lemma interNodeRingEdges_eq {topo : List NodeTopology} {next : ℕ → ℕ}
    (hlink : ∀ r < topo.length, (topo.getD r {}).nextIsRemote = (nodeAt nodeOf (next r) != nodeAt nodeOf r)) :
    interNodeRingEdges topo = (crossings topo.length next (nodeAt nodeOf)).card := by
  have hfold : ∀ (ts : List NodeTopology) (edges : ℕ),
      ts.foldl (fun edges t => edges + if t.nextIsRemote then 1 else 0) edges =
        edges + ts.countP fun t => t.nextIsRemote := by
    intro ts
    induction ts with
    | nil => exact fun _ => rfl
    | cons t ts ih =>
      intro edges
      rw [foldl_cons, ih, countP_cons]
      omega
  have htopo : topo = (List.range topo.length).map fun r => topo.getD r {} := by
    refine ext_getElem? fun r => ?_
    by_cases hr : r < topo.length
    · rw [getElem?_map, getElem?_range hr, Option.map_some, getD_eq_getElem?_getD,
        getElem?_eq_getElem hr, Option.getD_some]
    · rw [getElem?_eq_none (by omega), getElem?_eq_none (by simpa using hr)]
  have hcount : topo.countP (fun t => t.nextIsRemote) =
      (List.range topo.length).countP fun r => decide (nodeAt nodeOf (next r) ≠ nodeAt nodeOf r) := by
    conv_lhs => rw [htopo, countP_map]
    refine countP_congr fun r hr => ?_
    rw [Function.comp_apply, hlink r (mem_range.mp hr)]
    simp
  rw [interNodeRingEdges, hfold, zero_add, hcount, crossings, countP_eq_length_filter, card_def]
  rfl

end

/-! ## The ring -/

lemma countP_nodeAt (n : ℤ) : (List.range nodeOf.length).countP (fun r => nodeAt nodeOf r == n) = nodeOf.count n := by
  have hmap : nodeOf = (List.range nodeOf.length).map (nodeAt nodeOf) := by
    refine ext_getElem? fun r => ?_
    by_cases hr : r < nodeOf.length
    · rw [getElem?_map, getElem?_range hr, Option.map_some, nodeAt, getD_eq_getElem?_getD,
        getElem?_eq_getElem hr, Option.getD_some]
    · rw [getElem?_eq_none (by omega), getElem?_eq_none (by simpa using hr)]
  conv_rhs => rw [hmap, count, countP_map]
  rfl

section

variable (h : Topology nodeOf nodes)
include h

lemma Topology.exists_rank {n : ℤ} (h0 : 0 ≤ n) (hn : n < nodes) : ∃ r < nodeOf.length, nodeAt nodeOf r = n := by
  obtain ⟨r, hr, hrn⟩ := getElem_of_mem (h.hasRank n h0 hn)
  refine ⟨r, hr, ?_⟩
  rw [nodeAt, getD_eq_getElem?_getD, getElem?_eq_getElem hr, Option.getD_some, hrn]

lemma Topology.length_pos : 0 < nodeOf.length := by
  obtain ⟨r, hr, -⟩ := h.exists_rank le_rfl h.nodes_pos
  exact Nat.zero_lt_of_lt hr

lemma Topology.card_nodes : (((range nodeOf.length).image (nodeAt nodeOf)).card : ℤ) = nodes := by
  have himage : (range nodeOf.length).image (nodeAt nodeOf) =
      (range nodes.toNat).image fun n : ℕ => (n : ℤ) := by
    ext n
    simp only [mem_image, mem_range]
    constructor
    · rintro ⟨r, hr, rfl⟩
      have := h.inRange _ (nodeAt_mem hr)
      exact ⟨(nodeAt nodeOf r).toNat, by omega, by omega⟩
    · rintro ⟨m, hm, rfl⟩
      exact h.exists_rank (by omega) (by omega)
  rw [himage, card_image_of_injective _ fun a b hab => by simpa using hab, card_range]
  have := h.nodes_pos
  omega

lemma ringOf_links (hsize : nodeOf.length < 2 ^ 31) :
    RingOf nodeOf nodes (links nodeOf nodes nodeOf.length (rankOrder nodeOf nodes nodeOf.length)) := by
  have hlists := rankOrder_lists h
  have hsorted : (rankOrder nodeOf nodes nodeOf.length).Pairwise fun a b => nodeAt nodeOf a ≤ nodeAt nodeOf b :=
    rankOrder_sorted nodeOf.length
  obtain ⟨hlen, hget⟩ := links_get nodeOf nodes hlists (Int.toNat_natCast _)
  generalize rankOrder nodeOf nodes nodeOf.length = order at hlists hsorted hlen hget ⊢
  generalize links nodeOf nodes nodeOf.length order = topo at hlen hget ⊢
  have hpos := h.length_pos
  have hnext : ∀ r < nodeOf.length, (topo.getD r {}).next = after order r := fun r hr => by rw [hget r hr, linkOf]
  have hprev : ∀ r < nodeOf.length, (topo.getD r {}).prev = before order r := fun r hr => by rw [hget r hr, linkOf]
  have hiterate : ∀ r < nodeOf.length, ∀ i, (fun r => (topo.getD r {}).next)^[i] r = (after order)^[i] r := by
    intro r hr i
    induction i with
    | zero => rfl
    | succ i ih =>
      rw [Function.iterate_succ_apply', Function.iterate_succ_apply', ih]
      exact hnext _ ((isRing_after hlists).iterate_lt hr i)
  have hring : IsRing nodeOf.length fun r => (topo.getD r {}).next := by
    refine ⟨fun r hr => ?_, fun r hr s hs => ?_⟩
    · rw [hnext r hr]
      exact (isRing_after hlists).lt r hr
    · obtain ⟨i, hi⟩ := (isRing_after hlists).reach r hr s hs
      exact ⟨i, (hiterate r hr i).trans hi⟩
  have hcrossing : interNodeRingEdges topo =
      (crossings nodeOf.length (fun r => (topo.getD r {}).next) (nodeAt nodeOf)).card := by
    rw [← hlen]
    refine interNodeRingEdges_eq fun r hr => ?_
    rw [hlen] at hr
    rw [hget r hr, linkOf]
  have hcrossing' : interNodeRingEdges topo = (crossings nodeOf.length (after order) (nodeAt nodeOf)).card := by
    rw [hcrossing]
    refine congrArg card (filter_congr fun r hr => ?_)
    exact not_congr (Eq.congr_left (congrArg _ (hnext r (mem_range.mp hr))))
  -- with two nodes the ring crosses once for each, with one never
  have hmany : 1 < nodes → interNodeRingEdges topo = ((range nodeOf.length).image (nodeAt nodeOf)).card := by
    intro htwo
    obtain ⟨a, ha, hna⟩ := h.exists_rank (n := 0) le_rfl h.nodes_pos
    obtain ⟨b, hb, hnb⟩ := h.exists_rank (n := 1) (by omega) htwo
    rw [hcrossing']
    exact crossings_card_of_sorted hlists hsorted ha hb (by omega)
  have hone : ¬1 < nodes → interNodeRingEdges topo = 0 := by
    intro hone
    rw [hcrossing, card_eq_zero, eq_empty_iff_forall_notMem]
    intro r hr
    obtain ⟨hr, hne⟩ := mem_crossings.mp hr
    have h₁ := h.inRange _ (nodeAt_mem hr)
    have h₂ := h.inRange _ (nodeAt_mem (hring.lt r hr))
    omega
  refine
    { length := hlen, ring := hring
      prev_lt := fun r hr => ?_
      prev_next := fun r hr => ?_
      next_prev := fun r hr => ?_
      localRank := fun n hn0 hn => ?_
      localSize := fun r hr => ?_
      crossing := hcrossing
      edges := ?_
      minimal := fun next hother => ?_ }
  · rw [hprev r hr]
    exact hlists.place_lt hpos _
  · rw [hnext r hr, hprev _ ((isRing_after hlists).lt r hr)]
    exact before_after hlists hr
  · rw [hprev r hr, hnext (before order r) (hlists.place_lt hpos _)]
    exact after_before hlists hr
  · have hbij := countUntil_bijOn (p := fun r => nodeAt nodeOf r == n) hlists.nodup
    have hperm : order.Perm (List.range nodeOf.length) := by
      rw [perm_ext_iff_of_nodup hlists.nodup nodup_range]
      intro r
      rw [hlists.mem_iff, List.mem_range]
    have hdomain : {r | r ∈ order ∧ (nodeAt nodeOf r == n) = true} = {r | r < nodeOf.length ∧ nodeAt nodeOf r = n} := by
      ext r
      simp [hlists.mem_iff]
    rw [hperm.countP_eq, countP_nodeAt, hdomain] at hbij
    refine hbij.congr fun r hr => ?_
    rw [hget r hr.1, linkOf, hr.2]
  · have hcount : nodeOf.count (nodeAt nodeOf r) ≤ nodeOf.length := count_le_length
    have hint : ((nodeOf.count (nodeAt nodeOf r) : ℕ) : ℤ) < 2 ^ 31 := by omega
    rw [hget r hr, linkOf_localSize, toInt32_of_lt (Int.natCast_nonneg _) hint]
  · by_cases htwo : 1 < nodes
    · rw [if_pos htwo, hmany htwo, h.card_nodes]
    · rw [if_neg htwo, hone htwo]
      rfl
  · by_cases htwo : 1 < nodes
    · obtain ⟨a, ha, hna⟩ := h.exists_rank (n := 0) le_rfl h.nodes_pos
      obtain ⟨b, hb, hnb⟩ := h.exists_rank (n := 1) (by omega) htwo
      rw [hmany htwo]
      exact hother.card_colours_le ha hb (by omega)
    · rw [hone htwo]
      exact Nat.zero_le _

lemma buildCrossNodeRing_ok (hsize : nodeOf.length < 2 ^ 31) :
    buildCrossNodeRing nodeOf nodes = .ok (links nodeOf nodes nodeOf.length (rankOrder nodeOf nodes nodeOf.length)) := by
  have hpos := h.length_pos
  unfold buildCrossNodeRing
  rw [toInt32_of_lt (Int.natCast_nonneg _) (by omega)]
  refine expects_ok.mpr ⟨by omega, expects_ok.mpr ⟨h.nodes_pos, bind_ok.mpr ⟨(), ?_, bind_ok.mpr ⟨(), ?_, rfl⟩⟩⟩⟩
  · exact expectsAll_of fun r hr => expects_of (h.inRange _ (nodeAt_mem hr)) _ _
  · exact expectsAll_of fun i hi => expects_of (h.hasRank i (by omega) (by omega)) _ _

end

lemma buildCrossNodeRing_wide (hsize : ¬nodeOf.length < 2 ^ 31) {topo : List NodeTopology}
    (h : buildCrossNodeRing nodeOf nodes = .ok topo) : topo.length ≠ nodeOf.length := by
  obtain ⟨-, h⟩ := expects_ok.mp h
  obtain ⟨-, h⟩ := expects_ok.mp h
  obtain ⟨-, -, h⟩ := bind_ok.mp h
  obtain ⟨-, -, h⟩ := bind_ok.mp h
  obtain rfl := Except.ok.inj h
  have hlength : ∀ ps : List ℕ, ∀ s : (ℤ → ℕ) × List NodeTopology,
      (ps.foldl (placeRank nodeOf nodes (toInt32 nodeOf.length)
        (rankOrder nodeOf nodes (toInt32 nodeOf.length))) s).2.length = s.2.length := by
    intro ps
    induction ps with
    | nil => exact fun _ => rfl
    | cons p ps ih =>
      intro s
      rw [foldl_cons, ih]
      exact length_set ..
  rw [links, hlength, length_replicate]
  have hlt : toInt32 nodeOf.length < 2 ^ 31 := by
    have := Int.bmod_lt (x := nodeOf.length) (m := 2 ^ 32) (by norm_num)
    unfold toInt32
    omega
  omega

/-- **A topology gets its ring** exactly when its ranks are numbers of type `int`. -/
theorem cross_node_ring_iff (h : Topology nodeOf nodes) :
    (∃ topo, buildCrossNodeRing nodeOf nodes = .ok topo ∧ RingOf nodeOf nodes topo) ↔ nodeOf.length < 2 ^ 31 := by
  constructor
  · rintro ⟨_, hbuild, hring⟩
    by_contra hsize
    exact buildCrossNodeRing_wide hsize hbuild hring.length
  · intro hsize
    exact ⟨_, buildCrossNodeRing_ok h hsize, ringOf_links h hsize⟩

/-- Two nodes whose ranks alternate. -/
theorem cross_node_ring_two : ∃ topo, buildCrossNodeRing [0, 1, 0] 2 = .ok topo ∧ RingOf [0, 1, 0] 2 topo :=
  (cross_node_ring_iff ⟨by decide, by decide, fun n h0 hn => by
    obtain rfl | rfl : n = 0 ∨ n = 1 := by omega
    · decide
    · decide⟩).mpr (by decide)

/-- One node of 2^31 ranks is refused. -/
theorem cross_node_ring_wide : ¬∃ topo, buildCrossNodeRing (replicate (2 ^ 31) 0) 1 = .ok topo ∧
    RingOf (replicate (2 ^ 31) 0) 1 topo := by
  rintro ⟨_, hbuild, hring⟩
  refine buildCrossNodeRing_wide ?_ hbuild hring.length
  rw [length_replicate]
  exact lt_irrefl _

end VKernels.Comm
