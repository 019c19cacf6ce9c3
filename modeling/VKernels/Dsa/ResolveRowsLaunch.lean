import VKernels.Dsa.ResolveRowsProgram

/-!
# A launch of the resolver

The programs of a launch run in any order.

* `launch_matches` — every state of the grid ends as its oracle says.
* `Evicted`, `referenceRow_evicted` — the fills of an oracle run go to different hot slots.
* `launch_kv` — the rows that the fills name hold their sources, where no two fills share a row.
-/

namespace VKernels.Dsa

open VKernels.VectorLanes
open List
open Function (update update_of_ne update_self)

variable {V : Type} (g : Geometry) (T : Tables) (host : Buffer V)

section

/-- The state of a request and layer. -/
def stateOf (rl : ℤ × ℤ) : ℤ := rl.2 * g.batch + rl.1

def InBatch (rl : ℤ × ℤ) : Prop := 0 ≤ rl.1 ∧ rl.1 < g.batch

lemma stateOf_inj {a b : ℤ × ℤ} (ha : InBatch g a) (hb : InBatch g b) (h : stateOf g a = stateOf g b) : a = b := by
  obtain ⟨ha₀, ha₁⟩ := ha
  obtain ⟨hb₀, hb₁⟩ := hb
  have hdiff : (a.2 - b.2) * g.batch = b.1 - a.1 := by
    unfold stateOf at h
    linarith
  have hlayer : a.2 = b.2 := by
    rcases lt_trichotomy a.2 b.2 with hlt | heq | hgt
    · nlinarith
    · exact heq
    · nlinarith
  rw [hlayer, sub_self, zero_mul] at hdiff
  exact Prod.ext (by omega) hlayer

section

variable {g} {m m' : Mem V} {st st' : ℤ}

lemma SameOff.row (h : SameOff g st m m') (hne : st' ≠ st) : stateRow g m'.tags st' = stateRow g m.tags st' ∧
      stateRow g m'.tagGenerations st' = stateRow g m.tagGenerations st' ∧
      stateRow g m'.ages st' = stateRow g m.ages st' := by
  refine ⟨?_, ?_, ?_⟩ <;> funext l <;> unfold stateRow <;> split <;> try rfl
  · exact h.tags _ fun i hi => slice_ne hne ‹_› hi
  · exact h.tagGenerations _ fun i hi => slice_ne hne ‹_› hi
  · exact h.ages _ fun i hi => slice_ne hne ‹_› hi

lemma SameOff.oracle (h : SameOff g st m m') (hne : st' ≠ st) (request : ℤ) :
    oracle g T m' request st' = oracle g T m request st' := by
  obtain ⟨htags, hgens, hages⟩ := h.row hne
  unfold Dsa.oracle
  rw [htags, hgens, hages, h.clock _ hne]

lemma SameOff.fits (h : SameOff g st m m') (hne : st' ≠ st) (hf : Fits g m st') : Fits g m' st' := by
  refine ⟨fun l hl => ?_, fun l hl => ?_, ?_⟩
  · rw [h.tags _ fun i hi => slice_ne hne hl hi]
    exact hf.tags l hl
  · rw [h.ages _ fun i hi => slice_ne hne hl hi]
    exact hf.ages l hl
  · rw [h.clock _ hne]
    exact hf.clock

end

/-! ## States -/

/-- What a launch asks of its programs: every one once, requests of the batch, states that fit. -/
structure Runs (order : List (ℤ × ℤ)) (m : Mem V) : Prop where
  nodup : order.Nodup
  inBatch : ∀ rl ∈ order, InBatch g rl
  fits : ∀ rl ∈ order, Fits g m (stateOf g rl)

section

variable {g} {order : List (ℤ × ℤ)} {m : Mem V} {rl : ℤ × ℤ}

lemma Runs.ne (h : Runs g (rl :: order) m) {rl' : ℤ × ℤ} (hin : rl' ∈ order) : stateOf g rl' ≠ stateOf g rl := by
  intro heq
  have hsame := stateOf_inj g (h.inBatch rl' (mem_cons_of_mem _ hin)) (h.inBatch rl mem_cons_self) heq
  exact (nodup_cons.mp h.nodup).1 (hsame ▸ hin)

lemma Runs.frame (h : Runs g (rl :: order) m) : SameOff g (stateOf g rl) m (program g T host rl.1 rl.2 m) :=
  program_frame g T host (h.fits rl mem_cons_self)

/-- After its first program a launch goes on. -/
lemma Runs.tail (h : Runs g (rl :: order) m) : Runs g order (program g T host rl.1 rl.2 m) := by
  refine ⟨(nodup_cons.mp h.nodup).2, fun a ha => h.inBatch a (mem_cons_of_mem _ ha), fun a ha => ?_⟩
  exact (h.frame T host).fits (h.ne ha) (h.fits a (mem_cons_of_mem _ ha))

lemma Runs.matches (h : Runs g order m) {st : ℤ} (hst : ∀ a ∈ order, st ≠ stateOf g a) {r : Reference}
    {clock : ℤ} (hm : Matches g m st r clock) : Matches g (launch g T host order m) st r clock := by
  induction order generalizing m with
  | nil => exact hm
  | cons rl order ih =>
    apply ih (h.tail T host) fun a ha => hst a (mem_cons_of_mem _ ha)
    exact (h.frame T host).matches (hst rl mem_cons_self) hm

end

lemma launch_matches {order : List (ℤ × ℤ)} {m : Mem V} (h : Runs g order m) :
    ∀ rl ∈ order, Matches g (launch g T host order m) (stateOf g rl) (oracle g T m rl.1 (stateOf g rl))
      (m.clock (stateOf g rl) + 1) := by
  induction order generalizing m with
  | nil => exact fun rl hrl => absurd hrl not_mem_nil
  | cons first order ih =>
    intro rl hrl
    rcases mem_cons.mp hrl with rfl | hin
    · apply (h.tail T host).matches T host fun a ha => (h.ne ha).symm
      exact program_matches g T host (h.fits rl mem_cons_self)
    · have hne := h.ne hin
      have hrest := ih (h.tail T host) rl hin
      rw [(h.frame T host).oracle T hne, (h.frame T host).clock _ hne] at hrest
      exact hrest

end

/-! ## The slots of the fills -/

section

variable (g : Geometry) (T : Tables) (b : ℤ)

/-- The fills so far went to the hot slots `slots`, all different, and all protected since. -/
structure Evicted (slots : ℕ → ℕ) (s : Reference) : Prop where
  lt : ∀ n < s.missN, slots n < g.h
  row : ∀ n < s.missN, (s.fills n).2 = hotRow g T b (slots n)
  isProtected : ∀ n < s.missN, s.isProtected (slots n) = true
  distinct : ∀ i < s.missN, ∀ j < s.missN, slots i = slots j → i = j

lemma victim_unprotected {s : Reference} {slot : ℕ} (h : victim g s = some slot) : s.isProtected slot = false := by
  have hfound := find?_some h
  simp only [Bool.and_eq_true, Bool.not_eq_true'] at hfound
  exact hfound.1

lemma referenceStep_evicted {slots : ℕ → ℕ} {clock : ℤ} {s : Reference} (h : Evicted g T b slots s) (i : ℕ) :
    ∃ slots', Evicted g T b slots' (referenceStep g T b clock s i) := by
  simp only [referenceStep]
  split
  · split
    · exact ⟨slots, h.lt, h.row, h.isProtected, h.distinct⟩
    · generalize hgen : T.generations _ = gen
      cases hhit : hitIdx g s _ gen with
      | some slot =>
        rw [← hgen] at hhit
        rw [referenceMiss_hit g T b hhit]
        split
        · refine ⟨slots, h.lt, h.row, fun n hn => ?_, h.distinct⟩
          simp only [Function.update_apply]
          split
          · rfl
          · exact h.isProtected n hn
        · exact ⟨slots, h.lt, h.row, h.isProtected, h.distinct⟩
      | none =>
        rw [← hgen] at hhit
        cases hvictim : victim g s with
        | none =>
          rw [referenceMiss_none g T b hhit hvictim]
          exact ⟨slots, h.lt, h.row, h.isProtected, h.distinct⟩
        | some slot =>
          rw [referenceMiss_evict g T b hhit hvictim]
          split
          · have hfree := victim_unprotected g hvictim
            have hnew : ∀ n < s.missN, slots n ≠ slot := by
              intro n hn heq
              have hold := h.isProtected n hn
              rw [heq, hfree] at hold
              exact Bool.false_ne_true hold
            refine ⟨update slots s.missN slot, fun n hn => ?_, fun n hn => ?_, fun n hn => ?_,
              fun i hi j hj hij => ?_⟩
            · rcases Nat.lt_succ_iff_lt_or_eq.mp hn with hlt | rfl
              · rw [update_of_ne hlt.ne]
                exact h.lt n hlt
              · rw [update_self]
                exact find?_range_lt hvictim
            · rcases Nat.lt_succ_iff_lt_or_eq.mp hn with hlt | rfl
              · simp only [update_of_ne hlt.ne]
                exact h.row n hlt
              · simp
            · rcases Nat.lt_succ_iff_lt_or_eq.mp hn with hlt | rfl
              · simp only [update_of_ne hlt.ne, update_of_ne (hnew n hlt)]
                exact h.isProtected n hlt
              · simp
            · rcases Nat.lt_succ_iff_lt_or_eq.mp hi with hi | rfl <;>
                rcases Nat.lt_succ_iff_lt_or_eq.mp hj with hj | rfl
              · rw [update_of_ne hi.ne, update_of_ne hj.ne] at hij
                exact h.distinct i hi j hj hij
              · rw [update_of_ne hi.ne, update_self] at hij
                exact absurd hij (hnew i hi)
              · rw [update_self, update_of_ne hj.ne] at hij
                exact absurd hij.symm (hnew j hj)
              · rfl
          · exact ⟨slots, h.lt, h.row, h.isProtected, h.distinct⟩
  · split
    · exact ⟨slots, h.lt, h.row, h.isProtected, h.distinct⟩
    · exact ⟨slots, h.lt, h.row, h.isProtected, h.distinct⟩

lemma referenceFold_evicted {clock : ℤ} {s₀ : Reference} (h₀ : ∃ slots, Evicted g T b slots s₀) (n : ℕ) :
    ∃ slots, Evicted g T b slots ((range n).foldl (referenceStep g T b clock) s₀) := by
  induction n with
  | zero => exact h₀
  | succ n ih =>
    obtain ⟨_, h⟩ := ih
    rw [range_succ, foldl_concat]
    exact referenceStep_evicted g T b h n

lemma referenceRow_evicted (tags tagGenerations ages : ℕ → ℤ) (clock : ℤ) :
    ∃ slots, Evicted g T b slots (referenceRow g T b tags tagGenerations ages clock) :=
  referenceFold_evicted g T b ⟨id, fun n hn => absurd hn (Nat.not_lt_zero n),
    fun n hn => absurd hn (Nat.not_lt_zero n), fun n hn => absurd hn (Nat.not_lt_zero n),
    fun n hn => absurd hn (Nat.not_lt_zero n)⟩ g.k

end

/-! ## KV rows -/

section

/-- No two fills of the launch share a value of the KV pool. -/
def RowsApart (R : ℤ × ℤ → Reference) (order : List (ℤ × ℤ)) : Prop :=
  ∀ rl ∈ order, ∀ rl' ∈ order, ∀ n < (R rl).missN, ∀ n' < (R rl').missN, ∀ d < g.width, ∀ d' < g.width,
    kvAt g rl.2 ((R rl).fills n).2 d = kvAt g rl'.2 ((R rl').fills n').2 d' → rl = rl' ∧ n = n'

/-- The rows that the fills of a run name hold their sources. -/
def Filled (kv : Buffer V) (layer : ℤ) (r : Reference) : Prop :=
  ∀ n < r.missN, ∀ d < g.width, kv (kvAt g layer (r.fills n).2 d) = host (hostAt g layer (r.fills n).1 d)

/-- The value is of a row that a fill of the run names. -/
def Named (layer : ℤ) (r : Reference) (a : ℤ) : Prop :=
  ∃ n < r.missN, ∃ d < g.width, a = kvAt g layer (r.fills n).2 d

lemma program_kv {m : Mem V} (request layer : ℤ) (hfits : Fits g m (layer * g.batch + request))
    (hrows : ∀ i < (oracle g T m request (layer * g.batch + request)).missN,
      ∀ j < (oracle g T m request (layer * g.batch + request)).missN,
        ((oracle g T m request (layer * g.batch + request)).fills i).2 =
          ((oracle g T m request (layer * g.batch + request)).fills j).2 → i = j) :
    Filled g host (program g T host request layer m).kv layer (oracle g T m request (layer * g.batch + request)) ∧
      ∀ a, ¬ Named g layer (oracle g T m request (layer * g.batch + request)) a →
        (program g T host request layer m).kv a = m.kv a := by
  have hagree := programWalk_agree g T request hfits
  have hmiss := programWalk_misses_le g T request hfits
  have hcopied := copyPass_copied g host layer (layer * g.batch + request) hmiss
    ((programWalk g T m request (layer * g.batch + request)).fill, m.kv)
  have hfills : ∀ n < (oracle g T m request (layer * g.batch + request)).missN,
      fillAt g (layer * g.batch + request) (programWalk g T m request (layer * g.batch + request)).fill n =
        (oracle g T m request (layer * g.batch + request)).fills n := by
    intro n hn
    obtain ⟨hsrc, hdst⟩ := hagree.fills n hn
    exact Prod.ext hsrc hdst
  have hcover := fillChunks_cover g
  obtain ⟨hown, hframe⟩ := copyRows_spec g host layer _
    (programWalk g T m request _).fill
    (programWalk g T m request _).missCount (fun i hi j hj hij => by
      rw [hagree.misses] at hi hj
      rw [hfills i hi, hfills j hj] at hij
      exact hrows i hi j hj hij)
    m.kv _
  have hkv : (program g T host request layer m).kv = _ := hcopied.kv
  rw [hkv]
  refine ⟨fun n hn d hd => ?_, fun a ha => hframe a fun j _ hj d hd heq => ?_⟩
  · have hn' : n < (programWalk g T m request (layer * g.batch + request)).missCount := by
      rw [hagree.misses]
      exact hn
    have hval := hown n (by omega) hn' d hd
    rw [hfills n hn] at hval
    exact hval
  · rw [hagree.misses] at hj
    rw [hfills j hj] at heq
    exact ha ⟨j, hj, d, hd, heq⟩

lemma launch_kv {order : List (ℤ × ℤ)} {m : Mem V} (h : Runs g order m) (R : ℤ × ℤ → Reference)
    (hR : ∀ rl ∈ order, oracle g T m rl.1 (stateOf g rl) = R rl) (hwidth : 0 < g.width) (hapart : RowsApart g R order) :
    (∀ rl ∈ order, Filled g host (launch g T host order m).kv rl.2 (R rl)) ∧
      ∀ a, (∀ rl ∈ order, ¬ Named g rl.2 (R rl) a) → (launch g T host order m).kv a = m.kv a := by
  induction order generalizing m with
  | nil => exact ⟨fun rl hrl => absurd hrl not_mem_nil, fun _ _ => rfl⟩
  | cons first order ih =>
    have hfirst : oracle g T m first.1 (stateOf g first) = R first := hR first mem_cons_self
    obtain ⟨hown, hoff⟩ := program_kv g T host first.1 first.2 (h.fits first mem_cons_self) fun i hi j hj hij => by
        have hboth := hapart first mem_cons_self first mem_cons_self i (hfirst ▸ hi) j (hfirst ▸ hj) 0 hwidth 0 hwidth
        rw [← hfirst] at hboth
        exact (hboth (congrArg (fun r => kvAt g first.2 r 0) hij)).2
    obtain ⟨ihown, ihoff⟩ := ih (h.tail T host)
      (fun rl hrl => ((h.frame T host).oracle T (h.ne hrl) rl.1).trans (hR rl (mem_cons_of_mem _ hrl)))
      fun rl hrl rl' hrl' => hapart rl (mem_cons_of_mem _ hrl) rl' (mem_cons_of_mem _ hrl')
    have hown : Filled g host (program g T host first.1 first.2 m).kv first.2 (R first) := hfirst ▸ hown
    have hoff : ∀ a, ¬ Named g first.2 (R first) a → (program g T host first.1 first.2 m).kv a = m.kv a := hfirst ▸ hoff
    refine ⟨fun rl hrl => ?_, fun a ha => ?_⟩
    · rcases mem_cons.mp hrl with rfl | hin
      · intro n hn d hd
        refine (ihoff _ fun rl' hrl' => ?_).trans (hown n hn d hd)
        rintro ⟨n', hn', d', hd', heq⟩
        have hsame := (hapart rl hrl rl' (mem_cons_of_mem _ hrl') n hn n' hn' d hd d' hd' heq).1
        exact (nodup_cons.mp h.nodup).1 (hsame ▸ hrl')
      · exact ihown rl hin
    · exact (ihoff a fun rl hrl => ha rl (mem_cons_of_mem _ hrl)).trans (hoff a (ha first mem_cons_self))

/-! ## One layer -/

/-- The hot slots of valid tables: all different, with pages enough for the hot rows. -/
structure HotSlotsUnique : Prop where
  distinct : ∀ b < g.batch, ∀ p < g.hotPages, ∀ b' < g.batch, ∀ p' < g.hotPages,
    T.hotSlots ((b : ℕ) * g.hotPages + (p : ℕ)) = T.hotSlots ((b' : ℕ) * g.hotPages + (p' : ℕ)) →
      b = b' ∧ p = p'
  cover : g.h ≤ g.hotPages * g.page

variable {g T}

lemma HotSlotsUnique.hotRow_inj (h : HotSlotsUnique g T) {b b' : ℕ} (hb : b < g.batch) (hb' : b' < g.batch)
    {slot slot' : ℕ} (hslot : slot < g.h) (hslot' : slot' < g.h)
    (heq : hotRow g T b slot = hotRow g T b' slot') : b = b' ∧ slot = slot' := by
  have hpage : ∀ l < g.h, l / g.page < g.hotPages := fun l hl =>
    (Nat.div_lt_iff_lt_mul g.page_pos).mpr (hl.trans_le h.cover)
  have hmod := Nat.mod_lt slot g.page_pos
  have hmod' := Nat.mod_lt slot' g.page_pos
  unfold hotRow at heq
  have hoff : slot % g.page = slot' % g.page := by
    have hcast := congrArg (fun r : ℤ => r % g.page) heq
    simp only [Int.mul_add_emod_self_right] at hcast
    rw [Int.emod_eq_of_lt (by omega) (by omega), Int.emod_eq_of_lt (by omega) (by omega)] at hcast
    exact_mod_cast hcast
  rw [hoff] at heq
  have hpos : (g.page : ℤ) ≠ 0 := by exact_mod_cast g.page_pos.ne'
  obtain ⟨hreq, hdiv⟩ := h.distinct b hb _ (hpage slot hslot) b' hb' _ (hpage slot' hslot')
    (mul_right_cancel₀ hpos (add_right_cancel heq))
  refine ⟨hreq, ?_⟩
  rw [← Nat.div_add_mod slot, ← Nat.div_add_mod slot', hdiv, hoff]

/-- With unique hot slots no two fills of a layer's launch share a value. -/
lemma HotSlotsUnique.rowsApart (h : HotSlotsUnique g T) (m : Mem V) {order : List (ℤ × ℤ)}
    (horder : ∀ rl ∈ order, ∃ b < g.batch, rl = (((b : ℕ) : ℤ), (0 : ℤ))) :
    RowsApart g (fun rl => oracle g T m rl.1 (stateOf g rl)) order := by
  have hevicted : ∀ b : ℕ, ∃ slots, Evicted g T b slots (oracle g T m b (stateOf g (((b : ℕ) : ℤ), 0))) :=
    fun b => referenceRow_evicted g T b _ _ _ _
  choose slots hslots using hevicted
  intro rl hrl rl' hrl' n hn n' hn' d hd _ hd' heq
  obtain ⟨b, hb, rfl⟩ := horder rl hrl
  obtain ⟨b', hb', rfl⟩ := horder rl' hrl'
  have hrow := (kvAt_inj g 0 hd hd' heq).1
  rw [(hslots b).row n hn, (hslots b').row n' hn'] at hrow
  obtain ⟨rfl, hslot⟩ := h.hotRow_inj hb hb' ((hslots b).lt n hn) ((hslots b').lt n' hn') hrow
  exact ⟨rfl, (hslots b).distinct n hn n' hn' hslot⟩

variable (g T)

/-- The programs of a launch over `layers` layers, each once. -/
structure Covers (layers : ℕ) (order : List (ℤ × ℤ)) : Prop where
  nodup : order.Nodup
  mem : ∀ rl, rl ∈ order ↔ InBatch g rl ∧ 0 ≤ rl.2 ∧ rl.2 < layers

variable {g} in
lemma Covers.runs {layers : ℕ} {order : List (ℤ × ℤ)} (h : Covers g layers order) {m : Mem V}
    (hfits : ∀ l < layers, ∀ b < g.batch, Fits g m (stateOf g ((b : ℕ), (l : ℕ)))) : Runs g order m := by
  refine ⟨h.nodup, fun rl hrl => ((h.mem rl).mp hrl).1, fun rl hrl => ?_⟩
  obtain ⟨⟨hb₀, hb⟩, hl₀, hl⟩ := (h.mem rl).mp hrl
  have hrow := hfits rl.2.toNat (by omega) rl.1.toNat (by omega)
  rw [Int.toNat_of_nonneg hb₀, Int.toNat_of_nonneg hl₀] at hrow
  exact hrow

/-- A layer of two hot rows and one request that selects two tokens without resident pages. -/
def twoMisses : Geometry where
  page := 1
  width := 1
  gpuRows := 8
  hostRows := 2
  pages := 2
  batch := 1
  k := 2
  h := 2
  hotPages := 2
  blockK := 2
  fillChunk := 2
  allowPadding := false
  hasFence := false
  page_pos := Nat.one_pos
  h_pos := Nat.two_pos
  blockK_pos := Nat.two_pos
  fillChunk_pos := Nat.two_pos

def twoMissesTables (hotSlots : Buffer ℤ) : Tables where
  resident := fun _ => -1
  backing := fun a => a
  generations := fun _ => 0
  lengths := fun _ => 2
  hotSlots := hotSlots
  selected := fun a => a
  fence := fun _ => 0
  expected := fun _ => 0

def coldMem : Mem ℤ where
  kv := fun _ => 0
  fill := fun _ => 0
  tags := fun _ => -1
  tagGenerations := fun _ => -1
  ages := fun _ => 0
  clock := fun _ => 0
  output := fun _ => 0
  counters := fun _ => 0
  errors := fun _ => 0
  bitmap := fun _ => 0
  worklist := fun _ => 0

lemma coldMem_fits (st : ℤ) : Fits twoMisses coldMem st :=
  ⟨fun _ _ => show (-1 : ℤ) < 2 * 1 by decide, fun _ _ => show (0 : ℤ) ≤ int64Max by decide,
    show (0 : ℤ) < int64Max by decide⟩

lemma twoMisses_slotsUnique : HotSlotsUnique twoMisses (twoMissesTables fun a => a + 5) := by
  refine ⟨fun b hb p hp b' hb' p' hp' heq => ?_, by decide⟩
  have hb : b < 1 := hb
  have hb' : b' < 1 := hb'
  have heq : (b : ℤ) * 2 + (p : ℕ) + 5 = (b' : ℕ) * 2 + (p' : ℕ) + 5 := heq
  omega

lemma twoMisses_covers : Covers twoMisses 1 [(0, 0)] := by
  refine ⟨nodup_singleton _, fun rl => ?_⟩
  rw [mem_singleton, Prod.ext_iff]
  constructor
  · rintro ⟨hb, hl⟩
    exact ⟨⟨hb.ge, hb.trans_lt Int.one_pos⟩, hl.ge, hl.trans_lt Int.one_pos⟩
  · rintro ⟨⟨hb₀, hb⟩, hl₀, hl⟩
    have hb : rl.1 < 1 := hb
    exact ⟨by dsimp only; omega, by dsimp only; omega⟩

end

end VKernels.Dsa
