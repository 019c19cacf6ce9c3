import Mathlib

/-!
# Runs of memory copies

A flat byte memory and lists of `memcpy` operations over it.

* `Apart` — two lists of copies write no common byte; `Exclusive` — a list writes no byte twice.
* `Clean` — no byte that a copy of the list reads is written by a copy of the list.
* `runAll_value` — whatever a clean list does to a written byte, the value comes from a byte that
  the list does not write.
-/

namespace ByteCopies

open List

variable {β : Type*}

/-- A flat memory. -/
abbrev Mem (β : Type*) := ℕ → β

/-- `memcpy(dst, src, len)`. -/
structure Copy where
  dst : ℕ
  src : ℕ
  len : ℕ
  deriving DecidableEq, Repr

namespace Copy

def Writes (c : Copy) (a : ℕ) : Prop := c.dst ≤ a ∧ a < c.dst + c.len

def Reads (c : Copy) (a : ℕ) : Prop := c.src ≤ a ∧ a < c.src + c.len

instance (c : Copy) (a : ℕ) : Decidable (c.Writes a) := inferInstanceAs (Decidable (_ ∧ _))

instance (c : Copy) (a : ℕ) : Decidable (c.Reads a) := inferInstanceAs (Decidable (_ ∧ _))

def run (c : Copy) (m : Mem β) : Mem β :=
  fun a => if c.Writes a then m (c.src + (a - c.dst)) else m a

variable {c : Copy} {a : ℕ}

lemma run_of_writes (h : c.Writes a) (m : Mem β) : c.run m a = m (c.src + (a - c.dst)) := if_pos h

lemma run_of_not_writes (h : ¬ c.Writes a) (m : Mem β) : c.run m a = m a :=
  if_neg h

lemma reads_of_writes (h : c.Writes a) : c.Reads (c.src + (a - c.dst)) := by
  obtain ⟨_, _⟩ := h
  exact ⟨by omega, by omega⟩

/-- The same copy a byte at a time. -/
def bytes (c : Copy) : List Copy :=
  (List.range c.len).map fun i => ⟨c.dst + i, c.src + i, 1⟩

lemma mem_bytes {b : Copy} : b ∈ c.bytes ↔ ∃ i < c.len, b = ⟨c.dst + i, c.src + i, 1⟩ := by
  simp [bytes, eq_comm]

end Copy

open Copy (bytes mem_bytes reads_of_writes run_of_not_writes run_of_writes)

/-- The copies of a list, one after another. -/
def runAll (cs : List Copy) (m : Mem β) : Mem β := cs.foldl (fun m c => c.run m) m

@[simp] lemma runAll_nil (m : Mem β) : runAll [] m = m := rfl

@[simp] lemma runAll_cons (c : Copy) (cs : List Copy) (m : Mem β) : runAll (c :: cs) m = runAll cs (c.run m) := rfl

@[simp] lemma runAll_append (cs ds : List Copy) (m : Mem β) :
    runAll (cs ++ ds) m = runAll ds (runAll cs m) := foldl_append

def Writes (cs : List Copy) (a : ℕ) : Prop := ∃ c ∈ cs, c.Writes a

def Reads (cs : List Copy) (a : ℕ) : Prop := ∃ c ∈ cs, c.Reads a

/-- The frame: bytes that no copy writes keep their value. -/
lemma runAll_frame : ∀ {cs : List Copy} {a : ℕ}, ¬ Writes cs a → ∀ m : Mem β, runAll cs m a = m a
  | [], _, _, _ => rfl
  | c :: cs, a, h, m => by
    have hc : ¬ c.Writes a := fun hw => h ⟨c, by simp, hw⟩
    have hcs : ¬ Writes cs a := fun ⟨d, hd, hw⟩ => h ⟨d, by simp [hd], hw⟩
    rw [runAll_cons, runAll_frame hcs, run_of_not_writes hc]

def Clean (cs : List Copy) : Prop := ∀ a, Reads cs a → ¬ Writes cs a

def Copy.Apart (c d : Copy) : Prop := ∀ a, c.Writes a → ¬ d.Writes a

def Exclusive (cs : List Copy) : Prop := cs.Pairwise Copy.Apart

variable {c : Copy} {cs : List Copy} {a : ℕ}

lemma Copy.Apart.symm {d : Copy} (h : c.Apart d) : d.Apart c := fun a hd hc => h a hc hd

lemma Exclusive.perm {ds : List Copy} (h : Exclusive cs) (hp : cs.Perm ds) : Exclusive ds :=
  hp.pairwise h fun h => h.symm

lemma Clean.perm {ds : List Copy} (h : Clean cs) (hp : cs.Perm ds) : Clean ds := by
  intro a ⟨c, hc, hr⟩ ⟨d, hd, hw⟩
  exact h a ⟨c, hp.mem_iff.mpr hc, hr⟩ ⟨d, hp.mem_iff.mpr hd, hw⟩

lemma Clean.tail (h : Clean (c :: cs)) : Clean cs := by
  intro a ⟨d, hd, hr⟩ ⟨e, he, hw⟩
  exact h a ⟨d, by simp [hd], hr⟩ ⟨e, by simp [he], hw⟩

/-- **Copies that do not disturb each other.**  Every destination byte ends with the value its
    source byte had at the start. -/
theorem runAll_of_clean : ∀ {cs : List Copy}, Clean cs → Exclusive cs → ∀ (m : Mem β) {c : Copy},
    c ∈ cs → ∀ {i : ℕ}, i < c.len → runAll cs m (c.dst + i) = m (c.src + i)
  | d :: cs, hclean, hexcl, m, c, hc, i, hi => by
    obtain ⟨hd, hcs⟩ := pairwise_cons.mp hexcl
    have hwi : c.Writes (c.dst + i) := ⟨by omega, by omega⟩
    have hri : c.Reads (c.src + i) := ⟨by omega, by omega⟩
    rcases mem_cons.mp hc with rfl | hc'
    · -- later copies leave the byte alone
      have hframe : ¬ Writes cs (c.dst + i) := fun ⟨e, he, hw⟩ => hd e he _ hwi hw
      rw [runAll_cons, runAll_frame hframe, run_of_writes hwi, Nat.add_sub_cancel_left]
    · -- the first copy leaves the source alone
      have hsrc : ¬ d.Writes (c.src + i) := fun hw => hclean _ ⟨c, hc, hri⟩ ⟨d, by simp, hw⟩
      rw [runAll_cons, runAll_of_clean hclean.tail hcs _ hc' hi, run_of_not_writes hsrc]

lemma runAll_value : ∀ {cs : List Copy}, Clean cs → ∀ {a : ℕ}, Writes cs a →
    ∃ b, Reads cs b ∧ ∀ m : Mem β, runAll cs m a = m b
  | d :: cs, hclean, a, hw => by
    by_cases hcs : Writes cs a
    · obtain ⟨b, ⟨e, he, hr⟩, hb⟩ := runAll_value hclean.tail hcs
      have hsrc : ¬ d.Writes b := fun hw => hclean _ ⟨e, by simp [he], hr⟩ ⟨d, by simp, hw⟩
      exact ⟨b, ⟨e, by simp [he], hr⟩,
        fun m => by rw [runAll_cons, hb, run_of_not_writes hsrc]⟩
    · have hwd : d.Writes a := by
        obtain ⟨e, he, hwe⟩ := hw
        rcases mem_cons.mp he with rfl | he
        · exact hwe
        · exact absurd ⟨e, he, hwe⟩ hcs
      exact ⟨_, ⟨d, by simp, reads_of_writes hwd⟩,
        fun m => by rw [runAll_cons, runAll_frame hcs, run_of_writes hwd]⟩

lemma exists_changed [Nontrivial β] (hclean : Clean cs) (hw : Writes cs a) : ∃ m : Mem β, runAll cs m a ≠ m a := by
  obtain ⟨x, y, hxy⟩ := exists_pair_ne β
  obtain ⟨b, hb, hval⟩ := runAll_value (β := β) hclean hw
  have hba : b ≠ a := fun he => hclean b hb (he ▸ hw)
  refine ⟨fun z => if z = a then x else y, ?_⟩
  rw [hval, if_neg hba]
  simpa using hxy.symm

/-- A memory that is constant away from `x` stays so under copies that do not read `x`. -/
lemma runAll_const_off {v : β} {x : ℕ} : ∀ {cs : List Copy}, ¬ Reads cs x → ∀ {m : Mem β},
    (∀ y, y ≠ x → m y = v) → ∀ y, y ≠ x → runAll cs m y = v
  | [], _, _, hm, y, hy => hm y hy
  | c :: cs, h, m, hm, y, hy => by
    have hcs : ¬ Reads cs x := fun ⟨d, hd, hr⟩ => h ⟨d, by simp [hd], hr⟩
    rw [runAll_cons]
    refine runAll_const_off hcs (fun z hz => ?_) y hy
    by_cases hw : c.Writes z
    · rw [run_of_writes hw]
      exact hm _ fun he => h ⟨c, by simp, he ▸ reads_of_writes hw⟩
    · rw [run_of_not_writes hw]
      exact hm z hz

lemma runAll_of_empty (h : ∀ c ∈ cs, c.len = 0) (m : Mem β) : runAll cs m = m := by
  funext x
  refine runAll_frame ?_ m
  rintro ⟨c, hc, hle, hlt⟩
  have := h c hc
  omega

/-! ## Two memories -/

/-- The copy out of `src` into `dst`. -/
def Copy.between (c : Copy) (src dst : Mem β) : Mem β :=
  fun a => if c.Writes a then src (c.src + (a - c.dst)) else dst a

def runBetween (cs : List Copy) (src dst : Mem β) : Mem β :=
  cs.foldl (fun d c => c.between src d) dst

@[simp] lemma runBetween_cons (c : Copy) (cs : List Copy) (src dst : Mem β) :
    runBetween (c :: cs) src dst = runBetween cs src (c.between src dst) := rfl

lemma runBetween_frame {src : Mem β} : ∀ {cs : List Copy} {a : ℕ}, ¬ Writes cs a →
    ∀ dst : Mem β, runBetween cs src dst a = dst a
  | [], _, _, _ => rfl
  | c :: cs, a, h, dst => by
    have hc : ¬ c.Writes a := fun hw => h ⟨c, by simp, hw⟩
    have hcs : ¬ Writes cs a := fun ⟨d, hd, hw⟩ => h ⟨d, by simp [hd], hw⟩
    rw [runBetween_cons, runBetween_frame hcs]
    exact if_neg hc

/-- Every destination byte has the value of its source byte. -/
lemma runBetween_of_exclusive {src : Mem β} : ∀ {cs : List Copy}, Exclusive cs →
    ∀ (dst : Mem β) {c : Copy}, c ∈ cs → ∀ {i : ℕ}, i < c.len → runBetween cs src dst (c.dst + i) = src (c.src + i)
  | d :: cs, hexcl, dst, c, hc, i, hi => by
    obtain ⟨hd, hcs⟩ := pairwise_cons.mp hexcl
    have hwi : c.Writes (c.dst + i) := ⟨by omega, by omega⟩
    rw [runBetween_cons]
    rcases mem_cons.mp hc with rfl | hc'
    · -- later copies leave the byte alone
      have hframe : ¬ Writes cs (c.dst + i) := fun ⟨e, he, hw⟩ => hd e he _ hwi hw
      rw [runBetween_frame hframe]
      unfold Copy.between
      rw [if_pos hwi, Nat.add_sub_cancel_left]
    · exact runBetween_of_exclusive hcs _ hc' hi

/-! ## Bytes -/

lemma writes_flatMap_bytes : Writes (cs.flatMap bytes) a ↔ Writes cs a := by
  constructor
  · rintro ⟨b, hb, hw⟩
    obtain ⟨c, hc, hb⟩ := mem_flatMap.mp hb
    obtain ⟨i, hi, rfl⟩ := mem_bytes.mp hb
    obtain ⟨_, _⟩ := hw
    exact ⟨c, hc, by simp_all; omega, by simp_all; omega⟩
  · rintro ⟨c, hc, hle, hlt⟩
    refine ⟨⟨c.dst + (a - c.dst), c.src + (a - c.dst), 1⟩, mem_flatMap.mpr ⟨c, hc, ?_⟩, ?_⟩
    · exact mem_bytes.mpr ⟨a - c.dst, by omega, rfl⟩
    · constructor <;> simp <;> omega

lemma reads_flatMap_bytes : Reads (cs.flatMap bytes) a ↔ Reads cs a := by
  constructor
  · rintro ⟨b, hb, hr⟩
    obtain ⟨c, hc, hb⟩ := mem_flatMap.mp hb
    obtain ⟨i, hi, rfl⟩ := mem_bytes.mp hb
    obtain ⟨_, _⟩ := hr
    exact ⟨c, hc, by simp_all; omega, by simp_all; omega⟩
  · rintro ⟨c, hc, hle, hlt⟩
    refine ⟨⟨c.dst + (a - c.src), c.src + (a - c.src), 1⟩, mem_flatMap.mpr ⟨c, hc, ?_⟩, ?_⟩
    · exact mem_bytes.mpr ⟨a - c.src, by omega, rfl⟩
    · constructor <;> simp <;> omega

lemma Clean.bytes (h : Clean cs) : Clean (cs.flatMap bytes) :=
  fun a hr hw => h a (reads_flatMap_bytes.mp hr) (writes_flatMap_bytes.mp hw)

lemma Exclusive.bytes (h : Exclusive cs) : Exclusive (cs.flatMap bytes) := by
  refine pairwise_flatMap.mpr ⟨fun c _ => ?_, h.imp fun {c d} hcd b hb e he a hba hea => ?_⟩
  · refine pairwise_map.mpr ((pairwise_lt_range).imp fun {i j} hij a hi hj => ?_)
    obtain ⟨_, _⟩ := hi
    obtain ⟨_, _⟩ := hj
    simp only at *
    omega
  · have hc : c.Writes a := by
      obtain ⟨i, hi, rfl⟩ := mem_bytes.mp hb
      obtain ⟨_, _⟩ := hba
      exact ⟨by simp_all; omega, by simp_all; omega⟩
    have hd : d.Writes a := by
      obtain ⟨i, hi, rfl⟩ := mem_bytes.mp he
      obtain ⟨_, _⟩ := hea
      exact ⟨by simp_all; omega, by simp_all; omega⟩
    exact hcd a hc hd

/-! ## Batches -/

/-- Every byte of every batch ends with the value its source had at the start. -/
def Delivered (runs : List (List Copy)) (m m' : Mem β) : Prop :=
  ∀ r ∈ runs, ∀ c ∈ r, ∀ i < c.len, m' (c.dst + i) = m (c.src + i)

/-- Whatever the order of the batches. -/
def OrderIndependent (β : Type*) (runs : List (List Copy)) : Prop :=
  ∀ order : List (List Copy), order.Perm runs → ∀ m : Mem β,
    Delivered runs m (runAll order.flatten m)

/-- Whatever the order of the single bytes: every interleaving of concurrent batches. -/
def ByteOrderIndependent (β : Type*) (runs : List (List Copy)) : Prop :=
  ∀ moves : List Copy, moves.Perm (runs.flatten.flatMap bytes) → ∀ m : Mem β,
    Delivered runs m (runAll moves m)

/-- No batch reads a byte that another batch writes. -/
def NoCrossTraffic (runs : List (List Copy)) : Prop :=
  ∀ (i j : ℕ) (hi : i < runs.length) (hj : j < runs.length), i ≠ j →
    ∀ a, Reads runs[i] a → ¬ Writes runs[j] a

/-- Batches that are clean and write no byte twice, alone and together. -/
structure Batches (runs : List (List Copy)) : Prop where
  clean : ∀ r ∈ runs, Clean r
  exclusive : ∀ r ∈ runs, Exclusive r
  apart : runs.Pairwise fun r s => ∀ a, Writes r a → ¬ Writes s a

namespace Batches

variable {runs order : List (List Copy)}

section

variable (h : Batches runs)
include h

lemma perm (hp : runs.Perm order) : Batches order where
  clean r hr := h.clean r (hp.mem_iff.mpr hr)
  exclusive r hr := h.exclusive r (hp.mem_iff.mpr hr)
  apart := hp.pairwise h.apart fun h a hs hr => h a hr hs

lemma exclusive_flatten : Exclusive runs.flatten := by
  refine pairwise_flatten.mpr ⟨h.exclusive, h.apart.imp fun hrs c hc d hd a hca hda => ?_⟩
  exact hrs a ⟨c, hc, hca⟩ ⟨d, hd, hda⟩

lemma clean_flatten (hx : NoCrossTraffic runs) : Clean runs.flatten := by
  rintro a ⟨c, hc, hr⟩ ⟨d, hd, hw⟩
  obtain ⟨r, hrm, hcr⟩ := mem_flatten.mp hc
  obtain ⟨s, hsm, hds⟩ := mem_flatten.mp hd
  obtain ⟨i, hi, rfl⟩ := mem_iff_getElem.mp hrm
  obtain ⟨j, hj, rfl⟩ := mem_iff_getElem.mp hsm
  by_cases hij : i = j
  · subst hij
    exact h.clean _ hrm a ⟨c, hcr, hr⟩ ⟨d, hds, hw⟩
  · exact hx i j hi hj hij a ⟨c, hcr, hr⟩ ⟨d, hds, hw⟩

lemma delivered_of_perm (hx : NoCrossTraffic runs) {cs : List Copy}
    (hp : cs.Perm runs.flatten) (m : Mem β) : Delivered runs m (runAll cs m) := by
  intro r hr c hc i hi
  exact runAll_of_clean ((h.clean_flatten hx).perm hp.symm) (h.exclusive_flatten.perm hp.symm) m
    (hp.mem_iff.mpr (mem_flatten.mpr ⟨r, hr, hc⟩)) hi

lemma delivered_of_byte_perm (hx : NoCrossTraffic runs) {moves : List Copy}
    (hp : moves.Perm (runs.flatten.flatMap bytes)) (m : Mem β) : Delivered runs m (runAll moves m) := by
  intro r hr c hc i hi
  have hmem : (⟨c.dst + i, c.src + i, 1⟩ : Copy) ∈ moves :=
    hp.mem_iff.mpr (mem_flatMap.mpr ⟨c, mem_flatten.mpr ⟨r, hr, hc⟩, mem_bytes.mpr ⟨i, hi, rfl⟩⟩)
  simpa using runAll_of_clean ((h.clean_flatten hx).bytes.perm hp.symm)
    (h.exclusive_flatten.bytes.perm hp.symm) m hmem (i := 0) (by simp)

lemma not_delivered [Nontrivial β] {r s : List Copy} {rest : List (List Copy)}
    (hp : (r :: s :: rest).Perm runs) {a : ℕ} (hread : Reads s a) (hwrite : Writes r a) :
    ∃ m : Mem β, ¬ Delivered runs m (runAll (r :: s :: rest).flatten m) := by
  obtain ⟨x, y, hxy⟩ := exists_pair_ne β
  have h' := h.perm hp.symm
  obtain ⟨c, hc, hle, hlt⟩ := hread
  obtain ⟨b, hb, hval⟩ := runAll_value (β := β) (h'.clean r (by simp)) hwrite
  have hba : b ≠ a := fun he => h'.clean r (by simp) b hb (he ▸ hwrite)
  refine ⟨fun z => if z = a then x else y, fun hdel => hxy ?_⟩
  have hi : a - c.src < c.len := by omega
  have hsrc : c.src + (a - c.src) = a := by omega
  have hlast : ¬ Writes rest.flatten (c.dst + (a - c.src)) := by
    rintro ⟨d, hd, hw⟩
    obtain ⟨t, ht, hdt⟩ := mem_flatten.mp hd
    have hst := (pairwise_cons.mp (pairwise_cons.mp h'.apart).2).1 t ht
    exact hst _ ⟨c, hc, by constructor <;> omega⟩ ⟨d, hdt, hw⟩
  have hgot := hdel s (hp.mem_iff.mp (by simp)) c hc _ hi
  rw [flatten_cons, flatten_cons, runAll_append, runAll_append, runAll_frame hlast,
    runAll_of_clean (h'.clean s (by simp)) (h'.exclusive s (by simp)) _ hc hi, hsrc, hval, if_neg hba] at hgot
  simpa using hgot.symm

lemma noCross_of_delivered [Nontrivial β] (hdel : OrderIndependent β runs) : NoCrossTraffic runs := by
  intro i j hi hj hij a hread hwrite
  have hmem : runs[i] ∈ runs.eraseIdx j := mem_eraseIdx_iff_getElem.mpr ⟨i, hi, hij, rfl⟩
  have hp : (runs[j] :: runs[i] :: (runs.eraseIdx j).erase runs[i]).Perm runs :=
    ((perm_cons_erase hmem).symm.cons _).trans (getElem_cons_eraseIdx_perm hj)
  obtain ⟨m, hm⟩ := h.not_delivered (β := β) hp hread hwrite
  exact hm (hdel _ hp m)

end

end Batches

lemma runAll_bytes (h : Clean [c]) (m : Mem β) : runAll c.bytes m = c.run m := by
  have hclean : Clean c.bytes := by simpa using h.bytes
  have hexcl : Exclusive c.bytes := by
    have : Exclusive [c] := pairwise_singleton _ _
    simpa using this.bytes
  funext a
  by_cases hw : c.Writes a
  · obtain ⟨hle, hlt⟩ := hw
    have hmem : (⟨c.dst + (a - c.dst), c.src + (a - c.dst), 1⟩ : Copy) ∈ c.bytes :=
      mem_bytes.mpr ⟨a - c.dst, by omega, rfl⟩
    have hval := runAll_of_clean hclean hexcl m hmem (i := 0) (by simp)
    rw [run_of_writes ⟨hle, hlt⟩]
    simpa [Nat.add_sub_cancel' hle] using hval
  · have hnot : ¬ Writes c.bytes a := fun hb => by
      have : Writes [c] a := writes_flatMap_bytes.mp (by simpa using hb)
      obtain ⟨d, hd, hda⟩ := this
      exact hw (mem_singleton.mp hd ▸ hda)
    rw [runAll_frame hnot, run_of_not_writes hw]

lemma runAll_flatMap_bytes : ∀ {cs : List Copy}, (∀ c ∈ cs, Clean [c]) → ∀ m : Mem β,
    runAll (cs.flatMap bytes) m = runAll cs m
  | [], _, _ => rfl
  | c :: cs, h, m => by
    rw [flatMap_cons, runAll_append, runAll_bytes (h c (by simp)), runAll_cons,
      runAll_flatMap_bytes fun d hd => h d (by simp [hd])]

/-- **Order independence** at both granularities. -/
theorem orderIndependent_iff (β : Type*) [Nontrivial β] {runs : List (List Copy)}
    (h : Batches runs) : (OrderIndependent β runs ↔ NoCrossTraffic runs) ∧
      (ByteOrderIndependent β runs ↔ NoCrossTraffic runs) := by
  refine ⟨⟨h.noCross_of_delivered, fun hx _ hp m => h.delivered_of_perm hx hp.flatten m⟩,
    ⟨fun hb => ?_, fun hx _ hp m => h.delivered_of_byte_perm hx hp m⟩⟩
  refine Batches.noCross_of_delivered (β := β) h fun order hp m => ?_
  have hself : ∀ c ∈ order.flatten, Clean [c] := by
    rintro c hc a ⟨d, hd, hr⟩ ⟨e, he, hw⟩
    obtain ⟨r, hr', hcr⟩ := mem_flatten.mp hc
    rw [mem_singleton] at hd he
    exact h.clean r (hp.mem_iff.mp hr') a ⟨c, hcr, hd ▸ hr⟩ ⟨c, hcr, he ▸ hw⟩
  rw [← runAll_flatMap_bytes hself]
  exact hb _ (hp.flatten.flatMap_right _) m

/-! ## Agreement outside a scratch region -/

/-- Equal everywhere outside `S`. -/
def EqOff (S : ℕ → Prop) (m m' : Mem β) : Prop := ∀ x, ¬ S x → m x = m' x

/-- `f` does what the copies `cs` do, outside `S`. -/
def Implements (S : ℕ → Prop) (f : Mem β → Mem β) (cs : List Copy) : Prop :=
  ∀ m m', EqOff S m m' → EqOff S (f m) (runAll cs m')

section

variable {S : ℕ → Prop}

lemma EqOff.refl (m : Mem β) : EqOff S m m := fun _ _ => rfl

/-- A copy that does not read `S` preserves the agreement. -/
lemma EqOff.run {m m' : Mem β} (h : EqOff S m m') {c : Copy} (hr : ∀ a, c.Reads a → ¬ S a) :
    EqOff S (c.run m) (c.run m') := by
  intro x hx
  by_cases hw : c.Writes x
  · rw [run_of_writes hw, run_of_writes hw]
    exact h _ (hr _ (reads_of_writes hw))
  · rw [run_of_not_writes hw, run_of_not_writes hw]
    exact h x hx

lemma implements_runAll : ∀ {cs : List Copy}, (∀ a, Reads cs a → ¬ S a) → Implements (β := β) S (runAll cs) cs
  | [], _, _, _, h => h
  | c :: cs, hr, m, m', h => by
    have hc : ∀ a, c.Reads a → ¬ S a := fun a ha => hr a ⟨c, by simp, ha⟩
    have hcs : ∀ a, Reads cs a → ¬ S a := fun a ⟨d, hd, ha⟩ => hr a ⟨d, by simp [hd], ha⟩
    exact implements_runAll hcs _ _ (h.run hc)

/-- Changes inside `S` do not show. -/
lemma Implements.after {f g : Mem β → Mem β} {cs : List Copy} (h : Implements S f cs)
    (hg : ∀ m, EqOff S (g m) m) : Implements S (fun m => f (g m)) cs :=
  fun m _ hm => h _ _ fun x hx => (hg m x hx).trans (hm x hx)

lemma Implements.foldl {α : Type*} {f : α → Mem β → Mem β} {cs : α → List Copy} :
    ∀ {l : List α}, (∀ i ∈ l, Implements S (f i) (cs i)) →
      Implements S (fun m => l.foldl (fun m i => f i m) m) (l.flatMap cs)
  | [], _, _, _, h => h
  | i :: l, hf, m, m', h => by
    rw [flatMap_cons, runAll_append]
    exact Implements.foldl (fun j hj => hf j (by simp [hj])) _ _ (hf i (by simp) m m' h)

lemma Implements.flatMap {α : Type*} {cs ds : α → List Copy} {l : List α}
    (h : ∀ i ∈ l, Implements (β := β) S (runAll (ds i)) (cs i)) :
    Implements (β := β) S (runAll (l.flatMap ds)) (l.flatMap cs) := by
  have hfold : ∀ (l : List α) (m : Mem β), l.foldl (fun m i => runAll (ds i) m) m = runAll (l.flatMap ds) m := by
    intro l
    induction l with
    | nil => exact fun _ => rfl
    | cons i l ih =>
      intro m
      rw [foldl_cons, ih, flatMap_cons, runAll_append]
  intro m m' hm
  rw [← hfold]
  exact Implements.foldl h m m' hm

/-- The copy with its source moved from the box at `box` to the box at `dest`. -/
def Copy.relocate (box dest : ℕ) (c : Copy) : Copy := { c with src := dest + (c.src - box) }

/-- Reading through a scratch image of a box is reading the box, as long as neither is written. -/
lemma runAll_relocate {box dest n : ℕ} : ∀ {cs : List Copy} {m m' : Mem β},
    (∀ a, Reads cs a → box ≤ a ∧ a < box + n) → (∀ a, Writes cs a → ¬ S a) →
    (∀ j < n, S (dest + j)) → (∀ a, Writes cs a → ¬ (box ≤ a ∧ a < box + n)) →
    EqOff S m m' → (∀ j < n, m (dest + j) = m' (box + j)) →
    EqOff S (runAll (cs.map (Copy.relocate box dest)) m) (runAll cs m')
  | [], _, _, _, _, _, _, h, _ => h
  | c :: cs, m, m', hr, hw, hS, hbox, h, himg => by
    have hmem : c ∈ c :: cs := by simp
    have hlater : ∀ {d}, d ∈ cs → d ∈ c :: cs := fun hd => by simp [hd]
    rw [map_cons, runAll_cons, runAll_cons]
    refine runAll_relocate (fun a ⟨d, hd, ha⟩ => hr a ⟨d, hlater hd, ha⟩)
      (fun a ⟨d, hd, ha⟩ => hw a ⟨d, hlater hd, ha⟩) hS
      (fun a ⟨d, hd, ha⟩ => hbox a ⟨d, hlater hd, ha⟩) ?_ ?_
    · intro x hx
      by_cases hcw : c.Writes x
      · have hcr := hr _ ⟨c, hmem, reads_of_writes hcw⟩
        obtain ⟨hle, hlt⟩ := hcw
        have hsrc := hr c.src ⟨c, hmem, le_rfl, by omega⟩
        rw [run_of_writes (c := c.relocate box dest) ⟨hle, hlt⟩, run_of_writes ⟨hle, hlt⟩]
        show m (dest + (c.src - box) + (x - c.dst)) = _
        rw [show dest + (c.src - box) + (x - c.dst) = dest + (c.src + (x - c.dst) - box) by omega,
          himg _ (by omega), Nat.add_sub_cancel' hcr.1]
      · rw [run_of_not_writes (c := c.relocate box dest) hcw, run_of_not_writes hcw]
        exact h x hx
    · intro j hj
      have hd : ¬ (c.relocate box dest).Writes (dest + j) := fun hcw =>
        hw _ ⟨c, hmem, hcw⟩ (hS j hj)
      have hb : ¬ c.Writes (box + j) := fun hcw => hbox _ ⟨c, hmem, hcw⟩ (by omega)
      rw [run_of_not_writes hd, run_of_not_writes hb]
      exact himg j hj

end

end ByteCopies
