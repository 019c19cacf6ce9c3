import VKernels.Lib.Strided
import Mathlib.Tactic.Linarith
import Mathlib.Tactic.Ring

/-!
# Operator IR

Tensor values, views, memory regions and hazards, after `compiler/operator_ir.py`.  Strides are
non-negative by type; `narrow` is `Capture.narrow`.

* `TensorValue` — layout and storage identity; `view`, `narrow`, `transposed` derive aliases.
* `Region` — a box over a view, with integer, symbolic or per-row upper bounds, and at most one
  axis that is indexed through a table.
* `Region.storageSpan`, `Region.overlaps` — the interval test.
* `computeHazards` — RAW, WAR and WAW pairs in program order.
-/

namespace VKernels.Compiler

open Strided
open List

/-! ## Runtime scalars and valid lengths -/

/-- How a row tensor gives a valid length: `pos[b] + 1`, or `lengths[b]` itself. -/
inductive RowMode where
  | positions
  | lengths
  deriving DecidableEq, Repr

/-- Number of leading valid entries along a cache axis. -/
inductive ValidLength where
  | int (n : ℤ)
  | sym (expr : String)
  | row (tensor : String) (mode : RowMode)
  deriving DecidableEq, Repr

/-- What is only known at run time. -/
structure RuntimeEnv where
  scalars : String → ℤ
  rows : String → ℕ → ℤ
  /-- Entry `[b, t]` of an indirection table. -/
  table : String → ℕ → ℕ → ℤ

/-- `ValidLength.resolve` of a string: the one supported form is `"<name>+1"`. -/
def resolveExpr (scalars : String → ℤ) (expr : String) : ℤ :=
  match expr.toList.reverse with
  | '1' :: '+' :: name => scalars (String.ofList name.reverse) + 1
  | _ => scalars expr

/-- The valid length of row `b`. -/
def rowLength (env : RuntimeEnv) (tensor : String) (mode : RowMode) (b : ℕ) : ℤ :=
  match mode with
  | .positions => env.rows tensor b + 1
  | .lengths => env.rows tensor b

/-! ## Tensor values -/

structure TensorValue where
  name : String
  shape : List ℕ
  strides : List ℕ
  storageId : ℕ
  offset : ℕ
  deriving DecidableEq, Repr

namespace TensorValue

variable (tv : TensorValue)

def numel : ℕ := tv.shape.prod

/-- The loop of `is_contiguous`, from the last dimension on. -/
def contiguousFrom : ℕ → List (ℕ × ℕ) → Bool
  | _, [] => true
  | expected, (d, s) :: rest =>
    if d ≠ 1 ∧ s ≠ expected then false else contiguousFrom (expected * d) rest

def isContiguous : Bool := contiguousFrom 1 (tv.shape.reverse.zip tv.strides.reverse)

/-- The squeeze path's first loop: kept strides in order, 0 on unit dimensions. -/
def keptStrides : List ℕ → List (ℕ × ℕ) → List ℕ
  | [], _ => []
  | d :: shape, kept =>
    if d = 1 then 0 :: keptStrides shape kept
    else (kept.head?.map Prod.snd).getD 0 :: keptStrides shape kept.tail

/-- The squeeze path's second loop, from the right: a 0 takes the stride after it. -/
def fillStrides : List ℕ → List ℕ
  | [] => []
  | s :: rest => (if s = 0 then (fillStrides rest).headD 1 else s) :: fillStrides rest

def view (name : String) (newShape : List ℕ) : Except String TensorValue :=
  if tv.shape.prod ≠ newShape.prod then .error "reshape changes numel" else
    let oldKept := (tv.shape.zip tv.strides).filter fun p => p.1 ≠ 1
    if oldKept.map Prod.fst = newShape.filter (· ≠ 1) then
      .ok { tv with
        name := name
        shape := newShape
        strides := fillStrides (keptStrides newShape oldKept) }
    else if tv.isContiguous then
      .ok { tv with name := name, shape := newShape, strides := rowMajor newShape }
    else .error "reshape of non-contiguous view is unsupported"

/-- `start` and `length` entries along `axis`. -/
def narrow (name : String) (axis start length : ℕ) : Except String TensorValue :=
  if start + length ≤ tv.shape.getD axis 0 ∧ axis < tv.shape.length then
    .ok { tv with
      name := name
      shape := tv.shape.set axis length
      offset := tv.offset + start * tv.strides.getD axis 0 }
  else .error "narrow out of bounds"

/-- The last two entries, swapped. -/
def swapLast {α : Type} : List α → List α
  | [a, b] => [b, a]
  | a :: l => a :: swapLast l
  | [] => []

def transposed (name : String) : Except String TensorValue :=
  if tv.shape.length < 2 then .error "transpose requires >= 2 dims" else
    .ok { tv with name := name, shape := swapLast tv.shape, strides := swapLast tv.strides }

/-- Views derived from storages. -/
inductive Derived : TensorValue → Prop where
  | storage {tv : TensorValue} : tv.strides.length = tv.shape.length → Derived tv
  | view {tv tv' : TensorValue} {name : String} {newShape : List ℕ} :
      Derived tv → tv.view name newShape = .ok tv' → Derived tv'
  | narrow {tv tv' : TensorValue} {name : String} {axis start length : ℕ} :
      Derived tv → tv.narrow name axis start length = .ok tv' → Derived tv'
  | transposed {tv tv' : TensorValue} {name : String} :
      Derived tv → tv.transposed name = .ok tv' → Derived tv'

end TensorValue

/-! ## Regions -/

/-- An upper bound of a box. -/
inductive Bound where
  | int (n : ℤ)
  | sym (expr : String)
  | row (tensor : String) (mode : RowMode)
  deriving DecidableEq, Repr

/-- Paged indirection: `axis` is addressed through a slot table. -/
structure Indirection where
  table : String
  axis : ℕ
  deriving DecidableEq, Repr

structure Region where
  view : TensorValue
  boxes : List (ℤ × Bound)
  indirectTable : Option Indirection
  deriving DecidableEq, Repr

/-- One dimension of a region; `table` names the slot table of the indirect axis. -/
structure Axis where
  lo : ℤ
  hi : Bound
  stride : ℕ
  extent : ℕ
  table : Option String
  deriving DecidableEq, Repr

namespace Axis

variable (a : Axis)

/-- `hi_eff`: a bound that is not an integer counts as the full extent. -/
def hiEff : ℤ :=
  match a.hi with
  | .int h => min h a.extent
  | _ => a.extent

def candidates : ℤ × ℤ :=
  if a.lo < a.hiEff then (a.lo * a.stride, (a.hiEff - 1) * a.stride) else (0, 0)

end Axis

/-- The indices below a bound. -/
def Bound.Admits (env : RuntimeEnv) (i : ℕ) : Bound → Prop
  | .int h => (i : ℤ) < h
  | .sym expr => (i : ℤ) < resolveExpr env.scalars expr
  | .row tensor mode => ∃ b, (i : ℤ) < rowLength env tensor mode b

/-- Index `i` of the view is in the box; on an indirect axis the box bounds the table's column and
    `i` is the slot found there. -/
def Axis.Admits (env : RuntimeEnv) (i : ℕ) (a : Axis) : Prop :=
  i < a.extent ∧
    match a.table with
    | none => a.lo ≤ i ∧ a.hi.Admits env i
    | some table => ∃ b t : ℕ, a.lo ≤ t ∧ a.hi.Admits env t ∧ env.table table b t = i

namespace Region

def whole (view : TensorValue) : Region where
  view := view
  boxes := view.shape.map fun d : ℕ => (0, .int d)
  indirectTable := none

/-- `prefix`: the whole view with the valid length on one axis. -/
def validPrefix (view : TensorValue) (axis : ℕ) (valid : ValidLength) : Region where
  view := view
  boxes := view.shape.mapIdx fun i d => if i = axis then
    (0, match valid with
      | .int n => .int n
      | .sym expr => .sym expr
      | .row tensor mode => .row tensor mode) else (0, .int d)
  indirectTable := none

def indirect (view : TensorValue) (table : String) (axis : ℕ) : Region where
  view := view
  boxes := view.shape.map fun d : ℕ => (0, .int d)
  indirectTable := some ⟨table, axis⟩

def tile (view : TensorValue) (boxes : List (ℤ × Bound)) : Region where
  view := view
  boxes := boxes
  indirectTable := none

variable (r : Region)

def storageId : ℕ := r.view.storageId

/-- `zip(boxes, strides, shape)`. -/
def axes : List Axis :=
  (r.boxes.zip (r.view.strides.zip r.view.shape)).mapIdx fun i p =>
    { lo := p.1.1
      hi := p.1.2
      stride := p.2.1
      extent := p.2.2
      table := match r.indirectTable with
        | some ind => if i = ind.axis then some ind.table else none
        | none => none }

/-- Bounding interval in storage space. -/
def storageSpan : ℤ × ℤ :=
  match r.indirectTable with
  | some _ => (r.view.offset, r.view.offset + max ((r.view.numel : ℤ) - 1) 0)
  | none =>
    let loAddr := r.view.offset + (r.axes.map fun a => min a.candidates.1 a.candidates.2).sum
    let hiAddr := r.view.offset + (r.axes.map fun a => max a.candidates.1 a.candidates.2).sum
    (loAddr, max loAddr hiAddr)

def overlaps (other : Region) : Bool :=
  if r.storageId ≠ other.storageId then false else
    let a := r.storageSpan
    let b := other.storageSpan
    a.1 ≤ b.2 ∧ b.1 ≤ a.2

/-- The storage elements of a region: `offset + sum_i index_i * stride_i`. -/
def Touches (env : RuntimeEnv) (addr : ℕ) : Prop :=
  ∃ idx : List ℕ, Forall₂ (Axis.Admits env) idx r.axes ∧
    addr = r.view.offset + dot idx (r.axes.map Axis.stride)

end Region

namespace Region

lemma overlaps_iff {r other : Region} : r.overlaps other = true ↔
    r.storageId = other.storageId ∧ r.storageSpan.1 ≤ other.storageSpan.2 ∧ other.storageSpan.1 ≤ r.storageSpan.2 := by
  unfold overlaps
  by_cases hsto : r.storageId = other.storageId
  · simp
  · simp

lemma axes_stride {r : Region} (hbox : r.boxes.length = r.view.shape.length)
    (hlen : r.view.strides.length = r.view.shape.length) : r.axes.map Axis.stride = r.view.strides := by
  unfold axes
  refine ext_getElem (by simp [hbox, hlen]) fun i _ _ => ?_
  simp

end Region

/-! ## Operators and hazards -/

structure Operator where
  opid : ℕ
  readRegions : List Region
  writeRegions : List Region
  deriving DecidableEq, Repr

inductive HazardKind where
  | raw
  | war
  | waw
  deriving DecidableEq, Repr

structure Hazard where
  kind : HazardKind
  producer : ℕ
  consumer : ℕ
  storageId : ℕ
  deriving DecidableEq, Repr

/-- The conflicts of one kind: every overlapping pair of `xs` and `ys`. -/
def conflicts (kind : HazardKind) (u v : Operator) (xs ys : List Region) : List Hazard :=
  xs.flatMap fun x => ys.filterMap fun y =>
    if x.overlaps y then some ⟨kind, u.opid, v.opid, x.storageId⟩ else none

/-- The conflicts of an earlier and a later operator. -/
def hazardsBetween (u v : Operator) : List Hazard :=
  conflicts .raw u v u.writeRegions v.readRegions ++
    conflicts .war u v u.readRegions v.writeRegions ++
    conflicts .waw u v u.writeRegions v.writeRegions

/-- `_dedupe_hazards`: the first of each. -/
def dedupeHazards (hazards : List Hazard) : List Hazard :=
  hazards.foldl (fun out h => if h ∈ out then out else out ++ [h]) []

def allHazards : List Operator → List Hazard
  | [] => []
  | u :: rest => rest.flatMap (hazardsBetween u) ++ allHazards rest

def computeHazards (ops : List Operator) : List Hazard := dedupeHazards (allHazards ops)

lemma mem_dedupeHazards {h : Hazard} {hazards : List Hazard} : h ∈ dedupeHazards hazards ↔ h ∈ hazards := by
  have hfold : ∀ (l out : List Hazard),
      h ∈ l.foldl (fun out h => if h ∈ out then out else out ++ [h]) out ↔ h ∈ out ∨ h ∈ l := by
    intro l
    induction l with
    | nil => simp
    | cons x l ih =>
      intro out
      rw [foldl_cons, ih]
      by_cases hx : x ∈ out
      · simp only [hx, if_true, mem_cons]
        constructor
        · tauto
        · rintro (h | rfl | h) <;> tauto
      · simp only [hx, if_false, mem_append, mem_cons, not_mem_nil, or_false]
        tauto
  unfold dedupeHazards
  rw [hfold]
  simp

lemma mem_conflicts {kind : HazardKind} {u v : Operator} {xs ys : List Region} {h : Hazard} :
    h ∈ conflicts kind u v xs ys ↔ ∃ x ∈ xs, ∃ y ∈ ys, x.overlaps y ∧ h = ⟨kind, u.opid, v.opid, x.storageId⟩ := by
  unfold conflicts
  simp only [mem_flatMap, mem_filterMap]
  constructor
  · rintro ⟨x, hx, y, hy, hxy⟩
    split at hxy
    · exact ⟨x, hx, y, hy, ‹_›, (Option.some.inj hxy).symm⟩
    · cases hxy
  · rintro ⟨x, hx, y, hy, hov, rfl⟩
    exact ⟨x, hx, y, hy, if_pos hov⟩

end VKernels.Compiler
