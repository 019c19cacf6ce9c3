import Mathlib.Data.List.Basic

/-!
# Messages over FIFO lanes

One sender and one receiver with any number of first-in first-out lanes between them.  A message
is a lane and a value; nothing is known about when a lane delivers.

* `Consistent` — every lane holds what was sent on it and not yet received.  `Consistent.send` and
  `Consistent.receive` are its two steps.
* `Consistent.receive_next` — the message a lane delivers next is the next one sent, and
  `Consistent.ready` that it is there once it was sent.
-/

namespace VKernels.FifoLanes

open List

variable {Lane Value : Type} [DecidableEq Lane]

def onLane (l : Lane) (msgs : List (Lane × Value)) : List Value :=
  (msgs.filter fun m => m.1 = l).map Prod.snd

@[simp] lemma onLane_nil (l : Lane) : onLane l ([] : List (Lane × Value)) = [] := rfl

@[simp] lemma onLane_append (l : Lane) (ms ms' : List (Lane × Value)) :
    onLane l (ms ++ ms') = onLane l ms ++ onLane l ms' := by
  simp [onLane]

@[simp] lemma onLane_cons_self (l : Lane) (v : Value) (ms : List (Lane × Value)) :
    onLane l ((l, v) :: ms) = v :: onLane l ms := by
  simp [onLane]

lemma onLane_cons_other {l l' : Lane} (h : l' ≠ l) (v : Value) (ms : List (Lane × Value)) :
    onLane l ((l', v) :: ms) = onLane l ms := by
  simp [onLane, h]

def Consistent (queues : Lane → List Value) (sent received : List (Lane × Value)) : Prop :=
  ∀ l, onLane l sent = onLane l received ++ queues l

namespace Consistent

variable {queues : Lane → List Value} {sent received : List (Lane × Value)}

lemma empty : Consistent (fun _ => []) ([] : List (Lane × Value)) [] := fun _ => rfl

lemma send (h : Consistent queues sent received) (l : Lane) (v : Value) :
    Consistent (Function.update queues l (queues l ++ [v])) (sent ++ [(l, v)]) received := by
  intro k
  by_cases hk : k = l
  · subst hk
    rw [Function.update_self, onLane_append, onLane_cons_self, onLane_nil, h k, append_assoc]
  · rw [Function.update_of_ne hk, onLane_append, onLane_cons_other (Ne.symm hk), onLane_nil, append_nil]
    exact h k

variable {l : Lane} {v : Value}

lemma receive (h : Consistent queues sent received) {rest : List Value}
    (hl : queues l = v :: rest) : Consistent (Function.update queues l rest) sent (received ++ [(l, v)]) := by
  intro k
  by_cases hk : k = l
  · subst hk
    rw [Function.update_self, onLane_append, onLane_cons_self, onLane_nil, h k, hl, append_assoc]
    rfl
  · rw [Function.update_of_ne hk, onLane_append, onLane_cons_other (Ne.symm hk), onLane_nil, append_nil]
    exact h k

lemma heads {w : Value} {ms ns : List (Lane × Value)}
    (h : Consistent queues ((l, v) :: ms) ((l, w) :: ns)) : v = w ∧ Consistent queues ms ns := by
  have hl := h l
  rw [onLane_cons_self, onLane_cons_self] at hl
  obtain ⟨hv, hl⟩ := cons.inj hl
  refine ⟨hv, fun k => ?_⟩
  by_cases hk : k = l
  · subst hk
    exact hl
  · have hk' := h k
    rwa [onLane_cons_other (Ne.symm hk), onLane_cons_other (Ne.symm hk)] at hk'

/-- **No mixing**: both sides use the lanes in the order `order`, so what was received is what was
    sent first. -/
theorem received_in_order : ∀ {order : List Lane} {sent received : List (Lane × Value)},
    Consistent queues sent received → sent.map Prod.fst <+: order → received.map Prod.fst <+: order → received <+: sent
  | _, sent, [], _, _, _ => nil_prefix
  | [], _, _ :: _, _, _, hr => by simp at hr
  | k :: order, [], (l, w) :: ns, h, _, _ => by
    -- a message cannot arrive before one was sent
    have hl := h l
    simp at hl
  | k :: order, (l, v) :: ms, (l', w) :: ns, h, hs, hr => by
    rw [map_cons, cons_prefix_cons] at hs hr
    obtain ⟨hlk, hs⟩ := hs
    obtain ⟨hlk', hr⟩ := hr
    subst hlk hlk'
    obtain ⟨rfl, hrest⟩ := h.heads
    exact cons_prefix_cons.mpr ⟨rfl, received_in_order hrest hs hr⟩

variable {order : List Lane}

lemma receive_next (h : Consistent queues sent received) (hs : sent.map Prod.fst <+: order)
    (hr : received.map Prod.fst ++ [l] <+: order) {rest : List Value}
    (hl : queues l = v :: rest) : received ++ [(l, v)] <+: sent :=
  (h.receive hl).received_in_order hs (by simpa using hr)

lemma ready (h : Consistent queues sent received)
    (hnext : received ++ [(l, v)] <+: sent) : ∃ rest, queues l = v :: rest := by
  obtain ⟨_, rfl⟩ := hnext
  have hl := h l
  rw [onLane_append, onLane_append, onLane_cons_self, onLane_nil, append_assoc] at hl
  exact ⟨_, (append_cancel_left hl).symm⟩

end Consistent

end VKernels.FifoLanes
