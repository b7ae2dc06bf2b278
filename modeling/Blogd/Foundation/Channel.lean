import Mathlib.Data.List.Basic

/-! # Channels

A channel takes what is queued and delivers it in order. What was sent so far is at every moment
a front part of what was queued, and the rest is pending.
-/

namespace Blogd

structure Channel (α : Type) where
  queued : List α
  sent : List α
  sent_queued : sent <+: queued

namespace Channel

variable {α : Type}

def pending (c : Channel α) : List α := c.queued.drop c.sent.length

/-- Nothing was queued yet. -/
def idle : Channel α := ⟨[], [], List.prefix_rfl⟩

theorem sent_append_pending (c : Channel α) : c.sent ++ c.pending = c.queued :=
  (List.prefix_iff_eq_append.mp c.sent_queued)

theorem eq_pending {c : Channel α} {rest : List α} (hrest : c.sent ++ rest = c.queued) :
    c.pending = rest := by
  rw [pending, ← hrest, List.drop_left]

/-- A message is put behind what is queued. -/
def push (c : Channel α) (message : List α) : Channel α where
  queued := c.queued ++ message
  sent := c.sent
  sent_queued := c.sent_queued.trans (List.prefix_append _ _)

theorem pending_push (c : Channel α) (message : List α) :
    (c.push message).pending = c.pending ++ message := by
  apply eq_pending
  change c.sent ++ (c.pending ++ message) = c.queued ++ message
  rw [← List.append_assoc, sent_append_pending]

/-- A front part of what is pending is sent. -/
def transmit (c : Channel α) {part rest : List α} (hpart : part ++ rest = c.pending) :
    Channel α where
  queued := c.queued
  sent := c.sent ++ part
  sent_queued := ⟨rest, by rw [List.append_assoc, hpart, sent_append_pending]⟩

theorem pending_transmit (c : Channel α) {part rest : List α} (hpart : part ++ rest = c.pending) :
    (c.transmit hpart).pending = rest := by
  apply eq_pending
  change (c.sent ++ part) ++ rest = c.queued
  rw [List.append_assoc, hpart, sent_append_pending]

/-- With nothing pending, all that was queued was sent. -/
theorem sent_eq_queued {c : Channel α} (hpending : c.pending = []) : c.sent = c.queued := by
  rw [← c.sent_append_pending, hpending, List.append_nil]

end Channel

end Blogd
