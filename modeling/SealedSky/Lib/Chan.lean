import Mathlib.Data.List.Basic

/-!
# Bounded FIFO channels

A buffered channel of capacity `cap`: a sender is blocked (`none`) while the buffer is full, a
receiver while it is empty. The bound is a field, so no step can overfill the buffer.
-/
namespace SealedSky

universe u

structure Chan (α : Type u) (cap : Nat) where
  buf : List α
  length_le : buf.length ≤ cap
  deriving DecidableEq

namespace Chan

variable {α : Type u} {cap : Nat}

def empty : Chan α cap := ⟨[], Nat.zero_le _⟩

def send? (c : Chan α cap) (a : α) : Option (Chan α cap) :=
  if h : c.buf.length < cap then some ⟨c.buf ++ [a], by simp only [List.length_append, List.length_singleton]; omega⟩ else none

def recv? (c : Chan α cap) : Option (α × Chan α cap) :=
  match c with
  | ⟨[], _⟩ => none
  | ⟨a :: as, h⟩ => some (a, ⟨as, by simp only [List.length_cons] at h; omega⟩)

@[simp] theorem buf_empty : (empty : Chan α cap).buf = [] := rfl

theorem send?_eq_some {c c' : Chan α cap} {a : α} (h : c.send? a = some c') :
    c'.buf = c.buf ++ [a] := by
  unfold send? at h
  split at h
  · cases h; rfl
  · cases h

theorem recv?_eq_some {c c' : Chan α cap} {a : α} (h : c.recv? = some (a, c')) :
    c.buf = a :: c'.buf := by
  obtain ⟨buf, hle⟩ := c
  cases buf with
  | nil => simp [recv?] at h
  | cons x xs =>
    simp only [recv?, Option.some.injEq, Prod.mk.injEq] at h
    obtain ⟨rfl, rfl⟩ := h
    rfl

/-- A sender goes through while the buffer is not full. -/
theorem send?_isSome {c : Chan α cap} (h : c.buf.length < cap) (a : α) :
    ∃ c', c.send? a = some c' := by
  unfold send?
  rw [dif_pos h]
  exact ⟨_, rfl⟩

/-- A receiver goes through while the buffer is not empty. -/
theorem recv?_isSome {c : Chan α cap} (h : c.buf ≠ []) : ∃ a c', c.recv? = some (a, c') := by
  obtain ⟨buf, hle⟩ := c
  cases buf with
  | nil => exact absurd rfl h
  | cons a as => exact ⟨a, _, rfl⟩

end Chan

end SealedSky
