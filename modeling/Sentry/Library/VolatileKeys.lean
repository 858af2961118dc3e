import Mathlib.Data.Int.Notation
import Mathlib.Order.Basic
import Mathlib.Tactic.Common

/-!
# Keys that expire

A key of a store holds a list of items and may have a time at which it expires. A key without items
does not exist and has no such time. Writing items keeps the time of a key that still exists.
-/

namespace Sentry.Library

variable {α : Type*}

/-- What is stored at a key, and when the key expires. -/
structure VolatileKey (α : Type*) where
  items : List α
  expiry : Option ℤ
  absent : items = [] → expiry = none

namespace VolatileKey

instance : EmptyCollection (VolatileKey α) := ⟨⟨[], none, fun _ ↦ rfl⟩⟩

def write (key : VolatileKey α) (items : List α) : VolatileKey α where
  items := items
  expiry := if items = [] then none else key.expiry
  absent := fun h ↦ if_pos h

@[simp] theorem items_write (key : VolatileKey α) (items : List α) :
    (key.write items).items = items := rfl

theorem expiry_write (key : VolatileKey α) {items : List α} (h : items ≠ []) :
    (key.write items).expiry = key.expiry := if_neg h

def expireAt (key : VolatileKey α) (now time : ℤ) : VolatileKey α :=
  if time ≤ now then ∅
  else ⟨key.items, if key.items = [] then none else some time, fun h ↦ if_pos h⟩

def live (key : VolatileKey α) (now : ℤ) : VolatileKey α :=
  if ∃ time ∈ key.expiry, time ≤ now then ∅ else key

def ExpiresAt (P : ℤ → Prop) (key : VolatileKey α) : Prop :=
  key.items ≠ [] → ∃ time ∈ key.expiry, P time

variable {P Q : ℤ → Prop} {key : VolatileKey α} {items : List α} {now time : ℤ}

theorem expiresAt_empty : ExpiresAt P (∅ : VolatileKey α) := fun h ↦ absurd rfl h

theorem ExpiresAt.write (h : key.ExpiresAt P) (hexists : items ≠ [] → key.items ≠ []) :
    (key.write items).ExpiresAt P := by
  intro hitems
  have hwritten : items ≠ [] := hitems
  rw [expiry_write key hwritten]
  exact h (hexists hwritten)

theorem expiresAt_expireAt (key : VolatileKey α) (now : ℤ) (h : P time) :
    (key.expireAt now time).ExpiresAt P := by
  unfold expireAt
  split
  next => exact expiresAt_empty
  next => exact fun hitems ↦ ⟨time, if_neg hitems, h⟩

theorem ExpiresAt.live (h : key.ExpiresAt P) (now : ℤ) : (key.live now).ExpiresAt P := by
  unfold VolatileKey.live
  split
  next => exact expiresAt_empty
  next => exact h

theorem not_expiresAt (hitems : key.items ≠ []) (h : key.expiry = none) : ¬ key.ExpiresAt P := by
  intro hexpires
  obtain ⟨time, htime, -⟩ := hexpires hitems
  exact absurd (h.symm.trans htime) (by simp)

end VolatileKey

end Sentry.Library
