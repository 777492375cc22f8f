import Mathlib.Data.Option.Basic

/-!
# Critical sections

A lock that the thread which owns it may enter again. It is left as often as it was entered.
-/

namespace Mdgate.Lib

structure CriticalSection (τ : Type*) where
  owner : Option τ
  recursionCount : Nat
  deriving DecidableEq, Repr

namespace CriticalSection

variable {τ : Type*}

def free : CriticalSection τ := ⟨none, 0⟩

def held (t : τ) : CriticalSection τ := ⟨some t, 1⟩

/-- `EnterCriticalSection` by `t`; `none` while it blocks. -/
def enter [DecidableEq τ] (c : CriticalSection τ) (t : τ) : Option (CriticalSection τ) :=
  match c.owner with
  | none => some (held t)
  | some o => if o = t then some ⟨some t, c.recursionCount + 1⟩ else none

def leave (c : CriticalSection τ) : CriticalSection τ :=
  if c.recursionCount ≤ 1 then free else { c with recursionCount := c.recursionCount - 1 }

@[simp] theorem owner_free : (free : CriticalSection τ).owner = none := rfl

@[simp] theorem owner_held (t : τ) : (held t).owner = some t := rfl

@[simp] theorem leave_held (t : τ) : (held t).leave = free := rfl

theorem free_ne_held (t : τ) : free ≠ held t := by simp [free, held]

variable [DecidableEq τ]

@[simp] theorem enter_free (t : τ) : (free : CriticalSection τ).enter t = some (held t) := rfl

theorem enter_held_of_ne {t t' : τ} (h : t ≠ t') : (held t).enter t' = none := by
  simp [enter, held, h]

/-- A thread that is not inside gets in only when nobody is. -/
theorem enter_eq_some {c c' : CriticalSection τ} {t : τ} (hc : c = free ∨ ∃ o, o ≠ t ∧ c = held o)
    (h : c.enter t = some c') : c = free ∧ c' = held t := by
  rcases hc with rfl | ⟨o, ho, rfl⟩
  · exact ⟨rfl, (Option.some.inj h).symm⟩
  · rw [enter_held_of_ne ho] at h
    cases h

end CriticalSection

end Mdgate.Lib
