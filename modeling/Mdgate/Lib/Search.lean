import Mathlib.Data.List.Basic

/-!
# Searching a sequence

The positions of the first and of the last element that satisfies a predicate,
as the `find` functions of a string class return them (`none` is `npos`). Each is
characterised by how it splits the sequence, so that what is taken and dropped
at a position is read off the split.
-/

namespace Mdgate.Lib

variable {α : Type*}

/-- The first position whose element satisfies `p`. -/
def findFirst (p : α → Bool) (s : List α) : Option Nat := s.findIdx? p

/-- The last position whose element satisfies `p`. -/
def findLast (p : α → Bool) (s : List α) : Option Nat :=
  (s.reverse.findIdx? p).map fun i => s.length - 1 - i

/-- A sequence with an element that satisfies `p` splits at the first of them. -/
theorem exists_split_first {p : α → Bool} {s : List α} (h : ∃ c ∈ s, p c = true) :
    ∃ a c b, s = a ++ c :: b ∧ p c = true ∧ ∀ x ∈ a, p x = false := by
  induction s with
  | nil => obtain ⟨c, hc, -⟩ := h; cases hc
  | cons x s ih =>
    by_cases hx : p x = true
    · exact ⟨[], x, s, rfl, hx, by simp⟩
    · obtain ⟨c, hc, hp⟩ := h
      have hc' : c ∈ s := (List.mem_cons.mp hc).resolve_left fun h => hx (h ▸ hp)
      obtain ⟨a, c, b, rfl, hp, ha⟩ := ih ⟨c, hc', hp⟩
      exact ⟨x :: a, c, b, rfl, hp, by simpa [hx] using ha⟩

theorem exists_split_last {p : α → Bool} {s : List α} (h : ∃ c ∈ s, p c = true) :
    ∃ a c b, s = a ++ c :: b ∧ p c = true ∧ ∀ x ∈ b, p x = false := by
  have h' : ∃ c ∈ s.reverse, p c = true := by simpa using h
  obtain ⟨a, c, b, hs, hp, ha⟩ := exists_split_first h'
  refine ⟨b.reverse, c, a.reverse, ?_, hp, by simpa using ha⟩
  rw [← s.reverse_reverse, hs]
  simp

theorem findFirst_eq_none {p : α → Bool} {s : List α} :
    findFirst p s = none ↔ ∀ c ∈ s, p c = false := by
  simp [findFirst]

theorem findFirst_lt {p : α → Bool} {s : List α} {i : Nat} (h : findFirst p s = some i) :
    i < s.length :=
  (List.findIdx?_eq_some_iff_findIdx_eq.mp h).1

theorem findLast_eq_none {p : α → Bool} {s : List α} :
    findLast p s = none ↔ ∀ c ∈ s, p c = false := by
  simp [findLast]

theorem findFirst_append {p : α → Bool} {a b : List α} {c : α} (hc : p c = true)
    (ha : ∀ x ∈ a, p x = false) : findFirst p (a ++ c :: b) = some a.length := by
  induction a with
  | nil => simp [findFirst, List.findIdx?_cons, hc]
  | cons x a ih =>
    obtain ⟨hx, ha⟩ := List.forall_mem_cons.mp ha
    have ih := ih ha
    simp only [findFirst, List.cons_append, List.findIdx?_cons, hx] at ih ⊢
    simp [ih]

theorem findLast_append {p : α → Bool} {a b : List α} {c : α} (hc : p c = true)
    (hb : ∀ x ∈ b, p x = false) : findLast p (a ++ c :: b) = some a.length := by
  have h := findFirst_append (b := a.reverse) hc (a := b.reverse) (by simpa using hb)
  simp only [findFirst] at h
  simp [findLast, h]

end Mdgate.Lib
