import Mathlib.Data.List.Perm.Basic

/-!
# Threads as a list of program counters

A step moves one thread of a list. What does not depend on the order of the threads (a count, a
membership, the bag of what they hold) is proved from the two permutations of `exists_rest`: the
thread that moves beside the others, before and after.
-/

namespace Mdgate.Lib.Threads

variable {α : Type*} {l : List α} {i : Nat} {a : α}

theorem exists_rest (h : l[i]? = some a) (b : α) :
    ∃ rest, l.Perm (a :: rest) ∧ (l.set i b).Perm (b :: rest) := by
  obtain ⟨hi, rfl⟩ := List.getElem?_eq_some_iff.mp h
  refine ⟨l.eraseIdx i, (List.getElem_cons_eraseIdx_perm hi).symm, ?_⟩
  have hset := List.getElem_cons_eraseIdx_perm (l := l.set i b) (n := i)
    (by simpa using hi)
  rw [List.getElem_set_self, List.eraseIdx_set_eq] at hset
  exact hset.symm

theorem exists_erased (h : l[i]? = some a) : l.Perm (a :: l.eraseIdx i) := by
  obtain ⟨hi, rfl⟩ := List.getElem?_eq_some_iff.mp h
  exact (List.getElem_cons_eraseIdx_perm hi).symm

theorem getElem?_set_iff {j : Nat} {b c : α} (h : l[i]? = some a) :
    (l.set i b)[j]? = some c ↔ (j = i ∧ c = b) ∨ (j ≠ i ∧ l[j]? = some c) := by
  obtain ⟨hi, -⟩ := List.getElem?_eq_some_iff.mp h
  rw [List.getElem?_set]
  by_cases hj : i = j
  · subst hj
    simp [hi, eq_comm]
  · simp [hj, Ne.symm hj]

theorem getElem?_concat_iff {j : Nat} {b c : α} :
    (l ++ [b])[j]? = some c ↔ (j = l.length ∧ c = b) ∨ l[j]? = some c := by
  rcases Nat.lt_trichotomy j l.length with hj | rfl | hj
  · rw [List.getElem?_append_left hj]
    simp [Nat.ne_of_lt hj]
  · simp [eq_comm]
  · rw [List.getElem?_eq_none (by simp; omega), List.getElem?_eq_none (by omega)]
    simp [Nat.ne_of_gt hj]

/-- Some thread is at `p`, when one goes from `a` to `b`. -/
theorem any_move {l' rest : List α} {b : α} {p : α → Bool} (hl : l.Perm (a :: rest))
    (hl' : l'.Perm (b :: rest)) (hp : p a = true → p b = true) (h : l.any p = true) :
    l'.any p = true := by
  rw [hl.any_eq, List.any_cons, Bool.or_eq_true] at h
  rw [hl'.any_eq, List.any_cons, Bool.or_eq_true]
  exact h.imp_left hp

theorem all_move {l' rest : List α} {b : α} {p : α → Prop} (hl : l.Perm (a :: rest))
    (hl' : l'.Perm (b :: rest)) (hb : p b) (h : ∀ w ∈ l, p w) : ∀ w ∈ l', p w := by
  intro w hw
  rcases List.mem_cons.mp (hl'.mem_iff.mp hw) with rfl | hw
  · exact hb
  · exact h w (hl.mem_iff.mpr (List.mem_cons_of_mem _ hw))

theorem any_of_perm_cons {rest : List α} {p : α → Bool} (hl : l.Perm (a :: rest))
    (ha : p a = true) : l.any p = true := by
  rw [hl.any_eq, List.any_cons, ha, Bool.true_or]

end Mdgate.Lib.Threads
