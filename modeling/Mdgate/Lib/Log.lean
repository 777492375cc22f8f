import Mathlib.Algebra.Order.BigOperators.Group.List
import Mathlib.Algebra.Order.Group.Nat
import Mathlib.Data.List.Induction

/-!
# Logs

A log lists what has happened, the newest last. `Each P` says that every event of the log stands
in relation `P` to the events before it; a log grows at its end, so that a step proves `P` of the
new events only. `Rounds` says that the events of one kind come in complete rounds, but for the
part of a round at the end.
-/

namespace Mdgate.Lib.Log

variable {ε : Type*} {P Q : List ε → ε → Prop} {log l l' es : List ε} {e x : ε}

/-- A split of a list that was extended is one of the list, or at its new end. -/
theorem concat_eq_split (h : log ++ [e] = l ++ x :: l') :
    (log = l ∧ e = x) ∨ ∃ l'', log = l ++ x :: l'' := by
  rcases List.eq_nil_or_concat l' with rfl | ⟨l'', y, rfl⟩
  · obtain ⟨rfl, hx⟩ := List.append_inj' h rfl
    exact .inl ⟨rfl, (List.cons.inj hx).1⟩
  · rw [List.concat_eq_append, ← List.cons_append, ← List.append_assoc] at h
    exact .inr ⟨l'', (List.append_inj' h rfl).1⟩

/-- Every event stands in relation `P` to those before it. -/
def Each (P : List ε → ε → Prop) (log : List ε) : Prop :=
  ∀ l x l', log = l ++ x :: l' → P l x

namespace Each

theorem nil : Each P [] := fun l x l' h => by simp at h

theorem concat (h : Each P log) (he : P log e) : Each P (log ++ [e]) := by
  intro l x l' hl
  rcases concat_eq_split hl with ⟨rfl, rfl⟩ | ⟨l'', rfl⟩
  · exact he
  · exact h l x l'' rfl

theorem append (h : Each P log) (hes : Each (fun l x => P (log ++ l) x) es) :
    Each P (log ++ es) := by
  induction es using List.reverseRecOn with
  | nil => simpa using h
  | append_singleton es e ih =>
    rw [← List.append_assoc]
    refine concat (ih fun l x l' hl => hes l x (l' ++ [e]) ?_) (hes es e [] (by simp))
    rw [hl, List.append_assoc, List.cons_append]

theorem mono (h : Each P log) (hPQ : ∀ l x, P l x → Q l x) : Each Q log :=
  fun l x l' hl => hPQ l x (h l x l' hl)

end Each

/-- The events that satisfy `p` are complete rounds, and then `part` of one. -/
def Rounds (p : ε → Bool) (round : List ε → Prop) (log part : List ε) : Prop :=
  ∃ rounds : List (List ε), (∀ r ∈ rounds, round r) ∧ log.filter p = rounds.flatten ++ part

namespace Rounds

variable {p : ε → Bool} {round : List ε → Prop} {part : List ε}

theorem nil : Rounds p round [] [] := ⟨[], by simp, rfl⟩

theorem append_others (h : Rounds p round log part) (hes : ∀ e ∈ es, p e = false) :
    Rounds p round (log ++ es) part := by
  obtain ⟨rounds, hr, hlog⟩ := h
  refine ⟨rounds, hr, ?_⟩
  rw [List.filter_append, hlog, List.filter_eq_nil_iff.mpr fun e he => by simp [hes e he],
    List.append_nil]

theorem concat (h : Rounds p round log part) (he : p e = true) :
    Rounds p round (log ++ [e]) (part ++ [e]) := by
  obtain ⟨rounds, hr, hlog⟩ := h
  refine ⟨rounds, hr, ?_⟩
  rw [List.filter_append, hlog, List.filter_cons_of_pos he, List.filter_nil, List.append_assoc]

theorem close (h : Rounds p round log part) (hpart : round part) : Rounds p round log [] := by
  obtain ⟨rounds, hr, hlog⟩ := h
  refine ⟨rounds ++ [part], fun r hmem => ?_, by simpa using hlog⟩
  rcases List.mem_append.mp hmem with hmem | hmem
  · exact hr r hmem
  · rwa [List.mem_singleton.mp hmem]

variable {q q' : ε → Bool}

theorem countP_filter_eq (hq : ∀ e, q e = true → p e = true) :
    (log.filter p).countP q = log.countP q := by
  rw [List.countP_filter]
  refine List.countP_congr fun e _ => ?_
  rw [Bool.and_eq_true]
  exact ⟨fun h => h.1, fun h => ⟨h, hq e h⟩⟩

/-- What is no more frequent in a round is no more frequent in the log. -/
theorem countP_le (h : Rounds p round log part) (hq : ∀ e, q e = true → p e = true)
    (hq' : ∀ e, q' e = true → p e = true) (hround : ∀ r, round r → r.countP q ≤ r.countP q')
    (hpart : part.countP q ≤ part.countP q') : log.countP q ≤ log.countP q' := by
  obtain ⟨rounds, hr, hlog⟩ := h
  rw [← countP_filter_eq hq, ← countP_filter_eq hq', hlog, List.countP_append, List.countP_append,
    List.countP_flatten, List.countP_flatten]
  exact Nat.add_le_add (List.sum_le_sum fun r hmem => hround r (hr r hmem)) hpart

/-- An event that is not of the part at the end is of a complete round. -/
theorem exists_round (h : Rounds p round log part) (he : e ∈ log) (hp : p e = true)
    (hpart : e ∉ part) (hq : ∀ e, q e = true → p e = true) :
    ∃ r, round r ∧ e ∈ r ∧ (∀ x ∈ r, x ∈ log) ∧ r.countP q + part.countP q ≤ log.countP q := by
  obtain ⟨rounds, hr, hlog⟩ := h
  have hmem : e ∈ rounds.flatten ++ part := hlog ▸ List.mem_filter.mpr ⟨he, hp⟩
  obtain ⟨r, hrmem, her⟩ := List.mem_flatten.mp ((List.mem_append.mp hmem).resolve_right hpart)
  refine ⟨r, hr r hrmem, her, fun x hx => ?_, ?_⟩
  · refine List.mem_of_mem_filter (p := p) (hlog ▸ List.mem_append_left part ?_)
    exact List.mem_flatten.mpr ⟨r, hrmem, hx⟩
  refine Nat.le_trans ?_ (countP_filter_eq hq).le
  rw [hlog, List.countP_append, List.countP_flatten]
  exact Nat.add_le_add_right (List.single_le_sum (by simp) _ (List.mem_map_of_mem hrmem)) _

end Rounds

end Mdgate.Lib.Log
