import Mathlib.Logic.Basic
import Mathlib.Data.List.Basic

/-!
# Machines and guarded runs

A `Machine` is a partial step function with a set of initial states. Every
nondeterministic choice (an interleaving, an event, a message) is an action.
`Reach ok` collects the states of the runs whose every step satisfies the side
condition `ok`, a predicate of the state BEFORE the step and of the action;
`Reachable` is `Reach` with no condition. `exec` runs a list of actions, so
that one concrete run can be computed.
-/

namespace Mdgate.Lib

universe u v w x

structure Machine (σ : Type u) (α : Type v) where
  init : σ → Prop
  step : σ → α → Option σ

namespace Machine

variable {σ : Type u} {α : Type v} (M : Machine σ α)

theorem guard_eq_some {p : Prop} [Decidable p] {a b : σ}
    (h : (if p then some a else none) = some b) : p ∧ a = b :=
  (Option.ite_none_right_eq_some.mp h).imp_right Option.some.inj

/-- The states of the runs whose every step satisfies `ok`. -/
inductive Reach (ok : σ → α → Prop) : σ → Prop where
  | init {s : σ} : M.init s → Reach ok s
  | step {s s' : σ} {a : α} : Reach ok s → ok s a → M.step s a = some s' → Reach ok s'

abbrev Reachable : σ → Prop := M.Reach fun _ _ => True

variable {M}

theorem Reach.mono {ok ok' : σ → α → Prop} (h : ∀ s a, ok s a → ok' s a) {s : σ}
    (hr : M.Reach ok s) : M.Reach ok' s := by
  induction hr with
  | init hi => exact .init hi
  | step _ ha hs ih => exact .step ih (h _ _ ha) hs

theorem Reach.reachable {ok : σ → α → Prop} {s : σ} (hr : M.Reach ok s) : M.Reachable s :=
  hr.mono fun _ _ _ => trivial

/-- **The invariant rule**: what holds at the start and is kept by every
admitted step holds in every state reached. -/
theorem Reach.invariant {ok : σ → α → Prop} {I : σ → Prop} (h0 : ∀ s, M.init s → I s)
    (hs : ∀ s a s', I s → ok s a → M.step s a = some s' → I s') {s : σ} (hr : M.Reach ok s) :
    I s := by
  induction hr with
  | init hi => exact h0 _ hi
  | step _ ha hst ih => exact hs _ _ _ ih ha hst

/-- The invariant rule over facts `J` already known of the states reached. -/
theorem Reach.invariant_of {ok : σ → α → Prop} {I J : σ → Prop} (hJ : ∀ s, M.Reach ok s → J s)
    (h0 : ∀ s, M.init s → I s)
    (hs : ∀ s a s', J s → I s → ok s a → M.step s a = some s' → I s') {s : σ}
    (hr : M.Reach ok s) : I s := by
  induction hr with
  | init hi => exact h0 _ hi
  | step hr ha hst ih => exact hs _ _ _ (hJ _ hr) ih ha hst

/-! ## Computed runs -/

variable (M) in
def exec (s : σ) : List α → Option σ
  | [] => some s
  | a :: as => (M.step s a).bind fun s' => exec s' as

theorem Reach.exec {ok : σ → α → Prop} {s s' : σ} {as : List α} (hr : M.Reach ok s)
    (ha : ∀ a ∈ as, ∀ s, ok s a) (h : M.exec s as = some s') : M.Reach ok s' := by
  induction as generalizing s with
  | nil => cases h; exact hr
  | cons a as ih =>
    obtain ⟨t, ht, h'⟩ := Option.bind_eq_some_iff.mp h
    exact ih (hr.step (ha a List.mem_cons_self s) ht)
      (fun b hb => ha b (List.mem_cons_of_mem _ hb)) h'

/-- A run computed to a state that passes the test `p` reaches such a state. -/
theorem exists_reach (ok : σ → α → Prop) {s : σ} (h0 : M.init s) (as : List α) {p : σ → Bool}
    (ha : ∀ a ∈ as, ∀ s, ok s a) (h : (M.exec s as).any p = true) :
    ∃ s', M.Reach ok s' ∧ p s' = true := by
  cases hs : M.exec s as with
  | none => rw [hs] at h; cases h
  | some s' =>
    rw [hs] at h
    exact ⟨s', Reach.exec (.init h0) ha hs, h⟩

theorem exists_reachable {s : σ} (h0 : M.init s) (as : List α) {p : σ → Bool}
    (h : (M.exec s as).any p = true) : ∃ s', M.Reachable s' ∧ p s' = true :=
  exists_reach _ h0 as (fun _ _ _ => trivial) h

variable (M) in
/-- Every step of the run of these actions satisfies `ok`. -/
def admits (ok : σ → α → Prop) [∀ s, DecidablePred (ok s)] (s : σ) : List α → Bool
  | [] => true
  | a :: as => decide (ok s a) && (M.step s a).all fun s' => admits ok s' as

theorem Reach.exec_of_admits {ok ok' : σ → α → Prop} [∀ s, DecidablePred (ok' s)]
    (hok : ∀ s a, ok' s a → ok s a) {s s' : σ} {as : List α} (hr : M.Reach ok s)
    (ha : M.admits ok' s as = true) (h : M.exec s as = some s') : M.Reach ok s' := by
  induction as generalizing s with
  | nil => cases h; exact hr
  | cons a as ih =>
    obtain ⟨t, ht, h'⟩ := Option.bind_eq_some_iff.mp h
    rw [admits, ht, Option.all_some, Bool.and_eq_true, decide_eq_true_eq] at ha
    exact ih (hr.step (hok s a ha.1) ht) ha.2 h'

/-- A run whose steps satisfy `ok`, computed to a state that passes the test `p`. -/
theorem exists_reach_of_admits (ok : σ → α → Prop) [∀ s, DecidablePred (ok s)] {s : σ}
    (h0 : M.init s) (as : List α) {p : σ → Bool} (ha : M.admits ok s as = true)
    (h : (M.exec s as).any p = true) : ∃ s', M.Reach ok s' ∧ p s' = true := by
  cases hs : M.exec s as with
  | none => rw [hs] at h; cases h
  | some s' =>
    rw [hs] at h
    exact ⟨s', Reach.exec_of_admits (fun _ _ h => h) (.init h0) ha hs, h⟩

variable (M) in
def Leads (s t : σ) : Prop := ∃ as, M.exec s as = some t

theorem Leads.refl (s : σ) : M.Leads s s := ⟨[], rfl⟩

theorem Leads.step {s s' t : σ} {a : α} (hs : M.step s a = some s') (h : M.Leads s' t) :
    M.Leads s t := by
  obtain ⟨as, h⟩ := h
  exact ⟨a :: as, by rw [exec, hs]; exact h⟩

theorem Leads.trans {s t u : σ} (h1 : M.Leads s t) (h2 : M.Leads t u) : M.Leads s u := by
  obtain ⟨as, h1⟩ := h1
  induction as generalizing s with
  | nil =>
    cases h1
    exact h2
  | cons a as ih =>
    obtain ⟨s', hs, h1⟩ := Option.bind_eq_some_iff.mp h1
    exact (ih h1).step hs

theorem Leads.reachable {s t : σ} (h : M.Leads s t) (hr : M.Reachable s) : M.Reachable t := by
  obtain ⟨as, h⟩ := h
  exact hr.exec (fun _ _ _ => trivial) h

/-! ## Simulation -/

/-- **Functional simulation**: when every step of `M` is a step of `N` or
stutters under `f`, the states of `M` are reached by `N`. -/
theorem Reach.simulate {τ : Type w} {β : Type x} {N : Machine τ β} (f : σ → τ)
    (hi : ∀ s, M.init s → N.init (f s))
    (hs : ∀ s a s', M.step s a = some s' → f s' = f s ∨ ∃ b, N.step (f s) b = some (f s'))
    {ok : σ → α → Prop} {s : σ} (hr : M.Reach ok s) : N.Reachable (f s) := by
  induction hr with
  | init h => exact .init (hi _ h)
  | step _ _ hst ih =>
    rcases hs _ _ _ hst with h | ⟨b, h⟩
    · rwa [h]
    · exact ih.step trivial h

end Machine

end Mdgate.Lib
