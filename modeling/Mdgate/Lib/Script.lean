import Mathlib.Data.List.Basic

/-!
# Scripts over several objects

A script is a list of calls run in order by one caller, each on at most one
object of many. `calls` is the part of the script that concerns one object and
`progress` counts how many of these have been made when the script is at `n`.
-/

namespace Mdgate.Lib.Script

universe u v

variable {α : Type u} {κ : Type v} [DecidableEq κ] (target : α → Option κ)

def calls (script : List α) (key : κ) : List α := script.filter fun a => target a == some key

/-- The number of calls on `key` among the first `n` of the script. -/
def progress (script : List α) (n : Nat) (key : κ) : Nat :=
  (script.take n).countP fun a => target a == some key

variable {target} {script : List α} {n : Nat} {key : κ} {a : α}

theorem progress_succ (h : script[n]? = some a) : progress target script (n + 1) key =
    progress target script n key + if target a = some key then 1 else 0 := by
  rw [progress, List.take_add_one, h, List.countP_append]
  simp [progress, List.countP_cons]

theorem progress_succ_self (h : script[n]? = some a) (ha : target a = some key) :
    progress target script (n + 1) key = progress target script n key + 1 := by
  rw [progress_succ h, if_pos ha]

theorem progress_succ_of_ne (h : script[n]? = some a) (ha : target a ≠ some key) :
    progress target script (n + 1) key = progress target script n key := by
  rw [progress_succ h, if_neg ha, Nat.add_zero]

/-- The next call of the script, when it is on `key`, is the next call on `key`. -/
theorem getElem?_calls (h : script[n]? = some a) (ha : target a = some key) :
    (calls target script key)[progress target script n key]? = some a := by
  obtain ⟨hn, rfl⟩ := List.getElem?_eq_some_iff.mp h
  have hcalls : calls target script key = calls target (script.take n) key ++
      script[n] :: calls target (script.drop (n + 1)) key :=
    calc calls target script key
      _ = calls target (script.take n ++ script[n] :: script.drop (n + 1)) key := by
        rw [← List.drop_eq_getElem_cons hn, List.take_append_drop]
      _ = _ := by rw [calls, List.filter_append, List.filter_cons_of_pos (by simp [ha])]; rfl
  rw [hcalls, progress, List.countP_eq_length_filter]
  exact List.getElem?_append_right (Nat.le_refl _) |>.trans (by simp [calls])

end Mdgate.Lib.Script
