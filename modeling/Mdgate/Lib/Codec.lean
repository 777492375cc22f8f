import Mathlib.Data.List.DropRight
import Mathlib.Data.List.TakeWhile

/-!
# Codes

A code writes a letter as a word of units, and a decoder reads letters off a
sequence of units. `Decoder.Reads` says that a decoder reads back a code: then
decoding undoes encoding. `Transparent` says that certain letters are written as
one unit each which occurs in no other word, as ASCII is in UTF-8 and UTF-16:
then cutting and trimming at these letters may be done on the units.
-/

namespace Mdgate.Lib

variable {α γ : Type*}

/-- Reads one letter, or fails on a malformed one, and leaves the rest. -/
structure Decoder (α γ : Type*) where
  read : α → List α → Option γ × List α
  read_le : ∀ a s, (read a s).2.length ≤ s.length

namespace Decoder

variable {d : Decoder α γ} {enc : γ → List α}

def decode (d : Decoder α γ) (bad : γ) : List α → List γ
  | [] => []
  | a :: s => (d.read a s).1.getD bad :: d.decode bad (d.read a s).2
termination_by s => s.length
decreasing_by exact Nat.lt_succ_of_le (d.read_le a s)

theorem decode_nil (bad : γ) : d.decode bad [] = [] := by rw [decode]

theorem decode_cons (bad : γ) (a : α) (s : List α) :
    d.decode bad (a :: s) = (d.read a s).1.getD bad :: d.decode bad (d.read a s).2 := by
  rw [decode]

/-- The decoder reads back the code, whatever follows a word. -/
def Reads (d : Decoder α γ) (enc : γ → List α) : Prop :=
  ∀ c s, ∃ a w, enc c = a :: w ∧ d.read a (w ++ s) = (some c, s)

theorem Reads.decode_flatMap (h : d.Reads enc) (bad : γ) (cs : List γ) :
    d.decode bad (cs.flatMap enc) = cs := by
  induction cs with
  | nil => exact decode_nil bad
  | cons c cs ih =>
    obtain ⟨a, w, hw, hread⟩ := h c (cs.flatMap enc)
    rw [List.flatMap_cons, hw, List.cons_append, decode_cons, hread]
    simpa using ih

theorem Reads.flatMap_inj (h : d.Reads enc) {cs cs' : List γ} :
    cs.flatMap enc = cs'.flatMap enc ↔ cs = cs' := by
  refine ⟨fun heq => ?_, fun heq => heq ▸ rfl⟩
  cases cs with
  | nil =>
    cases cs' with
    | nil => rfl
    | cons c _ =>
      obtain ⟨a, w, hw, -⟩ := h c []
      simp [hw] at heq
  | cons c cs => rw [← h.decode_flatMap c (c :: cs), heq, h.decode_flatMap]

end Decoder

/-! ## Transparent letters -/

/-- The letters in `p` are written as one unit in `q` each, and no other word has
a unit in `q`. -/
structure Transparent (enc : γ → List α) (p : γ → Bool) (q : α → Bool) : Prop where
  single : ∀ c, p c = true → ∃ a, enc c = [a] ∧ q a = true
  ne_nil : ∀ c, p c = false → enc c ≠ []
  clear : ∀ c, p c = false → ∀ a ∈ enc c, q a = false

namespace Transparent

variable {enc : γ → List α} {p : γ → Bool} {q : α → Bool}

theorem countP (h : Transparent enc p q) (cs : List γ) :
    (cs.flatMap enc).countP q = cs.countP p := by
  induction cs with
  | nil => rfl
  | cons c cs ih =>
    rw [List.flatMap_cons, List.countP_append, ih, List.countP_cons]
    by_cases hp : p c = true
    · obtain ⟨a, ha, hq⟩ := h.single c hp
      simp [ha, hq, hp, Nat.add_comm]
    · have hp' : p c = false := by simpa using hp
      have hclear : (enc c).countP q = 0 := by
        rw [List.countP_eq_zero]
        exact fun a ha => by simp [h.clear c hp' a ha]
      simp [hclear, hp']

theorem exists_mem (h : Transparent enc p q) (cs : List γ) :
    (∃ a ∈ cs.flatMap enc, q a = true) ↔ ∃ c ∈ cs, p c = true := by
  rw [← List.countP_pos_iff, ← List.countP_pos_iff, h.countP]

theorem dropWhile (h : Transparent enc p q) (cs : List γ) :
    (cs.flatMap enc).dropWhile q = (cs.dropWhile p).flatMap enc := by
  induction cs with
  | nil => rfl
  | cons c cs ih =>
    rw [List.flatMap_cons]
    by_cases hp : p c = true
    · obtain ⟨a, ha, hq⟩ := h.single c hp
      rw [ha, List.dropWhile_cons_of_pos hp, List.singleton_append,
        List.dropWhile_cons_of_pos hq, ih]
    · have hp' : p c = false := by simpa using hp
      obtain ⟨a, w, ha⟩ := List.exists_cons_of_ne_nil (h.ne_nil c hp')
      have hq := h.clear c hp' a (by simp [ha])
      rw [ha, List.dropWhile_cons_of_neg hp, List.cons_append,
        List.dropWhile_cons_of_neg (by simp [hq]), List.flatMap_cons, ha, List.cons_append]

/-- A code read backwards has the same transparent letters. -/
theorem reverse (h : Transparent enc p q) : Transparent (List.reverse ∘ enc) p q where
  single c hp := by
    obtain ⟨a, ha, hq⟩ := h.single c hp
    exact ⟨a, by simp [ha], hq⟩
  ne_nil c hp := by simpa using h.ne_nil c hp
  clear c hp a ha := h.clear c hp a (by simpa using ha)

theorem rdropWhile (h : Transparent enc p q) (cs : List γ) :
    (cs.flatMap enc).rdropWhile q = (cs.rdropWhile p).flatMap enc := by
  rw [List.rdropWhile, List.reverse_flatMap, h.reverse.dropWhile, List.reverse_flatMap,
    List.rdropWhile]
  congr 1
  funext c
  simp

theorem takeWhile (h : Transparent enc p q) (cs : List γ) :
    (cs.flatMap enc).takeWhile (!q ·) = (cs.takeWhile (!p ·)).flatMap enc := by
  induction cs with
  | nil => rfl
  | cons c cs ih =>
    rw [List.flatMap_cons]
    by_cases hp : p c = true
    · obtain ⟨a, ha, hq⟩ := h.single c hp
      simp [ha, hq, hp]
    · have hp' : p c = false := by simpa using hp
      have hclear : ∀ a ∈ enc c, (!q a) = true := by simpa using h.clear c hp'
      rw [List.takeWhile_append_of_pos hclear, ih]
      simp [hp']

theorem splitOnP_append {w : List α} (hw : ∀ a ∈ w, q a = false) (s : List α) :
    (w ++ s).splitOnP q = (s.splitOnP q).modifyHead (w ++ ·) := by
  induction w with
  | nil => simp [show (fun x : List α => x) = id from rfl]
  | cons a w ih =>
    obtain ⟨ha, hw⟩ := List.forall_mem_cons.mp hw
    rw [List.cons_append, List.splitOnP_cons_eq_if_modifyHead, ih hw, List.modifyHead_modifyHead]
    simp [ha, Function.comp_def]

theorem splitOnP (h : Transparent enc p q) (cs : List γ) :
    (cs.flatMap enc).splitOnP q = (cs.splitOnP p).map (List.flatMap enc) := by
  induction cs with
  | nil => simp
  | cons c cs ih =>
    rw [List.flatMap_cons, List.splitOnP_cons_eq_if_modifyHead]
    by_cases hp : p c = true
    · obtain ⟨a, ha, hq⟩ := h.single c hp
      rw [ha, List.singleton_append, List.splitOnP_cons_eq_if_modifyHead, ih]
      simp [hp, hq]
    · have hp' : p c = false := by simpa using hp
      rw [splitOnP_append (h.clear c hp'), ih, if_neg hp]
      cases cs.splitOnP p with
      | nil => rfl
      | cons piece pieces => simp

end Transparent

end Mdgate.Lib
