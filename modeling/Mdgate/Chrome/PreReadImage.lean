import Mathlib.Algebra.BigOperators.Group.List.Basic
import Mathlib.Algebra.Order.Group.Nat
import Mathlib.Algebra.Ring.Nat

/-!
# Reading an image with a cap

`PreReadImage` on Vista and later reads a file from its start, in steps, until
`size_to_read` bytes have been read. How many bytes a call of `ReadFile` returns
before the end of the file is the system's choice, up to the step.

The loop reads before it looks at the cap, so the call that finds the cap
reached has already been made. `pre_read_cap_iff` says that this happens for
every file that is not shorter than the cap.
-/

namespace Mdgate.Chrome

/-- What `PreReadImage` gets from the system. -/
structure System where
  /-- The length of the file, if `CreateFile` opens it. -/
  file : Option Nat
  virtualAlloc : Bool
  /-- How many bytes each call of `ReadFile` would return. -/
  readFile : Nat → Nat

/-- `*len` after a `ReadFile` of `step` bytes at `position`: at least one byte before the end. -/
def readLength (length position step choice : Nat) : Nat :=
  if position < length then max 1 (min choice (min step (length - position))) else 0

theorem lt_of_readLength {length position step choice : Nat}
    (h : 0 < readLength length position step choice) : position < length := by
  unfold readLength at h
  split at h <;> omega

/-- The loop of `PreReadImage`, from its call of `ReadFile` on: the bytes of each call. -/
def readLoop (w : Nat) (readFile : Nat → Nat) (length sizeToRead step : Nat)
    (call position totalRead : Nat) : List Nat :=
  let len := readLength length position step (readFile call)
  if 0 < len ∧ (sizeToRead = 0 ∨ totalRead < sizeToRead) then
    len :: readLoop w readFile length sizeToRead step (call + 1) (position + len)
      ((totalRead + len) % 2 ^ w)
  else [len]
termination_by length - position
decreasing_by
  rename_i hlen
  have hlt := lt_of_readLength hlen.1
  omega

/-- `PreReadImage` on Vista and later, with a `size_t` of `w` bits: the result, and the bytes
of each call of `ReadFile`. -/
def preReadImage (w : Nat) (sys : System) (sizeToRead stepSize : Nat) : Bool × List Nat :=
  match sys.file with
  | none => (false, [])
  | some length =>
    let actualStepSize := max (stepSize % 2 ^ 32) (1024 * 1024)
    if sys.virtualAlloc then
      (true, readLoop w sys.readFile length sizeToRead actualStepSize 0 0 0)
    else (false, [])

/-! ## The cap -/

/-- What the calls of `ReadFile` are to read. -/
structure HonoursCap (length sizeToRead stepSize : Nat) (reads : List Nat) : Prop where
  whole : sizeToRead = 0 → reads.sum = length
  stops : 0 < sizeToRead → ∀ before n after, reads = before ++ n :: after → before.sum < sizeToRead
  least : 0 < sizeToRead → min sizeToRead length ≤ reads.sum
  most : 0 < sizeToRead → reads.sum < sizeToRead + max stepSize (1024 * 1024)

variable {w length sizeToRead step call position totalRead choice : Nat} {readFile : Nat → Nat}

theorem readLength_le : readLength length position step choice ≤ length - position := by
  unfold readLength
  split <;> omega

theorem readLength_eq_zero (h : ¬ 0 < readLength length position step choice) :
    length ≤ position := by
  unfold readLength at h
  split at h <;> omega

/-- A loop whose cap the file does not reach reads the rest of the file. -/
theorem readLoop_sum (hcap : sizeToRead = 0 ∨ length < sizeToRead)
    (hpos : position ≤ length) (htotal : totalRead ≤ position) :
    (readLoop w readFile length sizeToRead step call position totalRead).sum =
      length - position := by
  fun_induction readLoop w readFile length sizeToRead step call position totalRead with
  | case1 call position totalRead len hlen ih =>
    have hle : len ≤ length - position := readLength_le
    have hmod := Nat.mod_le (totalRead + len) (2 ^ w)
    rw [List.sum_cons, ih (by omega) (by omega)]
    omega
  | case2 call position totalRead len hlen =>
    have hzero : ¬ 0 < len := by
      intro h0
      exact hlen ⟨h0, by omega⟩
    have hend : length ≤ position := readLength_eq_zero hzero
    simp only [List.sum_singleton]
    omega

/-- A loop whose cap the file reaches makes a call after that. -/
theorem readLoop_late (hcap : sizeToRead ≤ length) (htotal : totalRead ≤ position) :
    ∃ before n, readLoop w readFile length sizeToRead step call position totalRead =
      before ++ [n] ∧ sizeToRead ≤ position + before.sum := by
  fun_induction readLoop w readFile length sizeToRead step call position totalRead with
  | case1 call position totalRead len hlen ih =>
    have hmod := Nat.mod_le (totalRead + len) (2 ^ w)
    obtain ⟨before, n, hreads, hlate⟩ := ih (by omega)
    refine ⟨len :: before, n, ?_, ?_⟩
    · rw [hreads, List.cons_append]
    · rw [List.sum_cons]
      omega
  | case2 call position totalRead len hlen =>
    refine ⟨[], len, rfl, ?_⟩
    rw [List.sum_nil]
    by_cases h0 : 0 < len
    · have hreached : ¬ totalRead < sizeToRead := fun h => hlen ⟨h0, .inr h⟩
      omega
    · have hend : length ≤ position := readLength_eq_zero h0
      omega

theorem not_honoursCap {stepSize : Nat} (hsize : 0 < sizeToRead) (hcap : sizeToRead ≤ length) :
    ¬ HonoursCap length sizeToRead stepSize
      (readLoop w readFile length sizeToRead step call 0 0) := by
  intro h
  obtain ⟨before, n, hreads, hlate⟩ : ∃ before n,
      readLoop w readFile length sizeToRead step call 0 0 = before ++ [n] ∧
        sizeToRead ≤ 0 + before.sum := readLoop_late hcap (Nat.le_refl 0)
  have hstop := h.stops hsize before n [] hreads
  omega

/-- A file that does not reach the cap is read to its end. -/
theorem honoursCap {stepSize : Nat} (hcap : sizeToRead = 0 ∨ length < sizeToRead) :
    HonoursCap length sizeToRead stepSize
      (readLoop w readFile length sizeToRead step call 0 0) := by
  have hsum : (readLoop w readFile length sizeToRead step call 0 0).sum = length - 0 :=
    readLoop_sum hcap (Nat.zero_le _) (Nat.le_refl _)
  refine ⟨fun _ => hsum, fun hsize before n after hreads => ?_, fun _ => ?_, fun hsize => ?_⟩
  · rw [hreads, List.sum_append] at hsum
    omega
  · omega
  · omega

/-- **The cap**: it is honoured exactly when there is none or the file is shorter,
whatever `ReadFile` returns. -/
theorem pre_read_cap_iff (w length sizeToRead stepSize : Nat) (readFile : Nat → Nat) :
    HonoursCap length sizeToRead stepSize
        (preReadImage w ⟨some length, true, readFile⟩ sizeToRead stepSize).2 ↔
      sizeToRead = 0 ∨ length < sizeToRead := by
  show HonoursCap length sizeToRead stepSize (readLoop w readFile length sizeToRead _ 0 0 0) ↔ _
  constructor
  · intro h
    by_contra hno
    exact not_honoursCap (by omega) (by omega) h
  · exact honoursCap

/-- A file of 2 MiB and a cap of 1 MiB: the second call of `ReadFile` reads the rest. -/
theorem not_pre_read_cap : ¬ ∀ w length sizeToRead stepSize readFile,
    HonoursCap length sizeToRead stepSize
      (preReadImage w ⟨some length, true, readFile⟩ sizeToRead stepSize).2 := by
  intro h
  exact not_honoursCap (by decide) (by decide) (h 32 (2 ^ 21) (2 ^ 20) 0 fun _ => 2 ^ 20)

end Mdgate.Chrome
