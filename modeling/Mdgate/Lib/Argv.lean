import Mathlib.Data.List.TakeWhile

/-!
# Command lines read into arguments

How a command line in one string is cut into its arguments: blanks outside of quotation marks
separate, `2n` backslashes before a quotation mark are `n` backslashes and a delimiter, `2n + 1` are
`n` backslashes and a literal quotation mark, and other backslashes are themselves. The program
comes first and knows no backslash rule. `Reads` and `Splits` say only what these rules say; `split`
is one function that follows them.
-/

namespace Mdgate.Lib.Argv

universe u

/-- The characters that the rules name. -/
structure Marks (α : Type u) where
  blank : α → Bool
  quote : α
  backslash : α
  quote_ne_backslash : quote ≠ backslash
  blank_quote : blank quote = false
  blank_backslash : blank backslash = false

variable {α : Type u} (m : Marks α)

/-- The end of an argument: nothing or a blank. -/
def AtEnd (rest : List α) : Prop := ∀ c ∈ rest.head?, m.blank c = true

/-- From within quotation marks (`true`) or not, `arg` is read and `rest` is left. -/
inductive Reads : Bool → List α → List α → List α → Prop where
  | stop {rest : List α} : AtEnd m rest → Reads false rest [] rest
  | char {q : Bool} {c : α} {l arg rest : List α} : c ≠ m.quote → c ≠ m.backslash →
      (q = true ∨ m.blank c = false) → Reads q l arg rest → Reads q (c :: l) (c :: arg) rest
  | delimiter {q : Bool} {l arg rest : List α} (n : Nat) : (q = true → l.head? ≠ some m.quote) →
      Reads (!q) l arg rest →
      Reads q (List.replicate (2 * n) m.backslash ++ m.quote :: l)
        (List.replicate n m.backslash ++ arg) rest
  | literal {q : Bool} {l arg rest : List α} (n : Nat) : Reads q l arg rest →
      Reads q (List.replicate (2 * n + 1) m.backslash ++ m.quote :: l)
        (List.replicate n m.backslash ++ m.quote :: arg) rest
  | backslashes {q : Bool} {l arg rest : List α} (n : Nat) : 0 < n →
      l.head? ≠ some m.quote → l.head? ≠ some m.backslash → Reads q l arg rest →
      Reads q (List.replicate n m.backslash ++ l) (List.replicate n m.backslash ++ arg) rest

/-- The arguments after the program. -/
inductive Splits : List α → List (List α) → Prop where
  | nil {l : List α} : (∀ c ∈ l, m.blank c = true) → Splits l []
  | cons {b l arg rest : List α} {args : List (List α)} : (∀ c ∈ b, m.blank c = true) → l ≠ [] →
      (∀ c ∈ l.head?, m.blank c = false) → Reads m false l arg rest → Splits rest args →
      Splits (b ++ l) (arg :: args)

/-- The program: all up to the next quotation mark, or up to the first blank. -/
inductive ReadsProgram : List α → List α → List α → Prop where
  | quoted {p rest : List α} : m.quote ∉ p → AtEnd m rest →
      ReadsProgram (m.quote :: (p ++ m.quote :: rest)) p rest
  | plain {p rest : List α} : p ≠ [] → (∀ c ∈ p, m.blank c = false ∧ c ≠ m.quote) →
      AtEnd m rest → ReadsProgram (p ++ rest) p rest

/-- `f` follows the rules where these say what the arguments are. It is given lines that end before
a `nul`, so that nothing is asked of the others. -/
def Follows (nul : α) (f : List α → List (List α)) : Prop :=
  ∀ l p rest args, nul ∉ l → ReadsProgram m l p rest → Splits m rest args → f l = p :: args

variable {m} {q : Bool} {l arg rest : List α} {args : List (List α)} {n : Nat}

theorem mem_replicate_of_le {k : Nat} {c d : α} (h : c ∈ List.replicate n d) (hk : n ≤ k) :
    c ∈ List.replicate k d := by
  obtain ⟨hn, rfl⟩ := List.mem_replicate.mp h
  exact List.mem_replicate.mpr ⟨by omega, rfl⟩

theorem Reads.subset (h : Reads m q l arg rest) : arg ⊆ l := by
  induction h with
  | stop => exact List.nil_subset _
  | char _ _ _ _ ih => exact List.cons_subset_cons _ ih
  | delimiter n _ _ ih =>
    intro c hc
    rcases List.mem_append.mp hc with hc | hc
    · exact List.mem_append_left _ (mem_replicate_of_le hc (by omega))
    · exact List.mem_append_right _ (List.mem_cons_of_mem _ (ih hc))
  | literal n _ ih =>
    intro c hc
    rcases List.mem_append.mp hc with hc | hc
    · exact List.mem_append_left _ (mem_replicate_of_le hc (by omega))
    · exact List.mem_append_right _ (List.cons_subset_cons _ ih hc)
  | backslashes n _ _ _ _ ih =>
    exact List.append_subset.mpr
      ⟨List.subset_append_left _ _, List.subset_append_of_subset_right _ ih⟩

theorem Reads.rest_subset (h : Reads m q l arg rest) : rest ⊆ l := by
  induction h with
  | stop => exact List.Subset.refl _
  | char _ _ _ _ ih => exact List.subset_cons_of_subset _ ih
  | delimiter n _ _ ih =>
    exact List.subset_append_of_subset_right _ (List.subset_cons_of_subset _ ih)
  | literal n _ ih =>
    exact List.subset_append_of_subset_right _ (List.subset_cons_of_subset _ ih)
  | backslashes n _ _ _ _ ih => exact List.subset_append_of_subset_right _ ih

theorem Splits.subset (h : Splits m l args) : ∀ a ∈ args, a ⊆ l := by
  induction h with
  | nil => exact fun a ha => (by cases ha)
  | cons _ _ _ hreads _ ih =>
    intro a ha
    refine List.subset_append_of_subset_right _ ?_
    rcases List.mem_cons.mp ha with rfl | ha
    · exact hreads.subset
    · exact List.Subset.trans (ih a ha) hreads.rest_subset

theorem Reads.length_le (h : Reads m q l arg rest) : rest.length ≤ l.length := by
  induction h with
  | stop => exact Nat.le_refl _
  | char _ _ _ _ ih => exact Nat.le_succ_of_le ih
  | delimiter n _ _ ih =>
    rw [List.length_append, List.length_cons]
    omega
  | literal n _ ih =>
    rw [List.length_append, List.length_cons]
    omega
  | backslashes n _ _ _ _ ih =>
    rw [List.length_append]
    omega

theorem Reads.length_lt (h : Reads m q l arg rest) (hl : l ≠ [])
    (hhead : ∀ c ∈ l.head?, m.blank c = false) : rest.length < l.length := by
  cases h with
  | stop hend =>
    cases l with
    | nil => exact absurd rfl hl
    | cons c l =>
      have hc := hend c rfl
      rw [hhead c rfl] at hc
      cases hc
  | char _ _ _ h =>
    have hle := h.length_le
    rw [List.length_cons]
    omega
  | delimiter n _ h =>
    have hle := h.length_le
    rw [List.length_append, List.length_cons]
    omega
  | literal n h =>
    have hle := h.length_le
    rw [List.length_append, List.length_cons]
    omega
  | backslashes n hn _ _ h =>
    have hle := h.length_le
    rw [List.length_append, List.length_replicate]
    omega

/-! ## A function that follows the rules -/

variable (m) [DecidableEq α]

def read : Bool → Nat → List α → List α × List α
  | _, n, [] => (List.replicate n m.backslash, [])
  | q, n, c :: l =>
    if c = m.backslash then read q (n + 1) l
    else if c = m.quote then
      if n % 2 = 0 then (read (!q) 0 l).map (List.replicate (n / 2) m.backslash ++ ·) id
      else (read q 0 l).map (List.replicate (n / 2) m.backslash ++ m.quote :: ·) id
    else if q = false ∧ m.blank c then (List.replicate n m.backslash, c :: l)
    else (read q 0 l).map (List.replicate n m.backslash ++ c :: ·) id

def splitArgs : Nat → List α → List (List α)
  | 0, _ => []
  | fuel + 1, l =>
    match l.dropWhile m.blank with
    | [] => []
    | c :: l' => (read m false 0 (c :: l')).1 :: splitArgs fuel (read m false 0 (c :: l')).2

def split (l : List α) : List (List α) :=
  match l with
  | [] => []
  | c :: l' =>
    if c = m.quote then
      l'.takeWhile (· ≠ m.quote) :: splitArgs m l.length ((l'.dropWhile (· ≠ m.quote)).tail)
    else l.takeWhile (!m.blank ·) :: splitArgs m l.length (l.dropWhile (!m.blank ·))

variable {m}

theorem read_replicate (k : Nat) : read m q n (List.replicate k m.backslash ++ l) =
    read m q (n + k) l := by
  induction k generalizing n with
  | zero => rfl
  | succ k ih =>
    rw [List.replicate_succ, List.cons_append, read, if_pos rfl, ih, Nat.add_right_comm]
    rfl

theorem read_quote : read m q n (m.quote :: l) =
    if n % 2 = 0 then (read m (!q) 0 l).map (List.replicate (n / 2) m.backslash ++ ·) id
    else (read m q 0 l).map (List.replicate (n / 2) m.backslash ++ m.quote :: ·) id := by
  rw [read, if_neg m.quote_ne_backslash, if_pos rfl]

/-- Backslashes that no quotation mark follows are themselves. -/
theorem read_backslashes (hquote : l.head? ≠ some m.quote) (hback : l.head? ≠ some m.backslash) :
    read m q n l = (read m q 0 l).map (List.replicate n m.backslash ++ ·) id := by
  cases l with
  | nil => simp [read]
  | cons c l =>
    have hc : c ≠ m.quote := by simpa using hquote
    have hc' : c ≠ m.backslash := by simpa using hback
    simp only [read, if_neg hc, if_neg hc']
    split
    · simp
    · rfl

theorem Reads.read_eq (h : Reads m q l arg rest) : read m q 0 l = (arg, rest) := by
  induction h with
  | @stop rest hend =>
    cases rest with
    | nil => rfl
    | cons c l =>
      have hc : m.blank c = true := hend c rfl
      have hq : c ≠ m.quote := fun hq => by simp [hq, m.blank_quote] at hc
      have hb : c ≠ m.backslash := fun hb => by simp [hb, m.blank_backslash] at hc
      rw [read, if_neg hb, if_neg hq, if_pos ⟨rfl, hc⟩]
      rfl
  | char hq hb hblank _ ih =>
    rw [read, if_neg hb, if_neg hq, if_neg, ih]
    · rfl
    · rintro ⟨rfl, hc⟩
      rcases hblank with hblank | hblank
      · cases hblank
      · rw [hblank] at hc
        cases hc
  | delimiter n _ _ ih =>
    rw [read_replicate, read_quote, if_pos (by omega), ih, show (0 + 2 * n) / 2 = n by omega]
    rfl
  | literal n _ ih =>
    rw [read_replicate, read_quote, if_neg (by omega), ih,
      show (0 + (2 * n + 1)) / 2 = n by omega]
    rfl
  | backslashes n _ hquote hback _ ih =>
    rw [read_replicate, Nat.zero_add, read_backslashes hquote hback, ih]
    rfl

theorem Reads.unique {arg' rest' : List α} (h : Reads m q l arg rest)
    (h' : Reads m q l arg' rest') : arg = arg' ∧ rest = rest' :=
  Prod.mk.inj (h.read_eq.symm.trans h'.read_eq)

theorem Splits.splitArgs_eq (h : Splits m l args) (hfuel : l.length ≤ n) :
    splitArgs m (n + 1) l = args := by
  induction h generalizing n with
  | nil hl =>
    rw [splitArgs, List.dropWhile_eq_nil_iff.mpr hl]
  | @cons b l arg rest args hb hne hhead hreads _ ih =>
    have hdrop : (b ++ l).dropWhile m.blank = l := by
      rw [List.dropWhile_append_of_pos hb]
      cases l with
      | nil => rfl
      | cons c l => rw [List.dropWhile_cons_of_neg (by simp [hhead c rfl])]
    have hlt := hreads.length_lt hne hhead
    rw [List.length_append] at hfuel
    obtain ⟨n, rfl⟩ : ∃ k, n = k + 1 := ⟨n - 1, by omega⟩
    rw [splitArgs, hdrop]
    cases l with
    | nil => exact absurd rfl hne
    | cons c l =>
      simp only [hreads.read_eq]
      rw [ih (by omega)]

theorem split_follows (nul : α) : Follows m nul (split m) := by
  intro l p rest args _ hp hs
  cases hp with
  | @quoted p rest hquote hend =>
    have hp : ∀ c ∈ p, decide (c ≠ m.quote) = true := by
      intro c hc
      rw [decide_eq_true_eq]
      rintro rfl
      exact hquote hc
    have htake : (p ++ m.quote :: rest).takeWhile (· ≠ m.quote) = p := by
      rw [List.takeWhile_append_of_pos hp]
      simp
    have hdrop : (p ++ m.quote :: rest).dropWhile (· ≠ m.quote) = m.quote :: rest := by
      rw [List.dropWhile_append_of_pos hp]
      simp
    rw [split, if_pos rfl, htake, hdrop, List.tail_cons, List.length_cons]
    rw [hs.splitArgs_eq (by simp; omega)]
  | @plain p rest hne hall hend =>
    cases p with
    | nil => exact absurd rfl hne
    | cons c p =>
      have htake : (c :: p ++ rest).takeWhile (!m.blank ·) = c :: p := by
        rw [List.takeWhile_append_of_pos fun d hd => by simp [(hall d hd).1]]
        cases rest with
        | nil => simp
        | cons d rest => simp [hend d rfl]
      have hdrop : (c :: p ++ rest).dropWhile (!m.blank ·) = rest := by
        rw [List.dropWhile_append_of_pos fun d hd => by simp [(hall d hd).1]]
        cases rest with
        | nil => simp
        | cons d rest => simp [hend d rfl]
      have hfuel : (c :: p ++ rest).length = (p.length + rest.length) + 1 := by simp
      rw [List.cons_append] at htake hdrop hfuel ⊢
      rw [split, if_neg (hall c List.mem_cons_self).2, htake, hdrop, hfuel,
        hs.splitArgs_eq (by omega)]

end Mdgate.Lib.Argv
