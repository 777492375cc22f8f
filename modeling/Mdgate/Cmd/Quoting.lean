import Mdgate.Cmd.CommandLine

/-!
# Quoting

What `QuoteForCommandLineToArgvW` writes is read back as the argument, whatever comes next. It does
not quote an argument for its tabs, nor an empty one.
-/

namespace Mdgate.Cmd

open Mdgate.Base Mdgate.Lib Mdgate.Lib.Argv

variable {s rest arg : String16} {n : Nat} {q : Bool}

theorem atEnd_not_quote (h : AtEnd marks rest) : rest.head? ≠ some marks.quote := by
  intro hq
  have hblank := h _ hq
  rw [marks.blank_quote] at hblank
  cases hblank

theorem blanks_singleton {c : UInt16} (h : marks.blank c = true) :
    ∀ d ∈ [c], marks.blank d = true := by
  intro d hd
  rw [List.mem_singleton.mp hd, h]

theorem takeWhile_backslash (s : String16) : s =
    List.replicate (s.takeWhile (· == wch '\\')).length (wch '\\') ++
      s.dropWhile (· == wch '\\') := by
  have hrun : s.takeWhile (· == wch '\\') =
      List.replicate (s.takeWhile (· == wch '\\')).length (wch '\\') :=
    List.eq_replicate_iff.mpr ⟨rfl, fun c hc => by simpa using List.mem_takeWhile_imp hc⟩
  conv => lhs; rw [← List.takeWhile_append_dropWhile (p := (· == wch '\\')) (l := s), hrun]

theorem head?_dropWhile_backslash (s : String16) :
    (s.dropWhile (· == wch '\\')).head? ≠ some (wch '\\') := by
  intro h
  have hne := List.head?_dropWhile_not (· == wch '\\') s
  rw [h] at hne
  simp at hne

theorem head?_quoteLoop {c : UInt16} (hc : c ≠ wch '\\') (hq : c ≠ wch '"') :
    quoteLoop (n + 1) (c :: s) = c :: quoteLoop n s := by
  rw [quoteLoop, if_neg hc, if_neg hq]

/-- What is written between quotation marks is read back. -/
theorem reads_quoteLoop (hend : AtEnd marks rest) (hn : s.length ≤ n) :
    Reads marks true (quoteLoop n s ++ wch '"' :: rest) s rest := by
  induction n using Nat.strongRecOn generalizing s with
  | _ n ih =>
    cases s with
    | nil =>
      have hloop : quoteLoop n [] = [] := by cases n <;> rfl
      rw [hloop]
      exact .delimiter (m := marks) 0 (fun _ => atEnd_not_quote hend) (.stop hend)
    | cons c s =>
      obtain ⟨n, rfl⟩ : ∃ k, n = k + 1 := ⟨n - 1, by simp at hn; omega⟩
      rw [List.length_cons] at hn
      by_cases hc : c = wch '\\'
      · subst hc
        have hs := takeWhile_backslash s
        have hhead := head?_dropWhile_backslash s
        rw [quoteLoop, if_pos rfl]
        simp only
        generalize (s.takeWhile (· == wch '\\')).length = k at hs
        generalize s.dropWhile (· == wch '\\') = s' at hs hhead
        subst hs
        rw [List.length_append, List.length_replicate] at hn
        rw [← List.cons_append, ← List.replicate_succ]
        cases s' with
        | nil =>
          have hloop : quoteLoop n [] = [] := by cases n <;> rfl
          rw [if_pos (.inl rfl), hloop, List.append_nil, Nat.mul_comm]
          exact .delimiter (m := marks) (k + 1) (fun _ => atEnd_not_quote hend) (.stop hend)
        | cons d s' =>
          obtain ⟨n, rfl⟩ : ∃ k, n = k + 1 := ⟨n - 1, by simp at hn; omega⟩
          rw [List.length_cons] at hn
          by_cases hd : d = wch '"'
          · subst hd
            rw [if_pos (.inr rfl), quoteLoop, if_neg (by decide), if_pos rfl, List.append_assoc,
              List.cons_append, List.cons_append]
            have hlit := Reads.literal (m := marks) (k + 1)
              (ih n (by omega) (s := s') (by omega))
            rw [List.replicate_succ', List.append_assoc] at hlit
            rw [Nat.mul_comm]
            exact hlit
          · have hd' : d ≠ wch '\\' := by simpa using hhead
            rw [if_neg (by simp [hd]), List.append_assoc]
            refine .backslashes (m := marks) (k + 1) (by omega) ?_ ?_
              (ih (n + 1) (by omega) (by simp; omega))
            · simpa [head?_quoteLoop hd' hd, marks] using hd
            · simpa [head?_quoteLoop hd' hd, marks] using hd'
      · by_cases hq : c = wch '"'
        · subst hq
          rw [quoteLoop, if_neg hc, if_pos rfl]
          exact .literal (m := marks) 0 (ih n (by omega) (by omega))
        · rw [head?_quoteLoop hc hq]
          exact .char (m := marks) hq hc (.inl rfl) (ih n (by omega) (by omega))

/-- An argument that the quoting keeps: not empty, and quoted if there is a tab in it. -/
def Quotable (q : Bool) (arg : String16) : Prop :=
  arg ≠ [] ∧ (wch '\t' ∈ arg → arg.any (quotableChars q).contains = true)

instance : Decidable (Quotable q arg) := inferInstanceAs (Decidable (_ ∧ _))

theorem not_quotable_char {c : UInt16} (h : (quotableChars q).contains c = false) :
    c ≠ wch ' ' ∧ c ≠ wch '\\' ∧ c ≠ wch '"' := by
  refine ⟨?_, ?_, ?_⟩ <;> rintro rfl <;> cases q <;> revert h <;> decide

theorem blank_eq_false {c : UInt16} (hspace : c ≠ wch ' ') (htab : c ≠ wch '\t') :
    marks.blank c = false := by
  simp [marks, hspace, htab]

theorem reads_plain {name l : String16}
    (hname : ∀ c ∈ name, marks.blank c = false ∧ c ≠ wch '"' ∧ c ≠ wch '\\')
    (h : Reads marks false l arg rest) : Reads marks false (name ++ l) (name ++ arg) rest := by
  induction name with
  | nil => exact h
  | cons c name ih =>
    obtain ⟨hblank, hq, hb⟩ := hname c List.mem_cons_self
    exact .char (m := marks) hq hb (.inr hblank)
      (ih fun d hd => hname d (List.mem_cons_of_mem _ hd))

/-- **Quoting is undone by reading.** -/
theorem reads_quote (h : Quotable q arg) (hend : AtEnd marks rest) :
    Reads marks false (quoteForCommandLineToArgvW q arg ++ rest) arg rest := by
  unfold quoteForCommandLineToArgvW
  split
  · rw [List.append_assoc, List.cons_append]
    exact .delimiter (m := marks) 0 (fun hf => (by cases hf))
      (reads_quoteLoop hend (Nat.le_refl _))
  next hany =>
    have hplain : ∀ c ∈ arg, (quotableChars q).contains c = false := by simpa using hany
    have hchars : ∀ c ∈ arg, marks.blank c = false ∧ c ≠ wch '"' ∧ c ≠ wch '\\' := by
      intro c hc
      obtain ⟨hspace, hb, hq⟩ := not_quotable_char (hplain c hc)
      refine ⟨blank_eq_false hspace ?_, hq, hb⟩
      rintro rfl
      exact hany (h.2 hc)
    have hread := reads_plain hchars (.stop (m := marks) hend)
    rwa [List.append_nil] at hread

theorem quote_ne_nil (h : arg ≠ []) : quoteForCommandLineToArgvW q arg ≠ [] := by
  unfold quoteForCommandLineToArgvW
  split
  · simp
  · exact h

/-! ## No NUL -/

theorem cStr_eq {l : String16} (h : 0 ∉ l) : cStr l = l := by
  refine List.takeWhile_eq_self_iff.mpr fun c hc => ?_
  simp only [Bool.not_eq_true', beq_eq_false_iff_ne]
  rintro rfl
  exact h hc

theorem map_cStr_eq {args : List String16} (h : ∀ a ∈ args, 0 ∉ a) : args.map cStr = args :=
  (List.map_congr_left fun a ha => cStr_eq (h a ha)).trans (List.map_id _)

theorem nul_cStr (l : String16) : 0 ∉ cStr l := by
  intro hm
  simpa using List.mem_takeWhile_imp hm

theorem mem_quoteLoop {n : Nat} {c : UInt16} {arg : String16} (h : c ∈ quoteLoop n arg) :
    c ∈ arg ∨ c = wch '\\' ∨ c = wch '"' := by
  induction n generalizing arg with
  | zero => cases h
  | succ n ih =>
    cases arg with
    | nil => cases h
    | cons d arg =>
      rw [quoteLoop] at h
      split at h
      · rcases List.mem_append.mp h with h | h
        · exact .inr (.inl (List.eq_of_mem_replicate h))
        · exact (ih h).imp_left fun hm =>
            List.mem_cons_of_mem _ ((List.dropWhile_sublist _).subset hm)
      · split at h
        · rcases List.mem_cons.mp h with h | h
          · exact .inr (.inl h)
          · rcases List.mem_cons.mp h with h | h
            · exact .inr (.inr h)
            · exact (ih h).imp_left (List.mem_cons_of_mem _)
        · rcases List.mem_cons.mp h with h | h
          · exact .inl (h ▸ List.mem_cons_self)
          · exact (ih h).imp_left (List.mem_cons_of_mem _)

theorem nul_quote {arg : String16} (h : 0 ∉ arg) : 0 ∉ quoteForCommandLineToArgvW q arg := by
  unfold quoteForCommandLineToArgvW
  split
  · intro hm
    rcases List.mem_append.mp hm with hm | hm
    · rcases List.mem_cons.mp hm with hm | hm
      · exact absurd hm (by decide)
      · rcases mem_quoteLoop hm with hm | hm | hm
        · exact h hm
        · exact absurd hm (by decide)
        · exact absurd hm (by decide)
    · exact absurd (List.mem_singleton.mp hm) (by decide)
  · exact h

/-! ## The program -/

/-- A program name that the quoting keeps; the rules for backslashes do not hold in it. -/
structure IsProgram (q : Bool) (program : String16) : Prop where
  ne_nil : program ≠ []
  quote : wch '"' ∉ program
  tab : wch '\t' ∈ program → program.any (quotableChars q).contains = true
  backslash : program.getLast? ≠ some (wch '\\')
  nul : 0 ∉ program

theorem quoteLoop_program (hn : s.length ≤ n) (hquote : wch '"' ∉ s)
    (hlast : s.getLast? ≠ some (wch '\\')) : quoteLoop n s = s := by
  induction n using Nat.strongRecOn generalizing s with
  | _ n ih =>
    cases s with
    | nil => cases n <;> rfl
    | cons c s =>
      obtain ⟨n, rfl⟩ : ∃ k, n = k + 1 := ⟨n - 1, by simp at hn; omega⟩
      rw [List.length_cons] at hn
      by_cases hc : c = wch '\\'
      · subst hc
        have hs := takeWhile_backslash s
        have hhead := head?_dropWhile_backslash s
        rw [quoteLoop, if_pos rfl]
        simp only
        generalize (s.takeWhile (· == wch '\\')).length = k at hs
        generalize s.dropWhile (· == wch '\\') = s' at hs hhead
        subst hs
        rw [List.length_append, List.length_replicate] at hn
        cases s' with
        | nil =>
          refine absurd ?_ hlast
          rw [List.append_nil, ← List.replicate_succ, List.getLast?_replicate, if_neg (by simp)]
        | cons d s' =>
          have hd : d ≠ wch '"' := by
            rintro rfl
            simp at hquote
          rw [if_neg (by simp [hd]), ih n (by omega) (by omega) (fun hm => hquote (by simp [hm]))]
          · rw [← List.cons_append, ← List.replicate_succ]
          · intro hl
            refine hlast ?_
            rw [← List.cons_append, List.getLast?_append, hl]
            rfl
      · have hq : c ≠ wch '"' := by
          rintro rfl
          simp at hquote
        rw [head?_quoteLoop hc hq, ih n (by omega) (by omega) (fun hm => hquote (by simp [hm]))]
        intro hl
        refine hlast ?_
        rw [List.getLast?_cons, hl]
        rfl

theorem readsProgram_quote (h : IsProgram q arg) (hend : AtEnd marks rest) :
    ReadsProgram marks (quoteForCommandLineToArgvW q arg ++ rest) arg rest := by
  unfold quoteForCommandLineToArgvW
  split
  · rw [quoteLoop_program (Nat.le_refl _) h.quote h.backslash, List.append_assoc,
      List.cons_append]
    exact .quoted (m := marks) h.quote hend
  next hany =>
    have hplain : ∀ c ∈ arg, (quotableChars q).contains c = false := by simpa using hany
    refine .plain (m := marks) h.ne_nil (fun c hc => ?_) hend
    obtain ⟨hspace, -, hq⟩ := not_quotable_char (hplain c hc)
    refine ⟨blank_eq_false hspace ?_, hq⟩
    rintro rfl
    exact hany (h.tab hc)

/-! ## The arguments -/

def quotedArgs (q : Bool) (args : List String16) : String16 :=
  args.flatMap fun arg => wch ' ' :: quoteForCommandLineToArgvW q arg

theorem atEnd_quotedArgs (args : List String16) : AtEnd marks (quotedArgs q args) := by
  intro c hc
  cases args with
  | nil => cases hc
  | cons arg args =>
    obtain rfl := Option.some.inj hc
    decide

theorem splits_blanks {b l : String16} {args : List String16} (hb : ∀ c ∈ b, marks.blank c = true)
    (h : Splits marks l args) : Splits marks (b ++ l) args := by
  cases h with
  | nil hl => exact .nil fun c hc => (List.mem_append.mp hc).elim (hb c) (hl c)
  | @cons b' l arg rest args hb' hne hhead hreads hrest =>
    rw [← List.append_assoc]
    exact .cons (fun c hc => (List.mem_append.mp hc).elim (hb c) (hb' c)) hne hhead hreads hrest

/-- An argument that is not quoted is cut at its tabs, into pieces that quoting would keep. -/
theorem splits_unquoted {arg l : String16} {args : List String16}
    (harg : ∀ c ∈ arg, c ≠ wch ' ' ∧ c ≠ wch '\\' ∧ c ≠ wch '"') (h : Splits marks l args)
    (hend : AtEnd marks l) :
    ∃ pieces, Splits marks (arg ++ l) (pieces ++ args) ∧ ∀ a ∈ pieces, Quotable q a := by
  induction hn : arg.length using Nat.strongRecOn generalizing arg with
  | _ n ih =>
    let word := arg.takeWhile fun c => c != wch '\t'
    let rest := arg.dropWhile fun c => c != wch '\t'
    have hcut : arg = word ++ rest := List.takeWhile_append_dropWhile.symm
    have hword : ∀ c ∈ word, c ≠ wch '\t' := fun c hc => by
      simpa using List.mem_takeWhile_imp hc
    have hplain : ∀ c ∈ word, marks.blank c = false ∧ c ≠ wch '"' ∧ c ≠ wch '\\' := by
      intro c hc
      obtain ⟨hspace, hb, hq⟩ := harg c (hcut ▸ List.mem_append_left _ hc)
      exact ⟨blank_eq_false hspace (hword c hc), hq, hb⟩
    have hhead : ∀ c ∈ rest.head?, c = wch '\t' := fun c hc => by
      have hnot := List.head?_dropWhile_not (fun c => c != wch '\t') arg
      rw [show (arg.dropWhile fun c => c != wch '\t').head? = some c from hc] at hnot
      simpa using hnot
    have hlen : word.length + rest.length = n := by rw [← hn, hcut, List.length_append]
    have hrest : ∀ c ∈ rest, c ≠ wch ' ' ∧ c ≠ wch '\\' ∧ c ≠ wch '"' := fun c hc =>
      harg c (hcut ▸ List.mem_append_right _ hc)
    rw [hcut]
    clear_value word rest
    cases word with
    | nil =>
      cases rest with
      | nil => exact ⟨[], h, by simp⟩
      | cons c rest =>
        obtain rfl := hhead c rfl
        obtain ⟨pieces, hsplits, hall⟩ := ih rest.length (by simp at hlen; omega)
          (fun c hc => hrest c (List.mem_cons_of_mem _ hc)) rfl
        exact ⟨pieces, splits_blanks (b := [wch '\t']) (blanks_singleton rfl) hsplits, hall⟩
    | cons c word =>
      obtain ⟨pieces, hsplits, hall⟩ := ih rest.length (by simp at hlen; omega) hrest rfl
      have hstop : AtEnd marks (rest ++ l) := by
        intro d hd
        cases rest with
        | nil => exact hend d hd
        | cons e rest =>
          obtain rfl := Option.some.inj hd
          rw [hhead e rfl]
          decide
      have hread := reads_plain hplain (.stop (m := marks) hstop)
      rw [List.append_nil, ← List.append_assoc] at hread
      refine ⟨(c :: word) :: pieces, ?_, fun a ha => ?_⟩
      · refine .cons (m := marks) (b := []) (by simp) (by simp) (fun d hd => ?_) hread hsplits
        obtain rfl := Option.some.inj hd
        exact (hplain _ List.mem_cons_self).1
      · rcases List.mem_cons.mp ha with rfl | ha
        · exact ⟨by simp, fun ht => absurd rfl (hword _ ht)⟩
        · exact hall a ha

theorem head?_quote_not_blank (h : Quotable q arg) :
    ∀ c ∈ (quoteForCommandLineToArgvW q arg).head?, marks.blank c = false := by
  intro c hc
  unfold quoteForCommandLineToArgvW at hc
  split at hc
  · obtain rfl := Option.some.inj hc
    decide
  next hany =>
    have hplain : ∀ c ∈ arg, (quotableChars q).contains c = false := by simpa using hany
    have hmem : c ∈ arg := List.mem_of_mem_head? hc
    refine blank_eq_false (not_quotable_char (hplain c hmem)).1 ?_
    rintro rfl
    exact hany (h.2 hmem)

/-- Quoted arguments are always read as arguments that the quoting keeps. -/
theorem splits_quotedArgs (args : List String16) :
    ∃ result, Splits marks (quotedArgs q args) result ∧ (∀ a ∈ result, Quotable q a) ∧
      ((∀ a ∈ args, Quotable q a) → result = args) := by
  induction args with
  | nil => exact ⟨[], .nil (by simp [quotedArgs]), by simp, fun _ => rfl⟩
  | cons arg args ih =>
    obtain ⟨result, hsplits, hall, heq⟩ := ih
    have hend := atEnd_quotedArgs (q := q) args
    have hline : quotedArgs q (arg :: args) =
        [wch ' '] ++ (quoteForCommandLineToArgvW q arg ++ quotedArgs q args) := rfl
    by_cases hq : Quotable q arg
    · have hne := quote_ne_nil (q := q) hq.1
      refine ⟨arg :: result, ?_, ?_, fun h => ?_⟩
      · rw [hline]
        refine .cons (m := marks) (blanks_singleton rfl) (by simp [hne]) (fun c hc => ?_)
          (reads_quote hq hend) hsplits
        rw [List.head?_append_of_ne_nil _ hne] at hc
        exact head?_quote_not_blank hq c hc
      · intro a ha
        rcases List.mem_cons.mp ha with rfl | ha
        · exact hq
        · exact hall a ha
      · rw [heq fun a ha => h a (List.mem_cons_of_mem _ ha)]
    · have hany : arg.any (quotableChars q).contains = false := by
        by_contra hany
        refine hq ⟨?_, fun _ => by simpa using hany⟩
        rintro rfl
        exact hany rfl
      have hplain : ∀ c ∈ arg, c ≠ wch ' ' ∧ c ≠ wch '\\' ∧ c ≠ wch '"' := fun c hc =>
        not_quotable_char (q := q) (by simpa using List.any_eq_false.mp hany c hc)
      obtain ⟨pieces, hpieces, hgood⟩ := splits_unquoted (q := q) hplain hsplits hend
      refine ⟨pieces ++ result, ?_, fun a ha => ?_, fun h => absurd (h arg List.mem_cons_self) hq⟩
      · rw [hline, quoteForCommandLineToArgvW, if_neg (by simp [hany])]
        exact splits_blanks (blanks_singleton rfl) hpieces
      · exact (List.mem_append.mp ha).elim (hgood a) (hall a)

theorem nul_quotedArgs {args : List String16} (h : ∀ a ∈ args, 0 ∉ a) : 0 ∉ quotedArgs q args := by
  intro hm
  obtain ⟨arg, harg, hm⟩ := List.mem_flatMap.mp hm
  rcases List.mem_cons.mp hm with hm | hm
  · exact absurd hm (by decide)
  · exact nul_quote (h arg harg) hm

/-- What a program is started with: the line and the arguments are null-terminated. Quoted arguments
are read as they were exactly when the quoting keeps each. -/
theorem quotedArgs_read_iff {f : String16 → List String16} {program : String16}
    (hf : Argv.Follows marks 0 f) (hp : IsProgram q program) (args : List String16) :
    (f (cStr (quoteForCommandLineToArgvW q program ++ quotedArgs q args))).map cStr =
      program :: args ↔ ∀ a ∈ args, Quotable q a ∧ 0 ∉ a := by
  by_cases hargs : ∀ a ∈ args, 0 ∉ a
  · obtain ⟨result, hsplits, hall, heq⟩ := splits_quotedArgs (q := q) args
    have hnul : 0 ∉ quoteForCommandLineToArgvW q program ++ quotedArgs q args := fun hm =>
      (List.mem_append.mp hm).elim (nul_quote hp.nul) (nul_quotedArgs hargs)
    have hresult : ∀ a ∈ result, 0 ∉ a := fun a ha hm =>
      nul_quotedArgs hargs (hsplits.subset a ha hm)
    rw [cStr_eq hnul, hf _ _ _ _ hnul (readsProgram_quote hp (atEnd_quotedArgs args)) hsplits,
      List.map_cons, cStr_eq hp.nul, map_cStr_eq hresult]
    constructor
    · intro h a ha
      rw [← (List.cons.inj h).2] at ha
      exact ⟨hall a ha, hresult a ha⟩
    · intro h
      rw [heq fun a ha => (h a ha).1]
  · -- a string that is read has no NUL
    refine iff_of_false (fun h => hargs fun a ha => ?_) fun h => hargs fun a ha => (h a ha).2
    have hmem := List.mem_cons_of_mem program ha
    rw [← h] at hmem
    obtain ⟨l, -, rfl⟩ := List.mem_map.mp hmem
    exact nul_cStr l

end Mdgate.Cmd
