import Mathlib.Data.List.Find
import Mdgate.Cmd.Layout
import Mdgate.Cmd.Quoting

/-!
# From the object to the string and back

What a process that is started with `GetCommandLineString` makes of it. A command line of readable
parts comes back as it was.
-/

namespace Mdgate.Cmd

open Mdgate.Base Mdgate.Base.Environment Mdgate.Lib Mdgate.Lib.Argv

/-- The characters of a switch key that need no quoting and no lowering. -/
def isNameChar (c : UInt8) : Bool :=
  c != 0 && decide (c < 0x80) && toLowerASCII c == c &&
    !([ch '=', ch '"', ch '\\'].contains c) && !isWhitespace c.toUInt16

/-- A value that comes back: trimmed at its end. -/
structure IsValue (q : Bool) (value : String16) : Prop where
  quotable : Quotable q value
  last : ∀ c ∈ value.getLast?, isWhitespace c = false
  nul : 0 ∉ value

/-- An argument that comes back: trimmed. -/
structure IsArg (q : Bool) (arg : String16) : Prop where
  quotable : Quotable q arg
  trimmed : Trimmed isWhitespace arg
  nul : 0 ∉ arg

structure Switch.Readable (count : Nat) (q : Bool) (s : Switch) : Prop where
  pre : s.pre ∈ kSwitchPrefixes
  prefixLength : getSwitchPrefixLength count s.name = s.pre.length
  key_ne_nil : s.key ≠ []
  key : ∀ c ∈ s.key, isNameChar c = true
  value : s.value = [] ∨ IsValue q s.value

/-- Switches and arguments that come back: no argument looks like a switch, but for those after a
terminator. The flag is `parse_switches`. -/
inductive EntriesReadable (count : Nat) (q : Bool) :
    Bool → List Switch → List String16 → Prop where
  | nil (parseSwitches : Bool) : EntriesReadable count q parseSwitches [] []
  | switch {s : Switch} {switches : List Switch} {args : List String16} : s.Readable count q →
      EntriesReadable count q true switches args →
      EntriesReadable count q true (s :: switches) args
  | arg {parseSwitches : Bool} {arg : String16} {args : List String16} : IsArg q arg →
      ((parseSwitches && arg != kSwitchTerminator) = true → isSwitch count arg = none) →
      EntriesReadable count q (parseSwitches && arg != kSwitchTerminator) [] args →
      EntriesReadable count q parseSwitches [] (arg :: args)

/-- The parts of a command line that comes back. -/
structure Parts.Readable (count : Nat) (q : Bool) (p : Parts) (program : String16) : Prop where
  programs : p.programs = [program]
  isProgram : IsProgram q program
  trimmed : Trimmed isWhitespace program
  entries : EntriesReadable count q true p.switches p.args

variable {count : Nat} {q : Bool} {s : Switch} {program : String16}

/-! ## Names -/

/-- What is known of the characters of a name. -/
structure IsPlain (c : UInt16) : Prop where
  blank : marks.blank c = false
  quote : c ≠ wch '"'
  backslash : c ≠ wch '\\'
  separator : c ≠ kSwitchValueSeparator
  whitespace : isWhitespace c = false
  nul : c ≠ 0

theorem charToWide_of_isNameChar {c : UInt8} (h : isNameChar c = true) :
    charToWide c = c.toUInt16 := by
  simp only [isNameChar, Bool.and_eq_true, decide_eq_true_eq] at h
  exact if_pos h.1.1.1.2

theorem isPlain_of_isNameChar {c : UInt8} (h : isNameChar c = true) : IsPlain (charToWide c) := by
  rw [charToWide_of_isNameChar h]
  simp only [isNameChar, Bool.and_eq_true, bne_iff_ne, Bool.not_eq_true'] at h
  obtain ⟨⟨⟨⟨h0, -⟩, -⟩, hmarks⟩, hw⟩ := h
  have hne (d : UInt8) (hd : [ch '=', ch '"', ch '\\'].contains d = true) :
      c.toUInt16 ≠ d.toUInt16 := by
    intro heq
    rw [UInt8.toUInt16_inj.mp heq, hd] at hmarks
    cases hmarks
  refine ⟨?_, hne (ch '"') (by decide), hne (ch '\\') (by decide), hne (ch '=') (by decide), hw, ?_⟩
  · have hblank (d : UInt16) (hd : isWhitespace d = true) : c.toUInt16 ≠ d := by
      rintro rfl
      rw [hw] at hd
      cases hd
    exact blank_eq_false (hblank _ (by decide)) (hblank _ (by decide))
  · intro heq
    exact h0 (UInt8.toUInt16_inj.mp heq)

theorem isPlain_prefix {pre : String16} (h : pre ∈ kSwitchPrefixes) : ∀ c ∈ pre, IsPlain c := by
  have hchars : ∀ c ∈ pre, c = wch '-' ∨ c = wch '/' := by
    intro c hc
    simp only [kSwitchPrefixes, List.mem_cons, List.not_mem_nil, or_false] at h
    rcases h with rfl | rfl | rfl <;>
      simp only [List.mem_cons, List.not_mem_nil, or_false, or_self] at hc
    · exact .inl hc
    · exact .inl hc
    · exact .inr hc
  intro c hc
  rcases hchars c hc with rfl | rfl <;> constructor <;> decide

theorem Switch.Readable.isPlain (h : s.Readable count q) : ∀ c ∈ s.name, IsPlain c := by
  intro c hc
  rcases List.mem_append.mp hc with hc | hc
  · exact isPlain_prefix h.pre c hc
  · obtain ⟨d, hd, rfl⟩ := List.mem_map.mp hc
    exact isPlain_of_isNameChar (h.key d hd)

theorem prefix_ne_nil {pre : String16} (h : pre ∈ kSwitchPrefixes) : pre ≠ [] := by
  have hall : ∀ pre ∈ kSwitchPrefixes, pre ≠ [] := by decide
  exact hall pre h

theorem getSwitchPrefixLength_append {name l : String16} (h : 2 ≤ name.length) :
    getSwitchPrefixLength count (name ++ l) = getSwitchPrefixLength count name := by
  match name, h with
  | a :: b :: name, _ =>
    have heq : ∀ pre ∈ kSwitchPrefixes.take count,
        pre.isPrefixOf (a :: b :: name ++ l) = pre.isPrefixOf (a :: b :: name) := by
      intro pre hpre
      have hmem := List.mem_of_mem_take hpre
      simp only [kSwitchPrefixes, List.mem_cons, List.not_mem_nil, or_false] at hmem
      rcases hmem with rfl | rfl | rfl <;> simp [List.isPrefixOf]
    rw [getSwitchPrefixLength, getSwitchPrefixLength, List.find?_congr heq]

namespace Switch.Readable

variable (h : s.Readable count q)
include h

theorem length_name : 2 ≤ s.name.length ∧ s.pre.length < s.name.length := by
  have hpre := List.length_pos_of_ne_nil (prefix_ne_nil h.pre)
  have hkey := List.length_pos_of_ne_nil h.key_ne_nil
  simp only [name, List.length_append, asciiToUtf16, List.length_map]
  omega

theorem isSwitch_text : isSwitch count s.text = some (s.name, s.value) := by
  obtain ⟨htwo, hlt⟩ := h.length_name
  have hpre := List.length_pos_of_ne_nil (prefix_ne_nil h.pre)
  have hsep : kSwitchValueSeparator ∉ s.name := fun hm => (h.isPlain _ hm).separator rfl
  unfold isSwitch
  by_cases hv : s.value = []
  · have htext : s.text = s.name := if_pos hv
    rw [htext, h.prefixLength, hv, find_eq_none.mpr hsep]
    exact if_neg (by omega)
  · have htext : s.text = s.name ++ kSwitchValueSeparator :: s.value := if_neg hv
    rw [htext, getSwitchPrefixLength_append htwo, h.prefixLength, find_append hsep]
    refine (if_neg (by rw [List.length_append]; omega)).trans ?_
    simp [List.drop_append]

theorem text_ne_terminator : s.text ≠ kSwitchTerminator := by
  intro heq
  have hnone : isSwitch count kSwitchTerminator = none := by
    cases count with
    | zero => rfl
    | succ n => simp [isSwitch, getSwitchPrefixLength, kSwitchPrefixes, kSwitchTerminator]
  rw [← heq, h.isSwitch_text] at hnone
  cases hnone

theorem head?_name : ∃ c, s.name.head? = some c ∧ IsPlain c := by
  have hne : s.name ≠ [] := List.ne_nil_of_length_pos (by have hlen := h.length_name; omega)
  exact ⟨_, List.head?_eq_some_head hne, h.isPlain _ (List.head_mem hne)⟩

theorem getLast?_name : ∃ c, s.name.getLast? = some c ∧ IsPlain c := by
  have hne : s.name ≠ [] := List.ne_nil_of_length_pos (by have hlen := h.length_name; omega)
  exact ⟨_, List.getLast?_eq_some_getLast hne, h.isPlain _ (List.getLast_mem hne)⟩

theorem head?_text : s.text.head? = s.name.head? := by
  obtain ⟨c, hc, -⟩ := h.head?_name
  unfold text
  split
  · rfl
  · rw [List.head?_append, hc]
    rfl

theorem trimmed_text : Trimmed isWhitespace s.text := by
  constructor
  · intro c hc
    obtain ⟨d, hd, hplain⟩ := h.head?_name
    rw [h.head?_text, hd] at hc
    obtain rfl := Option.some.inj hc
    exact hplain.whitespace
  · intro c hc
    unfold text at hc
    split at hc
    · obtain ⟨d, hd, hplain⟩ := h.getLast?_name
      rw [hd] at hc
      obtain rfl := Option.some.inj hc
      exact hplain.whitespace
    next hv =>
      refine (h.value.resolve_left hv).last c ?_
      obtain ⟨l, d, hl⟩ := List.eq_nil_or_concat' s.value |>.resolve_left hv
      rw [hl] at hc ⊢
      simpa [List.getLast?_append, List.getLast?_cons] using hc

/-- The name is read back as the switch that it was made of. -/
theorem make_name : Switch.make count (utf16ToAscii s.name) s.value = s := by
  have hkey : lowerASCIIOnWindows (utf16ToAscii (asciiToUtf16 s.key)) = s.key := by
    simp only [lowerASCIIOnWindows, utf16ToAscii, asciiToUtf16, List.map_map]
    refine (List.map_congr_left fun c hc => ?_).trans (List.map_id _)
    have hchar := h.key c hc
    simp only [Function.comp_apply, charToWide_of_isNameChar hchar]
    simp only [isNameChar, Bool.and_eq_true, beq_iff_eq] at hchar
    simpa using hchar.1.1.2
  have hpre : ∀ pre ∈ kSwitchPrefixes,
      asciiToUtf16 (lowerASCIIOnWindows (utf16ToAscii pre)) = pre := by decide
  have hlower : lowerASCIIOnWindows (utf16ToAscii s.name) =
      lowerASCIIOnWindows (utf16ToAscii s.pre) ++ s.key := by
    conv => rhs; rw [← hkey]
    simp only [name, lowerASCIIOnWindows, utf16ToAscii, List.map_append]
  have hname : asciiToUtf16 (lowerASCIIOnWindows (utf16ToAscii s.name)) = s.name := by
    rw [hlower]
    simp only [asciiToUtf16, List.map_append, name]
    rw [← asciiToUtf16, ← asciiToUtf16, hpre s.pre h.pre]
  have hlen := List.length_pos_of_ne_nil (prefix_ne_nil h.pre)
  have hlen' : (lowerASCIIOnWindows (utf16ToAscii s.pre)).length = s.pre.length := by
    simp [lowerASCIIOnWindows, utf16ToAscii]
  simp only [Switch.make, hname, h.prefixLength]
  rw [if_neg (by omega), hlower, ← hlen', List.drop_left, hlen']
  simp [name]

end Switch.Readable

/-! ## The string is read -/

theorem argumentString_switch (h : s.Readable count q) :
    CommandLine.argumentString count q true s.text =
      if s.value = [] then s.name
      else s.name ++ kSwitchValueSeparator :: quoteForCommandLineToArgvW q s.value := by
  rw [CommandLine.argumentString, if_pos rfl, h.isSwitch_text]

theorem reads_switch {rest : String16} (h : s.Readable count q) (hend : AtEnd marks rest) :
    Reads marks false (CommandLine.argumentString count q true s.text ++ rest) s.text rest := by
  have hname : ∀ c ∈ s.name, marks.blank c = false ∧ c ≠ wch '"' ∧ c ≠ wch '\\' := fun c hc =>
    ⟨(h.isPlain c hc).blank, (h.isPlain c hc).quote, (h.isPlain c hc).backslash⟩
  rw [argumentString_switch h]
  by_cases hv : s.value = []
  · have htext : s.text = s.name := if_pos hv
    have hread := reads_plain hname (.stop (m := marks) hend)
    rw [List.append_nil] at hread
    rwa [if_pos hv, htext]
  · have htext : s.text = s.name ++ kSwitchValueSeparator :: s.value := if_neg hv
    rw [if_neg hv, htext, List.append_assoc, List.cons_append]
    refine reads_plain hname (.char (m := marks) (by decide) (by decide) (.inr (by decide)) ?_)
    exact reads_quote (h.value.resolve_left hv).quotable hend

theorem argumentString_arg {parseSwitches : Bool} {arg : String16}
    (h : parseSwitches = true → isSwitch count arg = none) :
    CommandLine.argumentString count q parseSwitches arg =
      quoteForCommandLineToArgvW q arg := by
  have hnone : (if parseSwitches then isSwitch count arg else none) = none := by
    split
    next hp => exact h hp
    · rfl
  rw [CommandLine.argumentString, hnone]

theorem blank_of_isWhitespace {c : UInt16} (h : isWhitespace c = false) :
    marks.blank c = false := by
  refine blank_eq_false ?_ ?_ <;> rintro rfl <;> revert h <;> decide

theorem head?_quote (q : Bool) (arg : String16) :
    (quoteForCommandLineToArgvW q arg).head? = some (wch '"') ∨
      (quoteForCommandLineToArgvW q arg).head? = arg.head? := by
  unfold quoteForCommandLineToArgvW
  split
  · exact .inl rfl
  · exact .inr rfl

theorem getLast?_quote (q : Bool) (arg : String16) :
    (quoteForCommandLineToArgvW q arg).getLast? = some (wch '"') ∨
      (quoteForCommandLineToArgvW q arg).getLast? = arg.getLast? := by
  unfold quoteForCommandLineToArgvW
  split
  · exact .inl List.getLast?_concat
  · exact .inr rfl

/-- What is written of one entry: it starts with something else than a blank, ends with something
else than whitespace, has no NUL, and is read back. -/
structure ReadsBack (written entry : String16) : Prop where
  head : ∃ c, written.head? = some c ∧ isWhitespace c = false
  last : ∃ c, written.getLast? = some c ∧ isWhitespace c = false
  nul : 0 ∉ written
  reads : ∀ rest, AtEnd marks rest → Reads marks false (written ++ rest) entry rest

theorem readsBack_arg {arg : String16} (h : IsArg q arg) :
    ReadsBack (quoteForCommandLineToArgvW q arg) arg := by
  refine ⟨?_, ?_, nul_quote h.nul, fun rest hend => reads_quote h.quotable hend⟩
  · rcases head?_quote q arg with hhead | hhead
    · exact ⟨_, hhead, by decide⟩
    · have hsome := List.head?_eq_some_head h.quotable.1
      exact ⟨_, hhead.trans hsome, h.trimmed.1 _ hsome⟩
  · rcases getLast?_quote q arg with hlast | hlast
    · exact ⟨_, hlast, by decide⟩
    · have hsome := List.getLast?_eq_some_getLast h.quotable.1
      exact ⟨_, hlast.trans hsome, h.trimmed.2 _ hsome⟩

theorem readsBack_switch (h : s.Readable count q) :
    ReadsBack (CommandLine.argumentString count q true s.text) s.text := by
  have hnul : 0 ∉ s.name := fun hm => (h.isPlain _ hm).nul rfl
  obtain ⟨c, hc, hplain⟩ := h.head?_name
  refine ⟨⟨c, ?_, hplain.whitespace⟩, ?_, ?_, fun rest hend => reads_switch h hend⟩
  · rw [argumentString_switch h]
    split
    · exact hc
    · rw [List.head?_append, hc]
      rfl
  · rw [argumentString_switch h]
    split
    · obtain ⟨d, hd, hlast⟩ := h.getLast?_name
      exact ⟨d, hd, hlast.whitespace⟩
    next hv =>
      have hvalue := h.value.resolve_left hv
      have hsome := List.getLast?_eq_some_getLast hvalue.quotable.1
      rw [List.getLast?_append, List.getLast?_cons]
      rcases getLast?_quote q s.value with hlast | hlast
      · rw [hlast]
        exact ⟨_, rfl, by decide⟩
      · rw [hlast, hsome]
        exact ⟨_, rfl, hvalue.last _ hsome⟩
  · rw [argumentString_switch h]
    split
    · exact hnul
    next hv =>
      intro hm
      rcases List.mem_append.mp hm with hm | hm
      · exact hnul hm
      · rcases List.mem_cons.mp hm with hm | hm
        · exact absurd hm (by decide)
        · exact nul_quote (h.value.resolve_left hv).nul hm

/-- What is written of the arguments is read back, ends with something else than whitespace, and has
no NUL. -/
structure Written (l : String16) (argv : List String16) : Prop where
  splits : Splits marks l argv
  atEnd : AtEnd marks l
  last : ∀ c ∈ l.getLast?, isWhitespace c = false
  nul : 0 ∉ l

theorem Written.cons {l entry text : String16} {argv : List String16} (h : Written l argv)
    (hentry : ReadsBack text entry) : Written (wch ' ' :: (text ++ l)) (entry :: argv) := by
  obtain ⟨c, hc, hcw⟩ := hentry.head
  have hne : text ≠ [] := by
    rintro rfl
    cases hc
  refine ⟨?_, fun d hd => ?_, fun d hd => ?_, fun hm => ?_⟩
  · refine .cons (m := marks) (b := [wch ' ']) (blanks_singleton rfl) (by simp [hne]) (fun d hd => ?_)
      (hentry.reads l h.atEnd) h.splits
    change d ∈ (text ++ l).head? at hd
    rw [List.head?_append, hc] at hd
    obtain rfl := Option.some.inj hd
    exact blank_of_isWhitespace hcw
  · obtain rfl := Option.some.inj hd
    decide
  · cases l with
    | nil =>
      obtain ⟨e, he, hew⟩ := hentry.last
      rw [List.append_nil, List.getLast?_cons, he] at hd
      obtain rfl := Option.some.inj hd
      exact hew
    | cons a l =>
      refine h.last d ?_
      rw [List.getLast?_cons, List.getLast?_append, List.getLast?_cons] at hd
      simpa [List.getLast?_cons] using hd
  · rcases List.mem_cons.mp hm with hm | hm
    · exact absurd hm (by decide)
    · exact (List.mem_append.mp hm).elim hentry.nul h.nul

theorem written_entries {parseSwitches : Bool} {switches : List Switch} {args : List String16}
    (h : EntriesReadable count q parseSwitches switches args) :
    Written (CommandLine.argumentsLoop count q parseSwitches false
      (switches.map Switch.text ++ args)) (switches.map Switch.text ++ args) := by
  induction h with
  | nil => exact ⟨.nil (by simp [CommandLine.argumentsLoop]), fun c hc => (by cases hc),
      fun c hc => (by cases hc), fun hm => (by cases hm)⟩
  | @switch s switches args hs _ ih =>
    have hflag : (true && s.text != kSwitchTerminator) = true := by
      simpa using hs.text_ne_terminator
    rw [List.map_cons, List.cons_append, CommandLine.argumentsLoop, hflag]
    exact ih.cons (readsBack_switch hs)
  | @arg parseSwitches arg args harg hnot _ ih =>
    rw [List.map_nil, List.nil_append, CommandLine.argumentsLoop, argumentString_arg hnot]
    exact ih.cons (readsBack_arg harg)

/-! ## The arguments are parsed -/

theorem trimWhitespace_eq {l : String16} (h : Trimmed isWhitespace l) : trimWhitespace l = l :=
  trimString_eq_self_iff.mpr h

theorem appendLoop_entries {parseSwitches : Bool} {switches : List Switch} {args : List String16}
    (h : EntriesReadable count q parseSwitches switches args) (p : Parts) :
    p.commandLine.appendLoop count parseSwitches (switches.map Switch.text ++ args) =
      (Parts.commandLine { p with
        switches := p.switches ++ switches
        args := p.args ++ args }) := by
  induction h generalizing p with
  | nil => simp [CommandLine.appendLoop]
  | @switch s switches args hs _ ih =>
    have hflag : (true && s.text != kSwitchTerminator) = true := by
      simpa using hs.text_ne_terminator
    rw [List.map_cons, List.cons_append, CommandLine.appendLoop,
      trimWhitespace_eq hs.trimmed_text]
    simp only [hflag, if_true, hs.isSwitch_text]
    rw [p.appendSwitchNative, hs.make_name, ih]
    simp [Parts.addSwitches]
  | @arg parseSwitches arg args harg hnot _ ih =>
    have hnone : (if (parseSwitches && arg != kSwitchTerminator) = true
        then isSwitch count arg else none) = none := by
      split
      next hp => exact hnot hp
      · rfl
    rw [List.map_nil, List.nil_append, CommandLine.appendLoop, trimWhitespace_eq harg.trimmed]
    simp only [hnone]
    have ih' := ih (p.addArgs [arg])
    rw [List.map_nil, List.nil_append] at ih'
    rw [p.appendArgNative, ih']
    simp [Parts.addArgs]

variable {p : Parts} {f : String16 → List String16}

theorem initFromArgv_argv (h : p.Readable count q program) :
    CommandLine.initFromArgv count p.commandLine.argv = p.commandLine := by
  have hargv : p.commandLine.argv = program :: (p.switches.map Switch.text ++ p.args) := by
    rw [Parts.commandLine, h.programs]
    rfl
  have hprogram : CommandLine.noProgram.setProgram program =
      Parts.commandLine ⟨[program], [], [], by simp⟩ := by
    rw [CommandLine.setProgram, cStr_eq h.isProgram.nul, trimWhitespace_eq h.trimmed]
    rfl
  rw [CommandLine.initFromArgv, hargv, List.headD_cons, hprogram,
    CommandLine.appendSwitchesAndArguments, List.tail_cons, appendLoop_entries h.entries]
  simp [Parts.commandLine, h.programs]

/-- The string is the program and the arguments with a blank before each. -/
theorem getCommandLineStringInternal_eq (h : p.Readable count q program) :
    p.commandLine.getCommandLineStringInternal count q =
      quoteForCommandLineToArgvW q program ++
        CommandLine.argumentsLoop count q true false (p.switches.map Switch.text ++ p.args) := by
  have hargv : p.commandLine.argv = program :: (p.switches.map Switch.text ++ p.args) := by
    rw [Parts.commandLine, h.programs]
    rfl
  have hwritten := written_entries h.entries
  rw [CommandLine.getCommandLineStringInternal, CommandLine.getArgumentsStringInternal,
    CommandLine.getProgram, hargv, List.headD_cons, List.tail_cons]
  generalize p.switches.map Switch.text ++ p.args = argv at hwritten
  cases argv with
  | nil => simp [CommandLine.argumentsLoop]
  | cons arg argv =>
    have hlast := hwritten.last
    simp only [CommandLine.argumentsLoop, if_true, List.nil_append, Bool.false_eq_true, if_false]
      at hlast ⊢
    rw [if_neg]
    · simp
    · intro hnil
      rw [List.append_assoc, hnil, List.append_nil] at hlast
      exact absurd (hlast (wch ' ') rfl) (by decide)

/-- **A command line is read back as it was**: when `CommandLineToArgvW` follows its documented
rules, `FromString` of `GetCommandLineString`, with or without placeholders, is the object it was
made of, for a command line of readable parts. -/
theorem fromString_getCommandLineString (hf : Argv.Follows marks 0 f)
    (h : p.Readable count q program) :
    CommandLine.fromString count f (p.commandLine.getCommandLineStringInternal count q) =
      p.commandLine := by
  have hargv : p.commandLine.argv = program :: (p.switches.map Switch.text ++ p.args) := by
    rw [Parts.commandLine, h.programs]
    rfl
  have hwritten := written_entries h.entries
  have hline := getCommandLineStringInternal_eq h
  have hne : quoteForCommandLineToArgvW q program ≠ [] := quote_ne_nil h.isProgram.ne_nil
  have hsome := List.getLast?_eq_some_getLast h.isProgram.ne_nil
  have htrimmed : Trimmed isWhitespace (p.commandLine.getCommandLineStringInternal count q) := by
    rw [hline]
    constructor
    · intro c hc
      rw [List.head?_append_of_ne_nil _ hne] at hc
      rcases head?_quote q program with hhead | hhead <;> rw [hhead] at hc
      · obtain rfl := Option.some.inj hc
        decide
      · exact h.trimmed.1 c hc
    · intro c hc
      rw [List.getLast?_append] at hc
      cases hl : (CommandLine.argumentsLoop count q true false
          (p.switches.map Switch.text ++ p.args)).getLast? with
      | some d =>
        rw [hl] at hc
        obtain rfl := Option.some.inj hc
        exact hwritten.last d hl
      | none =>
        rw [hl, Option.none_or] at hc
        rcases getLast?_quote q program with hlast | hlast <;> rw [hlast] at hc
        · obtain rfl := Option.some.inj hc
          decide
        · exact h.trimmed.2 c hc
  have hnul : 0 ∉ p.commandLine.getCommandLineStringInternal count q := by
    rw [hline]
    intro hm
    exact (List.mem_append.mp hm).elim (nul_quote h.isProgram.nul) hwritten.nul
  have hread : (f (p.commandLine.getCommandLineStringInternal count q)).map cStr =
      p.commandLine.argv := by
    rw [hline] at hnul ⊢
    rw [hf _ _ _ _ hnul (readsProgram_quote h.isProgram hwritten.atEnd) hwritten.splits,
      List.map_cons, cStr_eq h.isProgram.nul, map_cStr_eq, hargv]
    exact fun a ha hm => hwritten.nul (hwritten.splits.subset a ha hm)
  rw [CommandLine.fromString, CommandLine.parseFromString, trimWhitespace_eq htrimmed,
    cStr_eq hnul, hread, if_neg, initFromArgv_argv h]
  rw [hline]
  simp [hne]

/-- A program path with a blank, a switch with a value that ends in a backslash, and arguments of
which one has a quotation mark. -/
theorem fromString_getCommandLineString_one : ∃ (p : Parts) (program : String16),
    p.Readable 3 false program ∧
      p.commandLine.argv = [("C:\\a b\\x.exe".toList.map wch), ("--bar=a b\\".toList.map wch),
        ("foo".toList.map wch), kSwitchTerminator, ("--q\"uo".toList.map wch)] ∧
      CommandLine.fromString 3 (Argv.split marks)
        (p.commandLine.getCommandLineStringInternal 3 false) = p.commandLine := by
  let p : Parts := ⟨["C:\\a b\\x.exe".toList.map wch],
    [⟨[wch '-', wch '-'], "bar".toList.map ch, "a b\\".toList.map wch⟩],
    ["foo".toList.map wch, kSwitchTerminator, "--q\"uo".toList.map wch], by simp⟩
  have harg (arg : String16) (h : Quotable false arg ∧ Trimmed isWhitespace arg ∧ 0 ∉ arg) :
      IsArg false arg := ⟨h.1, h.2.1, h.2.2⟩
  have hp : p.Readable 3 false ("C:\\a b\\x.exe".toList.map wch) := by
    refine ⟨rfl, ⟨by decide, by decide, by decide, by decide, by decide⟩, by decide, ?_⟩
    have hlast : ("a b\\".toList.map wch).getLast? = some (wch '\\') := by decide
    refine .switch ⟨by decide, by decide, by decide, List.all_eq_true.mp (by decide),
      .inr ⟨by decide, fun c hc => ?_, by decide⟩⟩ ?_
    · obtain rfl := Option.some.inj (hlast.symm.trans hc)
      decide
    exact .arg (harg _ (by decide)) (by decide) (.arg (harg _ (by decide)) (by decide)
      (.arg (harg _ (by decide)) (by decide) (.nil _)))
  exact ⟨p, _, hp, by decide, fromString_getCommandLineString (Argv.split_follows 0) hp⟩

/-! ## Which arguments are kept -/

theorem argumentsLoop_off (args : List String16) :
    CommandLine.argumentsLoop count q false false args = quotedArgs q args := by
  induction args with
  | nil => rfl
  | cons arg args ih =>
    rw [CommandLine.argumentsLoop, Bool.false_and, ih, argumentString_arg (by simp)]
    simp [quotedArgs]

/-- **When an argument comes through**: after a terminator, the arguments that a started program
gets are the ones that were appended exactly when none of them is empty, none has a NUL, and none
has a tab but neither a space, a backslash, a quotation mark nor (with placeholders) a percent sign,
for which it would have been quoted. -/
theorem args_read_iff (hf : Argv.Follows marks 0 f) (hp : IsProgram q program)
    (args : List String16) :
    (f (cStr ((Parts.commandLine ⟨[program], [], kSwitchTerminator :: args,
      by simp⟩).getCommandLineStringInternal count q))).map cStr =
        program :: kSwitchTerminator :: args ↔ ∀ a ∈ args, Quotable q a ∧ 0 ∉ a := by
  have hterminator : quoteForCommandLineToArgvW q kSwitchTerminator = kSwitchTerminator := by
    cases q <;> decide
  have hline : (Parts.commandLine ⟨[program], [], kSwitchTerminator :: args,
      by simp⟩).getCommandLineStringInternal count q =
      quoteForCommandLineToArgvW q program ++ quotedArgs q (kSwitchTerminator :: args) := by
    have hargv : (Parts.commandLine ⟨[program], [], kSwitchTerminator :: args, by simp⟩).argv =
        program :: kSwitchTerminator :: args := rfl
    have hloop : CommandLine.argumentsLoop count q true true (kSwitchTerminator :: args) =
        kSwitchTerminator ++ quotedArgs q args := by
      rw [CommandLine.argumentsLoop, bne_self_eq_false, Bool.and_false, argumentsLoop_off,
        argumentString_arg (by simp), hterminator]
      rfl
    rw [CommandLine.getCommandLineStringInternal, CommandLine.getArgumentsStringInternal,
      CommandLine.getProgram, hargv, List.headD_cons, List.tail_cons, hloop,
      if_neg (by simp [kSwitchTerminator])]
    simp [quotedArgs, hterminator]
  rw [hline, quotedArgs_read_iff hf hp, List.forall_mem_cons]
  exact and_iff_right ⟨⟨by decide, fun ht => absurd ht (by decide)⟩, by decide⟩

/-- A tab is not quoted for, and cuts the argument in two, unless the argument has a space. -/
theorem args_read_iff_tab : ∃ (program : String16) (args : List String16),
    IsProgram false program ∧ args = ["b\tc".toList.map wch, "d \te".toList.map wch] ∧
      ((Argv.split marks (cStr ((Parts.commandLine ⟨[program], [], kSwitchTerminator :: args,
        by simp⟩).getCommandLineStringInternal 3 false))).map cStr =
          program :: kSwitchTerminator :: args ↔ ∀ a ∈ args, Quotable false a ∧ 0 ∉ a) ∧
      (¬ ∀ a ∈ args, Quotable false a ∧ 0 ∉ a) ∧ ∀ a ∈ args.tail, Quotable false a ∧ 0 ∉ a :=
  have hp : IsProgram false ("C:\\a b\\x.exe".toList.map wch) :=
    ⟨by decide, by decide, by decide, by decide, by decide⟩
  ⟨_, _, hp, rfl, args_read_iff (Argv.split_follows 0) hp _, by decide, by decide⟩

end Mdgate.Cmd
