import Mdgate.Cmd.CommandLine

/-!
# The layout of `argv_`

The programs in front, then the switches, then the arguments: `Parts` has them apart, with what each
call does to them, and the object is the command line of the parts. `switches_` is what the last
switch of a key says.
-/

namespace Mdgate.Cmd

open Mdgate.Base Mdgate.Lib

/-- A switch in `argv_`: its prefix, its key and its value. -/
structure Switch where
  pre : String16
  key : Bytes
  value : String16
  deriving DecidableEq, Repr

namespace Switch

def name (s : Switch) : String16 := s.pre ++ asciiToUtf16 s.key

def text (s : Switch) : String16 :=
  if s.value = [] then s.name else s.name ++ kSwitchValueSeparator :: s.value

def make (switchPrefixCount : Nat) (switchString : Bytes) (value : String16) : Switch :=
  let key := lowerASCIIOnWindows switchString
  let prefixLength := getSwitchPrefixLength switchPrefixCount (asciiToUtf16 key)
  ⟨if prefixLength = 0 then kSwitchPrefixes.headD [] else (asciiToUtf16 key).take prefixLength,
    key.drop prefixLength, value⟩

end Switch

def lastValue (switches : List Switch) (key : Bytes) : Option String16 :=
  (switches.reverse.find? (·.key == key)).map Switch.value

/-- The parts of a command line. -/
structure Parts where
  /-- The wrappers and the program. -/
  programs : List String16
  switches : List Switch
  args : List String16
  programs_ne_nil : programs ≠ []

namespace Parts

def commandLine (p : Parts) : CommandLine where
  argv := p.programs ++ (p.switches.map Switch.text ++ p.args)
  switches := lastValue p.switches
  beginArgs := p.programs.length + p.switches.length

def noProgram : Parts := ⟨[[]], [], [], by simp⟩

def withProgram (p : Parts) (program : String16) : Parts :=
  { p with
    programs := p.programs.set 0 program
    programs_ne_nil := by simpa using p.programs_ne_nil }

def addPrograms (p : Parts) (wrapper : List String16) : Parts :=
  { p with
    programs := wrapper ++ p.programs
    programs_ne_nil := by simp [p.programs_ne_nil] }

def addSwitches (p : Parts) (switches : List Switch) : Parts :=
  { p with switches := p.switches ++ switches }

def addArgs (p : Parts) (args : List String16) : Parts := { p with args := p.args ++ args }

/-- More strings: before the first terminator those with a prefix are switches, and all others are
arguments. -/
def addStrings (count : Nat) (p : Parts) (argv : List String16) : Parts :=
  let argv := argv.map trimWhitespace
  let front := argv.takeWhile (· != kSwitchTerminator)
  (p.addSwitches ((front.filterMap (isSwitch count)).map fun (switchString, value) =>
      .make count (utf16ToAscii switchString) value)).addArgs
    (front.filter (isSwitch count · == none) ++ argv.dropWhile (· != kSwitchTerminator))

def ofArgv (count : Nat) (argv : List String16) : Parts :=
  (noProgram.withProgram (trimWhitespace (cStr (argv.headD [])))).addStrings count argv.tail

end Parts

/-- A call of a member that changes the object. -/
inductive Call where
  | setProgram (program : String16)
  | appendSwitch (switchString : Bytes)
  | appendSwitchPath (switchString : Bytes) (path : String16)
  | appendSwitchNative (switchString : Bytes) (value : String16)
  | appendSwitchASCII (switchString value : Bytes)
  | copySwitchesFrom (source : CommandLine) (switches : List Bytes)
  | appendArg (value : Bytes)
  | appendArgPath (path : String16)
  | appendArgNative (value : String16)
  | appendArguments (other : CommandLine) (includeProgram : Bool)
  | prependWrapper (wrapper : String16)
  | initFromArgv (argv : List String16)
  | parseFromString (commandLine : String16)

section

variable (switchPrefixCount : Nat) (commandLineToArgvW : String16 → List String16)

namespace CommandLine

def call (c : CommandLine) : Call → CommandLine
  | .setProgram program => c.setProgram program
  | .appendSwitch switchString => c.appendSwitch switchPrefixCount switchString
  | .appendSwitchPath switchString path => c.appendSwitchPath switchPrefixCount switchString path
  | .appendSwitchNative switchString value =>
    c.appendSwitchNative switchPrefixCount switchString value
  | .appendSwitchASCII switchString value =>
    c.appendSwitchASCII switchPrefixCount switchString value
  | .copySwitchesFrom source switches => c.copySwitchesFrom switchPrefixCount source switches
  | .appendArg value => c.appendArg value
  | .appendArgPath path => c.appendArgPath path
  | .appendArgNative value => c.appendArgNative value
  | .appendArguments other includeProgram =>
    c.appendArguments switchPrefixCount other includeProgram
  | .prependWrapper wrapper => c.prependWrapper wrapper
  | .initFromArgv argv => initFromArgv switchPrefixCount argv
  | .parseFromString commandLine =>
    c.parseFromString switchPrefixCount commandLineToArgvW commandLine

end CommandLine

def CommandLine.afterCalls (calls : List Call) : CommandLine :=
  calls.foldl (·.call switchPrefixCount commandLineToArgvW ·) .noProgram

namespace Parts

def call (p : Parts) : Call → Parts
  | .setProgram program => p.withProgram (trimWhitespace (cStr program))
  | .appendSwitch switchString => p.addSwitches [.make switchPrefixCount switchString []]
  | .appendSwitchPath switchString path =>
    p.addSwitches [.make switchPrefixCount switchString (cStr path)]
  | .appendSwitchNative switchString value =>
    p.addSwitches [.make switchPrefixCount switchString value]
  | .appendSwitchASCII switchString value =>
    p.addSwitches [.make switchPrefixCount switchString (asciiToUtf16 value)]
  | .copySwitchesFrom source switches =>
    p.addSwitches (switches.filterMap fun switch =>
      (source.switches (lowerASCIIOnWindows switch)).map (.make switchPrefixCount switch))
  | .appendArg value => p.addArgs [utf8ToUtf16 value]
  | .appendArgPath path => p.addArgs [cStr path]
  | .appendArgNative value => p.addArgs [value]
  | .appendArguments other includeProgram =>
    (if includeProgram then p.withProgram (trimWhitespace (cStr (other.argv.headD [])))
      else p).addStrings switchPrefixCount other.argv.tail
  | .prependWrapper wrapper =>
    if wrapper = [] then p else p.addPrograms (splitString (wch ' ') trimWhitespace wrapper)
  | .initFromArgv argv => ofArgv switchPrefixCount argv
  | .parseFromString commandLine =>
    if trimWhitespace commandLine = [] then p
    else ofArgv switchPrefixCount
      ((commandLineToArgvW (cStr (trimWhitespace commandLine))).map cStr)

def afterCalls (calls : List Call) : Parts :=
  calls.foldl (·.call switchPrefixCount commandLineToArgvW ·) noProgram

end Parts

end

/-! ## Each member on the parts -/

variable {count : Nat} {f : String16 → List String16} {p : Parts}

theorem lastValue_concat (switches : List Switch) (s : Switch) (key : Bytes) :
    lastValue (switches ++ [s]) key =
      if key = s.key then some s.value else lastValue switches key := by
  rw [lastValue, List.reverse_append, List.reverse_singleton, List.singleton_append,
    List.find?_cons]
  by_cases h : key = s.key
  · simp [h]
  · have hne : (s.key == key) = false := beq_eq_false_iff_ne.mpr fun hk => h hk.symm
    rw [hne, if_neg h]
    rfl

namespace Switch

theorem asciiToUtf16_take_drop (key : Bytes) (n : Nat) :
    (asciiToUtf16 key).take n ++ asciiToUtf16 (key.drop n) = asciiToUtf16 key := by
  rw [asciiToUtf16, asciiToUtf16, ← List.map_take, ← List.map_append, List.take_append_drop]

theorem text_make (switchString : Bytes) (value : String16) :
    (make count switchString value).text =
      let combined := asciiToUtf16 (lowerASCIIOnWindows switchString)
      let combined := if getSwitchPrefixLength count combined = 0
        then kSwitchPrefixes.headD [] ++ combined else combined
      if value = [] then combined else combined ++ kSwitchValueSeparator :: value := by
  have hname : (make count switchString value).name =
      if getSwitchPrefixLength count (asciiToUtf16 (lowerASCIIOnWindows switchString)) = 0
      then kSwitchPrefixes.headD [] ++ asciiToUtf16 (lowerASCIIOnWindows switchString)
      else asciiToUtf16 (lowerASCIIOnWindows switchString) := by
    simp only [name, make]
    split
    next h => rw [h, List.drop_zero]
    · rw [asciiToUtf16_take_drop]
  rw [text, hname]
  rfl

end Switch

theorem insertIdx_length_append {α : Type*} (l l' : List α) (x : α) :
    (l ++ l').insertIdx l.length x = l ++ x :: l' :=
  List.modifyTailIdx_add (List.cons x) 0 l l'

namespace Parts

theorem addSwitches_addSwitches (l l' : List Switch) :
    (p.addSwitches l).addSwitches l' = p.addSwitches (l ++ l') := by
  simp [addSwitches]

theorem addArgs_addArgs (l l' : List String16) :
    (p.addArgs l).addArgs l' = p.addArgs (l ++ l') := by
  simp [addArgs]

theorem addArgs_addSwitches (l : List String16) (l' : List Switch) :
    (p.addArgs l).addSwitches l' = (p.addSwitches l').addArgs l := rfl

theorem addSwitches_nil : p.addSwitches [] = p := by
  simp [addSwitches]

theorem addArgs_nil : p.addArgs [] = p := by
  simp [addArgs]

theorem appendSwitchNative (switchString : Bytes) (value : String16) :
    p.commandLine.appendSwitchNative count switchString value =
      (p.addSwitches [.make count switchString value]).commandLine := by
  have hargv : (p.programs ++ (p.switches.map Switch.text ++ p.args)).insertIdx
      (p.programs.length + p.switches.length) (Switch.make count switchString value).text =
      p.programs ++ ((p.switches ++ [Switch.make count switchString value]).map Switch.text ++
        p.args) := by
    have hlen : p.programs.length + p.switches.length =
        (p.programs ++ p.switches.map Switch.text).length := by simp
    rw [← List.append_assoc, hlen, insertIdx_length_append]
    simp
  rw [Switch.text_make] at hargv
  simp only [CommandLine.appendSwitchNative, commandLine, addSwitches, CommandLine.mk.injEq]
  refine ⟨hargv, ?_, by rw [List.length_append, List.length_singleton, Nat.add_assoc]⟩
  funext key
  rw [lastValue_concat]
  rfl

theorem appendArgNative (value : String16) :
    p.commandLine.appendArgNative value = (p.addArgs [value]).commandLine := by
  simp [CommandLine.appendArgNative, commandLine, addArgs]

theorem setProgram (program : String16) : p.commandLine.setProgram program =
    (p.withProgram (trimWhitespace (cStr program))).commandLine := by
  have hpos := List.length_pos_of_ne_nil p.programs_ne_nil
  simp only [CommandLine.setProgram, commandLine, withProgram, CommandLine.mk.injEq,
    List.length_set]
  exact ⟨List.set_append_left 0 _ hpos, trivial, trivial⟩

theorem prependWrapper {wrapper : String16} (h : wrapper ≠ []) :
    p.commandLine.prependWrapper wrapper =
      (p.addPrograms (splitString (wch ' ') trimWhitespace wrapper)).commandLine := by
  simp only [CommandLine.prependWrapper, if_neg h, commandLine, addPrograms, CommandLine.mk.injEq]
  exact ⟨by simp, trivial, by rw [List.length_append]; omega⟩

theorem appendLoop_off (argv : List String16) : p.commandLine.appendLoop count false argv =
    (p.addArgs (argv.map trimWhitespace)).commandLine := by
  induction argv generalizing p with
  | nil => rw [List.map_nil, addArgs_nil, CommandLine.appendLoop]
  | cons arg argv ih =>
    rw [CommandLine.appendLoop]
    simp only [Bool.false_and, Bool.false_eq_true, if_false]
    rw [appendArgNative, ih, addArgs_addArgs, List.map_cons, List.singleton_append]

theorem appendLoop_on (argv : List String16) : p.commandLine.appendLoop count true argv =
    (p.addStrings count argv).commandLine := by
  induction argv generalizing p with
  | nil => simp [CommandLine.appendLoop, addStrings, addSwitches_nil, addArgs_nil]
  | cons arg argv ih =>
    rw [CommandLine.appendLoop]
    simp only [Bool.true_and]
    by_cases hterm : trimWhitespace arg = kSwitchTerminator
    · have hoff : (trimWhitespace arg != kSwitchTerminator) = false := by simp [hterm]
      simp only [hoff, Bool.false_eq_true, if_false]
      rw [appendArgNative, appendLoop_off, addArgs_addArgs]
      simp [addStrings, hterm, addSwitches_nil]
    · have hon : (trimWhitespace arg != kSwitchTerminator) = true := by simp [hterm]
      simp only [hon, if_true]
      cases hswitch : isSwitch count (trimWhitespace arg) with
      | some entry =>
        obtain ⟨switchString, value⟩ := entry
        simp only
        rw [appendSwitchNative, ih]
        simp [addStrings, hterm, hswitch, addSwitches_addSwitches]
      | none =>
        simp only
        rw [appendArgNative, ih]
        simp [addStrings, hterm, hswitch, addArgs_addSwitches, addArgs_addArgs]

theorem copySwitchesFrom (source : CommandLine) (switches : List Bytes) :
    p.commandLine.copySwitchesFrom count source switches =
      (p.addSwitches (switches.filterMap fun switch =>
        (source.switches (lowerASCIIOnWindows switch)).map (.make count switch))).commandLine := by
  unfold CommandLine.copySwitchesFrom
  induction switches generalizing p with
  | nil => rw [List.filterMap_nil, addSwitches_nil, List.foldl_nil]
  | cons switch switches ih =>
    rw [List.foldl_cons]
    cases hvalue : source.switches (lowerASCIIOnWindows switch) with
    | some value =>
      rw [if_pos (by rw [CommandLine.hasSwitch, hvalue]; rfl), CommandLine.getSwitchValueNative,
        hvalue, Option.getD_some, appendSwitchNative, ih, addSwitches_addSwitches,
        List.filterMap_cons_some (b := .make count switch value) (by rw [hvalue]; rfl),
        List.singleton_append]
    | none =>
      rw [if_neg (by rw [CommandLine.hasSwitch, hvalue]; simp), ih,
        List.filterMap_cons_none (by rw [hvalue]; rfl)]

theorem initFromArgv (argv : List String16) :
    CommandLine.initFromArgv count argv = (ofArgv count argv).commandLine := by
  have hstart : CommandLine.noProgram = noProgram.commandLine := rfl
  rw [CommandLine.initFromArgv, hstart, setProgram]
  exact appendLoop_on argv.tail

/-- Each call does to the object what it does to the parts. -/
theorem commandLine_call (k : Call) :
    p.commandLine.call count f k = (p.call count f k).commandLine := by
  cases k with
  | setProgram program => exact p.setProgram program
  | appendSwitch switchString => exact p.appendSwitchNative switchString []
  | appendSwitchPath switchString path => exact p.appendSwitchNative switchString (cStr path)
  | appendSwitchNative switchString value => exact p.appendSwitchNative switchString value
  | appendSwitchASCII switchString value =>
    exact p.appendSwitchNative switchString (asciiToUtf16 value)
  | copySwitchesFrom source switches => exact p.copySwitchesFrom source switches
  | appendArg value => exact p.appendArgNative _
  | appendArgPath path => exact p.appendArgNative _
  | appendArgNative value => exact p.appendArgNative value
  | appendArguments other includeProgram =>
    simp only [CommandLine.call, CommandLine.appendArguments, call]
    split
    · rw [setProgram]
      exact appendLoop_on other.argv.tail
    · exact appendLoop_on other.argv.tail
  | prependWrapper wrapper =>
    simp only [call]
    split
    next hw =>
      subst hw
      rfl
    next hw => exact p.prependWrapper hw
  | initFromArgv argv => exact initFromArgv argv
  | parseFromString commandLine =>
    simp only [CommandLine.call, CommandLine.parseFromString, call]
    split
    · rfl
    · exact initFromArgv _

theorem afterCalls_eq (calls : List Call) :
    CommandLine.afterCalls count f calls = (afterCalls count f calls).commandLine := by
  have hstart : CommandLine.noProgram = noProgram.commandLine := rfl
  rw [CommandLine.afterCalls, hstart]
  exact List.foldl_hom commandLine fun _ k => commandLine_call k

theorem hasSwitch_iff (switchString : Bytes) : p.commandLine.hasSwitch switchString = true ↔
    ∃ s ∈ p.switches, s.key = lowerASCIIOnWindows switchString := by
  simp [CommandLine.hasSwitch, commandLine, lastValue]

theorem getArgs_eq : p.commandLine.getArgs = p.args.erase kSwitchTerminator := by
  have hlen : p.programs.length + p.switches.length =
      (p.programs ++ p.switches.map Switch.text).length := by simp
  rw [CommandLine.getArgs, commandLine, ← List.append_assoc, hlen, List.drop_left]

end Parts

/-- **The layout of a command line**: whatever members are called, in whatever order, `argv_` is the
programs, the switches and the arguments of the calls, `begin_args_` is where the arguments begin, a
switch is had when one of its key was appended, in whatever case, and its value is what the last one
says. -/
theorem commandLine_layout (calls : List Call) :
    let c := CommandLine.afterCalls count f calls
    let p := Parts.afterCalls count f calls
    c.argv = p.programs ++ (p.switches.map Switch.text ++ p.args) ∧
      c.beginArgs = p.programs.length + p.switches.length ∧
      c.getArgs = p.args.erase kSwitchTerminator ∧
      (∀ switchString, c.hasSwitch switchString = true ↔
        ∃ s ∈ p.switches, s.key = lowerASCIIOnWindows switchString) ∧
      ∀ switchString, c.getSwitchValueNative switchString =
        (lastValue p.switches (lowerASCIIOnWindows switchString)).getD [] := by
  simp only
  rw [Parts.afterCalls_eq]
  exact ⟨rfl, rfl, Parts.getArgs_eq, Parts.hasSwitch_iff, fun _ => rfl⟩

/-- A switch in two cases around an argument, and then strings with a terminator. -/
example : (CommandLine.afterCalls 3 (fun _ => []) [
    .appendSwitchNative ("a".toList.map ch) [wch 'x'], .appendArgNative [wch 'b'],
    .appendSwitch ("/A".toList.map ch),
    .appendArguments ⟨[[], [wch 'c'], "-d".toList.map wch, kSwitchTerminator,
      "-e".toList.map wch], fun _ => none, 1⟩ false]).argv =
    [[], "--a=x".toList.map wch, "/a".toList.map wch, "-d".toList.map wch, [wch 'b'], [wch 'c'],
      kSwitchTerminator, "-e".toList.map wch] := by decide

end Mdgate.Cmd
