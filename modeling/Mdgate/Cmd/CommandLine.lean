import Mdgate.Base.Environment
import Mdgate.Lib.Argv

/-!
# `CommandLine`

The Windows branch of the class: switches, arguments and the string that a process is started with.
`CommandLineToArgvW` of the system is a parameter.
-/

namespace Mdgate.Cmd

open Mdgate.Base Mdgate.Base.Environment Mdgate.Lib

def wch (c : Char) : UInt16 := c.toNat.toUInt16

def kSwitchTerminator : String16 := [wch '-', wch '-']
def kSwitchValueSeparator : UInt16 := wch '='

def kSwitchPrefixes : List String16 := [[wch '-', wch '-'], [wch '-'], [wch '/']]

def kWhitespaceUTF16 : String16 :=
  [0x0009, 0x000A, 0x000B, 0x000C, 0x000D, 0x0020, 0x0085, 0x00A0, 0x1680, 0x2000, 0x2001, 0x2002,
    0x2003, 0x2004, 0x2005, 0x2006, 0x2007, 0x2008, 0x2009, 0x200A, 0x2028, 0x2029, 0x202F, 0x205F,
    0x3000]

def isWhitespace (c : UInt16) : Bool := kWhitespaceUTF16.contains c

def trimWhitespace (s : String16) : String16 := trimString isWhitespace s

/-- A `char`, which is signed, as a `wchar_t`. -/
def charToWide (c : UInt8) : UInt16 := if c < 0x80 then c.toUInt16 else c.toUInt16 + 0xFF00

def asciiToUtf16 (s : Bytes) : String16 := s.map charToWide

def utf16ToAscii (s : String16) : Bytes := s.map UInt16.toUInt8

def lowerASCIIOnWindows (s : Bytes) : Bytes := s.map toLowerASCII

/-- Blanks, quotation mark and backslash as `CommandLineToArgvW` has them. -/
def marks : Argv.Marks UInt16 where
  blank c := c == wch ' ' || c == wch '\t'
  quote := wch '"'
  backslash := wch '\\'
  quote_ne_backslash := by decide
  blank_quote := by decide
  blank_backslash := by decide

/-! ## Quoting -/

/-- The loop of `QuoteForCommandLineToArgvW`, of at most `fuel` rounds. -/
def quoteLoop : Nat → String16 → String16
  | 0, _ => []
  | _ + 1, [] => []
  | fuel + 1, c :: arg =>
    if c = wch '\\' then
      -- the extent of this run of backslashes
      let backslashCount := (arg.takeWhile (· == wch '\\')).length + 1
      let rest := arg.dropWhile (· == wch '\\')
      List.replicate
        (if rest = [] ∨ rest.head? = some (wch '"') then backslashCount * 2 else backslashCount)
        (wch '\\') ++ quoteLoop fuel rest
    else if c = wch '"' then wch '\\' :: wch '"' :: quoteLoop fuel arg
    else c :: quoteLoop fuel arg

def quotableChars (quotePlaceholders : Bool) : String16 :=
  [wch ' ', wch '\\', wch '"'] ++ if quotePlaceholders then [wch '%'] else []

def quoteForCommandLineToArgvW (quotePlaceholders : Bool) (arg : String16) : String16 :=
  if arg.any (quotableChars quotePlaceholders).contains then
    wch '"' :: quoteLoop arg.length arg ++ [wch '"']
  else arg

/-! ## The object -/

structure CommandLine where
  argv : List String16
  switches : Bytes → Option String16
  beginArgs : Nat

section Switches

-- `switch_prefix_count`: all prefixes, or all but the slash after `set_slash_is_not_a_switch`
variable (switchPrefixCount : Nat)

def getSwitchPrefixLength (string : String16) : Nat :=
  (((kSwitchPrefixes.take switchPrefixCount).find? (·.isPrefixOf string)).map List.length).getD 0

/-- `IsSwitch`: the switch with its prefix, and its value. -/
def isSwitch (string : String16) : Option (String16 × String16) :=
  let prefixLength := getSwitchPrefixLength switchPrefixCount string
  if prefixLength = 0 ∨ prefixLength = string.length then none
  else match find kSwitchValueSeparator string with
    | none => some (string, [])
    | some equalsPosition => some (string.take equalsPosition, string.drop (equalsPosition + 1))

namespace CommandLine

def noProgram : CommandLine := ⟨[[]], fun _ => none, 1⟩

def getProgram (c : CommandLine) : String16 := c.argv.headD []

/-- `SetProgram` of a `FilePath`, which ends at the first NUL. -/
def setProgram (c : CommandLine) (program : String16) : CommandLine :=
  { c with argv := c.argv.set 0 (trimWhitespace (cStr program)) }

def hasSwitch (c : CommandLine) (switchString : Bytes) : Bool :=
  (c.switches (lowerASCIIOnWindows switchString)).isSome

def getSwitchValueNative (c : CommandLine) (switchString : Bytes) : String16 :=
  (c.switches (lowerASCIIOnWindows switchString)).getD []

def appendSwitchNative (c : CommandLine) (switchString : Bytes) (value : String16) : CommandLine :=
  let switchKey := lowerASCIIOnWindows switchString
  let combined := asciiToUtf16 switchKey
  let prefixLength := getSwitchPrefixLength switchPrefixCount combined
  let combined := if prefixLength = 0 then kSwitchPrefixes.headD [] ++ combined else combined
  let combined := if value = [] then combined else combined ++ kSwitchValueSeparator :: value
  { argv := c.argv.insertIdx c.beginArgs combined
    switches := fun key => if key = switchKey.drop prefixLength then some value else c.switches key
    beginArgs := c.beginArgs + 1 }

def appendSwitch (c : CommandLine) (switchString : Bytes) : CommandLine :=
  c.appendSwitchNative switchPrefixCount switchString []

def appendSwitchPath (c : CommandLine) (switchString : Bytes) (path : String16) : CommandLine :=
  c.appendSwitchNative switchPrefixCount switchString (cStr path)

def appendSwitchASCII (c : CommandLine) (switchString value : Bytes) : CommandLine :=
  c.appendSwitchNative switchPrefixCount switchString (asciiToUtf16 value)

def copySwitchesFrom (c source : CommandLine) (switches : List Bytes) : CommandLine :=
  switches.foldl (fun c switch =>
    if source.hasSwitch switch then
      c.appendSwitchNative switchPrefixCount switch (source.getSwitchValueNative switch)
    else c) c

/-- `GetArgs`: the first terminator is left out. -/
def getArgs (c : CommandLine) : List String16 := (c.argv.drop c.beginArgs).erase kSwitchTerminator

def appendArgNative (c : CommandLine) (value : String16) : CommandLine :=
  { c with argv := c.argv ++ [value] }

def appendArg (c : CommandLine) (value : Bytes) : CommandLine :=
  c.appendArgNative (utf8ToUtf16 value)

def appendArgPath (c : CommandLine) (path : String16) : CommandLine := c.appendArgNative (cStr path)

/-- The loop of `AppendSwitchesAndArguments`. -/
def appendLoop (c : CommandLine) (parseSwitches : Bool) : List String16 → CommandLine
  | [] => c
  | arg :: argv =>
    let arg := trimWhitespace arg
    let parseSwitches := parseSwitches && arg != kSwitchTerminator
    match if parseSwitches then isSwitch switchPrefixCount arg else none with
    | some (switchString, switchValue) =>
      appendLoop (c.appendSwitchNative switchPrefixCount (utf16ToAscii switchString) switchValue)
        parseSwitches argv
    | none => appendLoop (c.appendArgNative arg) parseSwitches argv

/-- `AppendSwitchesAndArguments`; `argv[0]` is left out. -/
def appendSwitchesAndArguments (c : CommandLine) (argv : List String16) : CommandLine :=
  c.appendLoop switchPrefixCount true argv.tail

def appendArguments (c other : CommandLine) (includeProgram : Bool) : CommandLine :=
  let c := if includeProgram then c.setProgram other.getProgram else c
  c.appendSwitchesAndArguments switchPrefixCount other.argv

/-- `InitFromArgv`, which starts from an empty object. -/
def initFromArgv (argv : List String16) : CommandLine :=
  (noProgram.setProgram (argv.headD [])).appendSwitchesAndArguments switchPrefixCount argv

/-- `PrependWrapper`; `SplitString` trims what it cuts at the spaces. -/
def prependWrapper (c : CommandLine) (wrapper : String16) : CommandLine :=
  if wrapper = [] then c
  else
    let wrapperArgv := splitString (wch ' ') trimWhitespace wrapper
    { c with argv := wrapperArgv ++ c.argv, beginArgs := c.beginArgs + wrapperArgv.length }

/-- `ParseFromString`: a blank string leaves the object as it is. What the system is given and what it
returns are null-terminated. -/
def parseFromString (commandLineToArgvW : String16 → List String16) (c : CommandLine)
    (commandLine : String16) : CommandLine :=
  let commandLineString := trimWhitespace commandLine
  if commandLineString = [] then c
  else initFromArgv switchPrefixCount ((commandLineToArgvW (cStr commandLineString)).map cStr)

def fromString (commandLineToArgvW : String16 → List String16) (commandLine : String16) :
    CommandLine :=
  noProgram.parseFromString switchPrefixCount commandLineToArgvW commandLine

/-! ## The string -/

/-- One argument of the string; of a switch only the value is quoted. -/
def argumentString (quotePlaceholders parseSwitches : Bool) (arg : String16) : String16 :=
  match if parseSwitches then isSwitch switchPrefixCount arg else none with
  | some (switchString, switchValue) =>
    if switchValue = [] then switchString
    else switchString ++
      kSwitchValueSeparator :: quoteForCommandLineToArgvW quotePlaceholders switchValue
  | none => quoteForCommandLineToArgvW quotePlaceholders arg

/-- The loop of `GetArgumentsStringInternal`; `first` is `i == 1`. -/
def argumentsLoop (quotePlaceholders : Bool) (parseSwitches first : Bool) :
    List String16 → String16
  | [] => []
  | arg :: argv =>
    let parseSwitches := parseSwitches && arg != kSwitchTerminator
    (if first then [] else [wch ' ']) ++
      argumentString switchPrefixCount quotePlaceholders parseSwitches arg ++
      argumentsLoop quotePlaceholders parseSwitches false argv

def getArgumentsStringInternal (c : CommandLine) (quotePlaceholders : Bool) : String16 :=
  argumentsLoop switchPrefixCount quotePlaceholders true true c.argv.tail

def getCommandLineStringInternal (c : CommandLine) (quotePlaceholders : Bool) : String16 :=
  let string := quoteForCommandLineToArgvW quotePlaceholders c.getProgram
  let params := c.getArgumentsStringInternal switchPrefixCount quotePlaceholders
  if params = [] then string else string ++ wch ' ' :: params

end CommandLine

end Switches

end Mdgate.Cmd
