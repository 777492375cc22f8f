import Mathlib.Logic.Function.Basic
import Mdgate.Base.Utf

/-!
# `base::Environment`

The environment block of a process and the accesses of `environment.cc` to it.
The system finds a variable by its name without regard to case; names are ASCII.
-/

namespace Mdgate.Base

open Mdgate.Lib

/-- The values of the variables, by their names in upper case. -/
abbrev EnvironmentBlock := Bytes → Option String16

def toUpperASCII (c : UInt8) : UInt8 := if ch 'a' ≤ c ∧ c ≤ ch 'z' then c + (ch 'A' - ch 'a') else c

def toLowerASCII (c : UInt8) : UInt8 := if ch 'A' ≤ c ∧ c ≤ ch 'Z' then c + (ch 'a' - ch 'A') else c

/-- The string up to its first NUL. -/
def cStr (s : String16) : String16 := s.takeWhile (!· == 0)

namespace Environment

/-- `GetEnvironmentVariable`; the name is `variable_name` as it was given. -/
def getEnvironmentVariable (env : EnvironmentBlock) (name : Bytes) : Option String16 :=
  env (name.map toUpperASCII)

/-- `SetEnvironmentVariable`; no value removes the variable. -/
def setEnvironmentVariable (env : EnvironmentBlock) (name : Bytes) (value : Option String16) :
    EnvironmentBlock :=
  Function.update env (name.map toUpperASCII) value

def getVarImpl (env : EnvironmentBlock) (variableName : Bytes) : Option Bytes :=
  (getEnvironmentVariable env variableName).map utf16ToUtf8

/-- `GetVar`, which also tries the reverse case. -/
def getVar (env : EnvironmentBlock) (variableName : Bytes) : Option Bytes :=
  match getVarImpl env variableName with
  | some result => some result
  | none =>
    match variableName with
    | [] => none
    | firstChar :: _ =>
      if ch 'a' ≤ firstChar ∧ firstChar ≤ ch 'z' then
        getVarImpl env (variableName.map toUpperASCII)
      else if ch 'A' ≤ firstChar ∧ firstChar ≤ ch 'Z' then
        getVarImpl env (variableName.map toLowerASCII)
      else none

def hasVar (env : EnvironmentBlock) (variableName : Bytes) : Bool :=
  (getVar env variableName).isSome

def setVar (env : EnvironmentBlock) (variableName newValue : Bytes) : EnvironmentBlock :=
  setEnvironmentVariable env variableName (some (cStr (utf8ToUtf16 newValue)))

def unSetVar (env : EnvironmentBlock) (variableName : Bytes) : EnvironmentBlock :=
  setEnvironmentVariable env variableName none

/-! ## Reading back -/

theorem toUpperASCII_idem (c : UInt8) : toUpperASCII (toUpperASCII c) = toUpperASCII c := by
  have h : ∀ n < 256, toUpperASCII (toUpperASCII n.toUInt8) = toUpperASCII n.toUInt8 := by
    decide +kernel
  simpa using h c.toNat c.toNat_lt

theorem toUpperASCII_toLowerASCII (c : UInt8) :
    toUpperASCII (toLowerASCII c) = toUpperASCII c := by
  have h : ∀ n < 256, toUpperASCII (toLowerASCII n.toUInt8) = toUpperASCII n.toUInt8 := by
    decide +kernel
  simpa using h c.toNat c.toNat_lt

theorem getVar_eq (env : EnvironmentBlock) (name : Bytes) :
    getVar env name = (getEnvironmentVariable env name).map utf16ToUtf8 := by
  unfold getVar getVarImpl
  cases h : getEnvironmentVariable env name with
  | some v => rfl
  | none =>
    have hupper : getEnvironmentVariable env (name.map toUpperASCII) = none := by
      rw [← h, getEnvironmentVariable, List.map_map]
      simp [getEnvironmentVariable, Function.comp_def, toUpperASCII_idem]
    have hlower : getEnvironmentVariable env (name.map toLowerASCII) = none := by
      rw [← h, getEnvironmentVariable, List.map_map]
      simp [getEnvironmentVariable, Function.comp_def, toUpperASCII_toLowerASCII]
    cases name with
    | nil => rfl
    | cons firstChar rest =>
      simp only [Option.map_none, hupper, hlower]
      split_ifs <;> rfl

theorem getVar_set (env : EnvironmentBlock) (name name' : Bytes) (value : Option String16) :
    getVar (setEnvironmentVariable env name value) name' =
      if name'.map toUpperASCII = name.map toUpperASCII then value.map utf16ToUtf8
      else getVar env name' := by
  rw [getVar_eq, getVar_eq, getEnvironmentVariable, setEnvironmentVariable, Function.update_apply,
    getEnvironmentVariable]
  split_ifs <;> rfl

theorem nul_transparent :
    Transparent Utf16.writeUnicodeCharacter (· == '\x00') (· == (0 : UInt16)) :=
  utf16_letter (by decide)

theorem getVar_setVar (env : EnvironmentBlock) (name : Bytes) (cs : List Char) :
    getVar (setVar env name (encodeUtf8 cs)) name =
      some (encodeUtf8 (cs.takeWhile (!· == '\x00'))) := by
  rw [setVar, getVar_set, if_pos rfl, utf8ToUtf16_encode, cStr, encodeUtf16,
    nul_transparent.takeWhile, Option.map_some]
  exact congrArg some (utf16ToUtf8_encode _)

end Environment

end Mdgate.Base
