import Mdgate.App.AppConfig
import Mdgate.Base.Environment

/-!
# `ChromeCrashReporterClient`

The restart dialog's title and message travel through `CHROME_RESTART` as
`title|message|direction`. They come out as they went in just when neither has a
`|` in it or ASCII white space at an end.
-/

namespace Mdgate.App

open Mdgate.Base Mdgate.Lib

namespace EnvVars

def showRestart : Bytes := "CHROME_CRASHED".toList.map ch
def restartInfo : Bytes := "CHROME_RESTART".toList.map ch
def rtlLocale : Bytes := "RIGHT_TO_LEFT".toList.map ch
def ltrLocale : Bytes := "LEFT_TO_RIGHT".toList.map ch

end EnvVars

namespace Switches

def browserCrashTest : Bytes := "crash-test".toList.map ch
def noErrorDialogs : Bytes := "noerrdialogs".toList.map ch

end Switches

structure CommandLine where
  switches : List Bytes
  deriving DecidableEq, Repr

def CommandLine.hasSwitch (c : CommandLine) (switch : Bytes) : Bool := c.switches.contains switch

/-- What `ShouldShowRestartDialog` returns through its arguments. -/
structure RestartDialog where
  title : String16
  message : String16
  isRtlLocale : Bool
  deriving DecidableEq, Repr

namespace CrashReporter

open Environment

def kWhitespaceASCII : Bytes := [0x09, 0x0A, 0x0B, 0x0C, 0x0D, 0x20]

def splitStringASCII (str : Bytes) (s : UInt8) : List Bytes :=
  splitString s (trimString kWhitespaceASCII.contains) str

/-- `ShouldShowRestartDialog`; `none` is false. -/
def shouldShowRestartDialog (env : EnvironmentBlock) : Option RestartDialog :=
  if !hasVar env EnvVars.showRestart || !hasVar env EnvVars.restartInfo then none
  else
    let restartInfo := (getVar env EnvVars.restartInfo).getD []
    match splitStringASCII restartInfo (ch '|') with
    | title :: message :: locale :: _ =>
      some ⟨utf8ToUtf16 title, utf8ToUtf16 message, locale == EnvVars.rtlLocale⟩
    | _ => none

/-- `AboutToRestart`: whether to restart, and the environment to restart in. -/
def aboutToRestart (env : EnvironmentBlock) : Bool × EnvironmentBlock :=
  if !hasVar env EnvVars.restartInfo then (false, env)
  else (true, setVar env EnvVars.showRestart [ch '1'])

/-- The last part of `PrepareRestartOnCrashEnviroment`, from the title and the
message that `GetAppConfig` returned. -/
def setRestartInfo (env : EnvironmentBlock) (title message : String16) : EnvironmentBlock :=
  let dlgStrings := title ++ [(ch '|').toUInt16]
  let dlgStrings := dlgStrings ++ message
  let dlgStrings := dlgStrings ++ [(ch '|').toUInt16]
  let dlgStrings := dlgStrings ++ EnvVars.ltrLocale.map UInt8.toUInt16
  setVar env EnvVars.restartInfo (utf16ToUtf8 dlgStrings)

def crashTitle : Bytes := "crash.title".toList.map ch
def crashContent : Bytes := "crash.content".toList.map ch
def defaultTitle : String16 := encodeUtf16 "警告".toList
def defaultContent : String16 := encodeUtf16 "软件崩溃了，已帮您重新运行，是否继续？".toList

/-- `PrepareRestartOnCrashEnviroment`, with the content of `chrome.ini`. -/
def prepareRestartOnCrashEnviroment (parsedCommandLine : CommandLine) (iniContent : Bytes)
    (env : EnvironmentBlock) : EnvironmentBlock :=
  let env := unSetVar env EnvVars.showRestart
  if parsedCommandLine.hasSwitch Switches.browserCrashTest ||
      parsedCommandLine.hasSwitch Switches.noErrorDialogs then env
  else
    setRestartInfo env (getAppConfig iniContent crashTitle defaultTitle)
      (getAppConfig iniContent crashContent defaultContent)

/-! ## The pieces of the dialog strings -/

def isBlank (c : Char) : Bool := c == ' ' || ('\t' ≤ c && c ≤ '\r')

/-- Survives between separators: no separator in it, and no blank at an end. -/
def Plain (s : List Char) : Prop := '|' ∉ s ∧ Trimmed isBlank s

instance (s : List Char) : Decidable (Plain s) := inferInstanceAs (Decidable (_ ∧ _))

def dialogText (title message : List Char) : List Char :=
  title ++ '|' :: (message ++ '|' :: "LEFT_TO_RIGHT".toList)

theorem blank_transparent :
    Transparent Utf8.writeUnicodeCharacter isBlank kWhitespaceASCII.contains := by
  refine utf8_transparent (by decide) (fun c hc => ?_) (fun b hb => ?_)
  · have hspace : c ≠ ' ' := by
      rintro rfl
      exact absurd hc (by decide)
    have hreturn : ¬ c ≤ '\r' := fun hle => absurd (hc.trans hle) (by decide)
    simp [isBlank, hspace, hreturn]
  · have hlow : kWhitespaceASCII.all (· < 0x80) = true := by decide
    rw [Bool.eq_false_iff, Ne, List.contains_iff_mem]
    intro hmem
    have hb' := of_decide_eq_true (List.all_eq_true.mp hlow b hmem)
    exact absurd hb (UInt8.not_le.mpr hb')

theorem splitStringASCII_encode (cs : List Char) :
    splitStringASCII (encodeUtf8 cs) (ch '|') =
      (splitString '|' (trimString isBlank) cs).map encodeUtf8 :=
  splitString_flatMap (utf8_letter (by decide)) blank_transparent cs

theorem setRestartInfo_eq (env : EnvironmentBlock) (title message : List Char) :
    setRestartInfo env (encodeUtf16 title) (encodeUtf16 message) =
      setVar env EnvVars.restartInfo (encodeUtf8 (dialogText title message)) := by
  have hbar : [(ch '|').toUInt16] = encodeUtf16 ['|'] := by decide
  have hltr : EnvVars.ltrLocale.map UInt8.toUInt16 = encodeUtf16 "LEFT_TO_RIGHT".toList := by decide
  rw [setRestartInfo, hbar, hltr]
  simp only [encodeUtf16, ← List.flatMap_append]
  rw [← encodeUtf16, utf16ToUtf8_encode]
  simp [dialogText]

/-- The first of several pieces is the whole of `s` only if `s` is plain. -/
theorem splitOn_separator (s rest : List Char) :
    ∃ piece pieces, (s ++ '|' :: rest).splitOn '|' = piece :: pieces ∧
      (trimString isBlank piece = s → Plain s) ∧ (Plain s → piece = s) ∧
      ('|' ∉ s → pieces = rest.splitOn '|') := by
  by_cases h : '|' ∈ s
  · obtain ⟨a, b, rfl, ha⟩ := List.eq_append_cons_of_mem h
    refine ⟨a, (b ++ '|' :: rest).splitOn '|', ?_, fun heq => ?_, fun hp => absurd h hp.1,
      fun hn => absurd h hn⟩
    · rw [List.append_assoc, List.cons_append, List.splitOn_append_cons_self_of_not_mem ha]
    · have hlen := length_trimString_le isBlank a
      rw [heq, List.length_append, List.length_cons] at hlen
      omega
  · refine ⟨s, rest.splitOn '|', List.splitOn_append_cons_self_of_not_mem h _, fun heq => ?_,
      fun _ => rfl, fun _ => rfl⟩
    exact ⟨h, trimString_eq_self_iff.mp heq⟩

/-- With `CHROME_CRASHED` there, the dialog shows the first pieces of the text. -/
theorem shouldShowRestartDialog_eq {env : EnvironmentBlock} {text : List Char}
    (hshow : hasVar env EnvVars.showRestart = true)
    (hinfo : getVar env EnvVars.restartInfo = some (encodeUtf8 text)) :
    shouldShowRestartDialog env =
      match splitString '|' (trimString isBlank) text with
      | title :: message :: locale :: _ =>
        some ⟨encodeUtf16 title, encodeUtf16 message, encodeUtf8 locale == EnvVars.rtlLocale⟩
      | _ => none := by
  have hhas : hasVar env EnvVars.restartInfo = true := by rw [hasVar, hinfo]; rfl
  simp only [shouldShowRestartDialog, hshow, hhas, hinfo, Option.getD_some,
    splitStringASCII_encode]
  rcases splitString '|' (trimString isBlank) text with _ | ⟨a, _ | ⟨b, _ | ⟨c, l⟩⟩⟩ <;> simp

/-- The dialog comes back as it was exactly when both strings are plain. -/
theorem dialog_survives_iff (title message : List Char) :
    (match splitString '|' (trimString isBlank) (dialogText title message) with
      | t :: m :: locale :: _ =>
        some (⟨encodeUtf16 t, encodeUtf16 m, encodeUtf8 locale == EnvVars.rtlLocale⟩ :
          RestartDialog)
      | _ => none) = some ⟨encodeUtf16 title, encodeUtf16 message, false⟩ ↔
      Plain title ∧ Plain message := by
  have hmem : '|' ∈ dialogText title message := by simp [dialogText]
  obtain ⟨t, ts, hsplit, ht1, ht2, hts⟩ :=
    splitOn_separator title (message ++ '|' :: "LEFT_TO_RIGHT".toList)
  obtain ⟨m, ms, hsplit', hm1, hm2, hms⟩ := splitOn_separator message "LEFT_TO_RIGHT".toList
  rw [splitString_eq hmem, dialogText, hsplit, List.map_cons]
  constructor
  · intro h
    have htitle : trimString isBlank t = title := by
      rcases ts with _ | ⟨m', _ | ⟨l', ls'⟩⟩ <;> simp [encodeUtf16_inj] at h
      exact h.1
    have hp := ht1 htitle
    rw [hts hp.1, hsplit'] at h
    have hmessage : trimString isBlank m = message := by
      rcases ms with _ | ⟨l', ls'⟩ <;> simp [encodeUtf16_inj] at h
      exact h.2.1
    exact ⟨hp, hm1 hmessage⟩
  · rintro ⟨htitle, hmessage⟩
    have hltr : ("LEFT_TO_RIGHT".toList.splitOn '|').map (trimString isBlank) =
        ["LEFT_TO_RIGHT".toList] := by decide
    have hlocale : (encodeUtf8 "LEFT_TO_RIGHT".toList == EnvVars.rtlLocale) = false := by decide
    rw [hts htitle.1, hsplit', List.map_cons, hms hmessage.1, hltr, ht2 htitle, hm2 hmessage,
      trimString_eq_self_iff.mpr htitle.2, trimString_eq_self_iff.mpr hmessage.2]
    simp only [hlocale]

theorem takeWhile_nul {cs : List Char} (h : '\x00' ∉ cs) : cs.takeWhile (!· == '\x00') = cs := by
  refine List.takeWhile_eq_self_iff.mpr fun c hc => ?_
  simp only [Bool.not_eq_true', beq_eq_false_iff_ne]
  rintro rfl
  exact h hc

theorem dialogText_nul {title message : List Char} (ht : '\x00' ∉ title) (hm : '\x00' ∉ message) :
    '\x00' ∉ dialogText title message := by
  have hltr : '\x00' ∉ "LEFT_TO_RIGHT".toList := by decide
  simp only [dialogText, List.mem_append, List.mem_cons, not_or]
  exact ⟨ht, by decide, hm, by decide, hltr⟩

/-- A child that inherits `CHROME_RESTART`, and finds `CHROME_CRASHED`, shows the
title and the message as they were set exactly when both are plain. -/
theorem restart_strings_survive_iff {title message : List Char} (ht : '\x00' ∉ title)
    (hm : '\x00' ∉ message) (env : EnvironmentBlock) {child : EnvironmentBlock}
    (hshow : hasVar child EnvVars.showRestart = true)
    (hinherit : getEnvironmentVariable child EnvVars.restartInfo = getEnvironmentVariable
      (setRestartInfo env (encodeUtf16 title) (encodeUtf16 message)) EnvVars.restartInfo) :
    shouldShowRestartDialog child =
        some ⟨encodeUtf16 title, encodeUtf16 message, false⟩ ↔ Plain title ∧ Plain message := by
  have hinfo : getVar child EnvVars.restartInfo =
      some (encodeUtf8 (dialogText title message)) := by
    rw [getVar_eq, hinherit, ← getVar_eq, setRestartInfo_eq, getVar_setVar,
      takeWhile_nul (dialogText_nul ht hm)]
  rw [shouldShowRestartDialog_eq hshow hinfo]
  exact dialog_survives_iff title message

/-- The environment of the instance that `DumpDoneCallback` starts. -/
def respawnEnvironment (title message : List Char) : EnvironmentBlock :=
  (aboutToRestart (setRestartInfo (fun _ => none) (encodeUtf16 title) (encodeUtf16 message))).2

theorem restart_strings_survive_hello :
    shouldShowRestartDialog (respawnEnvironment "hi".toList "bye".toList) =
      some ⟨encodeUtf16 "hi".toList, encodeUtf16 "bye".toList, false⟩ :=
  (restart_strings_survive_iff (by decide) (by decide) (fun _ => none) (by decide)
    (by decide)).mpr (by decide)

/-- The title `a|b` comes back as `a`. -/
theorem not_restart_strings_survive :
    ¬ ∀ (title message : List Char) (env child : EnvironmentBlock), title ≠ [] → message ≠ [] →
      '\x00' ∉ title → '\x00' ∉ message → hasVar child EnvVars.showRestart = true →
      getEnvironmentVariable child EnvVars.restartInfo = getEnvironmentVariable
        (setRestartInfo env (encodeUtf16 title) (encodeUtf16 message)) EnvVars.restartInfo →
      shouldShowRestartDialog child =
        some ⟨encodeUtf16 title, encodeUtf16 message, false⟩ := by
  intro h
  have hshown := h "a|b".toList "c".toList (fun _ => none)
    (respawnEnvironment "a|b".toList "c".toList) (by decide) (by decide) (by decide) (by decide)
    (by decide) (by decide)
  exact absurd hshown (by decide)

end CrashReporter

end Mdgate.App
