import Mdgate.App.CrashReporter
import Mdgate.Lib.Machine

/-!
# Crash and restart

Browser processes start in a clean environment, as children of a running
instance, or by `DumpDoneCallback` of an instance that crashed. The state of the
protocol lies in two variables that a child inherits.

`PrepareRestartOnCrashEnviroment` returns early for a command line with a test
option, and leaves a `CHROME_RESTART` that the process inherited: such a process
is restarted after a crash, against what the comment there says. `Restartable`
is the crash that does what is meant, and `restart_protocol` says that nothing
else goes wrong.
-/

namespace Mdgate.App

open Mdgate.Base Mdgate.Lib Environment CrashReporter

/-! ## Launch and crash -/

/-- What a launch meets: `chrome.ini`, and the user's answer to the dialog. -/
structure Surroundings where
  iniContent : Bytes
  idOk : Bool

structure Process where
  commandLine : CommandLine
  /-- Started by `DumpDoneCallback`. -/
  respawned : Bool
  showedDialog : Bool
  /-- The environment while the process runs. -/
  environment : Option EnvironmentBlock

/-- `ShowRestartDialogIfCrashed`: the result and `exit_now`, which was true. -/
def showRestartDialogIfCrashed (idOk : Bool) (env : EnvironmentBlock) : Bool × Bool :=
  match shouldShowRestartDialog env with
  | none => (false, true)
  | some _ => (true, !idOk)

/-- `Launch` of a browser process, up to `InitCrashReporter`. -/
def launch (commandLine : CommandLine) (respawned : Bool) (w : Surroundings)
    (env : EnvironmentBlock) : Process :=
  let shown := showRestartDialogIfCrashed w.idOk env
  { commandLine, respawned
    showedDialog := shown.1
    environment :=
      if shown.1 && shown.2 then none
      else some (prepareRestartOnCrashEnviroment commandLine w.iniContent env) }

/-- `DumpDoneCallback`: the environment of the process it starts. -/
def dumpDoneCallback (hardError : Bool) (env : EnvironmentBlock) : Option EnvironmentBlock :=
  if hardError then none
  else if !(aboutToRestart env).1 then none
  else some (aboutToRestart env).2

/-! ## The processes of a machine -/

inductive ProcessAction where
  /-- In an environment without either variable. -/
  | start (env : EnvironmentBlock) (commandLine : CommandLine) (w : Surroundings)
  | startChild (i : Nat) (commandLine : CommandLine) (w : Surroundings)
  | exit (i : Nat)
  /-- `created` says whether `CreateProcess` succeeds. -/
  | crash (i : Nat) (hardError created : Bool) (w : Surroundings)

namespace Processes

def running (ps : List Process) (i : Nat) : Option (Process × EnvironmentBlock) :=
  ps[i]?.bind fun p => p.environment.map fun env => (p, env)

def finish (ps : List Process) (i : Nat) : List Process :=
  ps.modify i fun p => { p with environment := none }

def step (ps : List Process) : ProcessAction → Option (List Process)
  | .start env commandLine w =>
    if hasVar env EnvVars.showRestart = false ∧ hasVar env EnvVars.restartInfo = false then
      some (ps ++ [launch commandLine false w env])
    else none
  | .startChild i commandLine w =>
    (running ps i).map fun r => ps ++ [launch commandLine false w r.2]
  | .exit i => (running ps i).map fun _ => finish ps i
  | .crash i hardError created w =>
    (running ps i).map fun r =>
      match dumpDoneCallback hardError r.2 with
      | some env =>
        if created then finish ps i ++ [launch r.1.commandLine true w env] else finish ps i
      | none => finish ps i

end Processes

def restartMachine : Machine (List Process) ProcessAction := ⟨(· = []), Processes.step⟩

/-! ## The law -/

/-- The test options of `PrepareRestartOnCrashEnviroment`. -/
def CommandLine.hasTestOption (c : CommandLine) : Bool :=
  c.hasSwitch Switches.browserCrashTest || c.hasSwitch Switches.noErrorDialogs

/-- The dialog is shown to restarted processes, and a process with a test option is
neither restarted nor shows it. -/
def Lawful (p : Process) : Prop :=
  (p.showedDialog = true ↔ p.respawned = true) ∧
    (p.commandLine.hasTestOption = true → p.respawned = false ∧ p.showedDialog = false)

instance (p : Process) : Decidable (Lawful p) := inferInstanceAs (Decidable (_ ∧ _))

/-- A restart of the process does what is meant: if `CHROME_RESTART` is set, the
command line has no test option and the value holds three strings. -/
def Restartable (c : CommandLine) (env : EnvironmentBlock) : Prop :=
  ∀ v ∈ getEnvironmentVariable env EnvVars.restartInfo,
    c.hasTestOption = false ∧ 2 ≤ v.countP (· == (ch '|').toUInt16)

/-- The guard of a step: a crash restarts only what is restartable. -/
def RestartsWell (ps : List Process) : ProcessAction → Prop
  | .crash i false true _ => ∀ r ∈ Processes.running ps i, Restartable r.1.commandLine r.2
  | _ => True

/-! ## Environments -/

theorem hasVar_eq (env : EnvironmentBlock) (name : Bytes) :
    hasVar env name = (getEnvironmentVariable env name).isSome := by
  rw [hasVar, getVar_eq, Option.isSome_map]

theorem getEnvironmentVariable_set (env : EnvironmentBlock) (name name' : Bytes)
    (value : Option String16) :
    getEnvironmentVariable (setEnvironmentVariable env name value) name' =
      if name'.map toUpperASCII = name.map toUpperASCII then value
      else getEnvironmentVariable env name' := by
  rw [getEnvironmentVariable, setEnvironmentVariable, Function.update_apply]
  rfl

theorem restartInfo_ne : EnvVars.restartInfo.map toUpperASCII ≠
    EnvVars.showRestart.map toUpperASCII := by
  decide

theorem separator_transparent :
    Transparent Utf16.writeUnicodeCharacter (· == '|') (· == (ch '|').toUInt16) :=
  utf16_letter (by decide)

theorem getAppConfig_valid {defaultVal : String16} (h : ∃ cs, defaultVal = encodeUtf16 cs)
    (iniContent key : Bytes) : ∃ cs, getAppConfig iniContent key defaultVal = encodeUtf16 cs := by
  unfold getAppConfig
  simp only
  split_ifs with hempty
  · exact h
  · unfold DictionaryValue.getString16 at hempty ⊢
    split
    · exact ⟨_, utf8ToUtf16_eq _⟩
    · next hnone => exact ⟨[], rfl⟩

/-- What a launched process leaves in the environment for its children. -/
structure Prepared (env : EnvironmentBlock) : Prop where
  noCrash : hasVar env EnvVars.showRestart = false
  valid : ∀ v ∈ getEnvironmentVariable env EnvVars.restartInfo, ∃ text, v = encodeUtf16 text

theorem prepared (commandLine : CommandLine) (iniContent : Bytes) {env : EnvironmentBlock}
    (h : ∀ v ∈ getEnvironmentVariable env EnvVars.restartInfo, ∃ text, v = encodeUtf16 text) :
    Prepared (prepareRestartOnCrashEnviroment commandLine iniContent env) := by
  have hunset : Prepared (unSetVar env EnvVars.showRestart) := by
    refine ⟨?_, ?_⟩
    · rw [hasVar_eq, unSetVar, getEnvironmentVariable_set, if_pos rfl]
      rfl
    · rwa [unSetVar, getEnvironmentVariable_set, if_neg restartInfo_ne]
  unfold prepareRestartOnCrashEnviroment
  simp only
  split_ifs
  · exact hunset
  · obtain ⟨title, ht⟩ := getAppConfig_valid ⟨_, rfl⟩ iniContent crashTitle
    obtain ⟨message, hm⟩ := getAppConfig_valid ⟨_, rfl⟩ iniContent crashContent
    rw [defaultTitle, ht, defaultContent, hm, setRestartInfo_eq, setVar]
    refine ⟨?_, ?_⟩
    · rw [hasVar_eq, getEnvironmentVariable_set, if_neg restartInfo_ne.symm, ← hasVar_eq]
      exact hunset.noCrash
    · rw [getEnvironmentVariable_set, if_pos rfl, utf8ToUtf16_encode, cStr, encodeUtf16,
        nul_transparent.takeWhile]
      intro v hv
      exact ⟨_, (Option.mem_some_iff.mp hv).symm⟩

/-! ## The restarted process -/

/-- A text is cut in three or more just when it has two separators. -/
theorem three_le_length_splitString (text : List Char) :
    3 ≤ (splitString '|' (trimString isBlank) text).length ↔ 2 ≤ text.countP (· == '|') := by
  by_cases h : '|' ∈ text
  · rw [splitString_eq h, List.length_map, length_splitOn]
    omega
  · have hzero : text.countP (· == '|') = 0 := by
      rw [List.countP_eq_zero]
      rintro c hc heq
      exact h (eq_of_beq heq ▸ hc)
    rw [splitString_of_not_mem h, hzero]
    split_ifs <;> simp

theorem dumpDoneCallback_eq_some {hardError : Bool} {env env' : EnvironmentBlock}
    (h : dumpDoneCallback hardError env = some env') : hardError = false ∧
      hasVar env EnvVars.restartInfo = true ∧ env' = setVar env EnvVars.showRestart [ch '1'] := by
  unfold dumpDoneCallback aboutToRestart at h
  cases hardError <;> cases hinfo : hasVar env EnvVars.restartInfo <;> simp_all

theorem dumpDoneCallback_eq_none {env : EnvironmentBlock} (h : dumpDoneCallback false env = none) :
    getEnvironmentVariable env EnvVars.restartInfo = none := by
  unfold dumpDoneCallback aboutToRestart at h
  cases hinfo : hasVar env EnvVars.restartInfo
  · simpa [hasVar_eq] using hinfo
  · simp [hinfo] at h

/-- A restart is announced when the value holds three strings. -/
theorem shouldShow_respawn {env : EnvironmentBlock} {text : List Char}
    (h : getEnvironmentVariable env EnvVars.restartInfo = some (encodeUtf16 text)) :
    (shouldShowRestartDialog (setVar env EnvVars.showRestart [ch '1'])).isSome = true ↔
      2 ≤ text.countP (· == '|') := by
  have hshow : hasVar (setVar env EnvVars.showRestart [ch '1']) EnvVars.showRestart = true := by
    rw [hasVar_eq, setVar, getEnvironmentVariable_set, if_pos rfl]
    rfl
  have hinfo : getVar (setVar env EnvVars.showRestart [ch '1']) EnvVars.restartInfo =
      some (encodeUtf8 text) := by
    rw [getVar_eq, setVar, getEnvironmentVariable_set, if_neg restartInfo_ne, h, Option.map_some,
      utf16ToUtf8_encode]
  rw [shouldShowRestartDialog_eq hshow hinfo, ← three_le_length_splitString]
  rcases splitString '|' (trimString isBlank) text with _ | ⟨a, _ | ⟨b, _ | ⟨c, l⟩⟩⟩ <;> simp

theorem shouldShow_none {env : EnvironmentBlock} (h : hasVar env EnvVars.showRestart = false) :
    shouldShowRestartDialog env = none := by
  simp [shouldShowRestartDialog, h]

section Launch
variable (c : CommandLine) (respawned : Bool) (w : Surroundings) (env : EnvironmentBlock)

@[simp] theorem launch_commandLine : (launch c respawned w env).commandLine = c := rfl

@[simp] theorem launch_respawned : (launch c respawned w env).respawned = respawned := rfl

@[simp] theorem launch_showedDialog :
    (launch c respawned w env).showedDialog = (shouldShowRestartDialog env).isSome := by
  unfold launch showRestartDialogIfCrashed
  cases shouldShowRestartDialog env <;> rfl

theorem launch_environment : ∀ env' ∈ (launch c respawned w env).environment,
    env' = prepareRestartOnCrashEnviroment c w.iniContent env := by
  simp only [launch]
  split_ifs <;> simp

end Launch

theorem lawful_launch {env : EnvironmentBlock} (h : hasVar env EnvVars.showRestart = false)
    (c : CommandLine) (w : Surroundings) : Lawful (launch c false w env) := by
  simp [Lawful, shouldShow_none h]

/-- A restart is lawful when the process was restartable. -/
theorem lawful_respawn_iff {env : EnvironmentBlock} (henv : Prepared env)
    (h : hasVar env EnvVars.restartInfo = true) (c : CommandLine) (w : Surroundings) :
    Lawful (launch c true w (setVar env EnvVars.showRestart [ch '1'])) ↔ Restartable c env := by
  rw [hasVar_eq, Option.isSome_iff_exists] at h
  obtain ⟨v, hv⟩ := h
  obtain ⟨text, rfl⟩ := henv.valid v hv
  have hcount : (encodeUtf16 text).countP (· == (ch '|').toUInt16) = text.countP (· == '|') :=
    separator_transparent.countP text
  have hshow := shouldShow_respawn hv
  simp only [Lawful, Restartable, launch_showedDialog, launch_respawned, launch_commandLine, hv,
    Option.mem_some_iff, forall_eq', hcount, ← hshow]
  cases c.hasTestOption <;> simp

/-! ## Runs -/

/-- What every process and its environment are like. -/
structure ProcessInv (p : Process) : Prop where
  lawful : Lawful p
  prepared : ∀ env ∈ p.environment, Prepared env

namespace Processes

theorem running_mem {ps : List Process} {i : Nat} {r : Process × EnvironmentBlock}
    (h : r ∈ running ps i) : r.1 ∈ ps ∧ r.2 ∈ r.1.environment := by
  obtain ⟨p, hp, hr⟩ := Option.bind_eq_some_iff.mp h
  obtain ⟨env, henv, rfl⟩ := Option.map_eq_some_iff.mp hr
  exact ⟨List.mem_of_getElem? hp, henv⟩

theorem inv_finish {ps : List Process} (h : ∀ p ∈ ps, ProcessInv p) (i : Nat) :
    ∀ p ∈ finish ps i, ProcessInv p := by
  intro p hp
  obtain ⟨j, hj⟩ := List.mem_iff_getElem?.mp hp
  rw [finish, List.getElem?_modify] at hj
  obtain ⟨p0, hp0, rfl⟩ := Option.map_eq_some_iff.mp hj
  have h0 := h p0 (List.mem_of_getElem? hp0)
  split_ifs
  · exact ⟨h0.lawful, fun env henv => by cases henv⟩
  · exact h0

theorem inv_launch {ps : List Process} (h : ∀ p ∈ ps, ProcessInv p) {c : CommandLine}
    {respawned : Bool} {w : Surroundings} {env : EnvironmentBlock}
    (henv : ∀ v ∈ getEnvironmentVariable env EnvVars.restartInfo, ∃ text, v = encodeUtf16 text)
    (hl : Lawful (launch c respawned w env)) :
    ∀ p ∈ ps ++ [launch c respawned w env], ProcessInv p := by
  intro p hp
  rcases List.mem_append.mp hp with hp | hp
  · exact h p hp
  · obtain rfl := List.mem_singleton.mp hp
    refine ⟨hl, fun env' henv' => ?_⟩
    rw [launch_environment c respawned w env env' henv']
    exact prepared c w.iniContent henv

theorem step_inv_iff {ps ps' : List Process} {a : ProcessAction} (h : ∀ p ∈ ps, ProcessInv p)
    (hs : step ps a = some ps') :
    (RestartsWell ps a → ∀ p ∈ ps', ProcessInv p) ∧
      ((∀ p ∈ ps', Lawful p) → RestartsWell ps a) := by
  cases a with
  | start env c w =>
    obtain ⟨⟨hcrash, hinfo⟩, rfl⟩ := Machine.guard_eq_some hs
    refine ⟨fun _ => inv_launch h ?_ (lawful_launch hcrash c w), fun _ => trivial⟩
    intro v hv
    rw [hasVar_eq, Option.mem_def.mp hv] at hinfo
    cases hinfo
  | startChild i c w =>
    obtain ⟨r, hr, rfl⟩ := Option.map_eq_some_iff.mp hs
    obtain ⟨hp, henv⟩ := running_mem hr
    have hprep := (h _ hp).prepared _ henv
    exact ⟨fun _ => inv_launch h hprep.valid (lawful_launch hprep.noCrash c w), fun _ => trivial⟩
  | exit i =>
    obtain ⟨r, -, rfl⟩ := Option.map_eq_some_iff.mp hs
    exact ⟨fun _ => inv_finish h i, fun _ => trivial⟩
  | crash i hardError created w =>
    obtain ⟨r, hr, rfl⟩ := Option.map_eq_some_iff.mp hs
    obtain ⟨hp, henv⟩ := running_mem hr
    have hprep := (h _ hp).prepared _ henv
    have hfinish := inv_finish h i
    have hguard : (∀ r ∈ running ps i, Restartable r.1.commandLine r.2) ↔
        Restartable r.1.commandLine r.2 := by
      simp [hr]
    cases hd : dumpDoneCallback hardError r.2 with
    | none =>
      simp only
      refine ⟨fun _ => hfinish, fun _ => ?_⟩
      cases hardError <;> cases created <;> try trivial
      refine hguard.mpr fun v hv => ?_
      rw [dumpDoneCallback_eq_none hd] at hv
      cases hv
    | some env =>
      obtain ⟨rfl, hinfo, rfl⟩ := dumpDoneCallback_eq_some hd
      cases created with
      | false => exact ⟨fun _ => hfinish, fun _ => trivial⟩
      | true =>
        have hlaw := lawful_respawn_iff hprep hinfo r.1.commandLine w
        refine ⟨fun hok => inv_launch hfinish ?_ (hlaw.mpr (hguard.mp hok)), fun hall => ?_⟩
        · rw [setVar, getEnvironmentVariable_set, if_neg restartInfo_ne]
          exact hprep.valid
        · exact hguard.mpr (hlaw.mp (hall _ (by simp)))

end Processes

theorem restartMachine_inv {ps : List Process} (h : restartMachine.Reach RestartsWell ps) :
    ∀ p ∈ ps, ProcessInv p := by
  refine h.invariant ?_ fun ps a ps' hI ha hs => (Processes.step_inv_iff hI hs).1 ha
  rintro _ rfl p hp
  cases hp

/-- **The restart protocol**: in every run that restarts well the dialog is shown
just to restarted processes, and not to one with a test option, which is never
restarted; a step that does not restart well breaks this. -/
theorem restart_protocol {ps : List Process} (h : restartMachine.Reach RestartsWell ps) :
    (∀ p ∈ ps, Lawful p) ∧ ∀ a ps', Processes.step ps a = some ps' →
      ((∀ p ∈ ps', Lawful p) ↔ RestartsWell ps a) := by
  have hI := restartMachine_inv h
  refine ⟨fun p hp => (hI p hp).lawful, fun a ps' hs => ?_⟩
  obtain ⟨h1, h2⟩ := Processes.step_inv_iff hI hs
  exact ⟨h2, fun ha p hp => (h1 ha p hp).lawful⟩

/-- A process without a test option may be restarted, whatever `chrome.ini` says
short of a NUL. -/
theorem restartable_prepare {c : CommandLine} (hc : c.hasTestOption = false) {iniContent : Bytes}
    {title message : List Char}
    (ht : getAppConfig iniContent crashTitle defaultTitle = encodeUtf16 title)
    (hm : getAppConfig iniContent crashContent defaultContent = encodeUtf16 message)
    (ht0 : '\x00' ∉ title) (hm0 : '\x00' ∉ message) (env : EnvironmentBlock) :
    Restartable c (prepareRestartOnCrashEnviroment c iniContent env) := by
  intro v hv
  refine ⟨hc, ?_⟩
  have hoption : (c.hasSwitch Switches.browserCrashTest ||
      c.hasSwitch Switches.noErrorDialogs) = false := hc
  rw [prepareRestartOnCrashEnviroment] at hv
  simp only [hoption, Bool.false_eq_true, if_false] at hv
  rw [ht, hm, setRestartInfo_eq, setVar, getEnvironmentVariable_set, if_pos rfl,
    utf8ToUtf16_encode, cStr, encodeUtf16, nul_transparent.takeWhile,
    takeWhile_nul (dialogText_nul ht0 hm0), Option.mem_some_iff] at hv
  rw [← hv, separator_transparent.countP]
  simp [dialogText, List.countP_append]
  omega

theorem getAppConfig_nil (defaultVal : String16) :
    getAppConfig [] crashTitle defaultVal = defaultVal ∧
      getAppConfig [] crashContent defaultVal = defaultVal := by
  have htitle : crashTitle = "crash".toList.map ch ++ ch '.' :: "title".toList.map ch := by decide
  have hcontent : crashContent =
      "crash".toList.map ch ++ ch '.' :: "content".toList.map ch := by decide
  rw [htitle, hcontent, getAppConfig_eq (by decide) (by decide),
    getAppConfig_eq (by decide) (by decide)]
  exact ⟨rfl, rfl⟩

/-- A browser crashes, and is restarted. -/
theorem restart_protocol_restart : ∃ ps, restartMachine.Reach RestartsWell ps ∧
    (∀ p ∈ ps, Lawful p) ∧ ∃ p ∈ ps, p.respawned = true := by
  have h1 : restartMachine.Reach RestartsWell [launch ⟨[]⟩ false ⟨[], true⟩ fun _ => none] :=
    (Machine.Reach.init rfl).step (a := .start (fun _ => none) ⟨[]⟩ ⟨[], true⟩) trivial rfl
  have h2 := h1.step (a := .crash 0 false true ⟨[], true⟩) (by
    intro r hr
    obtain rfl := Option.mem_some_iff.mp hr
    exact restartable_prepare rfl (getAppConfig_nil _).1 (getAppConfig_nil _).2 (by decide)
      (by decide) _) rfl
  exact ⟨_, h2, (restart_protocol h2).1, by decide⟩

/-- The child of a browser carries `noerrdialogs`, inherits `CHROME_RESTART`, and
crashes. -/
theorem not_restart_protocol :
    ¬ ∀ ps, restartMachine.Reachable ps → ∀ p ∈ ps, Lawful p := by
  intro h
  obtain ⟨ps, hr, hp⟩ := Machine.exists_reachable (M := restartMachine) (s := []) rfl
    [.start (fun _ => none) ⟨[]⟩ ⟨[], true⟩, .startChild 0 ⟨[Switches.noErrorDialogs]⟩ ⟨[], true⟩,
      .crash 1 false true ⟨[], true⟩]
    (p := fun ps => ps.any fun p => p.commandLine.hasTestOption && p.respawned) (by decide)
  obtain ⟨p, hmem, hbad⟩ := List.any_eq_true.mp hp
  rw [Bool.and_eq_true] at hbad
  have hno := ((h ps hr p hmem).2 hbad.1).1
  rw [hno] at hbad
  cases hbad.2

end Mdgate.App
