import Mdgate.Lib.Machine

/-!
# CTP sessions of the trading panel

The buttons of `TradingWidget` make one `MdApi` and destroy it, and the `MdApi`
makes one `CThostFtdcMdApi` and releases it. All of it runs on the UI thread, so
the `CurrentlyOn` checks hold. What the CTP library sees is the trace of the
calls; which object `CreateFtdcMdApi` returns is the library's choice.

The window is never deleted, and the destructor of the widget is empty: nothing
on the way from the end of the main loop to `PostDestroyThreads` resets an
`MdApi` that is still there.
-/

namespace Mdgate.Browser

open Mdgate.Lib

abbrev Api := Nat

/-- What is done to the API objects and to the `MdApi`. -/
inductive CtpCall where
  | create (api : Api)
  | init (api : Api)
  /-- `RegisterSpi`, with an `MdApi` or with null. -/
  | registerSpi (api : Api) (spi : Bool)
  | registerFront (api : Api)
  | reqUserLogin (api : Api) (requestId : Int32)
  | reqUserLogout (api : Api) (requestId : Int32)
  | release (api : Api)
  | deleteMdApi
  deriving DecidableEq, Repr

structure MdApi where
  mdapi : Option Api
  deriving DecidableEq, Repr

structure Session where
  mdapi : Option MdApi
  reqid : Int32
  trace : List CtpCall
  /-- A CHECK of `MdApi` has failed, or a call went through a null pointer. -/
  crashed : Bool
  ended : Bool
  deriving DecidableEq, Repr

/-- The objects as the library sees them. -/
structure Library where
  created : List Api
  released : List Api
  registered : List Api
  deriving DecidableEq, Repr

namespace Library

def empty : Library := ⟨[], [], []⟩

def live (l : Library) : List Api := l.created.filter (· ∉ l.released)

def apply (l : Library) : CtpCall → Library
  | .create api => { l with created := l.created ++ [api] }
  | .registerSpi api true => { l with registered := api :: l.registered.filter (· ≠ api) }
  | .registerSpi api false => { l with registered := l.registered.filter (· ≠ api) }
  | .release api => { l with released := l.released ++ [api] }
  | _ => l

end Library

def library (t : List CtpCall) : Library := t.foldl Library.apply .empty

namespace Session

/-- A new panel. -/
def new : Session := ⟨none, 1, [], false, false⟩

def emit (s : Session) (c : CtpCall) : Session := { s with trace := s.trace ++ [c] }

def crash (s : Session) : Session := { s with crashed := true }

def call (s : Session) (m : MdApi) (c : Api → CtpCall) : Session :=
  match m.mdapi with
  | some api => s.emit (c api)
  | none => s.crash

end Session

namespace MdApi

def setup (m : MdApi) (api : Api) (s : Session) : MdApi × Session :=
  if m.mdapi.isSome then (m, s.crash)
  else
    let m : MdApi := ⟨some api⟩
    (m, ((s.emit (.create api)).call m .init).call m (.registerSpi · true))

def reset (m : MdApi) (s : Session) : MdApi × Session :=
  (⟨none⟩, (s.call m (.registerSpi · false)).call m .release)

def connect (m : MdApi) (s : Session) : Session := s.call m .registerFront

def login (m : MdApi) (s : Session) : Session :=
  { s.call m (.reqUserLogin · s.reqid) with reqid := s.reqid + 1 }

def logout (m : MdApi) (s : Session) : Session :=
  { s.call m (.reqUserLogout · s.reqid) with reqid := s.reqid + 1 }

end MdApi

namespace Session

inductive Action where
  /-- `TradingWidget::Setup`, where `CreateFtdcMdApi` returns `api`. -/
  | setup (api : Api)
  | connect
  | login
  | logout
  | reset
  /-- The main loop ends, by any of its exits, and the browser is torn down. -/
  | exit
  deriving DecidableEq, Repr

/-- One action; none where a CHECK of `TradingWidget` fails. -/
def step (s : Session) (a : Action) : Option Session :=
  if s.ended || s.crashed then none
  else
    match a, s.mdapi with
    | .setup api, none =>
      if api ∈ (library s.trace).created then none
      else
        let r := (MdApi.mk none).setup api s
        some { r.2 with mdapi := some r.1 }
    | .connect, some m => some (m.connect s)
    | .login, some m => some (m.login s)
    | .logout, some m => some (m.logout s)
    | .reset, some m => some { (m.reset s).2.emit .deleteMdApi with mdapi := none }
    | .exit, _ => some { s with ended := true }
    | _, _ => none

/-! ## What is promised -/

def Allowed (l : Library) : CtpCall → Prop
  | .create _ | .deleteMdApi => l.live = []
  | .release api => l.live = [api] ∧ api ∉ l.registered
  | .init api | .registerSpi api _ | .registerFront api | .reqUserLogin api _
  | .reqUserLogout api _ => l.live = [api]

/-- Every call was allowed when it was made. -/
inductive Contract : List CtpCall → Prop where
  | nil : Contract []
  | snoc {t : List CtpCall} {c : CtpCall} : Contract t → Allowed (library t) c → Contract (t ++ [c])

/-- What holds at every point of a session. -/
structure Paired (s : Session) : Prop where
  atMostOne : (library s.trace).live.length ≤ 1
  inStep : ∀ m, s.mdapi = some m → m.mdapi.isSome = true
  sound : s.crashed = false
  contract : Contract s.trace

/-- Every object was released once, and none has a Spi. -/
def AllReleased (s : Session) : Prop :=
  (∀ api ∈ (library s.trace).created, (library s.trace).released.count api = 1) ∧
    (library s.trace).registered = []

end Session

/-! ## The library -/

/-- At most `api` is live, with a Spi if `spi` says so. -/
structure Library.Holds (l : Library) (api : Option Api) (spi : Bool) : Prop where
  live : l.live = api.toList
  registered : l.registered = if spi then api.toList else []
  released : ∀ a ∈ l.created, l.released.count a = if some a = api then 0 else 1
  subset : ∀ a ∈ l.released, a ∈ l.created

namespace Library.Holds

variable {l : Library} {api : Api} {spi : Bool}

theorem create (h : l.Holds none spi) (hfresh : api ∉ l.created) :
    (l.apply (.create api)).Holds (some api) false := by
  have hnew : api ∉ l.released := fun hmem => hfresh (h.subset api hmem)
  refine ⟨?_, ?_, ?_, ?_⟩
  · have hlive : l.live = [] := h.live
    show (l.created ++ [api]).filter (· ∉ l.released) = [api]
    rw [List.filter_append, show l.created.filter (· ∉ l.released) = [] from hlive]
    simp [hnew]
  · have hreg := h.registered
    simpa [apply] using hreg
  · intro a ha
    show l.released.count a = _
    rcases List.mem_append.mp ha with ha | ha
    · have hne : a ≠ api := fun heq => hfresh (heq ▸ ha)
      simpa [hne] using h.released a ha
    · obtain rfl := List.mem_singleton.mp ha
      simpa using List.count_eq_zero.mpr hnew
  · intro a ha
    exact List.mem_append_left _ (h.subset a ha)

theorem registerSpi (h : l.Holds (some api) spi) (b : Bool) :
    (l.apply (.registerSpi api b)).Holds (some api) b := by
  have hreg : l.registered.filter (· ≠ api) = [] := by
    rw [h.registered]
    cases spi <;> simp
  cases b with
  | false => exact ⟨h.live, hreg, h.released, h.subset⟩
  | true => exact ⟨h.live, congrArg (api :: ·) hreg, h.released, h.subset⟩

theorem release (h : l.Holds (some api) false) : (l.apply (.release api)).Holds none false := by
  have hlive : l.created.filter (· ∉ l.released) = [api] := h.live
  have hmem : api ∈ l.created := by
    have hin : api ∈ l.created.filter (· ∉ l.released) := by
      rw [hlive]
      exact List.mem_singleton_self api
    exact (List.mem_filter.mp hin).1
  refine ⟨?_, h.registered, ?_, ?_⟩
  · show l.created.filter (· ∉ l.released ++ [api]) = []
    have hsplit : l.created.filter (· ∉ l.released ++ [api]) =
        (l.created.filter (· ∉ l.released)).filter (· ≠ api) := by
      rw [List.filter_filter]
      exact List.filter_congr fun a _ => by simp [not_or, and_comm]
    rw [hsplit, hlive]
    simp
  · intro a ha
    have hcount := h.released a ha
    show (l.released ++ [api]).count a = _
    by_cases heq : a = api
    · subst heq
      simpa using hcount
    · have hne : api ≠ a := fun h => heq h.symm
      simpa [heq, hne] using hcount
  · intro a ha
    rcases List.mem_append.mp ha with ha | ha
    · exact h.subset a ha
    · exact List.mem_singleton.mp ha ▸ hmem

end Library.Holds

@[simp] theorem library_snoc (t : List CtpCall) (c : CtpCall) :
    library (t ++ [c]) = (library t).apply c := by
  simp [library]

/-! ## The session -/

/-- The panel and its library, under every sequence of clicks. -/
def sessionMachine : Machine Session Session.Action := ⟨(· = .new), Session.step⟩

namespace Session

/-- The last of the `Setup` and `Reset` clicks is `Setup`, or there was none and `b`. -/
def leftOpen (b : Bool) (as : List Action) : Bool :=
  as.foldl (fun b a => match a with
    | .setup _ => true
    | .reset => false
    | _ => b) b

/-- The calls were allowed, and `api` is the only object that is live. -/
structure Sound (s : Session) (api : Option Api) (spi : Bool) : Prop where
  sound : s.crashed = false
  contract : Contract s.trace
  library : (library s.trace).Holds api spi

/-- Between two clicks. -/
structure Inv (s : Session) (api : Option Api) : Prop extends Sound s api api.isSome where
  mdapi : s.mdapi = api.map fun api => ⟨some api⟩

variable {s s' : Session} {api : Option Api} {a : Api} {spi spi' : Bool}

theorem Sound.emit {api' : Option Api} {c : CtpCall} (h : s.Sound api spi)
    (hc : Allowed (Mdgate.Browser.library s.trace) c)
    (hl : ((Mdgate.Browser.library s.trace).apply c).Holds api' spi') :
    (s.emit c).Sound api' spi' := by
  refine ⟨h.sound, .snoc h.contract hc, ?_⟩
  show (Mdgate.Browser.library (s.trace ++ [c])).Holds api' spi'
  rw [library_snoc]
  exact hl

theorem Sound.setup (h : s.Sound none spi) (hfresh : a ∉ (Mdgate.Browser.library s.trace).created) :
    ((MdApi.mk none).setup a s).2.Sound (some a) true := by
  have h1 := h.emit (c := .create a) h.library.live (h.library.create hfresh)
  have h2 := h1.emit (c := .init a) h1.library.live h1.library
  exact h2.emit (c := .registerSpi a true) h2.library.live (h2.library.registerSpi true)

theorem Sound.reset (h : s.Sound (some a) spi) :
    (((MdApi.mk (some a)).reset s).2.emit .deleteMdApi).Sound none false := by
  have h1 := h.emit (c := .registerSpi a false) h.library.live (h.library.registerSpi false)
  have hspi : a ∉ (Mdgate.Browser.library (s.emit (.registerSpi a false)).trace).registered := by
    rw [h1.library.registered]
    simp
  have h2 := h1.emit (c := .release a) ⟨h1.library.live, hspi⟩ h1.library.release
  exact h2.emit (c := .deleteMdApi) h2.library.live h2.library

theorem inv_step {act : Action} (h : s.Inv api) (hs : s.step act = some s') :
    ∃ api', s'.Inv api' ∧ api'.isSome = leftOpen api.isSome [act] := by
  unfold step at hs
  rw [h.mdapi] at hs
  obtain ⟨-, hs⟩ := Option.ite_none_left_eq_some.mp hs
  cases act with
  | setup b =>
    cases api with
    | some a => cases hs
    | none =>
      obtain ⟨hfresh, hs⟩ := Option.ite_none_left_eq_some.mp hs
      obtain rfl := Option.some.inj hs
      have hsetup := h.toSound.setup hfresh
      exact ⟨some b, ⟨⟨hsetup.sound, hsetup.contract, hsetup.library⟩, rfl⟩, rfl⟩
  | reset =>
    cases api with
    | none => cases hs
    | some a =>
      obtain rfl := Option.some.inj hs
      have hreset := h.toSound.reset
      exact ⟨none, ⟨⟨hreset.sound, hreset.contract, hreset.library⟩, rfl⟩, rfl⟩
  | exit =>
    refine ⟨api, ?_, rfl⟩
    cases api <;> obtain rfl := Option.some.inj hs <;>
      exact ⟨⟨h.sound, h.contract, h.library⟩, rfl⟩
  | connect =>
    cases api with
    | none => cases hs
    | some a =>
      obtain rfl := Option.some.inj hs
      have hc := h.toSound.emit (c := .registerFront a) h.library.live h.library
      exact ⟨some a, ⟨hc, h.mdapi⟩, rfl⟩
  | login =>
    cases api with
    | none => cases hs
    | some a =>
      obtain rfl := Option.some.inj hs
      have hc := h.toSound.emit (c := .reqUserLogin a s.reqid) h.library.live h.library
      exact ⟨some a, ⟨⟨hc.sound, hc.contract, hc.library⟩, h.mdapi⟩, rfl⟩
  | logout =>
    cases api with
    | none => cases hs
    | some a =>
      obtain rfl := Option.some.inj hs
      have hc := h.toSound.emit (c := .reqUserLogout a s.reqid) h.library.live h.library
      exact ⟨some a, ⟨⟨hc.sound, hc.contract, hc.library⟩, h.mdapi⟩, rfl⟩

theorem inv_exec {as : List Action} (h : s.Inv api) (hs : sessionMachine.exec s as = some s') :
    ∃ api', s'.Inv api' ∧ api'.isSome = leftOpen api.isSome as := by
  induction as generalizing s api with
  | nil =>
    obtain rfl := Option.some.inj hs
    exact ⟨api, h, rfl⟩
  | cons act as ih =>
    obtain ⟨t, ht, hs⟩ := Option.bind_eq_some_iff.mp hs
    obtain ⟨api1, h1, hopen1⟩ := inv_step h ht
    obtain ⟨api2, h2, hopen2⟩ := ih h1 hs
    exact ⟨api2, h2, by rw [hopen2, hopen1]; rfl⟩

theorem inv_new : new.Inv none where
  sound := rfl
  contract := .nil
  library := ⟨rfl, rfl, by rintro a ⟨⟩, by rintro a ⟨⟩⟩
  mdapi := rfl

theorem Inv.allReleased_iff (h : s.Inv api) : s.AllReleased ↔ api = none := by
  constructor
  · rintro ⟨-, hreg⟩
    cases api with
    | none => rfl
    | some a =>
      have hlib := h.library.registered
      rw [hreg] at hlib
      cases hlib
  · rintro rfl
    exact ⟨fun a ha => h.library.released a ha, h.library.registered⟩

/-- **Sessions**: the objects are made, used and released in pairs, up to the
object of a session that ends set up, which is never released. -/
theorem session_released_iff {as : List Action} (hs : sessionMachine.exec new as = some s) :
    s.Paired ∧ (s.ended = true → (s.AllReleased ↔ leftOpen false as = false)) := by
  obtain ⟨api, h, hopen⟩ := inv_exec inv_new hs
  refine ⟨⟨?_, ?_, h.sound, h.contract⟩, fun _ => ?_⟩
  · rw [h.library.live]
    cases api <;> simp
  · intro m hm
    rw [h.mdapi] at hm
    obtain ⟨a, -, rfl⟩ := Option.map_eq_some_iff.mp hm
    rfl
  · rw [h.allReleased_iff, ← Option.isSome_none, ← hopen]
    cases api <;> simp

/-- A session that logs in and out and is reset before the window is closed. -/
theorem session_released_reset : ∃ s,
    sessionMachine.exec new [.setup 7, .connect, .login, .logout, .reset, .exit] = some s ∧
      s.Paired ∧ s.AllReleased := by
  obtain ⟨s, hs⟩ : ∃ s, sessionMachine.exec new
      [.setup 7, .connect, .login, .logout, .reset, .exit] = some s := ⟨_, rfl⟩
  have hended : s.ended = true := by
    obtain rfl := Option.some.inj hs
    rfl
  have h := session_released_iff hs
  exact ⟨s, hs, h.1, (h.2 hended).mpr rfl⟩

/-- The window is closed while the session is set up. -/
theorem not_session_released : ¬ ∀ as s, sessionMachine.exec new as = some s →
    s.Paired ∧ (s.ended = true → s.AllReleased) := by
  intro h
  have hreg := ((h [.setup 7, .connect, .login, .exit] _ rfl).2 rfl).2
  exact absurd hreg (by decide)

end Session

end Mdgate.Browser
