import Mathlib.Data.List.Nodup
import Mdgate.Base.CancelableTaskTracker
import Mdgate.Base.RelayHistory
import Mdgate.Lib.Log
import Mdgate.Lib.Threads

/-!
# The flags of a tracker

A flag exists as long as the closure that is to delete it, and the tracker has the flags that exist
in its table; this is what makes its bare pointers safe. What has happened to a flag is read off the
log.
-/

namespace Mdgate.Base

open Mdgate.Lib Mdgate.Lib.Threads

/-- What may happen to a tracker of the thread `t` after `l`. -/
def TrackerEvent.Allowed (t : Nat) (l : List TrackerEvent) : TrackerEvent → Prop
  | checked i _ runs => (∀ u, flagDeleted i u ∉ l) ∧
      if runs then canceled i ∉ l ∧ destroyed ∉ l else canceled i ∈ l
  | isCanceled i answer => (∀ u, flagDeleted i u ∉ l) ∧ (answer = true ↔ canceled i ∈ l)
  | canceled i => ∀ u, flagDeleted i u ∉ l
  | untracked i => untracked i ∉ l ∧ destroyed ∉ l
  | flagDeleted i u => u = t ∧ ∀ u', flagDeleted i u' ∉ l
  | destroyed => destroyed ∉ l
  | fault _ => False

/-- The events that leave the flags as they are. -/
def TrackerEvent.reads : TrackerEvent → Bool
  | checked .. | isCanceled .. => true
  | canceled _ | untracked _ | flagDeleted .. | destroyed | fault _ => false

namespace TrackerState

variable {R : TaskRunners} {t : Nat} {s s' : TrackerState}

/-- The closure that is to delete a flag exists. -/
def Holds (s : TrackerState) : FlagOwner → Prop
  | .reply n => ∃ o, s.relay.origins[n]? = some (some o)
  | .callback _ | .posted | .leaked => True
  | .gone => False

/-- The tables of the tracker and the flags. -/
structure Tracked (R : TaskRunners) (t : Nat) (s : TrackerState) : Prop where
  nextId : s.nextId = s.tasks.length + 1
  id : ∀ (i : Nat) x, s.tasks[i]? = some x → x.id = i + 1
  flag : ∀ (i : Nat) x, s.tasks[i]? = some x → (x.flag.isSome = true ↔ s.Holds x.owner)
  table : s.alive = true → ∀ y, y ∈ s.taskFlags ↔
    y.1 = y.2 + 1 ∧ ∃ x, s.tasks[y.2]? = some x ∧ x.flag.isSome = true
  nodup : s.taskFlags.Nodup
  calls : s.calls.length = s.relay.origins.length
  owner : ∀ (n i : Nat), s.calls[n]? = some i ↔ ∃ x, s.tasks[i]? = some x ∧ x.owner = .reply n
  origin : ∀ (n : Nat) o, s.relay.origins[n]? = some (some o) → R.handle t = some o

/-- The log tells the state of the flags. -/
structure Logged (t : Nat) (s : TrackerState) : Prop where
  each : Log.Each (TrackerEvent.Allowed t) s.log
  canceled : ∀ i : Nat, .canceled i ∈ s.log → ∃ x, s.tasks[i]? = some x ∧ x.flag ≠ some false
  set : ∀ (i : Nat) x, s.tasks[i]? = some x → x.flag = some true → .canceled i ∈ s.log
  deleted : ∀ i u : Nat, .flagDeleted i u ∈ s.log → ∃ x, s.tasks[i]? = some x ∧ x.flag = none
  untracked : ∀ i : Nat, .untracked i ∈ s.log → ∃ x, s.tasks[i]? = some x ∧ x.flag = none
  alive : s.alive = true ↔ .destroyed ∉ s.log
  dead : s.alive = false → ∀ (i : Nat) x, s.tasks[i]? = some x → x.flag ≠ some false

variable {i : Nat} {x y : TrackedTask} {relay : RelayState} {log : List TrackerEvent}

theorem holds_congr (h : s'.relay.origins = s.relay.origins) (w : FlagOwner) :
    s'.Holds w ↔ s.Holds w := by
  cases w <;> simp [Holds, h]

/-! ## A flag is read -/

theorem Tracked.of_relay (h : Tracked R t s) (ho : relay.origins = s.relay.origins) :
    Tracked R t { s with relay, log } where
  nextId := h.nextId
  id := h.id
  flag i x hx := by
    rw [h.flag i x hx]
    exact (holds_congr ho _).symm
  table := h.table
  nodup := h.nodup
  calls := h.calls.trans (congrArg _ ho.symm)
  owner := h.owner
  origin n o ho' := h.origin n o (ho ▸ ho')

theorem Logged.read {e : TrackerEvent} (h : Logged t s) (he : e.Allowed t s.log)
    (hr : e.reads = true) : Logged t { s with relay, log := s.log ++ [e] } where
  each := h.each.concat he
  canceled i hi := by
    rcases List.mem_append.mp hi with hi | hi
    · exact h.canceled i hi
    · rw [← List.mem_singleton.mp hi] at hr
      cases hr
  set i x hx hf := List.mem_append_left _ (h.set i x hx hf)
  deleted i u hi := by
    rcases List.mem_append.mp hi with hi | hi
    · exact h.deleted i u hi
    · rw [← List.mem_singleton.mp hi] at hr
      cases hr
  untracked i hi := by
    rcases List.mem_append.mp hi with hi | hi
    · exact h.untracked i hi
    · rw [← List.mem_singleton.mp hi] at hr
      cases hr
  alive := by
    refine h.alive.trans (not_congr ?_)
    rw [List.mem_append, List.mem_singleton]
    exact ⟨.inl, fun he => he.resolve_right fun he => by rw [← he] at hr; cases hr⟩
  dead := h.dead

theorem Logged.of_relay (h : Logged t s) : Logged t { s with relay } :=
  ⟨h.each, h.canceled, h.set, h.deleted, h.untracked, h.alive, h.dead⟩

theorem Logged.canceled_iff (h : Logged t s) {b : Bool} (hx : s.tasks[i]? = some x)
    (hb : x.flag = some b) : b = true ↔ .canceled i ∈ s.log := by
  constructor
  · rintro rfl
    exact h.set i x hx hb
  · intro hi
    obtain ⟨y, hy, hne⟩ := h.canceled i hi
    obtain rfl := Option.some.inj (hx.symm.trans hy)
    cases b with
    | true => rfl
    | false => exact absurd hb hne

theorem Logged.not_deleted (h : Logged t s) (hx : s.tasks[i]? = some x)
    (hf : x.flag.isSome = true) (u : Nat) : .flagDeleted i u ∉ s.log := by
  intro hi
  obtain ⟨y, hy, hnone⟩ := h.deleted i u hi
  obtain rfl := Option.some.inj (hx.symm.trans hy)
  rw [hnone] at hf
  cases hf

theorem Logged.checked (h : Logged t s) {b : Bool} (hx : s.tasks[i]? = some x)
    (hb : x.flag = some b) (reply : Bool) :
    (TrackerEvent.checked i reply !b).Allowed t s.log := by
  refine ⟨h.not_deleted hx (by simp [hb]), ?_⟩
  have hiff := h.canceled_iff hx hb
  cases b with
  | true => exact hiff.mp rfl
  | false =>
    refine ⟨fun hi => by simpa using hiff.mpr hi, fun hd => ?_⟩
    cases ha : s.alive with
    | true => exact h.alive.mp ha hd
    | false => exact h.dead ha i x hx hb

theorem isSet_eq {b : Bool} {e : Bool → TrackerEvent} (hx : s.tasks[i]? = some x)
    (hb : x.flag = some b) : s.isSet i e = s.logs (e b) := by
  obtain ⟨id, flag, owner⟩ := x
  cases hb
  rw [isSet, hx]

/-! ## A flag is set -/

theorem Tracked.setTask (h : Tracked R t s) (hx : s.tasks[i]? = some x) (hid : y.id = x.id)
    (hflag : y.flag.isSome = x.flag.isSome) (hholds : s.Holds y.owner ↔ s.Holds x.owner)
    (howner : ∀ n, y.owner = .reply n ↔ x.owner = .reply n) :
    Tracked R t { s with tasks := s.tasks.set i y, log } where
  nextId := by rw [List.length_set, h.nextId]
  id j z hz := by
    rcases (getElem?_set_iff hx).mp hz with ⟨rfl, rfl⟩ | ⟨-, hz⟩
    · rw [hid, h.id _ _ hx]
    · exact h.id j z hz
  flag j z hz := by
    rcases (getElem?_set_iff hx).mp hz with ⟨rfl, rfl⟩ | ⟨-, hz⟩
    · rw [hflag, h.flag _ _ hx]
      exact hholds.symm
    · exact h.flag j z hz
  table ha z := by
    rw [h.table ha]
    refine and_congr_right fun _ => ?_
    by_cases hj : z.2 = i
    · subst hj
      simp [getElem?_set_iff hx, hx, hflag]
    · simp [getElem?_set_iff hx, hj]
  nodup := h.nodup
  calls := h.calls
  owner n j := by
    rw [h.owner]
    by_cases hj : j = i
    · subst hj
      simp [getElem?_set_iff hx, hx, howner]
    · simp [getElem?_set_iff hx, hj]
  origin := h.origin

theorem set_eq {b : Bool} (hx : s.tasks[i]? = some x) (hb : x.flag = some b) :
    s.set i = { s with
      tasks := s.tasks.set i { x with flag := some true }
      log := s.log ++ [.canceled i] } := by
  obtain ⟨id, flag, owner⟩ := x
  cases hb
  rw [set, hx]

theorem Tracked.set {b : Bool} (h : Tracked R t s) (hx : s.tasks[i]? = some x)
    (hb : x.flag = some b) : Tracked R t (s.set i) := by
  rw [set_eq hx hb]
  exact h.setTask hx rfl (by simp [hb]) .rfl fun _ => .rfl

theorem Logged.set_self {b : Bool} (h : Logged t s) (hx : s.tasks[i]? = some x)
    (hb : x.flag = some b) : Logged t (s.set i) := by
  rw [set_eq hx hb]
  refine ⟨h.each.concat (h.not_deleted hx (by simp [hb])), fun j hj => ?_, fun j z hz hf => ?_,
    fun j u hj => ?_, fun j hj => ?_, ?_, fun ha j z hz => ?_⟩
  · rcases List.mem_append.mp hj with hj | hj
    · obtain ⟨z, hz, hne⟩ := h.canceled j hj
      by_cases hji : j = i
      · exact ⟨_, (getElem?_set_iff hx).mpr (.inl ⟨hji, rfl⟩), by simp⟩
      · exact ⟨z, (getElem?_set_iff hx).mpr (.inr ⟨hji, hz⟩), hne⟩
    · obtain rfl := TrackerEvent.canceled.inj (List.mem_singleton.mp hj)
      exact ⟨_, (getElem?_set_iff hx).mpr (.inl ⟨rfl, rfl⟩), by simp⟩
  · rcases (getElem?_set_iff hx).mp hz with ⟨rfl, rfl⟩ | ⟨-, hz⟩
    · exact List.mem_append_right _ (List.mem_singleton_self _)
    · exact List.mem_append_left _ (h.set j z hz hf)
  · obtain ⟨z, hz, hnone⟩ := h.deleted j u (by simpa using hj)
    refine ⟨z, (getElem?_set_iff hx).mpr (.inr ⟨fun hji => ?_, hz⟩), hnone⟩
    rw [hji, hx, Option.some_inj] at hz
    rw [← hz, hb] at hnone
    cases hnone
  · obtain ⟨z, hz, hnone⟩ := h.untracked j (by simpa using hj)
    refine ⟨z, (getElem?_set_iff hx).mpr (.inr ⟨fun hji => ?_, hz⟩), hnone⟩
    rw [hji, hx, Option.some_inj] at hz
    rw [← hz, hb] at hnone
    cases hnone
  · simpa using h.alive
  · rcases (getElem?_set_iff hx).mp hz with ⟨rfl, rfl⟩ | ⟨-, hz⟩
    · simp
    · exact h.dead ha j z hz

/-- The loop of `TryCancelAll` sets every flag it comes to, and leaves the others as they are. -/
theorem setAll_spec {l : List (Nat × Nat)} (h : Tracked R t s) (hl : Logged t s)
    (hlive : ∀ y ∈ l, ∃ x, s.tasks[y.2]? = some x ∧ x.flag.isSome = true) :
    Tracked R t (s.setAll l) ∧ Logged t (s.setAll l) ∧ (s.setAll l).relay = s.relay ∧
      (s.setAll l).alive = s.alive ∧ (s.setAll l).log = s.log ++ l.map (.canceled ·.2) ∧
      ∀ (i : Nat) x, (s.setAll l).tasks[i]? = some x → ∃ x', s.tasks[i]? = some x' ∧
        x.flag.isSome = x'.flag.isSome ∧ (x'.flag ≠ some false → x.flag ≠ some false) ∧
          ((∃ y ∈ l, y.2 = i) → x.flag ≠ some false) := by
  induction l generalizing s with
  | nil => exact ⟨h, hl, rfl, rfl, (List.append_nil _).symm, fun i x hx => ⟨x, hx, rfl, id, by simp⟩⟩
  | cons y l ih =>
    obtain ⟨x, hx, hf⟩ := hlive y List.mem_cons_self
    obtain ⟨b, hb⟩ := Option.isSome_iff_exists.mp hf
    have hset := set_eq hx hb
    have htasks (i : Nat) (z : TrackedTask) : (s.set y.2).tasks[i]? = some z ↔
        (i = y.2 ∧ z = { x with flag := some true }) ∨ (i ≠ y.2 ∧ s.tasks[i]? = some z) := by
      rw [hset]
      exact getElem?_set_iff hx
    obtain ⟨ht', hl', hr', ha', hlog', hall⟩ := ih (h.set hx hb) (hl.set_self hx hb) fun z hz => by
      obtain ⟨w, hw, hwf⟩ := hlive z (List.mem_cons_of_mem _ hz)
      by_cases hzy : z.2 = y.2
      · exact ⟨_, (htasks _ _).mpr (.inl ⟨hzy, rfl⟩), rfl⟩
      · exact ⟨w, (htasks _ _).mpr (.inr ⟨hzy, hw⟩), hwf⟩
    refine ⟨ht', hl', hr'.trans (by rw [hset]), ha'.trans (by rw [hset]),
      hlog'.trans (by rw [hset]; simp), fun i z hz => ?_⟩
    obtain ⟨z', hz', hsome, hkeep, hmem⟩ := hall i z hz
    rcases (htasks i z').mp hz' with ⟨rfl, rfl⟩ | ⟨hne, hz'⟩
    · exact ⟨x, hx, hsome.trans hf.symm, fun _ => hkeep (by simp), fun _ => hkeep (by simp)⟩
    · refine ⟨z', hz', hsome, hkeep, fun ⟨w, hw, hwi⟩ => ?_⟩
      rcases List.mem_cons.mp hw with rfl | hw
      · exact absurd hwi.symm hne
      · exact hmem ⟨w, hw, hwi⟩

theorem Tracked.live_of_mem (h : Tracked R t s) (ha : s.alive = true) {y : Nat × Nat}
    (hy : y ∈ s.taskFlags) : ∃ x, s.tasks[y.2]? = some x ∧ x.flag.isSome = true :=
  ((h.table ha y).mp hy).2

/-! ## The closure of a flag changes hands -/

theorem setOwner_eq {w : FlagOwner} (hx : s.tasks[i]? = some x) :
    s.setOwner i w = { s with tasks := s.tasks.set i { x with owner := w } } := by
  rw [setOwner, List.modify_eq_set_getElem?, hx]
  rfl

theorem Tracked.setOwner {w : FlagOwner} (h : Tracked R t s) (hx : s.tasks[i]? = some x)
    (hholds : s.Holds w ↔ s.Holds x.owner) (howner : ∀ n, w = .reply n ↔ x.owner = .reply n) :
    Tracked R t (s.setOwner i w) := by
  rw [setOwner_eq hx]
  exact h.setTask hx rfl rfl hholds howner

theorem getElem?_setOwner {w : FlagOwner} {j : Nat} : (s.setOwner i w).tasks[j]? =
    s.tasks[j]?.map fun x => if i = j then { x with owner := w } else x := by
  rw [setOwner, List.getElem?_modify]
  cases s.tasks[j]? <;> rfl

theorem Logged.setOwner {w : FlagOwner} (h : Logged t s) : Logged t (s.setOwner i w) := by
  have hget {j : Nat} {x : TrackedTask} (hx : (s.setOwner i w).tasks[j]? = some x) :
      ∃ x', s.tasks[j]? = some x' ∧ x.flag = x'.flag := by
    rw [getElem?_setOwner, Option.map_eq_some_iff] at hx
    obtain ⟨x', hx', rfl⟩ := hx
    exact ⟨x', hx', by split <;> rfl⟩
  have hput {j : Nat} {x : TrackedTask} (hx : s.tasks[j]? = some x) :
      ∃ x', (s.setOwner i w).tasks[j]? = some x' ∧ x'.flag = x.flag := by
    rw [getElem?_setOwner, hx]
    exact ⟨_, rfl, by split <;> rfl⟩
  refine ⟨h.each, fun j hj => ?_, fun j x hx hf => ?_, fun j u hj => ?_, fun j hj => ?_, h.alive,
    fun ha j x hx => ?_⟩
  · obtain ⟨x, hx, hne⟩ := h.canceled j hj
    obtain ⟨x', hx', hf⟩ := hput hx
    exact ⟨x', hx', hf ▸ hne⟩
  · obtain ⟨x', hx', hf'⟩ := hget hx
    exact h.set j x' hx' (hf' ▸ hf)
  · obtain ⟨x, hx, hne⟩ := h.deleted j u hj
    obtain ⟨x', hx', hf⟩ := hput hx
    exact ⟨x', hx', hf ▸ hne⟩
  · obtain ⟨x, hx, hne⟩ := h.untracked j hj
    obtain ⟨x', hx', hf⟩ := hput hx
    exact ⟨x', hx', hf ▸ hne⟩
  · obtain ⟨x', hx', hf⟩ := hget hx
    exact hf ▸ h.dead ha j x' hx'

/-! ## A flag is deleted -/

/-- `Untrack` finds the id of a flag that exists, once. -/
theorem Tracked.countP_id (h : Tracked R t s) (ha : s.alive = true) (hx : s.tasks[i]? = some x)
    (hf : x.flag.isSome = true) : s.taskFlags.countP (·.1 == x.id) = 1 := by
  have hid := h.id i x hx
  have hmem : (x.id, i) ∈ s.taskFlags := (h.table ha _).mpr ⟨hid, x, hx, hf⟩
  rw [← List.count_eq_one_of_mem h.nodup hmem]
  refine List.countP_congr fun y hy => ?_
  rw [beq_iff_eq, beq_iff_eq, hid]
  have hy1 := ((h.table ha y).mp hy).1
  refine ⟨fun hy' => Prod.ext hy' ?_, fun hy' => by rw [hy']⟩
  change y.2 = i
  omega

/-- The state after the flag of `i` is deleted on `t` and its id unregistered. -/
def released (s : TrackerState) (i t : Nat) (x : TrackedTask) (relay : RelayState)
    (owner : FlagOwner) : TrackerState :=
  { s with
    relay
    taskFlags := if s.alive then s.taskFlags.filter (·.1 != x.id) else s.taskFlags
    tasks := s.tasks.set i { x with flag := none, owner }
    log := s.log ++ (if s.alive then [.untracked i] else []) ++ [.flagDeleted i t] }

theorem deleteFlag_eq {b : Bool} {u : Nat} (hx : s.tasks[i]? = some x) (hb : x.flag = some b) :
    s.deleteFlag i u = { s with
      tasks := s.tasks.set i { x with flag := none }
      log := s.log ++ [.flagDeleted i u] } := by
  obtain ⟨id, flag, owner⟩ := x
  cases hb
  rw [deleteFlag, hx]

theorem release_eq {b : Bool} {u : Nat} (h : Tracked R t s) (hx : s.tasks[i]? = some x)
    (hb : x.flag = some b) : (untrack { s with relay } i).deleteFlag i u =
      s.released i u x relay x.owner := by
  simp only [untrack, hx]
  cases ha : s.alive with
  | true =>
    rw [if_pos rfl, if_pos (h.countP_id ha hx (by simp [hb]))]
    rw [deleteFlag_eq ?_ hb]
    · simp [released, ha]
    · exact hx
  | false =>
    rw [if_neg (by simp)]
    rw [deleteFlag_eq ?_ hb]
    · simp [released, ha]
    · exact hx

theorem cleanup_eq {b : Bool} {u : Nat} (h : Tracked R t s) (hx : s.tasks[i]? = some x)
    (hb : x.flag = some b) : s.cleanup i u = s.released i u x s.relay .gone := by
  have hi := (List.getElem?_eq_some_iff.mp hx).1
  have hrel : (untrack { s with relay := s.relay } i).deleteFlag i u =
      s.released i u x s.relay x.owner := release_eq h hx hb
  rw [cleanup]
  change ((untrack { s with relay := s.relay } i).deleteFlag i u).setOwner i .gone = _
  rw [hrel, setOwner_eq (x := { x with flag := none }) (by simp [released, hi])]
  simp [released, List.set_set]

theorem Tracked.released {u : Nat} {w : FlagOwner} (h : Tracked R t s)
    (hx : s.tasks[i]? = some x) (hlen : relay.origins.length = s.relay.origins.length)
    (hsub : ∀ (n : Nat) o, relay.origins[n]? = some (some o) →
      s.relay.origins[n]? = some (some o))
    (hnot : ¬({ s with relay } : TrackerState).Holds w)
    (hother : ∀ (j : Nat) z, j ≠ i → s.tasks[j]? = some z →
      (({ s with relay } : TrackerState).Holds z.owner ↔ s.Holds z.owner))
    (howner : ∀ n, w = .reply n ↔ x.owner = .reply n) :
    Tracked R t (s.released i u x relay w) where
  nextId := by
    rw [TrackerState.released, List.length_set]
    exact h.nextId
  id j z hz := by
    rcases (getElem?_set_iff hx).mp hz with ⟨rfl, rfl⟩ | ⟨-, hz⟩
    · have hid := h.id _ _ hx
      exact hid
    · exact h.id j z hz
  flag j z hz := by
    rcases (getElem?_set_iff hx).mp hz with ⟨rfl, rfl⟩ | ⟨hj, hz⟩
    · exact ⟨fun hf => (by cases hf), fun hw => absurd hw hnot⟩
    · exact (h.flag j z hz).trans (hother j z hj hz).symm
  table ha z := by
    change s.alive = true at ha
    simp only [TrackerState.released, ha, if_true, List.mem_filter, h.table ha z,
      getElem?_set_iff hx, bne_iff_ne, h.id i x hx]
    constructor
    · rintro ⟨⟨hz, w, hw, hf⟩, hne⟩
      exact ⟨hz, w, .inr ⟨by omega, hw⟩, hf⟩
    · rintro ⟨hz, w, ⟨-, rfl⟩ | ⟨hne, hw⟩, hf⟩
      · cases hf
      · exact ⟨⟨hz, w, hw, hf⟩, by omega⟩
  nodup := by
    simp only [TrackerState.released]
    split
    · exact h.nodup.filter _
    · exact h.nodup
  calls := h.calls.trans hlen.symm
  owner n j := by
    rw [TrackerState.released, h.owner]
    by_cases hj : j = i
    · subst hj
      simp [getElem?_set_iff hx, hx, howner]
    · simp [getElem?_set_iff hx, hj]
  origin n o ho := h.origin n o (hsub n o ho)

theorem Logged.released {b : Bool} {w : FlagOwner} (h : Logged t s) (hx : s.tasks[i]? = some x)
    (hb : x.flag = some b) : Logged t (s.released i t x relay w) := by
  have hnot := h.not_deleted hx (by simp [hb])
  have hold {j : Nat} {z : TrackedTask} (hz : s.tasks[j]? = some z) (hf : z.flag = none) :
      ∃ z, (s.released i t x relay w).tasks[j]? = some z ∧ z.flag = none := by
    refine ⟨z, (getElem?_set_iff hx).mpr (.inr ⟨fun hji => ?_, hz⟩), hf⟩
    rw [hji, hx, Option.some_inj] at hz
    rw [← hz, hb] at hf
    cases hf
  have hself : ∃ z, (s.released i t x relay w).tasks[i]? = some z ∧ z.flag = none :=
    ⟨_, (getElem?_set_iff hx).mpr (.inl ⟨rfl, rfl⟩), rfl⟩
  have hmem {e : TrackerEvent} (he : e ∈ (s.released i t x relay w).log) :
      e ∈ s.log ∨ e = .untracked i ∨ e = .flagDeleted i t := by
    rcases List.mem_append.mp he with he | he
    · rcases List.mem_append.mp he with he | he
      · exact .inl he
      · split at he
        · exact .inr (.inl (List.mem_singleton.mp he))
        · cases he
    · exact .inr (.inr (List.mem_singleton.mp he))
  have hlog {e : TrackerEvent} (he : e ∈ s.log) : e ∈ (s.released i t x relay w).log :=
    List.mem_append_left _ (List.mem_append_left _ he)
  refine ⟨?_, fun j hj => ?_, fun j z hz hf => ?_, fun j u hj => ?_, fun j hj => ?_, ?_,
    fun ha j z hz => ?_⟩
  · simp only [TrackerState.released]
    split
    next ha =>
      have huntracked : (TrackerEvent.untracked i).Allowed t s.log := by
        refine ⟨fun hu => ?_, h.alive.mp ha⟩
        obtain ⟨z, hz, hnone⟩ := h.untracked i hu
        rw [← Option.some.inj (hx.symm.trans hz), hb] at hnone
        cases hnone
      exact (h.each.concat huntracked).concat ⟨rfl, fun u hu => hnot u (by simpa using hu)⟩
    next =>
      rw [List.append_nil]
      exact h.each.concat ⟨rfl, hnot⟩
  · rcases hmem hj with hj | hj | hj
    · obtain ⟨z, hz, hne⟩ := h.canceled j hj
      by_cases hji : j = i
      · exact ⟨_, (getElem?_set_iff hx).mpr (.inl ⟨hji, rfl⟩), by simp⟩
      · exact ⟨z, (getElem?_set_iff hx).mpr (.inr ⟨hji, hz⟩), hne⟩
    · cases hj
    · cases hj
  · rcases (getElem?_set_iff hx).mp hz with ⟨rfl, rfl⟩ | ⟨-, hz⟩
    · cases hf
    · exact hlog (h.set j z hz hf)
  · rcases hmem hj with hj | hj | hj
    · obtain ⟨z, hz, hnone⟩ := h.deleted j u hj
      exact hold hz hnone
    · cases hj
    · rw [(TrackerEvent.flagDeleted.inj hj).1]
      exact hself
  · rcases hmem hj with hj | hj | hj
    · obtain ⟨z, hz, hnone⟩ := h.untracked j hj
      exact hold hz hnone
    · rw [TrackerEvent.untracked.inj hj]
      exact hself
    · cases hj
  · refine h.alive.trans (not_congr ⟨hlog, fun hd => ?_⟩)
    rcases hmem hd with hd | hd | hd
    · exact hd
    · cases hd
    · cases hd
  · rcases (getElem?_set_iff hx).mp hz with ⟨rfl, rfl⟩ | ⟨-, hz⟩
    · simp
    · exact h.dead ha j z hz

/-! ## A task is made -/

theorem Tracked.lt_calls (h : Tracked R t s) {n : Nat} (hx : s.tasks[i]? = some x)
    (hn : x.owner = .reply n) : n < s.relay.origins.length := by
  have hcall := (h.owner n i).mpr ⟨x, hx, hn⟩
  rw [← h.calls]
  exact (List.getElem?_eq_some_iff.mp hcall).1

/-- The state with one more task, of the closures `calls` with the origins `os`. -/
def appended (s : TrackerState) (relay : RelayState) (calls : List Nat)
    (taskFlags : List (Nat × Nat)) (x : TrackedTask) (log : List TrackerEvent) : TrackerState :=
  { s with
    relay, taskFlags, log
    nextId := s.nextId + 1
    tasks := s.tasks ++ [x]
    calls := s.calls ++ calls }

theorem Tracked.appended {calls : List Nat} {os : List (Option Nat)}
    {taskFlags : List (Nat × Nat)} (h : Tracked R t s) (ha : s.alive = true)
    (ho : relay.origins = s.relay.origins ++ os) (hid : x.id = s.nextId)
    (hflag : x.flag.isSome = true ↔ ({ s with relay } : TrackerState).Holds x.owner)
    (htable : taskFlags =
      s.taskFlags ++ if x.flag.isSome then [(s.nextId, s.tasks.length)] else [])
    (hcalls : (calls = [] ∧ os = [] ∧ ∀ n, x.owner ≠ .reply n) ∨
      ∃ o, calls = [s.tasks.length] ∧ os = [o] ∧ x.owner = .reply s.relay.origins.length ∧
        (o = none ∨ o = R.handle t)) :
    Tracked R t (s.appended relay calls taskFlags x log) := by
  have hold {j : Nat} {z : TrackedTask} (hz : s.tasks[j]? = some z) : j < s.tasks.length :=
    (List.getElem?_eq_some_iff.mp hz).1
  refine ⟨?_, fun j z hz => ?_, fun j z hz => ?_, fun _ z => ?_, ?_, ?_, fun n j => ?_,
    fun n o ho' => ?_⟩
  · rw [TrackerState.appended, List.length_append, List.length_singleton, h.nextId]
  · rcases getElem?_concat_iff.mp hz with ⟨rfl, rfl⟩ | hz
    · rw [hid, h.nextId]
    · exact h.id j z hz
  · rcases getElem?_concat_iff.mp hz with ⟨rfl, rfl⟩ | hz
    · exact hflag
    · rw [h.flag j z hz]
      cases hw : z.owner with
      | reply n =>
        have hn := h.lt_calls hz hw
        simp only [Holds, TrackerState.appended, ho, List.getElem?_append_left hn]
      | callback | posted | gone | leaked => rfl
  · have hsingle : z ∈ (if x.flag.isSome then [(s.nextId, s.tasks.length)] else []) ↔
        x.flag.isSome = true ∧ z = (s.nextId, s.tasks.length) := by
      split <;> simp [*]
    simp only [TrackerState.appended, htable, List.mem_append, hsingle, h.table ha z,
      getElem?_concat_iff]
    constructor
    · rintro (⟨hz, w, hw, hf⟩ | ⟨hf, rfl⟩)
      · exact ⟨hz, w, .inr hw, hf⟩
      · exact ⟨h.nextId, x, .inl ⟨rfl, rfl⟩, hf⟩
    · rintro ⟨hz, w, ⟨hz2, rfl⟩ | hw, hf⟩
      · exact .inr ⟨hf, Prod.ext (by rw [hz, hz2, h.nextId]) hz2⟩
      · exact .inl ⟨hz, w, hw, hf⟩
  · rw [TrackerState.appended, htable]
    refine h.nodup.append (by split <;> simp) fun z hz hz' => ?_
    obtain ⟨w, hw, -⟩ := h.live_of_mem ha hz
    have hlt := hold hw
    split at hz'
    · rw [List.mem_singleton.mp hz'] at hlt
      exact Nat.lt_irrefl _ hlt
    · cases hz'
  · simp only [TrackerState.appended, ho, List.length_append, h.calls]
    rcases hcalls with ⟨rfl, rfl, -⟩ | ⟨o, rfl, rfl, -⟩ <;> rfl
  · simp only [TrackerState.appended, getElem?_concat_iff]
    rcases hcalls with ⟨rfl, -, hw⟩ | ⟨o, rfl, -, hw, -⟩
    · rw [List.append_nil, h.owner]
      exact ⟨fun ⟨z, hz, hn⟩ => ⟨z, .inr hz, hn⟩, fun ⟨z, hz, hn⟩ => hz.elim
        (fun hz => absurd (hz.2 ▸ hn) (hw n)) fun hz => ⟨z, hz, hn⟩⟩
    · rw [getElem?_concat_iff, h.owner, h.calls]
      constructor
      · rintro (⟨rfl, rfl⟩ | ⟨z, hz, hn⟩)
        · exact ⟨x, .inl ⟨rfl, rfl⟩, hw⟩
        · exact ⟨z, .inr hz, hn⟩
      · rintro ⟨z, ⟨rfl, rfl⟩ | hz, hn⟩
        · rw [hw] at hn
          exact .inl ⟨(FlagOwner.reply.inj hn).symm, rfl⟩
        · exact .inr ⟨z, hz, hn⟩
  · rw [show (s.appended relay calls taskFlags x log).relay.origins = _ from ho] at ho'
    rcases hcalls with ⟨-, rfl, -⟩ | ⟨o, -, rfl, -, ho⟩
    · rw [List.append_nil] at ho'
      exact h.origin n _ ho'
    · rcases getElem?_concat_iff.mp ho' with ⟨-, rfl⟩ | ho'
      · exact (ho.resolve_left (by simp)).symm
      · exact h.origin n _ ho'

theorem Logged.appended {calls : List Nat} {taskFlags : List (Nat × Nat)} (h : Logged t s)
    (ha : s.alive = true)
    (hx : (x.flag = some false ∧ log = s.log) ∨
      (x.flag = none ∧ log = s.log ++ [.flagDeleted s.tasks.length t])) :
    Logged t (s.appended relay calls taskFlags x log) := by
  have hlog {e : TrackerEvent} (he : e ∈ log) :
      e ∈ s.log ∨ (x.flag = none ∧ e = .flagDeleted s.tasks.length t) := by
    rcases hx with ⟨-, rfl⟩ | ⟨hf, rfl⟩
    · exact .inl he
    · exact (List.mem_append.mp he).imp_right fun he => ⟨hf, List.mem_singleton.mp he⟩
  have hsub {e : TrackerEvent} (he : e ∈ s.log) : e ∈ log := by
    rcases hx with ⟨-, rfl⟩ | ⟨-, rfl⟩
    · exact he
    · exact List.mem_append_left _ he
  have hold {j : Nat} {z : TrackedTask} (hz : s.tasks[j]? = some z) :
      (s.appended relay calls taskFlags x log).tasks[j]? = some z :=
    getElem?_concat_iff.mpr (.inr hz)
  refine ⟨?_, fun j hj => ?_, fun j z hz hf => ?_, fun j u hj => ?_, fun j hj => ?_, ?_,
    fun hd => ?_⟩
  · rcases hx with ⟨-, rfl⟩ | ⟨-, rfl⟩
    · exact h.each
    · refine h.each.concat ⟨rfl, fun u hu => ?_⟩
      obtain ⟨z, hz, -⟩ := h.deleted _ _ hu
      exact Nat.lt_irrefl _ (List.getElem?_eq_some_iff.mp hz).1
  · rcases hlog hj with hj | ⟨-, hj⟩
    · obtain ⟨z, hz, hne⟩ := h.canceled j hj
      exact ⟨z, hold hz, hne⟩
    · cases hj
  · rcases getElem?_concat_iff.mp hz with ⟨rfl, rfl⟩ | hz
    · rcases hx with ⟨hx, -⟩ | ⟨hx, -⟩ <;> rw [hx] at hf <;> cases hf
    · exact hsub (h.set j z hz hf)
  · rcases hlog hj with hj | ⟨hf, hj⟩
    · obtain ⟨z, hz, hnone⟩ := h.deleted j u hj
      exact ⟨z, hold hz, hnone⟩
    · exact ⟨x, getElem?_concat_iff.mpr (.inl ⟨(TrackerEvent.flagDeleted.inj hj).1, rfl⟩), hf⟩
  · rcases hlog hj with hj | ⟨-, hj⟩
    · obtain ⟨z, hz, hnone⟩ := h.untracked j hj
      exact ⟨z, hold hz, hnone⟩
    · cases hj
  · refine h.alive.trans (not_congr ⟨hsub, fun hd => ?_⟩)
    rcases hlog hd with hd | ⟨-, hd⟩
    · exact hd
    · cases hd
  · exact absurd (ha.symm.trans hd) (by simp)

end TrackerState

end Mdgate.Base
