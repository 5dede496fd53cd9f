import NetworkOs.Library.Schedules
import NetworkOs.Library.Census

/-! The sending applications of the wired simulation. The simulator, which is not modelled
further, executes at each time one of the events that are due then; events that were there before the
run come first. -/
namespace NetworkOs.Tcp
open Runs

/-- The fields of `MyApp`. What went to `Send` is kept with its time; the socket is closed
once. An application has no event in the simulator but `sendEvent`. -/
structure MyApp where
  packetSize : Nat
  nPackets : Nat
  bitRate : Nat
  sendEvent : Option Nat
  running : Bool
  packetsSent : Nat
  sent : List (Nat × Nat)
  closed : Bool
deriving DecidableEq, Repr

/-- What `main` sets up for an application, with times in nanoseconds. -/
structure Setup where
  packetSize : Nat
  nPackets : Nat
  bitRate : Nat
  startTime : Nat
  stopTime : Nat
  bitRate_pos : 0 < bitRate
  packetSize_lt : packetSize < 2 ^ 32
  nPackets_lt : nPackets < 2 ^ 32
  startTime_lt : startTime < stopTime

namespace MyApp

def new : MyApp := ⟨0, 0, 0, none, false, 0, [], false⟩

def setup (packetSize nPackets bitRate : Nat) (app : MyApp) : MyApp :=
  { app with packetSize := packetSize, nPackets := nPackets, bitRate := bitRate }

section Calls
variable (seconds : ℚ → Nat) (now : Nat)

/-- The product with 8 is one of 32-bit numbers. `seconds` is the conversion to a time. -/
def scheduleTx (app : MyApp) : MyApp :=
  if app.running then
    { app with sendEvent := some (now + seconds ((app.packetSize * 8 % 2 ^ 32 : Nat) / app.bitRate)) }
  else app

def sendPacket (app : MyApp) : MyApp :=
  let counted := { app with
    sent := app.sent ++ [(now, app.packetSize)]
    packetsSent := (app.packetsSent + 1) % 2 ^ 32 }
  if counted.packetsSent < counted.nPackets then counted.scheduleTx seconds now else counted

def startApplication (app : MyApp) : MyApp :=
  { app with running := true, packetsSent := 0 }.sendPacket seconds now

def stopApplication (app : MyApp) : MyApp := { app with running := false, sendEvent := none, closed := true }

end Calls
end MyApp

inductive Event (n : Nat) where
  | start (i : Fin n)
  | stop (i : Fin n)
  | send (i : Fin n)
deriving DecidableEq, Fintype

structure Simulation (n : Nat) where
  apps : Fin n → MyApp
  started : Fin n → Bool
  stopped : Fin n → Bool

section Simulator
variable (seconds : ℚ → Nat) {n : Nat} (c : Fin n → Setup)

def beforeRun : Simulation n where
  apps i := MyApp.new.setup (c i).packetSize (c i).nPackets (c i).bitRate
  started _ := false
  stopped _ := false

/-- When an event is to be executed, and with which rank among those of one time. -/
def due (s : Simulation n) : Event n → Option (ℕ ×ₗ ℕ)
  | .start i => if s.started i then none else some (toLex ((c i).startTime, 0))
  | .stop i => if s.stopped i then none else some (toLex ((c i).stopTime, 0))
  | .send i => (s.apps i).sendEvent.map fun time => toLex (time, 1)

def execute (now : Nat) (s : Simulation n) : Event n → Simulation n
  | .start i => { s with
      apps := Function.update s.apps i ((s.apps i).startApplication seconds now)
      started := Function.update s.started i true }
  | .stop i => { s with
      apps := Function.update s.apps i (s.apps i).stopApplication
      stopped := Function.update s.stopped i true }
  | .send i => { s with
      apps := Function.update s.apps i ({ s.apps i with sendEvent := none }.sendPacket seconds now) }

/-- Any of the earliest events can be the next one. -/
def step (s : Simulation n) (event : Event n) : Option (Simulation n) :=
  match due c s event with
  | none => none
  | some moment =>
      if ∀ other, (due c s other).all fun later => moment ≤ later then some (execute seconds (ofLex moment).1 s event)
      else none

/-- The time from one packet to the next. -/
def Setup.interval (setup : Setup) : Nat := seconds ((setup.packetSize * 8 % 2 ^ 32 : Nat) / setup.bitRate)

end Simulator

/-- The application has sent `m` packets, one in each interval from the start on. -/
structure Sends (seconds : ℚ → Nat) (setup : Setup) (m : Nat) (app : MyApp) : Prop where
  packetSize : app.packetSize = setup.packetSize
  nPackets : app.nPackets = setup.nPackets
  bitRate : app.bitRate = setup.bitRate
  sent : app.sent = (List.range m).map fun k => (setup.startTime + k * setup.interval seconds, setup.packetSize)
  inTime : ∀ k < m, setup.startTime + k * setup.interval seconds < setup.stopTime
  atMost : m ≤ max 1 setup.nPackets

/-- What is true of an application before its start, from then on, and after its stop. -/
inductive Phase (seconds : ℚ → Nat) (setup : Setup) : Bool → Bool → MyApp → Prop
  | waiting {app : MyApp} (sends : Sends seconds setup 0 app) (noEvent : app.sendEvent = none) :
      Phase seconds setup false false app
  | active {app : MyApp} (m : Nat) (sends : Sends seconds setup (m + 1) app) (running : app.running = true)
      (counted : app.packetsSent = m + 1)
      (event : app.sendEvent =
        if m + 1 < setup.nPackets then some (setup.startTime + (m + 1) * setup.interval seconds) else none) :
      Phase seconds setup true false app
  | stopped {app : MyApp} (m : Nat) (sends : Sends seconds setup (m + 1) app) (noEvent : app.sendEvent = none)
      (closed : app.closed = true)
      (all : m + 1 = max 1 setup.nPackets ∨ setup.stopTime ≤ setup.startTime + (m + 1) * setup.interval seconds) :
      Phase seconds setup true true app

section Application
variable {seconds : ℚ → Nat} {setup : Setup} {app : MyApp} {now m : Nat}

/-- A packet that is due in time, and the event for the one after it. -/
theorem Sends.sendPacket (h : Sends seconds setup m app) (running : app.running = true)
    (counted : app.packetsSent = m) (now_ : now = setup.startTime + m * setup.interval seconds)
    (inTime : now < setup.stopTime) (more : m + 1 ≤ max 1 setup.nPackets) (noEvent : app.sendEvent = none) :
    Phase seconds setup true false (app.sendPacket seconds now) := by
  have small : m + 1 < 2 ^ 32 := by
    have bound := setup.nPackets_lt
    omega
  have number : (app.packetsSent + 1) % 2 ^ 32 = m + 1 := by rw [counted, Nat.mod_eq_of_lt small]
  have sends : ∀ app' : MyApp, app'.packetSize = app.packetSize → app'.nPackets = app.nPackets →
      app'.bitRate = app.bitRate → app'.sent = app.sent ++ [(now, app.packetSize)] → Sends seconds setup (m + 1) app' := by
    intro app' size packets rate sent
    refine ⟨size.trans h.packetSize, packets.trans h.nPackets, rate.trans h.bitRate, ?_, fun k below => ?_, more⟩
    · rw [sent, h.sent, h.packetSize, now_, List.range_succ, List.map_append, List.map_singleton]
    · rcases Nat.lt_succ_iff_lt_or_eq.mp below with earlier | rfl
      · exact h.inTime k earlier
      · exact now_ ▸ inTime
  unfold MyApp.sendPacket
  dsimp only
  rw [number]
  by_cases next : m + 1 < app.nPackets
  · rw [if_pos next]
    refine .active m (sends _ ?_ ?_ ?_ ?_) ?_ ?_ ?_
    all_goals simp only [MyApp.scheduleTx, running, if_true]
    rw [if_pos (h.nPackets ▸ next), now_, h.packetSize, h.bitRate, Setup.interval, Nat.add_mul, Nat.one_mul,
      Nat.add_assoc]
  · rw [if_neg next]
    refine .active m (sends _ rfl rfl rfl rfl) running rfl ?_
    rw [if_neg (h.nPackets ▸ next)]
    exact noEvent

theorem Phase.start (h : Phase seconds setup false false app) :
    Phase seconds setup true false (app.startApplication seconds setup.startTime) := by
  cases h with
  | waiting sends noEvent =>
      have reset : Sends seconds setup 0 { app with running := true, packetsSent := 0 } :=
        ⟨sends.packetSize, sends.nPackets, sends.bitRate, sends.sent, sends.inTime, sends.atMost⟩
      exact reset.sendPacket rfl rfl (by simp) setup.startTime_lt (le_max_left 1 _) noEvent

theorem Phase.send {started stopped : Bool} (h : Phase seconds setup started stopped app) (event : app.sendEvent = some now)
    (inTime : stopped = false → now < setup.stopTime) :
    Phase seconds setup started stopped ({ app with sendEvent := none }.sendPacket seconds now) := by
  cases h with
  | waiting _ noEvent => exact absurd (event.symm.trans noEvent) (by simp)
  | stopped _ _ noEvent => exact absurd (event.symm.trans noEvent) (by simp)
  | active m sends running counted next =>
      rw [event] at next
      split_ifs at next with more
      have taken : Sends seconds setup (m + 1) { app with sendEvent := none } :=
        ⟨sends.packetSize, sends.nPackets, sends.bitRate, sends.sent, sends.inTime, sends.atMost⟩
      exact taken.sendPacket running counted (Option.some.inj next) (inTime rfl) (le_max_of_le_right more) rfl

theorem Phase.stop {started : Bool} (h : Phase seconds setup started false app) (started_ : started = true)
    (late : ∀ time, app.sendEvent = some time → setup.stopTime ≤ time) :
    Phase seconds setup started true app.stopApplication := by
  cases h with
  | waiting => exact absurd started_ Bool.false_ne_true
  | active m sends running counted event =>
      refine .stopped m ⟨sends.packetSize, sends.nPackets, sends.bitRate, sends.sent, sends.inTime, sends.atMost⟩ rfl rfl ?_
      by_cases more : m + 1 < setup.nPackets
      · rw [if_pos more] at event
        exact .inr (late _ event)
      · have most := sends.atMost
        exact .inl (by omega)

/-- What an application has done so far counts the events it had. -/
def MyApp.served (app : MyApp) (stopped : Bool) : Nat := stopped.toNat + app.sent.length

theorem sent_sendPacket (app : MyApp) : (app.sendPacket seconds now).sent = app.sent ++ [(now, app.packetSize)] := by
  unfold MyApp.sendPacket MyApp.scheduleTx
  dsimp only
  split_ifs <;> rfl

theorem served_sendPacket (app : MyApp) (stopped : Bool) :
    (app.sendPacket seconds now).served stopped = app.served stopped + 1 := by
  rw [MyApp.served, MyApp.served, sent_sendPacket, List.length_append, List.length_singleton, Nat.add_assoc]

theorem Phase.sends {started stopped : Bool} (h : Phase seconds setup started stopped app) :
    ∃ m, Sends seconds setup m app := by
  cases h with
  | waiting sends => exact ⟨0, sends⟩
  | active m sends => exact ⟨m + 1, sends⟩
  | stopped m sends => exact ⟨m + 1, sends⟩

end Application

section Run
variable {seconds : ℚ → Nat} {n : Nat} {c : Fin n → Setup} {s t : Simulation n} {event : Event n}

/-- Every application is in a phase of its own. -/
def Phases (seconds : ℚ → Nat) (c : Fin n → Setup) (s : Simulation n) : Prop :=
  ∀ i, Phase seconds (c i) (s.started i) (s.stopped i) (s.apps i)

theorem phases_beforeRun : Phases seconds c (beforeRun c) := fun _ =>
  .waiting ⟨rfl, rfl, rfl, rfl, fun _ below => absurd below (Nat.not_lt_zero _), Nat.zero_le _⟩ rfl

/-- The number of events executed so far. -/
def Simulation.served (s : Simulation n) : Nat := ∑ i, (s.apps i).served (s.stopped i)

/-- What a step did: an event was due, and none that is due comes before it. -/
theorem step_eq_some_iff : step seconds c s event = some t ↔
    ∃ moment, due c s event = some moment ∧
      (∀ other later, due c s other = some later → moment ≤ later) ∧
      t = execute seconds (ofLex moment).1 s event := by
  cases found : due c s event with
  | none => simp [step, found]
  | some moment =>
      simp only [step, found, Option.some.injEq, exists_eq_left', Option.all_eq_true, decide_eq_true_eq]
      by_cases earliest : ∀ other later, due c s other = some later → moment ≤ later
      · rw [if_pos earliest]
        exact ⟨fun same => ⟨earliest, (Option.some.inj same).symm⟩, fun ⟨_, same⟩ => congrArg some same.symm⟩
      · rw [if_neg earliest]
        exact ⟨fun never => by simp at never, fun ⟨early, _⟩ => absurd early earliest⟩

/-- One application moves: the others are in the phase they were in. -/
theorem phases_update {i : Fin n} {app : MyApp} {started stopped : Fin n → Bool} (phases : Phases seconds c s)
    (started_ : ∀ k, k ≠ i → started k = s.started k) (stopped_ : ∀ k, k ≠ i → stopped k = s.stopped k)
    (mover : Phase seconds (c i) (started i) (stopped i) app) :
    Phases seconds c ⟨Function.update s.apps i app, started, stopped⟩ := by
  intro k
  by_cases same : k = i
  · subst same
    simpa only [Function.update_self] using mover
  · simpa only [Function.update_of_ne same, started_ k same, stopped_ k same] using phases k

/-- One application moves: the others have been served as often as before. -/
theorem served_update {i : Fin n} {app : MyApp} {started stopped : Fin n → Bool}
    (stopped_ : ∀ k, k ≠ i → stopped k = s.stopped k)
    (mover : app.served (stopped i) = (s.apps i).served (s.stopped i) + 1) :
    Simulation.served ⟨Function.update s.apps i app, started, stopped⟩ = s.served + 1 := by
  unfold Simulation.served
  rw [← Finset.add_sum_erase _ _ (Finset.mem_univ i),
    ← Finset.add_sum_erase Finset.univ (fun k => (s.apps k).served (s.stopped k)) (Finset.mem_univ i)]
  simp only [Function.update_self, mover]
  have others : ∑ k ∈ Finset.univ.erase i, (Function.update s.apps i app k).served (stopped k) =
      ∑ k ∈ Finset.univ.erase i, (s.apps k).served (s.stopped k) := by
    refine Finset.sum_congr rfl fun k member => ?_
    rw [Function.update_of_ne (Finset.ne_of_mem_erase member), stopped_ k (Finset.ne_of_mem_erase member)]
  rw [others]
  omega

theorem step_phases (phases : Phases seconds c s) (taken : step seconds c s event = some t) :
    Phases seconds c t ∧ t.served = s.served + 1 := by
  obtain ⟨moment, found, earliest, rfl⟩ := step_eq_some_iff.mp taken
  cases event with
  | start i =>
      have phase := phases i
      simp only [due] at found
      split_ifs at found with already
      obtain rfl := Option.some.inj found
      have fresh : s.started i = false := Bool.eq_false_iff.mpr already
      have unstopped : s.stopped i = false := by
        cases stopped : s.stopped i with
        | false => rfl
        | true => rw [fresh, stopped] at phase; cases phase
      rw [fresh, unstopped] at phase
      refine ⟨phases_update phases (fun k other => Function.update_of_ne other _ _) (fun _ _ => rfl) ?_,
        served_update (fun _ _ => rfl) (served_sendPacket _ _)⟩
      rw [Function.update_self, unstopped]
      exact phase.start
  | stop i =>
      have phase := phases i
      simp only [due] at found
      split_ifs at found with already
      obtain rfl := Option.some.inj found
      have unstopped : s.stopped i = false := Bool.eq_false_iff.mpr already
      rw [unstopped] at phase
      -- The start is due before the stop, so it has been executed.
      have started : s.started i = true := by
        by_contra waiting
        have first := earliest (.start i) _ (if_neg waiting)
        rw [Prod.Lex.toLex_le_toLex] at first
        have positive := (c i).startTime_lt
        omega
      have late : ∀ time, (s.apps i).sendEvent = some time → (c i).stopTime ≤ time := by
        intro time pending
        have after := earliest (.send i) (toLex (time, 1)) (by rw [due, pending, Option.map_some])
        rw [Prod.Lex.toLex_le_toLex] at after
        omega
      refine ⟨phases_update phases (fun _ _ => rfl) (fun k other => Function.update_of_ne other _ _) ?_,
        served_update (fun k other => Function.update_of_ne other _ _) ?_⟩
      · rw [Function.update_self]
        exact phase.stop started late
      · rw [Function.update_self, unstopped, MyApp.served, MyApp.served]
        simp only [MyApp.stopApplication, Bool.toNat_true, Bool.toNat_false]
        omega
  | send i =>
      obtain ⟨time, pending, rfl⟩ := Option.map_eq_some_iff.mp found
      have inTime : s.stopped i = false → time < (c i).stopTime := by
        intro unstopped
        have before := earliest (.stop i) _ (if_neg (Bool.eq_false_iff.mp unstopped))
        rw [Prod.Lex.toLex_le_toLex] at before
        omega
      exact ⟨phases_update phases (fun _ _ => rfl) (fun _ _ => rfl) ((phases i).send pending inTime),
        served_update (fun _ _ => rfl) (served_sendPacket _ _)⟩

/-- Where an event is due, one of the earliest can be executed. -/
theorem exists_step {moment : ℕ ×ₗ ℕ} (found : due c s event = some moment) : ∃ next t, step seconds c s next = some t := by
  let pending := Finset.univ.filter fun other => (due c s other).isSome
  have some_ : pending.Nonempty := ⟨event, by simp [pending, found]⟩
  obtain ⟨next, member, least⟩ :=
    pending.exists_min_image (fun other => (due c s other).getD (toLex (0, 0))) some_
  obtain ⟨early, found⟩ := Option.isSome_iff_exists.mp (Finset.mem_filter.mp member).2
  refine ⟨next, _, step_eq_some_iff.mpr ⟨early, found, fun other later also => ?_, rfl⟩⟩
  simpa [found, also] using least other (by simp [pending, also])

/-- With no event left, each application has been stopped. -/
theorem stopped_of_stuck (stuck : Stuck (step seconds c) s) (i : Fin n) : s.stopped i = true := by
  by_contra running
  have waits : due c s (.stop i) = some (toLex ((c i).stopTime, 0)) := if_neg running
  obtain ⟨next, t, taken⟩ : ∃ next t, step seconds c s next = some t := exists_step waits
  exact Option.some_ne_none t (taken.symm.trans (stuck next))

theorem Sends.served_le {stopped : Bool} {setup : Setup} {app : MyApp} {m : Nat} (h : Sends seconds setup m app) :
    app.served stopped ≤ 1 + max 1 setup.nPackets := by
  have most := h.atMost
  have flag := Bool.toNat_le stopped
  rw [MyApp.served, h.sent, List.length_map, List.length_range]
  omega

/-- In every order of the simulator's events, each application sends its packets one interval apart
from its start on. When no event is left, it has sent those that fall before its stop, at most
`nPackets` of them but the first one always; this takes a bounded number of events. -/
theorem packets_sent (seconds : ℚ → Nat) {n : Nat} (c : Fin n → Setup) {events : List (Event n)} {s : Simulation n}
    (ran : run (step seconds c) (beforeRun c) events = some s) :
    (∀ i, ∃ m, (s.apps i).sent = (List.range m).map (fun k =>
        ((c i).startTime + k * (c i).interval seconds, (c i).packetSize)) ∧
      (∀ k < m, k < max 1 (c i).nPackets ∧ (c i).startTime + k * (c i).interval seconds < (c i).stopTime) ∧
      (Stuck (step seconds c) s →
        (∀ k, k < max 1 (c i).nPackets → (c i).startTime + k * (c i).interval seconds < (c i).stopTime → k < m) ∧
        (s.apps i).sendEvent = none ∧ (s.apps i).closed = true)) ∧
    events.length ≤ ∑ i, (1 + max 1 (c i).nPackets) := by
  have phases : Phases seconds c s := run_invariant
    (fun _ _ _ good taken => (step_phases good taken).1) phases_beforeRun ran
  constructor
  · intro i
    obtain ⟨m, sends⟩ := (phases i).sends
    refine ⟨m, sends.sent, fun k below => ⟨below.trans_le sends.atMost, sends.inTime k below⟩, fun stuck => ?_⟩
    have phase := phases i
    rw [stopped_of_stuck stuck i] at phase
    cases started : s.started i with
    | false => rw [started] at phase; cases phase
    | true =>
        rw [started] at phase
        cases phase with
        | stopped last sent noEvent closed all =>
            have same : m = last + 1 := by
              have lengths := congrArg List.length (sends.sent.symm.trans sent.sent)
              simpa using lengths
            subst same
            refine ⟨fun k few inTime => ?_, noEvent, closed⟩
            by_contra beyond
            rcases all with every | late
            · omega
            · have later := Nat.mul_le_mul_right ((c i).interval seconds) (not_lt.mp beyond)
              omega
  · have counted : s.served = (beforeRun c).served + events.length :=
      run_length (P := Phases seconds c) (fun _ _ _ good taken => step_phases good taken) phases_beforeRun ran
    have fresh : (beforeRun c).served = 0 := Finset.sum_eq_zero fun _ _ => rfl
    have most : s.served ≤ ∑ i, (1 + max 1 (c i).nPackets) := Finset.sum_le_sum fun i _ => by
      obtain ⟨m, sends⟩ := (phases i).sends
      exact sends.served_le
    omega

/-- One application that is stopped before the third of its packets. -/
def cutOff : Fin 1 → Setup := fun _ =>
  ⟨1000, 3, 1000000, 1000000000, 1010000000, by decide, by decide, by decide, by decide⟩

/-- A time of so many seconds, rounded down. -/
def nanoseconds (time : ℚ) : Nat := (time * 1000000000).floor.toNat

theorem packets_sent_cutOff :
    ∃ s, run (step nanoseconds cutOff) (beforeRun cutOff) [.start 0, .send 0, .stop 0] = some s ∧
      (s.apps 0).sent = [(1000000000, 1000), (1008000000, 1000)] ∧
      ∃ m, (s.apps 0).sent = (List.range m).map fun k => (1000000000 + k * (cutOff 0).interval nanoseconds, 1000) := by
  have sent : ((run (step nanoseconds cutOff) (beforeRun cutOff) [.start 0, .send 0, .stop 0]).map
      fun s => (s.apps 0).sent) = some [(1000000000, 1000), (1008000000, 1000)] := by decide +kernel
  obtain ⟨s, ran, sent⟩ := Option.map_eq_some_iff.mp sent
  obtain ⟨m, spaced, _⟩ := (packets_sent nanoseconds cutOff ran).1 0
  exact ⟨s, ran, sent, m, spaced⟩

end Run
end NetworkOs.Tcp
