import Mistress.Transition
import Mistress.Stat
import Mistress.Phase

/-!
# The launcher

The launcher runs a load test: it goes through the phases of the test, and in
each of them does one tick a second. A tick launches the users, sleeps, and
sends the statistics collected meanwhile. The model starts once the launcher is
connected to the statistics server.

`run` gives control up at two places: in `tick_sleep`, and in `send` when the
socket of the statistics server is full. Only there (`Yielded`) do the other
sessions run, the clock advance, and the signal arrive that calls `shut_down`.

What the environment decides is in the actions: the answers of the kernel, the
times the users take, the delays drawn for them.

* `Counted`: the number of concurrent users is that of the active users, in
  every state (`counted_of_reachable`).
-/

namespace Mistress

open Transition

/-- The options of a test the launcher reads. -/
structure Config where
  phases : List Phase
  totalDurationLimit : ℚ
  noStatServer : Bool
  /-- Asserted by `init`. -/
  nonempty : phases ≠ []

/-- The phases `run` goes through: `phases`. -/
def Config.allPhases (cfg : Config) : List Phase := cfg.phases ++ [finalPhase]

/-- Where a user stands. -/
inductive UserState
  /-- It sleeps before its start. -/
  | waiting
  /-- It runs, and counts as concurrent. -/
  | active
  | ended
  deriving DecidableEq

/-- A user session launched by a tick. -/
structure User where
  /-- The step of the tick. -/
  step : ℕ
  /-- When its initial sleep is over. -/
  startsAt : ℚ
  state : UserState
  /-- `_gonna_shut_down` -/
  gonnaShutDown : Bool
  deriving DecidableEq

/-- The body of a request to `/add_stats`, before it is encoded. -/
structure Payload where
  step : ℕ
  data : List StatRecord
  deriving DecidableEq

/-- Who sends the statistics. -/
inductive Sender
  /-- `tick` -/
  | tick
  /-- `finish_test` -/
  | finish
  deriving DecidableEq

/-- The point `run` has come to. -/
inductive Pc
  /-- The head of the loop over the phases. -/
  | phases
  /-- The head of the loop over the ticks of the phase. -/
  | ticks
  /-- Suspended in `tick_sleep`. -/
  | sleeping (wakeAt : ℚ)
  /-- Calling `mistress.send` for the statistics. -/
  | sending (sender : Sender)
  /-- Suspended in `send`, the socket being full. -/
  | suspended (sender : Sender)
  /-- The end of the tick. -/
  | ticked
  /-- In `finish_test` of the handler. -/
  | handler
  /-- `run` has returned. -/
  | returned
  /-- `run` has raised `STOP`: the coroutine of the launcher has ended. -/
  | stopped
  /-- The process has exited on an error. -/
  | exited
  deriving DecidableEq

/-- A launcher in its `run`. -/
structure Launcher where
  /-- The clock: `mistress.now()`. -/
  now : ℚ
  testStarted : ℚ
  curStep : ℕ
  /-- The index of the phase, from zero. -/
  i : ℕ
  phase : Phase
  isFinishPhase : Bool
  startStep : ℕ
  phaseStarted : ℚ
  gonnaShutDown : Bool
  /-- Whether `shut_down` has been called: a second call exits the process. -/
  shutDownCalled : Bool
  concurUsersNum : ℤ
  concurUsersNumMax : ℤ
  concurUsersNumMin : ℤ
  concurConnsNum : ℤ
  concurConnsNumMax : ℤ
  concurConnsNumMin : ℤ
  stat : Stat
  pc : Pc
  /-- The users launched so far. -/
  users : List User
  /-- History: the payloads encoded so far. -/
  payloads : List Payload
  /-- History: the records added so far. -/
  added : List StatRecord
  /-- History: the records added before the payload of `finish_test` was encoded. -/
  addedAtFinish : Option (List StatRecord)
  /-- History: the number of calls of `finish_test`. -/
  finishTests : ℕ
  /-- History: the number of calls of `stop_ev_loop`. -/
  stops : ℕ

/-- The answers of the kernel to `mistress.send`. -/
inductive Sent
  /-- All the bytes are sent. -/
  | all
  /-- `EAGAIN`: the socket is full. -/
  | again
  /-- `EPIPE`, or another error. -/
  | failed
  deriving DecidableEq

namespace Launcher

/-- The actions of the launcher and of its environment. -/
inductive Act
  /-- The launcher goes on to the next point of `run`. -/
  | go
  /-- The launcher starts a tick, `math.random()` giving the delays `draws`. -/
  | tick (draws : List ℚ)
  /-- The kernel answers a call of `mistress.send`. -/
  | send (sent : Sent)
  /-- The launcher is resumed, its sleep being over or its socket writable, or
      by the shutdown. -/
  | resume
  /-- The launcher is resumed by the timeout of `send`. -/
  | timeout
  | advance (d : ℚ)
  /-- A session adds a record. -/
  | add (r : StatRecord)
  /-- The user `k` starts after its initial sleep. -/
  | userStart (k : ℕ)
  /-- The user `k` is shut down in its initial sleep. -/
  | userStop (k : ℕ)
  /-- The user `k` ends. -/
  | userEnd (k : ℕ)
  /-- A user opens a connection. -/
  | connect
  /-- A user closes a connection. -/
  | disconnect
  /-- The first call of `shut_down`. -/
  | shutDown

/-- The start of the test, at the time `now`. -/
def start (now : ℚ) : Launcher where
  now := now
  testStarted := now
  curStep := 1
  i := 0
  phase := finalPhase
  isFinishPhase := false
  startStep := 1
  phaseStarted := now
  gonnaShutDown := false
  shutDownCalled := false
  concurUsersNum := 0
  concurUsersNumMax := 0
  concurUsersNumMin := 0
  concurConnsNum := 0
  concurConnsNumMax := 0
  concurConnsNumMin := 0
  stat := Stat.init
  pc := .phases
  users := []
  payloads := []
  added := []
  addedAtFinish := none
  finishTests := 0
  stops := 0

/-- Whether the launcher is suspended or its coroutine has ended, so that other
    sessions can run. -/
def Yielded (l : Launcher) : Prop :=
  match l.pc with
  | .sleeping _ | .suspended _ | .returned | .stopped => True
  | _ => False

instance (l : Launcher) : Decidable l.Yielded := by
  unfold Yielded
  split <;> infer_instance

/-- The condition of the loop over the ticks. -/
def Continues (l : Launcher) : Prop :=
  l.now - l.phaseStarted ≤ l.phase.duration ∨ l.isFinishPhase = true

/-- The condition under which the end of a tick finishes the test. -/
def Finishes (cfg : Config) (l : Launcher) : Prop :=
  (l.isFinishPhase = true ∧ l.concurUsersNum = 0) ∨
    (cfg.totalDurationLimit > 0 ∧ l.now - l.testStarted ≥ cfg.totalDurationLimit)

instance (l : Launcher) : Decidable l.Continues := inferInstanceAs (Decidable (_ ∨ _))

instance (cfg : Config) (l : Launcher) : Decidable (l.Finishes cfg) :=
  inferInstanceAs (Decidable ((_ ∧ _) ∨ (_ ∧ _)))

/-- A record is added to the shared statistics. -/
def add (l : Launcher) (type : SType) (value : StatValue) : Launcher :=
  { l with stat := l.stat.add type value, added := l.added ++ [⟨type, value⟩] }

/-- The statistics are encoded, to be sent: the beginning of `send_stats`. -/
def sendStats (l : Launcher) (sender : Sender) (curStep : ℕ) : Launcher :=
  { l with payloads := l.payloads ++ [⟨curStep, l.stat.statBuf⟩], pc := .sending sender }

/-- The phase at the index `l.i` starts, or the loop over the phases ends. -/
def startPhase (cfg : Config) (l : Launcher) : Launcher :=
  match cfg.allPhases[l.i]? with
  | none => { l with pc := .returned }
  | some phase =>
    { l with
      phase := phase
      isFinishPhase := l.i + 1 = cfg.allPhases.length || l.gonnaShutDown
      startStep := l.curStep
      phaseStarted := l.now
      pc := .ticks }

/-- A tick launches its users and falls asleep: the first half of `tick`. -/
def startTick (l : Launcher) (draws : List ℚ) : Launcher :=
  { l with
    concurUsersNumMax := l.concurUsersNum
    concurUsersNumMin := l.concurUsersNum
    concurConnsNumMax := l.concurConnsNum
    concurConnsNumMin := l.concurConnsNum
    users := l.users ++ draws.map (⟨l.curStep, l.now + ·, .waiting, false⟩)
    pc := .sleeping (l.now + 1) }

/-- The records `tick` adds after its sleep. -/
def gauges (l : Launcher) : List StatRecord :=
  [⟨.concurUsersNumMax, .num l.concurUsersNumMax⟩, ⟨.concurUsersNumMin, .num l.concurUsersNumMin⟩,
    ⟨.concurConnsNumMax, .num l.concurConnsNumMax⟩, ⟨.concurConnsNumMin, .num l.concurConnsNumMin⟩]

/-- `tick` adds its records. -/
def report (l : Launcher) : Launcher :=
  { l with
    stat := l.gauges.foldl (fun s r => s.add r.type r.value) l.stat
    added := l.added ++ l.gauges }

/-- `tick` goes on after its sleep. -/
def wake (cfg : Config) (l : Launcher) : Launcher :=
  if cfg.noStatServer then { l.report with stat := l.report.stat.reset, pc := .ticked }
  else l.report.sendStats .tick l.curStep

/-- The test is finished: `finish_test`, and `stop_ev_loop` where nothing is to be sent. -/
def finish (cfg : Config) (l : Launcher) : Launcher :=
  if cfg.noStatServer then
    { l with finishTests := l.finishTests + 1, stops := l.stops + 1, pc := .returned }
  else
    { (l.add .finishTest (.num 1)).sendStats .finish (l.curStep + 1) with
      addedAtFinish := some (l.add .finishTest (.num 1)).added
      finishTests := l.finishTests + 1 }

/-- The end of an iteration of the loop over the ticks. -/
def nextStep (l : Launcher) : Launcher :=
  if l.gonnaShutDown then
    -- The loop over the ticks is left for the next phase.
    { l with curStep := l.curStep + 1, gonnaShutDown := false, i := l.i + 1, pc := .phases }
  else { l with curStep := l.curStep + 1, pc := .ticks }

/-- A user changes its state. -/
def setUser (l : Launcher) (k : ℕ) (u : User) (state : UserState) : Launcher :=
  { l with users := l.users.set k { u with state := state } }

/-- A user becomes concurrent, after its initial sleep: the end of `on_before_run`. -/
def beforeRun (l : Launcher) : Launcher :=
  add { l with
    concurUsersNum := l.concurUsersNum + 1
    concurUsersNumMax := max (l.concurUsersNum + 1) l.concurUsersNumMax } .startSession (.num 1)

/-- A concurrent user has ended: `on_after_run`. -/
def afterRun (l : Launcher) : Launcher :=
  { l with
    concurUsersNum := l.concurUsersNum - 1
    concurUsersNumMin := min (l.concurUsersNum - 1) l.concurUsersNumMin }

/-- `on_connect` -/
def onConnect (l : Launcher) : Launcher :=
  { l with
    concurConnsNum := l.concurConnsNum + 1
    concurConnsNumMax := max (l.concurConnsNum + 1) l.concurConnsNumMax }

/-- `on_disconnect` -/
def onDisconnect (l : Launcher) : Launcher :=
  { l with
    concurConnsNum := l.concurConnsNum - 1
    concurConnsNumMin := min (l.concurConnsNum - 1) l.concurConnsNumMin }

/-- `shut_down`: the launcher and all the users are flagged. They are resumed afterwards. -/
def shutDown (l : Launcher) : Launcher :=
  { l with
    gonnaShutDown := true
    shutDownCalled := true
    users := l.users.map fun u => { u with gonnaShutDown := true } }

/-! ## The steps -/

/-- The launcher goes on. -/
def go (cfg : Config) (l : Launcher) : Option Launcher :=
  match l.pc with
  | .phases => some (l.startPhase cfg)
  | .ticks => if l.Continues then none else some { l with i := l.i + 1, pc := .phases }
  | .ticked => some (if l.Finishes cfg then l.finish cfg else l.nextStep)
  | _ => none

/-- The launcher starts a tick. -/
def tick (l : Launcher) (draws : List ℚ) : Option Launcher :=
  if l.pc = .ticks ∧ l.Continues then
    match l.phase.calcRate l.startStep l.curStep with
    | none => some { l with pc := .exited }
    | some rate =>
      if draws.length = (launches rate).length ∧ ∀ d ∈ draws, 0 ≤ d ∧ d < 1 then
        some (l.startTick draws)
      else none
  else none

/-- A call of `mistress.send` is answered. -/
def send (l : Launcher) (sent : Sent) : Option Launcher :=
  match l.pc, sent with
  | .sending .tick, .all => some { l with stat := l.stat.reset, pc := .ticked }
  | .sending .finish, .all => some { l with pc := .handler }
  | .sending sender, .again => some { l with pc := .suspended sender }
  | .handler, .all => some { l with stops := l.stops + 1, pc := .returned }
  -- The results are asserted, and the handler does not wait.
  | .sending _, .failed | .handler, _ => some { l with pc := .exited }
  | _, _ => none

/-- The launcher is resumed. -/
def resume (cfg : Config) (l : Launcher) : Option Launcher :=
  match l.pc with
  -- The `STOP` raised by a shutdown is caught by `tick_sleep`,
  | .sleeping _ => some (l.wake cfg)
  -- but not by anyone in `send`.
  | .suspended sender =>
    if l.gonnaShutDown then some { l with pc := .stopped }
    else some { l with pc := .sending sender }
  | _ => none

/-- The launcher is resumed by the timeout of `send`, which is asserted not to happen. -/
def timeout (l : Launcher) : Option Launcher :=
  match l.pc with
  | .suspended _ => some { l with pc := .exited }
  | _ => none

/-- What happens while the launcher is suspended. -/
def meanwhile (l : Launcher) : Act → Option Launcher
  | .advance d => if 0 ≤ d then some { l with now := l.now + d } else none
  | .add r => some (l.add r.type r.value)
  | .userStart k =>
    match l.users[k]? with
    | some u =>
      if u.state = .waiting ∧ u.gonnaShutDown = false then some (l.setUser k u .active).beforeRun
      else none
    | none => none
  | .userStop k =>
    match l.users[k]? with
    | some u =>
      -- `on_after_run` is not set yet.
      if u.state = .waiting ∧ u.gonnaShutDown = true then some (l.setUser k u .ended) else none
    | none => none
  | .userEnd k =>
    match l.users[k]? with
    | some u => if u.state = .active then some (l.setUser k u .ended).afterRun else none
    | none => none
  | .connect => some l.onConnect
  | .disconnect => some l.onDisconnect
  | .shutDown => if l.shutDownCalled then none else some l.shutDown
  | _ => none

/-- The step of an action, where it is possible. -/
def step (cfg : Config) (l : Launcher) : Act → Option Launcher
  | .go => l.go cfg
  | .tick draws => l.tick draws
  | .send sent => l.send sent
  | .resume => l.resume cfg
  | .timeout => l.timeout
  | a => if l.Yielded then l.meanwhile a else none

/-- The launcher, from the start of the test. -/
def sys (cfg : Config) : System Launcher Act where
  init l := ∃ now, l = start now
  step := step cfg

/-! ## What a step does -/

variable {cfg : Config} {l l' : Launcher}

theorem step_go (h : step cfg l .go = some l') :
    (l.pc = .phases ∧ l' = l.startPhase cfg) ∨
    (l.pc = .ticks ∧ ¬l.Continues ∧ l' = { l with i := l.i + 1, pc := .phases }) ∨
    (l.pc = .ticked ∧ l.Finishes cfg ∧ l' = l.finish cfg) ∨
    (l.pc = .ticked ∧ ¬l.Finishes cfg ∧ l' = l.nextStep) := by
  simp only [step, go] at h
  split at h
  · exact .inl ⟨‹_›, (Option.some.inj h).symm⟩
  · split at h
    · cases h
    · exact .inr (.inl ⟨‹_›, ‹_›, (Option.some.inj h).symm⟩)
  · split at h
    · exact .inr (.inr (.inl ⟨‹_›, ‹_›, (Option.some.inj h).symm⟩))
    · exact .inr (.inr (.inr ⟨‹_›, ‹_›, (Option.some.inj h).symm⟩))
  · cases h

theorem step_tick {draws : List ℚ} (h : step cfg l (.tick draws) = some l') :
    l.pc = .ticks ∧ l.Continues ∧
      ((l.phase.calcRate l.startStep l.curStep = none ∧ l' = { l with pc := .exited }) ∨
      ∃ rate, l.phase.calcRate l.startStep l.curStep = some rate ∧
        draws.length = (launches rate).length ∧ (∀ d ∈ draws, 0 ≤ d ∧ d < 1) ∧
        l' = l.startTick draws) := by
  simp only [step, tick] at h
  split at h
  case isFalse => cases h
  case isTrue hc =>
    refine ⟨hc.1, hc.2, ?_⟩
    split at h
    · exact .inl ⟨‹_›, (Option.some.inj h).symm⟩
    · split at h
      · rename_i hd
        exact .inr ⟨_, ‹_›, hd.1, hd.2, (Option.some.inj h).symm⟩
      · cases h

theorem step_send {sent : Sent} (h : step cfg l (.send sent) = some l') :
    (l.pc = .sending .tick ∧ sent = .all ∧
      l' = { l with stat := l.stat.reset, pc := .ticked }) ∨
    (l.pc = .sending .finish ∧ sent = .all ∧ l' = { l with pc := .handler }) ∨
    (∃ sender, l.pc = .sending sender ∧ sent = .again ∧ l' = { l with pc := .suspended sender }) ∨
    (l.pc = .handler ∧ sent = .all ∧ l' = { l with stops := l.stops + 1, pc := .returned }) ∨
    (sent ≠ .all ∧ l' = { l with pc := .exited }) := by
  simp only [step, send] at h
  split at h
  · exact .inl ⟨‹_›, rfl, (Option.some.inj h).symm⟩
  · exact .inr (.inl ⟨‹_›, rfl, (Option.some.inj h).symm⟩)
  · exact .inr (.inr (.inl ⟨_, ‹_›, rfl, (Option.some.inj h).symm⟩))
  · exact .inr (.inr (.inr (.inl ⟨‹_›, rfl, (Option.some.inj h).symm⟩)))
  · exact .inr (.inr (.inr (.inr ⟨by simp, (Option.some.inj h).symm⟩)))
  · exact .inr (.inr (.inr (.inr ⟨by assumption, (Option.some.inj h).symm⟩)))
  · cases h

theorem step_resume (h : step cfg l .resume = some l') :
    (∃ wakeAt, l.pc = .sleeping wakeAt ∧ l' = l.wake cfg) ∨
    (∃ sender, l.pc = .suspended sender ∧ l.gonnaShutDown = true ∧
      l' = { l with pc := .stopped }) ∨
    (∃ sender, l.pc = .suspended sender ∧ l.gonnaShutDown = false ∧
      l' = { l with pc := .sending sender }) := by
  simp only [step, resume] at h
  split at h
  · exact .inl ⟨_, ‹_›, (Option.some.inj h).symm⟩
  · split at h
    · exact .inr (.inl ⟨_, ‹_›, ‹_›, (Option.some.inj h).symm⟩)
    · exact .inr (.inr ⟨_, ‹_›, Bool.eq_false_iff.2 ‹_›, (Option.some.inj h).symm⟩)
  · cases h

theorem step_timeout (h : step cfg l .timeout = some l') : l' = { l with pc := .exited } := by
  simp only [step, timeout] at h
  split at h
  · exact (Option.some.inj h).symm
  · cases h

/-- The actions of other sessions, of the clock and of the signal. -/
def Act.IsMeanwhile : Act → Prop
  | .go | .tick _ | .send _ | .resume | .timeout => False
  | _ => True

theorem step_meanwhile {a : Act} (ha : a.IsMeanwhile) (h : step cfg l a = some l') :
    l.Yielded ∧ l.meanwhile a = some l' := by
  cases a
  case go | tick | send | resume | timeout => exact ha.elim
  all_goals exact Option.ite_none_right_eq_some.1 h

/-- The users, what is counted of them and of the connections, and that the test is
    being shut down, are as before. -/
structure Still (l l' : Launcher) : Prop where
  users : l'.users = l.users
  concurUsersNum : l'.concurUsersNum = l.concurUsersNum
  concurUsersNumMax : l'.concurUsersNumMax = l.concurUsersNumMax
  concurUsersNumMin : l'.concurUsersNumMin = l.concurUsersNumMin
  concurConnsNum : l'.concurConnsNum = l.concurConnsNum
  concurConnsNumMax : l'.concurConnsNumMax = l.concurConnsNumMax
  concurConnsNumMin : l'.concurConnsNumMin = l.concurConnsNumMin
  shutDownCalled : l'.shutDownCalled = l.shutDownCalled

/-- The launcher itself leaves the users and the counts alone, unless it starts a tick. -/
theorem step_still {a : Act} (ha : ¬a.IsMeanwhile) (ht : ∀ draws, a ≠ .tick draws)
    (h : step cfg l a = some l') : l.Still l' := by
  cases a with
  | go =>
    rcases step_go h with ⟨-, rfl⟩ | ⟨-, -, rfl⟩ | ⟨-, -, rfl⟩ | ⟨-, -, rfl⟩
    · unfold startPhase
      split <;> constructor <;> rfl
    · constructor <;> rfl
    · unfold finish
      split <;> constructor <;> rfl
    · unfold nextStep
      split <;> constructor <;> rfl
  | tick draws => exact absurd rfl (ht draws)
  | send sent =>
    rcases step_send h with ⟨-, -, rfl⟩ | ⟨-, -, rfl⟩ | ⟨_, -, -, rfl⟩ | ⟨-, -, rfl⟩ | ⟨-, rfl⟩
    all_goals constructor <;> rfl
  | resume =>
    rcases step_resume h with ⟨_, -, rfl⟩ | ⟨_, -, -, rfl⟩ | ⟨_, -, -, rfl⟩
    · unfold wake
      split <;> constructor <;> rfl
    · constructor <;> rfl
    · constructor <;> rfl
  | timeout =>
    obtain rfl := step_timeout h
    constructor <;> rfl
  | _ => exact absurd trivial ha

/-- The launcher itself neither counts users nor takes a shutdown back. It
    launches users in a tick. -/
theorem step_self {a : Act} (ha : ¬a.IsMeanwhile) (h : step cfg l a = some l') :
    l'.concurUsersNum = l.concurUsersNum ∧ l'.shutDownCalled = l.shutDownCalled ∧
      (l'.users = l.users ∨ ∃ draws, a = .tick draws ∧ l'.users = (l.startTick draws).users) := by
  by_cases ht : ∃ draws, a = .tick draws
  · obtain ⟨draws, rfl⟩ := ht
    obtain ⟨-, -, ⟨-, rfl⟩ | ⟨_, -, -, -, rfl⟩⟩ := step_tick h
    · exact ⟨rfl, rfl, .inl rfl⟩
    · exact ⟨rfl, rfl, .inr ⟨draws, rfl, rfl⟩⟩
  · have hstill := step_still ha (fun draws hd => ht ⟨draws, hd⟩) h
    exact ⟨hstill.concurUsersNum, hstill.shutDownCalled, .inl hstill.users⟩

/-- The records an action of another session adds. -/
def Act.records : Act → List StatRecord
  | .add r => [r]
  | .userStart _ => [⟨.startSession, .num 1⟩]
  | _ => []

/-- What the launcher keeps while it is suspended. -/
structure Frame (l l' : Launcher) : Prop where
  pc : l'.pc = l.pc
  i : l'.i = l.i
  phase : l'.phase = l.phase
  isFinishPhase : l'.isFinishPhase = l.isFinishPhase
  curStep : l'.curStep = l.curStep
  payloads : l'.payloads = l.payloads
  addedAtFinish : l'.addedAtFinish = l.addedAtFinish
  finishTests : l'.finishTests = l.finishTests
  stops : l'.stops = l.stops
  users : l'.users.length = l.users.length

theorem meanwhile_userStart {k : ℕ} (h : l.meanwhile (.userStart k) = some l') :
    ∃ u, l.users[k]? = some u ∧ u.state = .waiting ∧ u.gonnaShutDown = false ∧
      l' = (l.setUser k u .active).beforeRun := by
  simp only [meanwhile] at h
  split at h
  · obtain ⟨⟨hw, hf⟩, h⟩ := Option.ite_none_right_eq_some.1 h
    exact ⟨_, ‹_›, hw, hf, (Option.some.inj h).symm⟩
  · cases h

theorem meanwhile_userStop {k : ℕ} (h : l.meanwhile (.userStop k) = some l') :
    ∃ u, l.users[k]? = some u ∧ u.state = .waiting ∧ u.gonnaShutDown = true ∧
      l' = l.setUser k u .ended := by
  simp only [meanwhile] at h
  split at h
  · obtain ⟨⟨hw, hf⟩, h⟩ := Option.ite_none_right_eq_some.1 h
    exact ⟨_, ‹_›, hw, hf, (Option.some.inj h).symm⟩
  · cases h

theorem meanwhile_userEnd {k : ℕ} (h : l.meanwhile (.userEnd k) = some l') :
    ∃ u, l.users[k]? = some u ∧ u.state = .active ∧ l' = (l.setUser k u .ended).afterRun := by
  simp only [meanwhile] at h
  split at h
  · obtain ⟨ha, h⟩ := Option.ite_none_right_eq_some.1 h
    exact ⟨_, ‹_›, ha, (Option.some.inj h).symm⟩
  · cases h

theorem meanwhile_shutDown (h : l.meanwhile .shutDown = some l') :
    l.shutDownCalled = false ∧ l' = l.shutDown := by
  simp only [meanwhile] at h
  split at h
  · cases h
  · exact ⟨Bool.eq_false_iff.2 ‹_›, (Option.some.inj h).symm⟩

/-- The launcher is not involved in what happens meanwhile, except for the
    records that are added and for its flag. -/
theorem meanwhile_frame {a : Act} (h : l.meanwhile a = some l') :
    Frame l l' ∧ l'.stat.statBuf = l.stat.statBuf ++ a.records ∧
      l'.added = l.added ++ a.records := by
  cases a with
  | go | tick | send | resume | timeout => cases h
  | advance d =>
    obtain ⟨-, h⟩ := Option.ite_none_right_eq_some.1 h
    obtain rfl := Option.some.inj h
    exact ⟨⟨rfl, rfl, rfl, rfl, rfl, rfl, rfl, rfl, rfl, rfl⟩,
      (List.append_nil _).symm, (List.append_nil _).symm⟩
  | userStart k =>
    obtain ⟨u, -, -, -, rfl⟩ := meanwhile_userStart h
    exact ⟨⟨rfl, rfl, rfl, rfl, rfl, rfl, rfl, rfl, rfl, List.length_set⟩, rfl, rfl⟩
  | userStop k =>
    obtain ⟨u, -, -, -, rfl⟩ := meanwhile_userStop h
    exact ⟨⟨rfl, rfl, rfl, rfl, rfl, rfl, rfl, rfl, rfl, List.length_set⟩,
      (List.append_nil _).symm, (List.append_nil _).symm⟩
  | userEnd k =>
    obtain ⟨u, -, -, rfl⟩ := meanwhile_userEnd h
    exact ⟨⟨rfl, rfl, rfl, rfl, rfl, rfl, rfl, rfl, rfl, List.length_set⟩,
      (List.append_nil _).symm, (List.append_nil _).symm⟩
  | shutDown =>
    obtain ⟨-, rfl⟩ := meanwhile_shutDown h
    exact ⟨⟨rfl, rfl, rfl, rfl, rfl, rfl, rfl, rfl, rfl, List.length_map _⟩,
      (List.append_nil _).symm, (List.append_nil _).symm⟩
  | add r =>
    obtain rfl := Option.some.inj h
    exact ⟨⟨rfl, rfl, rfl, rfl, rfl, rfl, rfl, rfl, rfl, rfl⟩, rfl, rfl⟩
  | connect | disconnect =>
    obtain rfl := Option.some.inj h
    exact ⟨⟨rfl, rfl, rfl, rfl, rfl, rfl, rfl, rfl, rfl, rfl⟩,
      (List.append_nil _).symm, (List.append_nil _).symm⟩

/-- The test goes on. -/
def Running (l : Launcher) : Prop :=
  match l.pc with
  | .phases | .ticks | .sleeping _ | .sending .tick | .suspended .tick | .ticked => True
  | _ => False

/-- Once the test no longer goes on, it never does again. -/
theorem Running.of_step (h : step cfg l a = some l') (hrun : l'.Running) : l.Running := by
  cases a with
  | go =>
    rcases step_go h with ⟨hpc, -⟩ | ⟨hpc, -⟩ | ⟨hpc, -⟩ | ⟨hpc, -⟩
    all_goals simp [Running, hpc]
  | tick draws => simp [Running, (step_tick h).1]
  | send sent =>
    rcases step_send h with ⟨hpc, -, rfl⟩ | ⟨-, -, rfl⟩ | ⟨sender, hpc, -, rfl⟩ | ⟨-, -, rfl⟩ | ⟨-, rfl⟩
    · simp [Running, hpc]
    · exact hrun.elim
    · cases sender with
      | tick => simp [Running, hpc]
      | finish => exact hrun.elim
    · exact hrun.elim
    · exact hrun.elim
  | resume =>
    rcases step_resume h with ⟨w, hpc, -⟩ | ⟨sender, -, -, rfl⟩ | ⟨sender, hpc, -, rfl⟩
    · simp [Running, hpc]
    · exact hrun.elim
    · cases sender with
      | tick => simp [Running, hpc]
      | finish => exact hrun.elim
  | timeout => exact (step_timeout h ▸ hrun : Running { l with pc := .exited }).elim
  | _ =>
    rw [Running, (meanwhile_frame (step_meanwhile (by trivial) h).2).1.pc] at hrun
    exact hrun

/-- Only the shutdown flags the launcher. -/
theorem meanwhile_flags {a : Act} (h : l.meanwhile a = some l') (ha : a ≠ .shutDown) :
    l'.gonnaShutDown = l.gonnaShutDown ∧ l'.shutDownCalled = l.shutDownCalled := by
  cases a with
  | go | tick | send | resume | timeout => cases h
  | shutDown => exact absurd rfl ha
  | advance d =>
    obtain ⟨-, h⟩ := Option.ite_none_right_eq_some.1 h
    exact Option.some.inj h ▸ ⟨rfl, rfl⟩
  | userStart k =>
    obtain ⟨u, -, -, -, rfl⟩ := meanwhile_userStart h
    exact ⟨rfl, rfl⟩
  | userStop k =>
    obtain ⟨u, -, -, -, rfl⟩ := meanwhile_userStop h
    exact ⟨rfl, rfl⟩
  | userEnd k =>
    obtain ⟨u, -, -, rfl⟩ := meanwhile_userEnd h
    exact ⟨rfl, rfl⟩
  | add | connect | disconnect => exact Option.some.inj h ▸ ⟨rfl, rfl⟩

/-! ## The concurrent users -/

/-- The number of active users. -/
def active (l : Launcher) : ℕ := l.users.countP (·.state = .active)

/-- The concurrent users are the active ones. -/
def Counted (l : Launcher) : Prop := l.concurUsersNum = l.active

theorem Counted.congr (hl : l.Counted) (hu : l'.users = l.users)
    (hc : l'.concurUsersNum = l.concurUsersNum) : l'.Counted := by
  rw [Counted, active, hu, hc]
  exact hl

/-- A user changing its state changes the number of active users. -/
theorem active_setUser {k : ℕ} {u : User} (hu : l.users[k]? = some u) (state : UserState) :
    (l.setUser k u state).active + (if u.state = .active then 1 else 0) =
      l.active + (if state = .active then 1 else 0) := by
  obtain ⟨hk, hget⟩ := List.getElem?_eq_some_iff.1 hu
  simp only [active, setUser, List.countP_set hk, hget, decide_eq_true_eq]
  have hpos : u.state = .active → 0 < l.users.countP (·.state = .active) := fun h =>
    List.countP_pos_iff.2 ⟨u, List.mem_of_getElem? hu, by simpa using h⟩
  split <;> split <;> simp_all

/-- The launcher starts no user as active. -/
theorem Counted.startTick (hl : l.Counted) (draws : List ℚ) : (l.startTick draws).Counted := by
  have hnew : (draws.map fun d => (⟨l.curStep, l.now + d, .waiting, false⟩ : User)).countP
      (·.state = .active) = 0 := by simp [List.countP_eq_zero]
  simpa [Counted, active, Launcher.startTick, hnew] using hl

theorem Counted.meanwhile (hl : l.Counted) {a : Act} (h : l.meanwhile a = some l') :
    l'.Counted := by
  cases a with
  | go | tick | send | resume | timeout => cases h
  | advance d =>
    obtain ⟨-, h⟩ := Option.ite_none_right_eq_some.1 h
    obtain rfl := Option.some.inj h
    exact hl.congr rfl rfl
  | userStart k =>
    obtain ⟨u, hu, hw, -, rfl⟩ := meanwhile_userStart h
    have := active_setUser hu .active
    simp [Counted, beforeRun, Launcher.add, active, setUser, hw] at hl this ⊢
    omega
  | userStop k =>
    obtain ⟨u, hu, hw, -, rfl⟩ := meanwhile_userStop h
    have := active_setUser hu .ended
    simp [Counted, active, setUser, hw] at hl this ⊢
    omega
  | userEnd k =>
    obtain ⟨u, hu, ha, rfl⟩ := meanwhile_userEnd h
    have := active_setUser hu .ended
    simp [Counted, afterRun, active, setUser, ha] at hl this ⊢
    omega
  | shutDown =>
    obtain ⟨-, rfl⟩ := meanwhile_shutDown h
    simpa [Counted, active, shutDown, List.countP_map, Function.comp_def] using hl
  | add r =>
    obtain rfl := Option.some.inj h
    exact hl.congr rfl rfl
  | connect | disconnect =>
    obtain rfl := Option.some.inj h
    exact hl.congr rfl rfl

/-- Every step keeps the concurrent users counted. -/
theorem Counted.step (hl : l.Counted) {a : Act} (h : step cfg l a = some l') : l'.Counted := by
  by_cases ha : a.IsMeanwhile
  · exact hl.meanwhile (step_meanwhile ha h).2
  · obtain ⟨hc, -, hu | ⟨draws, -, hu⟩⟩ := step_self ha h
    · exact hl.congr hu hc
    · exact (hl.startTick draws).congr hu hc

theorem counted_of_reachable (h : (sys cfg).Reachable l) : l.Counted :=
  h.invariant (by rintro _ ⟨now, rfl⟩; rfl) fun _ hl _ h => hl.step h

end Launcher

end Mistress
