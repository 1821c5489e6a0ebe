import Mathlib.Data.List.TakeWhile
import Mistress.TestShutDown

/-!
# Finishing a test

`run` finishes a test in its finishing phase, at the end of the first tick at
which no user is concurrent. A user counts as concurrent only after its initial
sleep, so whether the users that are still asleep are waited for is a matter of
time: the sleep of a user, less than a second, begins in the pass of the tick that
launches it, and so does the sleep of the launcher, which lasts a second. Timers
fire in the order of their deadlines, and the sessions are resumed in the order
they are planned in, so every user has started when the launcher goes on
(`Inv.waiting`).

`Timed` is the launcher together with the timers of these sleeps and the queue of
`resume_active_sessions`. There is no shutdown. What the users do once they have
started is arbitrary: they act at any point of a pass.

* A session that raises `nil` or `false` ends without `on_after_run`, and without
  an error for `resume_active_sessions` to raise: it stays counted, and the test
  never finishes (`raised_not_punctual`).
* In the runs where this does not happen, the test finishes when all its users
  have ended, and only then (`punctual_of_reachable`).
-/

namespace Mistress

open Transition Launcher

/-- A session that waits to be resumed: the launcher, or a user. -/
inductive Who
  | launcher
  | user (k : ℕ)
  deriving DecidableEq

/-- The timer of a sleep. -/
structure Timer where
  deadline : ℚ
  who : Who
  deriving DecidableEq

/-- The launcher, with the timers and the queue of the sessions to be resumed. -/
structure Timed where
  launcher : Launcher
  /-- The delay drawn for each user. -/
  launchAfter : List ℚ
  /-- The users that have begun their initial sleep. -/
  begun : List ℕ
  /-- The timers that have not fired. -/
  timers : List Timer
  /-- The sessions to be resumed, in order. -/
  activeSessions : List Who
  /-- Whether `resume_active_sessions` runs. -/
  inPass : Bool

namespace Timed

/-- The actions. -/
inductive Act
  /-- The launcher goes on. -/
  | go
  /-- The launcher starts a tick, `math.random()` giving the delays `draws`. -/
  | tick (draws : List ℚ)
  /-- The kernel answers a call of `mistress.send` of the launcher. -/
  | send (sent : Sent)
  /-- A user does `a`, or a child of it does. -/
  | session (a : Launcher.Act)
  /-- The user `k` raises an error, whose value is `nil` or `false` if `falsy`. -/
  | raise (k : ℕ) (falsy : Bool)
  /-- A pass of `resume_active_sessions` begins. -/
  | beginPass
  /-- The next session is resumed: the launcher, if it is in `send`, by its
      timeout if `timedOut`. -/
  | resume (timedOut : Bool)
  | endPass
  /-- A timer fires: `cb_sleep`. -/
  | fire (τ : Timer)
  /-- The socket of the launcher is writable, or `send` times out. -/
  | io
  | advance (d : ℚ)

/-- The start of the test, at the time `now`, in a pass that has resumed the launcher. -/
def start (now : ℚ) : Timed where
  launcher := Launcher.start now
  launchAfter := []
  begun := []
  timers := []
  activeSessions := []
  inPass := true

/-- `plan_resume`: a session that is planned already is not planned twice. -/
def planResume (t : Timed) (w : Who) : Timed :=
  if w ∈ t.activeSessions then t
  else { t with activeSessions := t.activeSessions ++ [w] }

/-- A tick has registered the users of `draws` and planned their resumption, and
    the launcher sleeps for a second. -/
def startTick (t : Timed) (draws : List ℚ) : Timed :=
  { t with
    launcher := t.launcher.startTick draws
    launchAfter := t.launchAfter ++ draws
    activeSessions := t.activeSessions ++
      (List.range' t.launcher.users.length draws.length).map .user
    timers := t.timers ++ [⟨t.launcher.now + 1, .launcher⟩] }

/-- The launcher starts a tick. -/
def tick (t : Timed) (draws : List ℚ) : Option Timed :=
  match t.launcher.tick draws with
  | some l => some (if l.pc = .exited then { t with launcher := l } else t.startTick draws)
  | none => none

/-- What a user may do once it has started. -/
def OfUser : Launcher.Act → Prop
  | .add _ | .userEnd _ | .connect | .disconnect => True
  | _ => False

instance (a : Launcher.Act) : Decidable (OfUser a) := by
  unfold OfUser
  split <;> infer_instance

/-- A user raises an error. -/
def raise (t : Timed) (k : ℕ) (falsy : Bool) : Option Timed :=
  match t.launcher.users[k]? with
  | some u =>
    if u.state = .active then
      -- The coroutine returns the error, `on_after_run` is not called. It is
      -- raised by `resume_active_sessions` if it is true.
      some { t with launcher :=
        if falsy then t.launcher.setUser k u .ended else { t.launcher with pc := .exited } }
    else none
  | none => none

/-- The launcher is resumed. A session that has ended is absent. -/
def resumeLauncher (cfg : Config) (t : Timed) (timedOut : Bool) : Timed :=
  { t with launcher :=
      ((if timedOut then t.launcher.timeout else t.launcher.resume cfg).getD t.launcher) }

/-- The user `k` is resumed: it begins its initial sleep, or ends it. -/
def resumeUser (t : Timed) (k : ℕ) : Timed :=
  match t.launchAfter[k]? with
  | some d =>
    if k ∈ t.begun then
      { t with launcher := (t.launcher.meanwhile (.userStart k)).getD t.launcher }
    else { t with begun := k :: t.begun, timers := t.timers ++ [⟨t.launcher.now + d, .user k⟩] }
  | none => t

/-- The next session of the pass is resumed. -/
def resumeNext (cfg : Config) (t : Timed) (timedOut : Bool) : Option Timed :=
  match t.activeSessions with
  | .launcher :: rest =>
    if timedOut = true → t.launcher.InSend then
      some (({ t with activeSessions := rest } : Timed).resumeLauncher cfg timedOut)
    else none
  | .user k :: rest => some (({ t with activeSessions := rest } : Timed).resumeUser k)
  | [] => none

/-- A timer is due, and no other one was due before. -/
def Due (t : Timed) (τ : Timer) : Prop :=
  τ ∈ t.timers ∧ τ.deadline ≤ t.launcher.now ∧ ∀ τ' ∈ t.timers, τ.deadline ≤ τ'.deadline

instance (t : Timed) (τ : Timer) : Decidable (t.Due τ) :=
  inferInstanceAs (Decidable (_ ∧ _ ∧ _))

/-- What happens while the launcher does not run. -/
def meanwhile (cfg : Config) (t : Timed) : Act → Option Timed
  | .session a =>
    if t.inPass = true ∧ OfUser a then
      (t.launcher.meanwhile a).map fun l => { t with launcher := l }
    else none
  | .raise k falsy => if t.inPass then t.raise k falsy else none
  | .beginPass => if t.inPass then none else some { t with inPass := true }
  | .resume timedOut => if t.inPass then t.resumeNext cfg timedOut else none
  | .endPass =>
    if t.inPass = true ∧ t.activeSessions = [] then some { t with inPass := false } else none
  | .fire τ =>
    if t.inPass = false ∧ t.Due τ then
      some (({ t with timers := t.timers.erase τ } : Timed).planResume τ.who)
    else none
  | .io => if t.inPass = false ∧ t.launcher.InSend then some (t.planResume .launcher) else none
  | .advance d =>
    if t.inPass = false ∧ 0 ≤ d then
      some { t with launcher := { t.launcher with now := t.launcher.now + d } }
    else none
  | _ => none

/-- The step of an action, where it is possible. -/
def step (cfg : Config) (t : Timed) : Act → Option Timed
  | .go => (t.launcher.go cfg).map fun l => { t with launcher := l }
  | .tick draws => t.tick draws
  | .send sent => (t.launcher.send sent).map fun l => { t with launcher := l }
  | a => if t.launcher.Yielded then t.meanwhile cfg a else none

/-- The launcher and the scheduler, from the start of the test. -/
def sys (cfg : Config) : System Timed Act where
  init t := ∃ now, t = start now
  step := step cfg

/-! ## The invariant -/

variable {cfg : Config} {t t' : Timed} {wakeAt : ℚ} {k : ℕ}

/-- How the user `k` gets started before the launcher, which sleeps until `wakeAt`, is resumed. -/
inductive Awaited (t : Timed) (wakeAt : ℚ) (k : ℕ) : Prop
  /-- Its initial sleep will begin in the pass in which the launcher fell asleep. -/
  | planned (d : ℚ) : t.launchAfter[k]? = some d → d < 1 → k ∉ t.begun → t.inPass = true →
      wakeAt = t.launcher.now + 1 → .user k ∈ t.activeSessions → .launcher ∉ t.activeSessions →
      Awaited t wakeAt k
  /-- Its timer has an earlier deadline. -/
  | timer (d : ℚ) : k ∈ t.begun → ⟨d, .user k⟩ ∈ t.timers → d < wakeAt →
      .launcher ∉ t.activeSessions → Awaited t wakeAt k
  /-- It is planned before the launcher. -/
  | ahead : k ∈ t.begun → .user k ∈ t.activeSessions.takeWhile (· ≠ .launcher) →
      Awaited t wakeAt k

/-- The sessions that have a timer or are planned. -/
def pending (t : Timed) : List Who := t.timers.map (·.who) ++ t.activeSessions

/-- The invariant of the runs of a test, as long as the process does not exit. -/
structure Inv (t : Timed) : Prop where
  /-- While the launcher does not sleep, no user is in its initial sleep. -/
  waiting : ∀ {k u}, t.launcher.users[k]? = some u → u.state = .waiting →
    ∃ wakeAt, t.launcher.pc = .sleeping wakeAt ∧ t.Awaited wakeAt k
  timer : ∀ {d}, ⟨d, .launcher⟩ ∈ t.timers → t.launcher.pc = .sleeping d
  once : t.pending.count .launcher ≤ 1
  yielded : .launcher ∈ t.activeSessions → t.launcher.Yielded
  inPass : ¬t.launcher.Yielded → t.inPass = true
  begun : ∀ k ∈ t.begun, k < t.launcher.users.length
  launchAfter : t.launchAfter.length = t.launcher.users.length
  unflagged : ∀ u ∈ t.launcher.users, u.gonnaShutDown = false

/-- The launcher is not planned while its timer runs. -/
theorem Inv.not_mem (ht : t.Inv) {d : ℚ} (hd : ⟨d, .launcher⟩ ∈ t.timers) :
    .launcher ∉ t.activeSessions := by
  intro h
  have hd' : .launcher ∈ t.timers.map (·.who) := List.mem_map.2 ⟨_, hd, rfl⟩
  have := ht.once
  rw [pending, List.count_append] at this
  have := List.count_pos_iff.2 h
  have := List.count_pos_iff.2 hd'
  omega

/-- No user is in its initial sleep. -/
def Started (t : Timed) : Prop := ∀ u ∈ t.launcher.users, u.state ≠ .waiting

theorem Inv.started (ht : t.Inv) (h : ∀ wakeAt, t.launcher.pc = .sleeping wakeAt →
    .launcher ∈ t.activeSessions ∧ t.activeSessions.takeWhile (· ≠ .launcher) = []) :
    t.Started := by
  intro u hu hw
  obtain ⟨k, hk⟩ := List.mem_iff_getElem?.1 hu
  obtain ⟨wakeAt, hpc, ha⟩ := ht.waiting hk hw
  obtain ⟨hmem, hnil⟩ := h wakeAt hpc
  cases ha with
  | planned _ _ _ _ _ _ _ hnot => exact hnot hmem
  | timer _ _ _ _ hnot => exact hnot hmem
  | ahead _ hahead =>
    rw [hnil] at hahead
    cases hahead

theorem inv_start (now : ℚ) : (start now).Inv where
  waiting h := by simp [start, Launcher.start] at h
  timer h := by cases h
  once := Nat.zero_le _
  yielded h := by cases h
  inPass _ := rfl
  begun _ h := by cases h
  launchAfter := rfl
  unflagged _ h := by cases h

/-! ### The launcher runs -/

/-- Where the launcher runs, no user is in its initial sleep. -/
theorem Inv.started_of_running (ht : t.Inv) (hy : ¬t.launcher.Yielded) : t.Started :=
  ht.started fun wakeAt hpc => absurd (by simp [Launcher.Yielded, hpc]) hy

/-- Where no user is in its initial sleep, the launcher may do anything that
    leaves the users alone. -/
theorem Inv.launcher (ht : t.Inv) (hpass : t.inPass = true) (hs : t.Started)
    {l : Launcher} {ws : List Who}
    (hu : l.users = t.launcher.users) (hτ : .launcher ∉ t.timers.map (·.who))
    (hws : .launcher ∉ ws) : ({ t with launcher := l, activeSessions := ws } : Timed).Inv where
  waiting hk hw := absurd hw (hs _ (hu ▸ List.mem_of_getElem? hk))
  timer h := absurd (List.mem_map.2 ⟨_, h, rfl⟩) hτ
  once := by
    simp only [pending, List.count_append, List.count_eq_zero.2 hws, List.count_eq_zero.2 hτ]
    omega
  yielded h := absurd h hws
  inPass _ := hpass
  begun k hk := hu ▸ ht.begun k hk
  launchAfter := ht.launchAfter.trans (congrArg _ hu.symm)
  unflagged := hu ▸ ht.unflagged

theorem Inv.run (ht : t.Inv) (hy : ¬t.launcher.Yielded) {l : Launcher}
    (hu : l.users = t.launcher.users) : ({ t with launcher := l } : Timed).Inv := by
  refine ht.launcher (ht.inPass hy) (ht.started_of_running hy) hu (fun h => hy ?_)
    fun h => hy (ht.yielded h)
  obtain ⟨⟨d, _⟩, hd, rfl⟩ := List.mem_map.1 h
  simp [Launcher.Yielded, ht.timer hd]

/-- The launcher is resumed. -/
theorem Inv.resumeLauncher (ht : t.Inv) (hpass : t.inPass = true) {ws : List Who}
    (hq : t.activeSessions = .launcher :: ws) {l : Launcher} (hu : l.users = t.launcher.users) :
    ({ t with launcher := l, activeSessions := ws } : Timed).Inv := by
  have hmem : .launcher ∈ t.activeSessions := hq ▸ List.mem_cons_self
  refine ht.launcher hpass (ht.started fun _ _ => ⟨hmem, by simp [hq]⟩) hu (fun h => ?_) fun h => ?_
  · obtain ⟨⟨d, _⟩, hd, rfl⟩ := List.mem_map.1 h
    exact ht.not_mem hd hmem
  · have := ht.once
    rw [pending, hq, List.count_append, List.count_cons_self] at this
    have := List.count_pos_iff.2 h
    omega

/-- The launcher starts a tick: the users it launches are planned. -/
theorem Inv.startTick (ht : t.Inv) (hpc : t.launcher.pc = .ticks) {draws : List ℚ}
    (hd : ∀ d ∈ draws, 0 ≤ d ∧ d < 1) : (t.startTick draws).Inv := by
  have hy : ¬t.launcher.Yielded := by simp [Launcher.Yielded, hpc]
  have hnot : .launcher ∉ t.activeSessions := fun h => hy (ht.yielded h)
  have hnot' : .launcher ∉ (t.startTick draws).activeSessions := by
    simp [Timed.startTick, hnot]
  constructor
  case waiting =>
    intro k u hk hw
    refine ⟨_, rfl, ?_⟩
    simp only [Timed.startTick, Launcher.startTick, List.getElem?_append] at hk
    split at hk
    · exact absurd hw (ht.started_of_running hy u (List.mem_of_getElem? hk))
    · rename_i hlt
      simp only [List.getElem?_map, Option.map_eq_some_iff] at hk
      obtain ⟨d, hd', -⟩ := hk
      refine .planned d ?_ (hd d (List.mem_of_getElem? hd')).2 (fun h => hlt (ht.begun k h))
        (ht.inPass hy) rfl ?_ hnot'
      · simpa [Timed.startTick, List.getElem?_append, ht.launchAfter, hlt] using hd'
      · have := (List.getElem?_eq_some_iff.1 hd').1
        simp [Timed.startTick, List.mem_range'_1]
        omega
  case timer =>
    intro d h
    simp only [Timed.startTick, List.mem_append, List.mem_singleton, Timer.mk.injEq, and_true] at h
    rcases h with h | rfl
    · exact absurd (ht.timer h) (by simp [hpc])
    · rfl
  case once =>
    have hnone : .launcher ∉ t.timers.map (·.who) := fun h => by
      obtain ⟨⟨d, _⟩, hd, rfl⟩ := List.mem_map.1 h
      exact absurd (ht.timer hd) (by simp [hpc])
    rw [pending, List.count_append, List.count_eq_zero.2 hnot']
    simp [Timed.startTick, List.count_eq_zero.2 hnone]
  case yielded => exact fun h => absurd h hnot'
  case inPass => exact fun _ => ht.inPass hy
  case begun =>
    intro k hk
    have := ht.begun k hk
    simp only [Timed.startTick, Launcher.startTick, List.length_append]
    omega
  case launchAfter => simp [Timed.startTick, Launcher.startTick, ht.launchAfter]
  case unflagged =>
    intro u hu
    simp only [Timed.startTick, Launcher.startTick, List.mem_append, List.mem_map] at hu
    rcases hu with hu | ⟨d, -, rfl⟩
    · exact ht.unflagged u hu
    · rfl

/-! ### The launcher is suspended -/

/-- What a step from a state in which the launcher is suspended has to do to keep
    the invariant. -/
theorem Inv.frame (ht : t.Inv) (hy : t.launcher.Yielded)
    (hpc : t'.launcher.pc = t.launcher.pc)
    (hw : ∀ {k u}, t'.launcher.users[k]? = some u → u.state = .waiting →
      t.launcher.users[k]? = some u ∧
        ∀ wakeAt, t.launcher.pc = .sleeping wakeAt → t.Awaited wakeAt k → t'.Awaited wakeAt k)
    (hτ : ∀ {d}, ⟨d, .launcher⟩ ∈ t'.timers → ⟨d, .launcher⟩ ∈ t.timers)
    (hp : t'.pending.count .launcher ≤ 1)
    (hb : ∀ k ∈ t'.begun, k < t.launcher.users.length)
    (hla : t'.launchAfter = t.launchAfter)
    (hlen : t'.launcher.users.length = t.launcher.users.length)
    (hf : ∀ u ∈ t'.launcher.users, u.gonnaShutDown = false) : t'.Inv := by
  have hy' : t'.launcher.Yielded := by
    rw [Launcher.Yielded, hpc]
    exact hy
  constructor
  case waiting =>
    intro k u hk hs
    obtain ⟨hk, ha⟩ := hw hk hs
    obtain ⟨wakeAt, hpc', hk'⟩ := ht.waiting hk hs
    exact ⟨wakeAt, hpc.trans hpc', ha _ hpc' hk'⟩
  case timer => exact fun h => hpc.trans (ht.timer (hτ h))
  case once => exact hp
  case yielded => exact fun _ => hy'
  case inPass => exact fun h => absurd hy' h
  case begun => exact fun k hk => hlen ▸ hb k hk
  case launchAfter => rw [hla, hlen, ht.launchAfter]
  case unflagged => exact hf

/-- The users of a launcher may change, but not into a waiting one. -/
theorem Awaited.launcher (h : t.Awaited wakeAt k) {l : Launcher} (hnow : l.now = t.launcher.now) :
    ({ t with launcher := l } : Timed).Awaited wakeAt k := by
  cases h with
  | planned d hd hlt hb hpass hwake hmem hnot =>
    exact .planned d hd hlt hb hpass (hnow ▸ hwake) hmem hnot
  | timer d hb hmem hlt hnot => exact .timer d hb hmem hlt hnot
  | ahead hb hmem => exact .ahead hb hmem

/-- A user is resumed that does not wait. -/
theorem Awaited.tail {j : ℕ} {ws : List Who} (h : t.Awaited wakeAt k)
    (hq : t.activeSessions = .user j :: ws) (hkj : k ≠ j) :
    ({ t with activeSessions := ws } : Timed).Awaited wakeAt k := by
  have hws : .launcher ∉ t.activeSessions → .launcher ∉ ws := fun h h' =>
    h (hq ▸ List.mem_cons_of_mem _ h')
  cases h with
  | planned d hd hlt hb hpass hwake hmem hnot =>
    refine .planned d hd hlt hb hpass hwake ?_ (hws hnot)
    simpa [hq, hkj] using hmem
  | timer d hb hmem hlt hnot => exact .timer d hb hmem hlt (hws hnot)
  | ahead hb hmem =>
    refine .ahead hb ?_
    simpa [hq, hkj] using hmem

/-- A user changing its state into another one is not waiting any more. -/
theorem getElem?_setUser {l : Launcher} {j : ℕ} {u v : User} {state : UserState}
    (hs : state ≠ .waiting) (h : (l.setUser j v state).users[k]? = some u)
    (hw : u.state = .waiting) : k ≠ j ∧ l.users[k]? = some u := by
  rw [setUser, List.getElem?_set] at h
  split at h
  · split at h
    · obtain rfl := Option.some.inj h
      exact absurd hw hs
    · cases h
  · exact ⟨fun h' => absurd h'.symm ‹_›, h⟩

theorem unflagged_setUser {l : Launcher} {j : ℕ} {v : User} {state : UserState}
    (h : ∀ u ∈ l.users, u.gonnaShutDown = false) (hv : l.users[j]? = some v) :
    ∀ u ∈ (l.setUser j v state).users, u.gonnaShutDown = false := by
  intro u hu
  rcases List.mem_or_eq_of_mem_set hu with hu | rfl
  · exact h u hu
  · exact h v (List.mem_of_getElem? hv)

/-- A user that has started changes, or one that has not starts. -/
theorem Inv.setUser (ht : t.Inv) (hy : t.launcher.Yielded) {j : ℕ} {v : User}
    (hv : t.launcher.users[j]? = some v) {state : UserState} (hs : state ≠ .waiting)
    {l : Launcher} (hpc : l.pc = t.launcher.pc) (hnow : l.now = t.launcher.now)
    (hl : l.users = (t.launcher.setUser j v state).users) :
    ({ t with launcher := l } : Timed).Inv := by
  refine ht.frame hy hpc (fun hk hw => ?_) id ht.once ht.begun rfl ?_ ?_
  · exact ⟨(getElem?_setUser hs (hl ▸ hk) hw).2, fun _ _ ha => ha.launcher hnow⟩
  · simp [hl, Launcher.setUser]
  · exact hl ▸ unflagged_setUser ht.unflagged hv

/-- What the users do. -/
theorem Inv.session (ht : t.Inv) (hy : t.launcher.Yielded) {a : Launcher.Act} (ha : OfUser a)
    {l : Launcher} (h : t.launcher.meanwhile a = some l) :
    ({ t with launcher := l } : Timed).Inv := by
  cases a with
  | go | tick | send | resume | timeout | advance | userStart | userStop | shutDown => exact ha.elim
  | userEnd j =>
    obtain ⟨v, hv, -, rfl⟩ := meanwhile_userEnd h
    exact ht.setUser hy hv (by decide) rfl rfl rfl
  | add | connect | disconnect =>
    obtain rfl := Option.some.inj h
    exact ht.frame hy rfl (fun hk _ => ⟨hk, fun _ _ ha => ha.launcher rfl⟩) id ht.once ht.begun rfl
      rfl ht.unflagged

/-- A user raises an error. -/
theorem Inv.raise (ht : t.Inv) (hy : t.launcher.Yielded) {j : ℕ} {falsy : Bool}
    (h : t.raise j falsy = some t') : t'.launcher.pc = .exited ∨ t'.Inv := by
  simp only [Timed.raise] at h
  split at h
  · obtain ⟨-, h⟩ := Option.ite_none_right_eq_some.1 h
    obtain rfl := Option.some.inj h
    cases falsy with
    | false => exact .inl rfl
    | true => exact .inr (ht.setUser hy ‹_› (by decide) rfl rfl rfl)
  · cases h

/-- A user is resumed: if it waits, it begins its initial sleep or starts. -/
theorem Inv.resumeUser (ht : t.Inv) (hy : t.launcher.Yielded) {j : ℕ} {ws : List Who}
    (hq : t.activeSessions = .user j :: ws) :
    (({ t with activeSessions := ws } : Timed).resumeUser j).Inv := by
  have hp : (t.timers.map (·.who) ++ ws).count .launcher ≤ 1 := by
    have := ht.once
    rwa [pending, hq, List.count_append, List.count_cons_of_ne (by simp),
      ← List.count_append] at this
  -- Where `j` does not wait, the others are awaited as before.
  have htail : (∀ u, t.launcher.users[j]? = some u → u.state ≠ .waiting) →
      ({ t with activeSessions := ws } : Timed).Inv := fun hj =>
    ht.frame hy rfl (fun hk hw => ⟨hk, fun _ _ ha => ha.tail hq fun h => hj _ (h ▸ hk) hw⟩) id hp
      ht.begun rfl rfl ht.unflagged
  unfold Timed.resumeUser
  split
  · rename_i d hd
    split
    · rename_i hb
      cases hs : t.launcher.meanwhile (.userStart j) with
      | none =>
        refine htail fun u hu hw => ?_
        simp [Launcher.meanwhile, hu, hw, ht.unflagged u (List.mem_of_getElem? hu)] at hs
      | some l =>
        obtain ⟨v, hv, -, -, rfl⟩ := meanwhile_userStart hs
        refine ht.frame hy rfl (fun hk hw => ?_) id hp ht.begun rfl ?_ ?_
        · obtain ⟨hkj, hk⟩ := getElem?_setUser (by decide) hk hw
          exact ⟨hk, fun _ _ ha => (ha.tail hq hkj).launcher rfl⟩
        · simp [Launcher.setUser, beforeRun, Launcher.add]
        · exact unflagged_setUser ht.unflagged hv
    · rename_i hb
      refine ht.frame hy rfl (fun {k u} hk hw => ⟨hk, fun wakeAt _ ha => ?_⟩) (fun h => ?_) ?_
        (fun k hk => ?_) rfl rfl ht.unflagged
      · by_cases hkj : k = j
        · subst hkj
          cases ha with
          | planned d' hd' hlt _ _ hwake _ hnot =>
            obtain rfl : d' = d := Option.some.inj (hd'.symm.trans hd)
            refine .timer _ List.mem_cons_self
              (List.mem_append_right _ (List.mem_singleton_self _)) ?_
              fun h => hnot (hq ▸ List.mem_cons_of_mem _ h)
            rw [hwake]
            exact (add_lt_add_iff_left _).2 hlt
          | timer _ hb' => exact absurd hb' hb
          | ahead hb' => exact absurd hb' hb
        · cases ha.tail hq hkj with
          | planned d hd hlt hb hpass hwake hmem hnot =>
            exact .planned d hd hlt (by simpa [hkj] using hb) hpass hwake hmem hnot
          | timer d hb hmem hlt hnot =>
            exact .timer d (List.mem_cons_of_mem _ hb) (List.mem_append_left _ hmem) hlt hnot
          | ahead hb hmem => exact .ahead (List.mem_cons_of_mem _ hb) hmem
      · simpa using h
      · simpa [pending] using hp
      · rcases List.mem_cons.1 hk with rfl | hk
        · have := (List.getElem?_eq_some_iff.1 hd).1
          exact ht.launchAfter ▸ this
        · exact ht.begun k hk
  · rename_i hnone
    refine htail fun u hu _ => ?_
    have hlt := (List.getElem?_eq_some_iff.1 hu).1
    have hle := List.getElem?_eq_none_iff.1 hnone
    have := ht.launchAfter
    simp only at hle
    omega

/-- A pass begins, or ends with its queue. -/
theorem Inv.pass (ht : t.Inv) (hy : t.launcher.Yielded) {inPass : Bool}
    (h : t.inPass = false ∨ t.activeSessions = []) : ({ t with inPass := inPass } : Timed).Inv := by
  refine ht.frame hy rfl (fun hk _ => ⟨hk, fun wakeAt _ ha => ?_⟩) id ht.once ht.begun rfl rfl
    ht.unflagged
  cases ha with
  | planned d hd hlt hb hpass hwake hmem hnot =>
    rcases h with h | h
    · exact absurd hpass (by simp [h])
    · simp [h] at hmem
  | timer d hb hmem hlt hnot => exact .timer d hb hmem hlt hnot
  | ahead hb hmem => exact .ahead hb hmem

/-- The clock advances between the passes. -/
theorem Inv.advance (ht : t.Inv) (hy : t.launcher.Yielded) (hpass : t.inPass = false) (d : ℚ) :
    ({ t with launcher := { t.launcher with now := t.launcher.now + d } } : Timed).Inv := by
  refine ht.frame hy rfl (fun hk _ => ⟨hk, fun wakeAt _ ha => ?_⟩) id ht.once ht.begun rfl rfl
    ht.unflagged
  cases ha with
  | planned _ _ _ _ hpass' => exact absurd hpass' (by simp [hpass])
  | timer d hb hmem hlt hnot => exact .timer d hb hmem hlt hnot
  | ahead hb hmem => exact .ahead hb hmem

@[simp] theorem planResume_launcher (w : Who) : (t.planResume w).launcher = t.launcher := by
  unfold planResume; split <;> rfl

@[simp] theorem planResume_launchAfter (w : Who) :
    (t.planResume w).launchAfter = t.launchAfter := by
  unfold planResume; split <;> rfl

@[simp] theorem planResume_begun (w : Who) : (t.planResume w).begun = t.begun := by
  unfold planResume; split <;> rfl

@[simp] theorem planResume_timers (w : Who) : (t.planResume w).timers = t.timers := by
  unfold planResume; split <;> rfl

theorem mem_planResume {w w' : Who} :
    w' ∈ (t.planResume w).activeSessions ↔ w' ∈ t.activeSessions ∨ w' = w := by
  unfold planResume
  split
  · exact ⟨.inl, fun h => h.elim id fun h => h ▸ ‹_›⟩
  · simp

/-- Where the launcher is not planned, all the sessions planned are ahead of it. -/
theorem takeWhile_of_not_mem {ws : List Who} (h : .launcher ∉ ws) :
    ws.takeWhile (· ≠ .launcher) = ws :=
  List.takeWhile_eq_self_iff.2 fun w hw => decide_eq_true fun h' : w = .launcher => h (h' ▸ hw)

/-- A user ahead of the launcher stays ahead of it. -/
theorem Awaited.planResume (hb : k ∈ t.begun)
    (h : .user k ∈ t.activeSessions.takeWhile (· ≠ .launcher)) (w : Who) :
    (t.planResume w).Awaited wakeAt k := by
  unfold Timed.planResume
  split
  · exact .ahead hb h
  · refine .ahead hb ?_
    rw [List.takeWhile_append]
    split
    · exact List.mem_append_left _ ((List.takeWhile_prefix _).mem h)
    · exact h

/-- The launcher is planned while it is suspended in `send`. -/
theorem Inv.io (ht : t.Inv) (hs : t.launcher.InSend) : (t.planResume .launcher).Inv := by
  have hpc : ∀ wakeAt, t.launcher.pc ≠ .sleeping wakeAt := fun wakeAt h => by
    rcases hs with hs | hs <;> simp [h] at hs
  have hy : t.launcher.Yielded := by rcases hs with hs | hs <;> simp [Launcher.Yielded, hs]
  have hstart : t.Started := ht.started fun wakeAt h => absurd h (hpc wakeAt)
  unfold planResume
  split
  · exact ht
  · rename_i hnot
    refine ht.frame hy rfl (fun hk hw => absurd hw (hstart _ (List.mem_of_getElem? hk))) id ?_
      ht.begun rfl rfl ht.unflagged
    have hτ : .launcher ∉ t.timers.map (·.who) := fun h => by
      obtain ⟨⟨d, _⟩, hd, rfl⟩ := List.mem_map.1 h
      exact hpc d (ht.timer hd)
    rw [pending, List.count_append, List.count_append, List.count_eq_zero.2 hτ,
      List.count_eq_zero.2 hnot]
    simp

/-- The earliest timer fires. -/
theorem Inv.fire (ht : t.Inv) (hy : t.launcher.Yielded) (hpass : t.inPass = false) {τ : Timer}
    (hτ : t.Due τ) : (({ t with timers := t.timers.erase τ } : Timed).planResume τ.who).Inv := by
  obtain ⟨hmem, -, hmin⟩ := hτ
  obtain ⟨d, w⟩ := τ
  refine ht.frame hy (by simp) (fun {k u} hk hw => ?_) (fun h => ?_) ?_ (by simpa using ht.begun)
    (by simp) (by simp) (by simpa using ht.unflagged)
  · rw [planResume_launcher] at hk
    refine ⟨hk, fun wakeAt hpc ha => ?_⟩
    cases ha with
    | planned _ _ _ _ hpass' => exact absurd hpass' (by simp [hpass])
    | ahead hb hahead =>
      exact Awaited.planResume (t := { t with timers := t.timers.erase ⟨d, w⟩ }) hb hahead w
    | timer d' hb hmem' hlt hnot =>
      cases w with
      | launcher =>
        -- The timer of the launcher is not the earliest one.
        obtain rfl : wakeAt = d := Pc.sleeping.inj (hpc.symm.trans (ht.timer hmem))
        exact absurd (hmin _ hmem') (not_le_of_gt hlt)
      | user j =>
        have hnot' : .launcher ∉
            (({ t with timers := t.timers.erase ⟨d, .user j⟩ } : Timed).planResume
              (.user j)).activeSessions := fun h =>
          (mem_planResume.1 h).elim hnot (by simp)
        by_cases hkj : k = j
        · subst hkj
          refine .ahead (by simpa using hb) ?_
          rw [takeWhile_of_not_mem hnot']
          exact mem_planResume.2 (.inr rfl)
        · refine .timer d' (by simpa using hb) ?_ hlt hnot'
          rw [planResume_timers]
          exact (List.mem_erase_of_ne (by simp [hkj])).2 hmem'
  · rw [planResume_timers] at h
    exact List.mem_of_mem_erase h
  · have hperm := ((List.perm_cons_erase hmem).map (·.who)).count_eq .launcher
    have honce := ht.once
    rw [pending, List.count_append, hperm, List.map_cons, List.count_cons] at honce
    simp only at honce
    unfold Timed.planResume
    split
    · simp only [pending, List.count_append]
      omega
    · simp only [pending, List.count_append, List.count_singleton]
      omega

/-! ## What holds of every run -/

/-- A process that has exited does nothing any more. -/
theorem step_exited {a : Act} (h : t.launcher.pc = .exited) : step cfg t a = none := by
  have hy : ¬t.launcher.Yielded := by simp [Launcher.Yielded, h]
  cases a <;> simp [step, Launcher.go, Launcher.send, Timed.tick, Launcher.tick, h, hy]

/-- A launcher that goes on, or sends, runs. -/
theorem not_yielded_of_step {l l' : Launcher} {b : Launcher.Act} (hb : ¬b.IsMeanwhile)
    (hr : b ≠ .resume) (ht : b ≠ .timeout) (h : Launcher.step cfg l b = some l') :
    ¬l.Yielded := by
  cases b with
  | go => rcases step_go h with ⟨hpc, -⟩ | ⟨hpc, -⟩ | ⟨hpc, -⟩ | ⟨hpc, -⟩ <;> simp [Yielded, hpc]
  | tick draws => simp [Yielded, (step_tick h).1]
  | send sent =>
    simp only [Launcher.step, Launcher.send] at h
    split at h
    case h_7 => cases h
    all_goals simp [Yielded, *]
  | resume => exact absurd rfl hr
  | timeout => exact absurd rfl ht
  | _ => exact absurd trivial hb

/-- The launcher starts a tick. -/
theorem Inv.tick (ht : t.Inv) {draws : List ℚ} (h : step cfg t (.tick draws) = some t') :
    t'.launcher.pc = .exited ∨ t'.Inv := by
  simp only [step, Timed.tick] at h
  split at h
  · rename_i l hl
    have hs : Launcher.step cfg t.launcher (.tick draws) = some l := hl
    obtain ⟨hpc, -, ⟨-, rfl⟩ | ⟨_, -, -, hd, rfl⟩⟩ := step_tick hs
    · obtain rfl := Option.some.inj h
      exact .inl rfl
    · obtain rfl := Option.some.inj h
      exact .inr (ht.startTick hpc hd)
  · cases h

/-- The next session is resumed. -/
theorem Inv.resumeNext (ht : t.Inv) (hy : t.launcher.Yielded) (hpass : t.inPass = true)
    {timedOut : Bool} (h : t.resumeNext cfg timedOut = some t') : t'.Inv := by
  unfold Timed.resumeNext at h
  split at h
  · rename_i ws hq
    obtain ⟨-, h⟩ := Option.ite_none_right_eq_some.1 h
    obtain rfl := Option.some.inj h
    refine ht.resumeLauncher hpass hq ?_
    cases timedOut with
    | true =>
      cases hl : t.launcher.timeout with
      | none => rfl
      | some l =>
        have hs : Launcher.step cfg t.launcher .timeout = some l := hl
        exact (step_still id (by simp) hs).users
    | false =>
      cases hl : t.launcher.resume cfg with
      | none => rfl
      | some l =>
        have hs : Launcher.step cfg t.launcher .resume = some l := hl
        exact (step_still id (by simp) hs).users
  · obtain rfl := Option.some.inj h
    exact ht.resumeUser hy ‹_›
  · cases h

/-- Every step keeps the invariant, as long as the process does not exit. -/
theorem Inv.step (ht : t.Inv) {a : Act} (h : step cfg t a = some t') :
    t'.launcher.pc = .exited ∨ t'.Inv := by
  cases a with
  | go =>
    obtain ⟨l, hl, rfl⟩ := Option.map_eq_some_iff.1 h
    have hs : Launcher.step cfg t.launcher .go = some l := hl
    exact .inr (ht.run (not_yielded_of_step id (by simp) (by simp) hs)
      (step_still id (by simp) hs).users)
  | send sent =>
    obtain ⟨l, hl, rfl⟩ := Option.map_eq_some_iff.1 h
    have hs : Launcher.step cfg t.launcher (.send sent) = some l := hl
    exact .inr (ht.run (not_yielded_of_step id (by simp) (by simp) hs)
      (step_still id (by simp) hs).users)
  | tick draws => exact ht.tick h
  | session a =>
    obtain ⟨hy, h⟩ := Option.ite_none_right_eq_some.1 h
    obtain ⟨⟨-, ha⟩, h⟩ := Option.ite_none_right_eq_some.1 h
    obtain ⟨l, hl, rfl⟩ := Option.map_eq_some_iff.1 h
    exact .inr (ht.session hy ha hl)
  | raise k falsy =>
    obtain ⟨hy, h⟩ := Option.ite_none_right_eq_some.1 h
    obtain ⟨-, h⟩ := Option.ite_none_right_eq_some.1 h
    exact ht.raise hy h
  | beginPass =>
    obtain ⟨hy, h⟩ := Option.ite_none_right_eq_some.1 h
    obtain ⟨hpass, h⟩ := Option.ite_none_left_eq_some.1 h
    obtain rfl := Option.some.inj h
    exact .inr (ht.pass hy (.inl (Bool.eq_false_iff.2 hpass)))
  | resume timedOut =>
    obtain ⟨hy, h⟩ := Option.ite_none_right_eq_some.1 h
    obtain ⟨hpass, h⟩ := Option.ite_none_right_eq_some.1 h
    exact .inr (ht.resumeNext hy hpass h)
  | endPass =>
    obtain ⟨hy, h⟩ := Option.ite_none_right_eq_some.1 h
    obtain ⟨⟨-, hq⟩, h⟩ := Option.ite_none_right_eq_some.1 h
    obtain rfl := Option.some.inj h
    exact .inr (ht.pass hy (.inr hq))
  | fire τ =>
    obtain ⟨hy, h⟩ := Option.ite_none_right_eq_some.1 h
    obtain ⟨⟨hpass, hτ⟩, h⟩ := Option.ite_none_right_eq_some.1 h
    obtain rfl := Option.some.inj h
    exact .inr (ht.fire hy hpass hτ)
  | io =>
    obtain ⟨-, h⟩ := Option.ite_none_right_eq_some.1 h
    obtain ⟨⟨-, hs⟩, h⟩ := Option.ite_none_right_eq_some.1 h
    obtain rfl := Option.some.inj h
    exact .inr (ht.io hs)
  | advance d =>
    obtain ⟨hy, h⟩ := Option.ite_none_right_eq_some.1 h
    obtain ⟨⟨hpass, -⟩, h⟩ := Option.ite_none_right_eq_some.1 h
    obtain rfl := Option.some.inj h
    exact .inr (ht.advance hy hpass d)

theorem getD_eq_or (o : Option Launcher) (l : Launcher) : o.getD l = l ∨ o = some (o.getD l) := by
  cases o with
  | none => exact .inl rfl
  | some l' => exact .inr rfl

/-- A step of the scheduler is one of the launcher or does not change it, unless a user raises
    an error. -/
theorem launcher_of_step {a : Act} (h : step cfg t a = some t')
    (ha : ∀ k falsy, a ≠ .raise k falsy) :
    t'.launcher = t.launcher ∨
      ∃ b, Launcher.step cfg t.launcher b = some t'.launcher ∧ (b = .go → a = .go) := by
  cases a with
  | go =>
    obtain ⟨l, hl, rfl⟩ := Option.map_eq_some_iff.1 h
    exact .inr ⟨.go, hl, fun _ => rfl⟩
  | send sent =>
    obtain ⟨l, hl, rfl⟩ := Option.map_eq_some_iff.1 h
    exact .inr ⟨.send sent, hl, nofun⟩
  | tick draws =>
    simp only [step, Timed.tick] at h
    split at h
    · rename_i l hl
      have hs : Launcher.step cfg t.launcher (.tick draws) = some l := hl
      refine .inr ⟨.tick draws, ?_, nofun⟩
      obtain ⟨-, -, ⟨-, rfl⟩ | ⟨_, -, -, -, rfl⟩⟩ := step_tick hs
      all_goals
        obtain rfl := Option.some.inj h
        exact hl
    · cases h
  | session a =>
    obtain ⟨hy, h⟩ := Option.ite_none_right_eq_some.1 h
    obtain ⟨⟨-, ha⟩, h⟩ := Option.ite_none_right_eq_some.1 h
    obtain ⟨l, hl, rfl⟩ := Option.map_eq_some_iff.1 h
    refine .inr ⟨a, ?_, fun h => (h ▸ ha : OfUser .go).elim⟩
    cases a with
    | add | userEnd | connect | disconnect => exact (if_pos hy).trans hl
    | _ => exact ha.elim
  | raise k falsy => exact absurd rfl (ha k falsy)
  | beginPass =>
    obtain ⟨-, h⟩ := Option.ite_none_right_eq_some.1 h
    obtain ⟨-, h⟩ := Option.ite_none_left_eq_some.1 h
    obtain rfl := Option.some.inj h
    exact .inl rfl
  | resume timedOut =>
    obtain ⟨hy, h⟩ := Option.ite_none_right_eq_some.1 h
    obtain ⟨-, h⟩ := Option.ite_none_right_eq_some.1 h
    unfold Timed.resumeNext at h
    split at h
    · obtain ⟨-, h⟩ := Option.ite_none_right_eq_some.1 h
      obtain rfl := Option.some.inj h
      cases timedOut with
      | true => exact (getD_eq_or _ _).imp id fun h => ⟨.timeout, h, nofun⟩
      | false => exact (getD_eq_or _ _).imp id fun h => ⟨.resume, h, nofun⟩
    · rename_i k ws hq
      obtain rfl := Option.some.inj h
      unfold Timed.resumeUser
      split
      · split
        · exact (getD_eq_or _ _).imp id fun h => ⟨.userStart k, (if_pos hy).trans h, nofun⟩
        · exact .inl rfl
      · exact .inl rfl
    · cases h
  | endPass =>
    obtain ⟨-, h⟩ := Option.ite_none_right_eq_some.1 h
    obtain ⟨-, h⟩ := Option.ite_none_right_eq_some.1 h
    obtain rfl := Option.some.inj h
    exact .inl rfl
  | fire τ =>
    obtain ⟨-, h⟩ := Option.ite_none_right_eq_some.1 h
    obtain ⟨-, h⟩ := Option.ite_none_right_eq_some.1 h
    obtain rfl := Option.some.inj h
    exact .inl (planResume_launcher _)
  | io =>
    obtain ⟨-, h⟩ := Option.ite_none_right_eq_some.1 h
    obtain ⟨-, h⟩ := Option.ite_none_right_eq_some.1 h
    obtain rfl := Option.some.inj h
    exact .inl (planResume_launcher _)
  | advance d =>
    obtain ⟨hy, h⟩ := Option.ite_none_right_eq_some.1 h
    obtain ⟨⟨-, hd⟩, h⟩ := Option.ite_none_right_eq_some.1 h
    obtain rfl := Option.some.inj h
    exact .inr ⟨.advance d, (if_pos hy).trans (if_pos hd), nofun⟩

/-- The errors the users raise are true values, which `resume_active_sessions` raises again. -/
def RaisesTrue (_ : Timed) : Act → Prop
  | .raise _ falsy => falsy = false
  | _ => True

instance (t : Timed) (a : Act) : Decidable (RaisesTrue t a) := by
  unfold RaisesTrue
  split <;> infer_instance

theorem counted_step {a : Act} (hc : t.launcher.Counted) (ha : RaisesTrue t a)
    (h : step cfg t a = some t') : t'.launcher.Counted := by
  by_cases hr : ∃ k falsy, a = .raise k falsy
  · obtain ⟨k, falsy, rfl⟩ := hr
    obtain rfl : falsy = false := ha
    obtain ⟨-, h⟩ := Option.ite_none_right_eq_some.1 h
    obtain ⟨-, h⟩ := Option.ite_none_right_eq_some.1 h
    unfold Timed.raise at h
    split at h
    · obtain ⟨-, h⟩ := Option.ite_none_right_eq_some.1 h
      obtain rfl := Option.some.inj h
      exact hc.congr rfl rfl
    · cases h
  · rcases launcher_of_step h fun k falsy hk => hr ⟨k, falsy, hk⟩ with hl | ⟨b, hb, -⟩
    · rw [hl]
      exact hc
    · exact hc.step hb

/-- What holds in the runs in which the users raise true values. -/
theorem inv_of_reachable (h : (sys cfg).ReachableBy RaisesTrue t) :
    (t.launcher.pc = .exited ∨ t.Inv) ∧ t.launcher.Counted := by
  refine h.invariant (I := fun t => (t.launcher.pc = .exited ∨ t.Inv) ∧ t.launcher.Counted) ?_ ?_
  · rintro _ ⟨now, rfl⟩
    exact ⟨.inr (inv_start now), rfl⟩
  · rintro t a t' - ⟨ht, hc⟩ ha hs
    refine ⟨?_, counted_step hc ha hs⟩
    rcases ht with hex | ht
    · cases (step_exited hex).symm.trans hs
    · exact ht.step hs

/-- A test finishes after its users, and not later than it can. -/
structure Punctual (cfg : Config) (t : Timed) : Prop where
  /-- When `finish_test` is called, all the users launched have ended. -/
  deserted : ∀ a t', step cfg t a = some t' →
    t'.launcher.finishTests ≠ t.launcher.finishTests → t.launcher.Deserted
  /-- At the end of a tick of the finishing phase, if all the users launched have
      ended, the next step calls `finish_test`. -/
  finishes : t.launcher.pc = .ticked → t.launcher.isFinishPhase = true → t.launcher.Deserted →
    (step cfg t .go).isSome ∧ ∀ a t', step cfg t a = some t' →
      t'.launcher.finishTests = t.launcher.finishTests + 1

/-- `finish_test` is called at the end of a tick. -/
theorem finishTests_of_step {l l' : Launcher} {b : Launcher.Act}
    (h : Launcher.step cfg l b = some l') :
    l'.finishTests = l.finishTests ∨ (b = .go ∧ l.pc = .ticked ∧ l.Finishes cfg) := by
  by_cases hb : b.IsMeanwhile
  · exact .inl (meanwhile_frame (step_meanwhile hb h).2).1.finishTests
  · cases b with
    | go =>
      rcases step_go h with ⟨-, rfl⟩ | ⟨-, -, rfl⟩ | ⟨hpc, hf, -⟩ | ⟨-, -, rfl⟩
      · left
        unfold startPhase
        split <;> rfl
      · exact .inl rfl
      · exact .inr ⟨rfl, hpc, hf⟩
      · left
        unfold nextStep
        split <;> rfl
    | tick draws => obtain ⟨-, -, ⟨-, rfl⟩ | ⟨_, -, -, -, rfl⟩⟩ := step_tick h <;> exact .inl rfl
    | send sent =>
      rcases step_send h with ⟨-, -, rfl⟩ | ⟨-, -, rfl⟩ | ⟨_, -, -, rfl⟩ | ⟨-, -, rfl⟩ | ⟨-, rfl⟩
      all_goals exact .inl rfl
    | resume =>
      rcases step_resume h with ⟨_, -, rfl⟩ | ⟨_, -, -, rfl⟩ | ⟨_, -, -, rfl⟩
      · left
        unfold wake
        split <;> rfl
      · exact .inl rfl
      · exact .inl rfl
    | timeout => exact .inl (by rw [step_timeout h])
    | _ => exact absurd trivial hb

/-- Where no user is concurrent and none is in its initial sleep, all have ended. -/
theorem deserted_of_started (hc : t.launcher.Counted) (hs : t.Started)
    (hzero : t.launcher.concurUsersNum = 0) : t.launcher.Deserted := by
  intro u hu
  have hactive : t.launcher.users.countP (·.state = .active) = 0 := by
    have := hc.symm.trans hzero
    exact_mod_cast this
  have hna := List.countP_eq_zero.1 hactive u hu
  cases hstate : u.state with
  | waiting => exact absurd hstate (hs u hu)
  | active => simp [hstate] at hna
  | ended => rfl

/-- Where `run` checks whether the test is over, it can only go on. -/
theorem eq_go_of_ticked (hpc : t.launcher.pc = .ticked) {a : Act} (h : step cfg t a = some t') :
    a = .go := by
  have hy : ¬t.launcher.Yielded := by simp [Yielded, hpc]
  cases a with
  | go => rfl
  | send sent => cases sent <;> simp [step, Launcher.send, hpc] at h
  | tick draws => simp [step, Timed.tick, Launcher.tick, hpc] at h
  | _ => exact absurd (Option.ite_none_right_eq_some.1 h).1 hy

/-- As long as the users raise no false values, the test finishes after its
    users, and not later than it can. -/
theorem punctual_of_reachable (hcfg : cfg.totalDurationLimit = 0)
    (h : (sys cfg).ReachableBy RaisesTrue t) : Punctual cfg t := by
  obtain ⟨ht, hc⟩ := inv_of_reachable h
  constructor
  case deserted =>
    intro a t' hs hne
    have hgo : t.launcher.pc = .ticked ∧ t.launcher.Finishes cfg := by
      by_cases hr : ∃ k falsy, a = .raise k falsy
      · obtain ⟨k, falsy, rfl⟩ := hr
        obtain ⟨-, hs⟩ := Option.ite_none_right_eq_some.1 hs
        obtain ⟨-, hs⟩ := Option.ite_none_right_eq_some.1 hs
        unfold Timed.raise at hs
        split at hs
        · obtain ⟨-, hs⟩ := Option.ite_none_right_eq_some.1 hs
          obtain rfl := Option.some.inj hs
          cases falsy <;> exact absurd rfl hne
        · cases hs
      · rcases launcher_of_step hs fun k falsy hk => hr ⟨k, falsy, hk⟩ with hl | ⟨b, hb, -⟩
        · exact absurd (by rw [hl]) hne
        · rcases finishTests_of_step hb with hf | ⟨-, hpc, hf⟩
          · exact absurd hf hne
          · exact ⟨hpc, hf⟩
    obtain ⟨hpc, ⟨-, hzero⟩ | ⟨hlim, -⟩⟩ := hgo
    · rcases ht with hex | ht
      · rw [hex] at hpc
        cases hpc
      · exact deserted_of_started hc (ht.started_of_running (by simp [Yielded, hpc])) hzero
    · exact absurd hlim (by simp [hcfg])
  case finishes =>
    intro hpc hfin hd
    have hf : t.launcher.Finishes cfg := hd.finishes hc hfin
    have hgo : step cfg t .go = some { t with launcher := t.launcher.finish cfg } := by
      simp only [step, Launcher.go, hpc, if_pos hf, Option.map_some]
    refine ⟨by rw [hgo]; rfl, fun a t' hs => ?_⟩
    obtain rfl := eq_go_of_ticked hpc hs
    obtain rfl := Option.some.inj (hgo.symm.trans hs)
    unfold finish
    split <;> rfl

/-- A user that has a delay of half a second, and ends in the finishing phase. -/
theorem punctual_of_reachable_user : ∃ t, (t.launcher.pc = .ticked ∧ t.launcher.isFinishPhase ∧
    t.launcher.users.length = 1) ∧ Punctual (shortTest 1 []) t := by
  obtain ⟨t, hrun, ht⟩ := System.exists_run_of_execBy (sys (shortTest 1 [])) RaisesTrue (start 0)
    [.go, .tick [1 / 2], .resume false, .endPass, .advance 1, .fire ⟨1 / 2, .user 0⟩,
      .fire ⟨1, .launcher⟩, .beginPass, .resume false, .resume false, .send .all, .go, .go, .go,
      .tick [], .session (.userEnd 0), .endPass, .advance 1, .fire ⟨2, .launcher⟩, .beginPass,
      .resume false, .send .all]
    (fun t => t.launcher.pc = .ticked && t.launcher.isFinishPhase && t.launcher.users.length = 1)
    (by decide +kernel)
  exact ⟨t, by simpa [and_assoc] using ht, punctual_of_reachable rfl (.run (.init ⟨0, rfl⟩) hrun)⟩

/-- A user raises `nil` in the finishing phase: it has ended, but the test goes on. -/
theorem raised_not_punctual : ∃ t, (sys (shortTest 1 [])).Reachable t ∧
    ¬Punctual (shortTest 1 []) t := by
  obtain ⟨t, hrun, ht⟩ := System.exists_run_of_exec (sys (shortTest 1 [])) (start 0)
    [.go, .tick [1 / 2], .resume false, .endPass, .advance 1, .fire ⟨1 / 2, .user 0⟩,
      .fire ⟨1, .launcher⟩, .beginPass, .resume false, .resume false, .send .all, .go, .go, .go,
      .tick [], .raise 0 true, .endPass, .advance 1, .fire ⟨2, .launcher⟩, .beginPass,
      .resume false, .send .all]
    (fun t => t.launcher.pc = .ticked && t.launcher.isFinishPhase &&
      t.launcher.users.all (·.state = .ended) && t.launcher.concurUsersNum = 1)
    (by decide +kernel)
  simp only [Bool.and_eq_true, decide_eq_true_eq, List.all_eq_true] at ht
  obtain ⟨⟨⟨hpc, hfin⟩, hd⟩, hone⟩ := ht
  have hgo : step (shortTest 1 []) t .go = some { t with launcher := t.launcher.nextStep } := by
    simp [step, Launcher.go, hpc, Finishes, hone, shortTest]
  refine ⟨t, .run (.init ⟨0, rfl⟩) hrun, fun hp => ?_⟩
  have hft := (hp.finishes hpc hfin hd).2 .go _ hgo
  unfold nextStep at hft
  split at hft <;> simp at hft

end Timed

end Mistress
