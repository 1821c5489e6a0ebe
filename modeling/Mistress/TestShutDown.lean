import Mistress.Launcher

/-!
# Shutting down a test

A shutdown should send the launcher straight to the finishing phase: no tick
started afterwards launches a user, and once the users have ended `run` calls
`finish_test` and `stop_ev_loop` once, and returns.

`shut_down` sets the flag `_gonna_shut_down`, and three pieces of `run` look at it.

* `send`, when it is resumed, raises `STOP`, which nobody catches: `run` is left
  without finishing the test.
* The end of a tick clears the flag and goes on with the next phase, which
  therefore is an ordinary one unless it is the last of the list.
* In the finishing phase, there is no next one: `run` returns without finishing
  the test if users are left.

So a test is shut down as it should as long as the steps avoid the three
(`Smooth`, `shutDown_honoured`).
-/

namespace Mistress.Launcher

open Transition

variable {cfg : Config} {l l' : Launcher} {a : Act} {as : List Act}

/-- Suspended in `send`. -/
def InSend (l : Launcher) : Prop := l.pc = .suspended .tick ∨ l.pc = .suspended .finish

instance (l : Launcher) : Decidable l.InSend := inferInstanceAs (Decidable (_ ∨ _))

/-- The steps that do not get a shutdown wrong: it does not come while `send` is
    suspended, `send` is not suspended while the flag is set, and the tick that
    ends with the flag set, unless it finishes the test, belongs to the last
    phase before the finishing one. -/
def Smooth (cfg : Config) (l : Launcher) : Act → Prop
  | .shutDown => ¬l.InSend
  | .send .again => l.gonnaShutDown = false
  | .go => l.pc = .ticked → l.gonnaShutDown = true → ¬l.Finishes cfg →
      l.i + 1 = cfg.phases.length
  | _ => True

instance : Decidable (Smooth cfg l a) := by
  unfold Smooth
  split <;> infer_instance

/-- The actions of the launcher that get it further. A send that has to be tried
    again, and its resumption, do not. -/
def Act.advances : Act → Bool
  | .go | .tick _ | .send .all => true
  | _ => false

/-- All the users launched have ended. -/
def Deserted (l : Launcher) : Prop := ∀ u ∈ l.users, u.state = .ended

/-- A shutdown is honoured in a state, and in the runs from it that meet the condition `P`. -/
structure Honoured (cfg : Config) (P : Launcher → Act → Prop) (l : Launcher) : Prop where
  /-- After the shutdown a tick belongs to the finishing phase, and launches no user. -/
  launches : ∀ draws l', l.shutDownCalled = true → step cfg l (.tick draws) = some l' →
    l.isFinishPhase = true ∧ l'.users = l.users
  /-- `run` does not raise `STOP`. -/
  notStopped : l.pc ≠ .stopped
  /-- When `run` returns, it has finished the test once. -/
  finished : l.pc = .returned → l.finishTests = 1 ∧ l.stops = 1
  /-- After the shutdown and the end of all the users, `run` returns after eight
      steps at most, -/
  returns : l.shutDownCalled = true → l.Deserted → ∀ as l', (sys cfg).Run P l as l' →
    l'.pc ≠ .returned → l'.pc ≠ .exited → as.countP Act.advances < 8
  /-- and it is never stuck. -/
  enabled : l.pc ≠ .returned → l.pc ≠ .exited → ∃ a : Act, ¬a.IsMeanwhile ∧ (step cfg l a).isSome

/-! ## The invariant -/

/-- In a phase: the one of the last index is the finishing phase. -/
structure InPhase (cfg : Config) (l : Launcher) : Prop where
  le : l.i ≤ cfg.phases.length
  last : l.i = cfg.phases.length → l.isFinishPhase = true ∧ l.phase = finalPhase
  fresh : l.finishTests = 0 ∧ l.stops = 0

/-- The launcher has honoured a shutdown so far: unless its flag is set still,
    the finishing phase has come. -/
def Sound (cfg : Config) (l : Launcher) : Prop :=
  match l.pc with
  | .phases => l.i ≤ cfg.phases.length ∧ (l.shutDownCalled = true → l.i = cfg.phases.length) ∧
      l.finishTests = 0 ∧ l.stops = 0
  | .ticks => InPhase cfg l ∧ (l.shutDownCalled = true → l.i = cfg.phases.length)
  | .sleeping _ | .sending .tick | .ticked => InPhase cfg l ∧
      (l.shutDownCalled = true → l.gonnaShutDown = true ∨ l.i = cfg.phases.length)
  | .suspended .tick => InPhase cfg l ∧ l.gonnaShutDown = false ∧
      (l.shutDownCalled = true → l.i = cfg.phases.length)
  | .sending .finish | .handler => l.finishTests = 1 ∧ l.stops = 0
  | .suspended .finish => l.gonnaShutDown = false ∧ l.finishTests = 1 ∧ l.stops = 0
  | .returned => l.finishTests = 1 ∧ l.stops = 1
  | .stopped => False
  | .exited => True

theorem InPhase.continues (hl : l.InPhase cfg) (h : l.i = cfg.phases.length) : l.Continues :=
  .inr (hl.last h).1

/-- The phase that starts is the one of the index, the last one being the finishing phase. -/
theorem startPhase_sound (h : l.i ≤ cfg.phases.length) :
    ∃ phase, l.startPhase cfg = { l with
      phase
      isFinishPhase := l.i + 1 = cfg.allPhases.length || l.gonnaShutDown
      startStep := l.curStep
      phaseStarted := l.now
      pc := .ticks } ∧ (l.i = cfg.phases.length → phase = finalPhase) := by
  have hlt : l.i < cfg.allPhases.length := by
    simp only [Config.allPhases, List.length_append, List.length_singleton]
    omega
  refine ⟨cfg.allPhases[l.i], ?_, fun hi => ?_⟩
  · rw [startPhase, List.getElem?_eq_getElem hlt]
  · simp [Config.allPhases, hi]

theorem Sound.go (hl : l.Sound cfg) (hs : Smooth cfg l .go) (h : step cfg l .go = some l') :
    l'.Sound cfg := by
  rcases step_go h with ⟨hpc, rfl⟩ | ⟨hpc, hc, rfl⟩ | ⟨hpc, hf, rfl⟩ | ⟨hpc, hf, rfl⟩
  · simp only [Sound, hpc] at hl
    obtain ⟨phase, h', hphase⟩ := startPhase_sound (l := l) hl.1
    rw [h']
    refine ⟨⟨hl.1, fun hi => ⟨?_, hphase hi⟩, hl.2.2⟩, hl.2.1⟩
    have hlen : l.i + 1 = cfg.allPhases.length := by
      rw [show l.i = cfg.phases.length from hi, Config.allPhases, List.length_append]
      rfl
    simp [hlen]
  · simp only [Sound, hpc] at hl
    have hne : l.i ≠ cfg.phases.length := fun hi => hc (hl.1.continues hi)
    exact ⟨lt_of_le_of_ne hl.1.le hne, fun hcall => absurd (hl.2 hcall) hne, hl.1.fresh⟩
  · simp only [Sound, hpc] at hl
    obtain ⟨ht, hs⟩ := hl.1.fresh
    unfold finish
    split
    · exact ⟨congrArg (· + 1) ht, congrArg (· + 1) hs⟩
    · exact ⟨congrArg (· + 1) ht, hs⟩
  · simp only [Sound, hpc] at hl
    unfold nextStep
    split
    · rename_i hflag
      have hi := hs hpc hflag hf
      exact ⟨hi.le, fun _ => hi, hl.1.fresh⟩
    · rename_i hflag
      exact ⟨⟨hl.1.le, hl.1.last, hl.1.fresh⟩, fun hcall => (hl.2 hcall).resolve_left hflag⟩

theorem Sound.wake {wakeAt : ℚ} (hl : l.Sound cfg) (hpc : l.pc = .sleeping wakeAt) :
    (l.wake cfg).Sound cfg := by
  simp only [Sound, hpc] at hl
  rw [Launcher.wake]
  by_cases hcfg : cfg.noStatServer = true
  · rw [if_pos hcfg]
    exact ⟨⟨hl.1.le, hl.1.last, hl.1.fresh⟩, hl.2⟩
  · rw [if_neg hcfg]
    exact ⟨⟨hl.1.le, hl.1.last, hl.1.fresh⟩, hl.2⟩

theorem Sound.congr (hl : l.Sound cfg) (hf : Frame l l')
    (hg : l'.gonnaShutDown = l.gonnaShutDown ∧ l'.shutDownCalled = l.shutDownCalled) :
    l'.Sound cfg := by
  have hin (h : l.InPhase cfg) : l'.InPhase cfg :=
    ⟨hf.i ▸ h.le, by rw [hf.i, hf.isFinishPhase, hf.phase]; exact h.last,
      by rw [hf.finishTests, hf.stops]; exact h.fresh⟩
  unfold Sound at hl ⊢
  rw [hf.pc, hf.i, hf.finishTests, hf.stops, hg.1, hg.2]
  split at hl
  all_goals first | exact ⟨hin hl.1, hl.2⟩ | exact hl

/-- A shutdown while `send` is not suspended. -/
theorem Sound.shutDown (hl : l.Sound cfg) (hy : l.Yielded) (hs : ¬l.InSend) :
    l.shutDown.Sound cfg := by
  unfold Yielded at hy
  split at hy
  · rename_i w hpc
    simp only [Sound, hpc] at hl
    simp only [Sound, hpc, Launcher.shutDown]
    exact ⟨⟨hl.1.le, hl.1.last, hl.1.fresh⟩, fun _ => .inl trivial⟩
  · rename_i sender hpc
    cases sender
    · exact absurd (.inl hpc) hs
    · exact absurd (.inr hpc) hs
  · rename_i hpc
    simpa only [Sound, hpc, Launcher.shutDown] using hl
  · rename_i hpc
    simp [Sound, hpc] at hl
  · exact hy.elim

/-- No step that gets the shutdown right breaks the invariant. -/
theorem Sound.step (hl : l.Sound cfg) (hs : Smooth cfg l a) (h : step cfg l a = some l') :
    l'.Sound cfg := by
  cases a with
  | go => exact hl.go hs h
  | tick draws =>
    obtain ⟨hpc, -, ⟨-, rfl⟩ | ⟨_, -, -, -, rfl⟩⟩ := step_tick h
    · trivial
    · simp only [Sound, hpc] at hl
      exact ⟨⟨hl.1.le, hl.1.last, hl.1.fresh⟩, fun hcall => .inr (hl.2 hcall)⟩
  | send sent =>
    rcases step_send h with ⟨hpc, -, rfl⟩ | ⟨hpc, -, rfl⟩ | ⟨sender, hpc, rfl, rfl⟩ |
      ⟨hpc, -, rfl⟩ | ⟨-, rfl⟩
    · simp only [Sound, hpc] at hl
      exact ⟨⟨hl.1.le, hl.1.last, hl.1.fresh⟩, hl.2⟩
    · simp only [Sound, hpc] at hl
      exact hl
    · cases sender with
      | tick =>
        simp only [Sound, hpc] at hl
        exact ⟨⟨hl.1.le, hl.1.last, hl.1.fresh⟩, hs,
          fun hcall => (hl.2 hcall).resolve_left (Bool.eq_false_iff.1 hs)⟩
      | finish =>
        simp only [Sound, hpc] at hl
        exact ⟨hs, hl⟩
    · simp only [Sound, hpc] at hl
      exact ⟨hl.1, congrArg (· + 1) hl.2⟩
    · trivial
  | resume =>
    rcases step_resume h with ⟨w, hpc, rfl⟩ | ⟨sender, hpc, hflag, rfl⟩ | ⟨sender, hpc, -, rfl⟩
    · exact hl.wake hpc
    · cases sender <;> simp [Sound, hpc, hflag] at hl
    · cases sender with
      | tick =>
        simp only [Sound, hpc] at hl
        exact ⟨⟨hl.1.le, hl.1.last, hl.1.fresh⟩, fun hcall => .inr (hl.2.2 hcall)⟩
      | finish =>
        simp only [Sound, hpc] at hl
        exact hl.2
  | timeout =>
    obtain rfl := step_timeout h
    trivial
  | shutDown =>
    obtain ⟨hy, hm⟩ := step_meanwhile (by trivial) h
    obtain ⟨-, rfl⟩ := meanwhile_shutDown hm
    exact hl.shutDown hy hs
  | _ =>
    obtain ⟨-, hm⟩ := step_meanwhile (by trivial) h
    exact hl.congr (meanwhile_frame hm).1 (meanwhile_flags hm (by simp))

theorem sound_start (now : ℚ) : (start now).Sound cfg :=
  ⟨Nat.zero_le _, fun h => (by cases h), rfl, rfl⟩

/-- In the finishing phase a tick launches no user. -/
theorem Sound.startTick (hl : l.Sound cfg) (hcall : l.shutDownCalled = true) {draws : List ℚ}
    (h : Launcher.step cfg l (.tick draws) = some l') :
    l.isFinishPhase = true ∧ l'.users = l.users := by
  obtain ⟨hpc, -, hl'⟩ := step_tick h
  simp only [Sound, hpc] at hl
  obtain ⟨hfin, hphase⟩ := hl.1.last (hl.2 hcall)
  refine ⟨hfin, ?_⟩
  rcases hl' with ⟨-, rfl⟩ | ⟨rate, hrate, hlen, -, rfl⟩
  · rfl
  · rw [hphase, calcRate_finalPhase] at hrate
    obtain rfl := Option.some.inj hrate
    obtain rfl := List.length_eq_zero_iff.1 (by simpa using hlen)
    exact List.append_nil _

/-! ## The end of the test -/

/-- A shutdown is never taken back. -/
theorem shutDownCalled_step (hcall : l.shutDownCalled = true) (h : step cfg l a = some l') :
    l'.shutDownCalled = true := by
  by_cases ha : a.IsMeanwhile
  · have hm := (step_meanwhile ha h).2
    by_cases hs : a = .shutDown
    · subst hs
      obtain ⟨-, rfl⟩ := meanwhile_shutDown hm
      rfl
    · rw [(meanwhile_flags hm hs).2, hcall]
  · rw [(step_self ha h).2.1, hcall]

/-- Users that have ended do not run again. -/
theorem Deserted.meanwhile (hd : l.Deserted) (h : l.meanwhile a = some l') : l'.Deserted := by
  have hended {k : ℕ} {u : User} (hu : l.users[k]? = some u) : u.state = .ended :=
    hd u (List.mem_of_getElem? hu)
  cases a with
  | go | tick | send | resume | timeout => cases h
  | advance d =>
    obtain ⟨-, h⟩ := Option.ite_none_right_eq_some.1 h
    exact Option.some.inj h ▸ hd
  | userStart k =>
    obtain ⟨u, hu, hw, -, -⟩ := meanwhile_userStart h
    simp [hended hu] at hw
  | userStop k =>
    obtain ⟨u, hu, hw, -, -⟩ := meanwhile_userStop h
    simp [hended hu] at hw
  | userEnd k =>
    obtain ⟨u, hu, hw, -⟩ := meanwhile_userEnd h
    simp [hended hu] at hw
  | shutDown =>
    obtain ⟨-, rfl⟩ := meanwhile_shutDown h
    simpa [Deserted, Launcher.shutDown] using hd
  | add | connect | disconnect => exact Option.some.inj h ▸ hd

/-- After a shutdown no user is launched any more. -/
theorem Deserted.step (hl : l.Sound cfg) (hcall : l.shutDownCalled = true) (hd : l.Deserted)
    (h : Launcher.step cfg l a = some l') : l'.Deserted := by
  by_cases ha : a.IsMeanwhile
  · exact hd.meanwhile (step_meanwhile ha h).2
  · have hu : l'.users = l.users := by
      rcases (step_self ha h).2.2 with hu | ⟨draws, rfl, -⟩
      · exact hu
      · exact (hl.startTick hcall h).2
    rw [Deserted, hu]
    exact hd

/-- A bound on the number of steps `run` takes to the end of the test, once the
    users have ended after a shutdown. A tick of another phase is followed by one
    of the finishing phase. -/
def rank (l : Launcher) : ℕ :=
  match l.pc with
  | .sleeping _ | .sending .tick | .suspended .tick => if l.isFinishPhase then 4 else 8
  | .ticked => if l.isFinishPhase then 3 else 7
  | .phases => 6
  | .ticks => 5
  | .sending .finish | .suspended .finish => 2
  | .handler => 1
  | .returned | .stopped | .exited => 0

theorem Deserted.finishes (hcount : l.Counted) (hd : l.Deserted) (hfin : l.isFinishPhase = true) :
    l.Finishes cfg := by
  refine .inl ⟨hfin, ?_⟩
  rw [hcount, active, List.countP_eq_zero.2 fun u hu => by simp [hd u hu]]
  rfl

theorem rank_go (hl : l.Sound cfg) (hcount : l.Counted) (hcall : l.shutDownCalled = true)
    (hd : l.Deserted) (h : step cfg l .go = some l') : l'.rank < l.rank := by
  rcases step_go h with ⟨hpc, rfl⟩ | ⟨hpc, hc, rfl⟩ | ⟨hpc, -, rfl⟩ | ⟨hpc, hf, rfl⟩
  · simp only [Sound, hpc] at hl
    obtain ⟨_, h', -⟩ := startPhase_sound (l := l) hl.1
    simp [h', rank, hpc]
  · -- The finishing phase goes on.
    simp only [Sound, hpc] at hl
    exact absurd (hl.1.continues (hl.2 hcall)) hc
  · have hle : 3 ≤ l.rank := by
      simp only [rank, hpc]
      split <;> omega
    refine lt_of_lt_of_le ?_ hle
    unfold finish
    split <;> simp [rank, sendStats]
  · have hfin : l.isFinishPhase = false := by
      by_contra hfin
      exact hf (hd.finishes hcount (Bool.not_eq_false _ ▸ hfin))
    simp only [Sound, hpc] at hl
    have hflag : l.gonnaShutDown = true :=
      (hl.2 hcall).resolve_right fun hi => Bool.eq_false_iff.1 hfin (hl.1.last hi).1
    simp [nextStep, hflag, rank, hpc, hfin]

theorem rank_wake {wakeAt : ℚ} (hpc : l.pc = .sleeping wakeAt) : (l.wake cfg).rank ≤ l.rank := by
  rw [wake]
  by_cases hcfg : cfg.noStatServer = true
  · rw [if_pos hcfg]
    change (if l.isFinishPhase then 3 else 7) ≤ _
    simp only [rank, hpc]
    split <;> omega
  · rw [if_neg hcfg]
    change (if l.isFinishPhase then 4 else 8) ≤ _
    simp only [rank, hpc, le_refl]

/-- Where the users have ended after a shutdown, no step raises the rank, and
    those that get the launcher further lower it. -/
theorem rank_step (hl : l.Sound cfg) (hcount : l.Counted) (hcall : l.shutDownCalled = true)
    (hd : l.Deserted) (h : step cfg l a = some l') :
    l'.rank + (if a.advances then 1 else 0) ≤ l.rank := by
  cases a with
  | go => exact rank_go hl hcount hcall hd h
  | tick draws =>
    have hfin := (hl.startTick hcall h).1
    obtain ⟨hpc, -, ⟨-, rfl⟩ | ⟨_, -, -, -, rfl⟩⟩ := step_tick h
    · simp [rank, hpc, Act.advances]
    · simp [rank, hpc, Act.advances, startTick, hfin]
  | send sent =>
    rcases step_send h with ⟨hpc, rfl, rfl⟩ | ⟨hpc, rfl, rfl⟩ | ⟨sender, hpc, rfl, rfl⟩ |
      ⟨hpc, rfl, rfl⟩ | ⟨hsent, rfl⟩
    · simp only [rank, hpc]
      split <;> simp [Act.advances]
    · simp [rank, hpc, Act.advances]
    · cases sender <;> simp [rank, hpc, Act.advances]
    · simp [rank, hpc, Act.advances]
    · cases sent <;> simp [rank, Act.advances] at hsent ⊢
  | resume =>
    rcases step_resume h with ⟨w, hpc, rfl⟩ | ⟨sender, hpc, hflag, rfl⟩ | ⟨sender, hpc, -, rfl⟩
    · exact rank_wake hpc
    · simp [rank, Act.advances]
    · cases sender <;> simp [rank, hpc, Act.advances]
  | timeout =>
    obtain rfl := step_timeout h
    exact Nat.zero_le _
  | _ =>
    have hf := (meanwhile_frame (step_meanwhile (by trivial) h).2).1
    simp [rank, hf.pc, hf.isFinishPhase, Act.advances]

/-- The launcher is never stuck. -/
theorem exists_step (hpc : l.pc ≠ .returned) (hpc' : l.pc ≠ .stopped) (hpc'' : l.pc ≠ .exited) :
    ∃ a : Act, ¬a.IsMeanwhile ∧ (step cfg l a).isSome := by
  match hl : l.pc with
  | .phases => exact ⟨.go, id, by simp [step, go, hl]⟩
  | .ticks =>
    by_cases hc : l.Continues
    · cases hrate : l.phase.calcRate l.startStep l.curStep with
      | none => exact ⟨.tick [], id, by simp [step, tick, hl, hc, hrate]⟩
      | some rate =>
        exact ⟨.tick (List.replicate (launches rate).length 0), id, by
          simp [step, tick, hl, hc, hrate, List.mem_replicate]⟩
    · exact ⟨.go, id, by simp [step, go, hl, hc]⟩
  | .sleeping _ => exact ⟨.resume, id, by simp [step, resume, hl]⟩
  | .sending .tick => exact ⟨.send .all, id, by simp [step, send, hl]⟩
  | .sending .finish => exact ⟨.send .all, id, by simp [step, send, hl]⟩
  | .suspended _ =>
    cases hflag : l.gonnaShutDown
    all_goals exact ⟨.resume, id, by simp [step, resume, hl, hflag]⟩
  | .ticked => exact ⟨.go, id, by simp [step, go, hl]⟩
  | .handler => exact ⟨.send .all, id, by simp [step, send, hl]⟩
  | .returned => exact absurd hl hpc
  | .stopped => exact absurd hl hpc'
  | .exited => exact absurd hl hpc''

theorem rank_le (l : Launcher) : l.rank ≤ 8 := by
  unfold rank
  split <;> (try split) <;> omega

theorem Sound.rank_pos (hl : l.Sound cfg) (hret : l.pc ≠ .returned) (hex : l.pc ≠ .exited) :
    0 < l.rank := by
  unfold rank
  split
  case h_10 | h_12 => contradiction
  case h_11 hpc => simp [Sound, hpc] at hl
  all_goals (try split) <;> omega

/-- A test whose steps get no shutdown wrong honours it. -/
theorem shutDown_honoured (h : (sys cfg).ReachableBy (Smooth cfg) l) :
    Honoured cfg (Smooth cfg) l := by
  have hl : l.Sound cfg :=
    h.invariant (by rintro _ ⟨now, rfl⟩; exact sound_start now) fun _ hl hP hs => hl.step hP hs
  have hpc : l.pc ≠ .stopped := fun hpc => by simp [Sound, hpc] at hl
  refine ⟨fun draws l' hcall hs => hl.startTick hcall hs, hpc,
    fun hret => by simpa only [Sound, hret] using hl, fun hcall hd as l' hrun hret hex => ?_,
    fun hret hex => exists_step hret hpc hex⟩
  have hcount : l.Counted := counted_of_reachable h.reachable
  have hI := hrun.countP_le_rank (p := Act.advances) rank
    (I := fun l => l.Sound cfg ∧ l.Counted ∧ l.shutDownCalled = true ∧ l.Deserted)
    (fun ⟨hl, hn, hcall, hd⟩ hP hs =>
      ⟨hl.step hP hs, hn.step hs, shutDownCalled_step hcall hs, hd.step hl hcall hs⟩)
    (fun ⟨hl, hn, hcall, hd⟩ _ hs => rank_step hl hn hcall hd hs) ⟨hl, hcount, hcall, hd⟩
  have hl' : l'.Sound cfg := hrun.invariant (fun hl hP hs => hl.step hP hs) hl
  have hpos := hl'.rank_pos hret hex
  have hle := l.rank_le
  omega

/-- A test of as many phases as there are rates, each with a tick. -/
def shortTest (rate : ℚ) (rates : List ℚ) : Config :=
  ⟨(rate :: rates).map (⟨.number ·, 0⟩), 0, false, List.cons_ne_nil _ _⟩

/-- A test with one user, shut down in its first tick. -/
theorem shutDown_honoured_user :
    ∃ l, (l.pc = .returned ∧ l.shutDownCalled) ∧
      Honoured (shortTest 1 []) (Smooth (shortTest 1 [])) l := by
  obtain ⟨l, hrun, hl⟩ := System.exists_run_of_execBy (sys (shortTest 1 [])) (Smooth (shortTest 1 []))
    (start 0) [.go, .tick [0], .advance 1, .userStart 0, .shutDown, .resume, .send .all, .go, .go,
      .tick [], .userEnd 0, .resume, .send .all, .go, .send .all, .send .all]
    (fun l => l.pc = .returned && l.shutDownCalled) (by decide +kernel)
  exact ⟨l, by simpa using hl, shutDown_honoured (.run (.init ⟨0, rfl⟩) hrun)⟩

/-- The first of two phases is shut down: the second one launches a user. -/
theorem first_phase_not_honoured :
    ¬∀ (cfg : Config) (l : Launcher), (sys cfg).Reachable l → Honoured cfg (fun _ _ => True) l := by
  intro h
  obtain ⟨l, hrun, hl⟩ := System.exists_run_of_exec (sys (shortTest 1 [1])) (start 0)
    [.go, .tick [0], .shutDown, .resume, .send .all, .go, .go]
    (fun l => l.shutDownCalled && !l.isFinishPhase && (step (shortTest 1 [1]) l (.tick [0])).isSome)
    (by decide +kernel)
  simp only [Bool.and_eq_true, Bool.not_eq_true'] at hl
  obtain ⟨⟨hcall, hfin⟩, htick⟩ := hl
  obtain ⟨l', hs⟩ := Option.isSome_iff_exists.1 htick
  have hl := (h _ l (.run (.init ⟨0, rfl⟩) hrun)).launches [0] l' hcall hs
  exact Bool.eq_false_iff.1 hfin hl.1

end Mistress.Launcher
