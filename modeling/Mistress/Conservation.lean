import Mistress.Launcher

/-!
# The statistics sent

Every record added before `finish_test` encodes its payload should be in the
data of exactly one payload, and the payloads should be numbered one after the
other.

`tick` encodes the buffer, sends it, and only then resets it. While the socket
is full, the launcher is suspended in `send` and the other sessions go on adding
records: those are not in the payload, and are dropped by the reset. No other
record is lost. So the records are all sent if and only if none is added while a
tick waits for its payload to be sent (`conserved_iff`); the numbering is right
in any case (`numbered_of_run`).
-/

namespace Mistress.Launcher

open Transition

variable {cfg : Config} {l l' : Launcher} {a : Act} {as : List Act}

/-- The records sent: the data of all the payloads. -/
def delivered (l : Launcher) : List StatRecord := l.payloads.flatMap (·.data)

/-- The steps of the payloads are 1, 2, and so on. -/
def Numbered (l : Launcher) : Prop :=
  l.payloads.map (·.step) = List.range' 1 l.payloads.length

/-- No record is added while the payload of a tick waits to be sent. -/
def Lossless (l : Launcher) (a : Act) : Prop := l.pc = .suspended .tick → a.records = []

instance : Decidable (Lossless l a) := inferInstanceAs (Decidable (_ → _))

/-- The records of the buffer to be sent yet. While a tick sends its payload,
    those that come after it in the buffer are not: the buffer is going to be reset. -/
def unsent (l : Launcher) : List StatRecord :=
  match l.pc with
  | .sending .tick | .suspended .tick => []
  | _ => l.stat.statBuf

/-- The payload of `finish_test` has been encoded when the test no longer goes on. -/
def Staged (l : Launcher) : Prop := l.addedAtFinish.isSome → ¬l.Running

/-- `R` relates the records sent or to be sent with the records added. -/
structure Accounted (R : List StatRecord → List StatRecord → Prop) (l : Launcher) : Prop where
  running : l.addedAtFinish = none → l.Running → R (l.delivered ++ l.unsent) l.added
  finished : ∀ added, l.addedAtFinish = some added → R l.delivered added

/-! ## What the launcher does with the records -/

theorem report_statBuf : l.report.stat.statBuf = l.stat.statBuf ++ l.gauges := by
  simp [report, Stat.add, gauges]

theorem report_delivered : l.report.delivered = l.delivered := rfl

theorem report_addedAtFinish : l.report.addedAtFinish = l.addedAtFinish := rfl

theorem sendStats_addedAtFinish (sender : Sender) (curStep : ℕ) :
    (l.sendStats sender curStep).addedAtFinish = l.addedAtFinish := rfl

theorem delivered_sendStats (sender : Sender) (curStep : ℕ) :
    (l.sendStats sender curStep).delivered = l.delivered ++ l.stat.statBuf := by
  simp [delivered, sendStats]

/-- With a statistics server, a tick sends its buffer after its sleep. -/
theorem wake_eq (hcfg : cfg.noStatServer = false) :
    l.wake cfg = l.report.sendStats .tick l.curStep := by
  rw [wake, if_neg (by simp [hcfg])]

/-- With a statistics server, `finish_test` sends its buffer. -/
theorem finish_eq (hcfg : cfg.noStatServer = false) :
    l.finish cfg = { (l.add .finishTest (.num 1)).sendStats .finish (l.curStep + 1) with
      addedAtFinish := some (l.add .finishTest (.num 1)).added
      finishTests := l.finishTests + 1 } := by
  rw [finish, if_neg (by simp [hcfg])]

/-- The launcher that starts a phase, if any is left, keeps its records. -/
theorem startPhase_eq (cfg : Config) (l : Launcher) :
    ∃ i phase isFinishPhase startStep phaseStarted pc, (pc = .ticks ∨ pc = .returned) ∧
      l.startPhase cfg = { l with i, phase, isFinishPhase, startStep, phaseStarted, pc } := by
  unfold startPhase
  split
  · exact ⟨_, _, _, _, _, _, .inr rfl, rfl⟩
  · exact ⟨_, _, _, _, _, _, .inl rfl, rfl⟩

theorem nextStep_eq (l : Launcher) : ∃ gonnaShutDown i pc, (pc = .phases ∨ pc = .ticks) ∧
    l.nextStep = { l with curStep := l.curStep + 1, gonnaShutDown, i, pc } := by
  unfold nextStep
  split
  · exact ⟨_, _, _, .inl rfl, rfl⟩
  · exact ⟨_, _, _, .inr rfl, rfl⟩

/-! ## The numbering -/

/-- The number of the payloads encoded, where the launcher stands. -/
structure Numbering (l : Launcher) : Prop where
  numbered : l.Numbered
  /-- The payload of the step is to be encoded. -/
  before : l.pc = .phases ∨ l.pc = .ticks ∨ (∃ w, l.pc = .sleeping w) →
    l.payloads.length + 1 = l.curStep
  /-- The payload of the step has been encoded. -/
  after : l.pc = .sending .tick ∨ l.pc = .suspended .tick ∨ l.pc = .ticked →
    l.payloads.length = l.curStep

/-- One more payload, with the next number. -/
theorem Numbered.snoc {ps : List Payload} {p : Payload} {n : ℕ}
    (h : ps.map (·.step) = List.range' 1 ps.length) (hn : ps.length + 1 = n) (hp : p.step = n) :
    (ps ++ [p]).map (·.step) = List.range' 1 (ps ++ [p]).length := by
  rw [List.map_append, h, List.length_append, List.range'_append_1.symm]
  simp [hp, ← hn, Nat.add_comm]

/-- Every step keeps the payloads numbered. -/
theorem Numbering.step (hcfg : cfg.noStatServer = false) (hl : l.Numbering)
    (h : step cfg l a = some l') : l'.Numbering := by
  cases a with
  | go =>
    rcases step_go h with ⟨hpc, rfl⟩ | ⟨hpc, -, rfl⟩ | ⟨hpc, -, rfl⟩ | ⟨hpc, -, rfl⟩
    · obtain ⟨_, _, _, _, _, pc, hpc', h'⟩ := startPhase_eq cfg l
      rw [h']
      refine ⟨hl.numbered, fun _ => hl.before (.inl hpc), fun h => ?_⟩
      rcases hpc' with rfl | rfl <;> simp at h
    · exact ⟨hl.numbered, fun _ => hl.before (.inr (.inl hpc)), by simp⟩
    · rw [finish_eq hcfg]
      exact ⟨Numbered.snoc hl.numbered (congrArg (· + 1) (hl.after (.inr (.inr hpc)))) rfl,
        by simp [sendStats], by simp [sendStats]⟩
    · obtain ⟨_, _, pc, hpc', h'⟩ := nextStep_eq l
      rw [h']
      refine ⟨hl.numbered, fun _ => congrArg (· + 1) (hl.after (.inr (.inr hpc))), fun h => ?_⟩
      rcases hpc' with rfl | rfl <;> simp at h
  | tick draws =>
    obtain ⟨hpc, -, ⟨-, rfl⟩ | ⟨_, -, -, -, rfl⟩⟩ := step_tick h
    · exact ⟨hl.numbered, by simp, by simp⟩
    · exact ⟨hl.numbered, fun _ => hl.before (.inr (.inl hpc)), by simp [startTick]⟩
  | send sent =>
    rcases step_send h with ⟨hpc, -, rfl⟩ | ⟨-, -, rfl⟩ | ⟨_, hpc, -, rfl⟩ | ⟨-, -, rfl⟩ | ⟨-, rfl⟩
    · exact ⟨hl.numbered, by simp, fun _ => hl.after (.inl hpc)⟩
    · exact ⟨hl.numbered, by simp, by simp⟩
    · refine ⟨hl.numbered, by simp, fun h => ?_⟩
      obtain rfl : _ = Sender.tick := by simpa using h
      exact hl.after (.inl hpc)
    · exact ⟨hl.numbered, by simp, by simp⟩
    · exact ⟨hl.numbered, by simp, by simp⟩
  | resume =>
    rcases step_resume h with ⟨w, hpc, rfl⟩ | ⟨_, -, -, rfl⟩ | ⟨_, hpc, -, rfl⟩
    · rw [wake_eq hcfg]
      have hstep := hl.before (.inr (.inr ⟨w, hpc⟩))
      exact ⟨Numbered.snoc hl.numbered hstep rfl, by simp [sendStats],
        fun _ => by simpa [sendStats, report, Launcher.add] using hstep⟩
    · exact ⟨hl.numbered, by simp, by simp⟩
    · refine ⟨hl.numbered, by simp, fun h => ?_⟩
      obtain rfl : _ = Sender.tick := by simpa using h
      exact hl.after (.inr (.inl hpc))
  | timeout => exact step_timeout h ▸ ⟨hl.numbered, by simp, by simp⟩
  | _ =>
    have hf := (meanwhile_frame (step_meanwhile (by trivial) h).2).1
    refine ⟨?_, ?_, ?_⟩
    · rw [Numbered, hf.payloads]
      exact hl.numbered
    · rw [hf.payloads, hf.pc, hf.curStep]
      exact hl.before
    · rw [hf.payloads, hf.pc, hf.curStep]
      exact hl.after

theorem numbering_start (now : ℚ) : (start now).Numbering where
  numbered := rfl
  before _ := rfl
  after := by simp [start]

/-! ## The records -/

variable {R : List StatRecord → List StatRecord → Prop}

theorem Staged.none (hl : l.Staged) (hrun : l.Running) : l.addedAtFinish = none := by
  by_contra hf
  exact hl (Option.isSome_iff_ne_none.2 hf) hrun

theorem Staged.congr (hl : l.Staged) (hf : l'.addedAtFinish = l.addedAtFinish)
    (hrun : l'.Running → l.Running) : l'.Staged :=
  fun hs h => hl (hf ▸ hs) (hrun h)

/-- A step that encodes and adds nothing keeps the records accounted for, where
    it leaves the same ones to be sent. -/
theorem Accounted.congr (hl : l.Accounted R) (hp : l'.payloads = l.payloads)
    (ha : l'.added = l.added) (hf : l'.addedAtFinish = l.addedAtFinish)
    (hrun : l'.Running → l.Running ∧ l'.unsent = l.unsent) : l'.Accounted R where
  running hnone h := by
    rw [delivered, hp, (hrun h).2, ha]
    exact hl.running (hf ▸ hnone) (hrun h).1
  finished added h := by
    rw [delivered, hp]
    exact hl.finished added (hf ▸ h)

/-- Only the end of the test encodes the payload of `finish_test`. -/
theorem Staged.step (hcfg : cfg.noStatServer = false) (hl : l.Staged)
    (h : step cfg l a = some l') : l'.Staged := by
  have hcongr (hf : l'.addedAtFinish = l.addedAtFinish) : l'.Staged := hl.congr hf (.of_step h)
  cases a with
  | go =>
    rcases step_go h with ⟨-, rfl⟩ | ⟨-, -, rfl⟩ | ⟨-, -, rfl⟩ | ⟨-, -, rfl⟩
    · obtain ⟨_, _, _, _, _, _, -, h'⟩ := startPhase_eq cfg l
      exact hcongr (h' ▸ rfl)
    · exact hcongr rfl
    · rw [finish_eq hcfg]
      exact fun _ h => h
    · obtain ⟨_, _, _, -, h'⟩ := nextStep_eq l
      exact hcongr (h' ▸ rfl)
  | tick draws =>
    obtain ⟨-, -, ⟨-, rfl⟩ | ⟨_, -, -, -, rfl⟩⟩ := step_tick h
    all_goals exact hcongr rfl
  | send sent =>
    rcases step_send h with ⟨-, -, rfl⟩ | ⟨-, -, rfl⟩ | ⟨_, -, -, rfl⟩ | ⟨-, -, rfl⟩ | ⟨-, rfl⟩
    all_goals exact hcongr rfl
  | resume =>
    rcases step_resume h with ⟨_, -, rfl⟩ | ⟨_, -, -, rfl⟩ | ⟨_, -, -, rfl⟩
    · exact hcongr (by rw [wake_eq hcfg, sendStats_addedAtFinish, report_addedAtFinish])
    · exact hcongr rfl
    · exact hcongr rfl
  | timeout => exact hcongr (step_timeout h ▸ rfl)
  | _ => exact hcongr (meanwhile_frame (step_meanwhile (by trivial) h).2).1.addedAtFinish

/-- While a tick waits for its payload to be sent, the records added are not to
    be sent; at any other time they are. -/
theorem unsent_meanwhile (hy : l.Yielded) (h : l.meanwhile a = some l') :
    l'.unsent = if l.pc = .suspended .tick then l.unsent else l.unsent ++ a.records := by
  obtain ⟨hf, hbuf, -⟩ := meanwhile_frame h
  unfold unsent
  rw [hf.pc, hbuf]
  split <;> simp_all [Yielded]

/-- Records added both to those to be sent and to those added keep them related,
    in a step that loses nothing; where some may be lost, `R` is to allow for it. -/
theorem Accounted.step (hcfg : cfg.noStatServer = false) (hst : l.Staged) (hl : l.Accounted R)
    (hR : ∀ xs ys zs, R xs ys → R (xs ++ zs) (ys ++ zs))
    (hlost : l.Lossless a ∨ ∀ xs ys zs, R xs ys → R xs (ys ++ zs))
    (h : step cfg l a = some l') : l'.Accounted R := by
  have hcongr (hp : l'.payloads = l.payloads) (ha : l'.added = l.added)
      (hf : l'.addedAtFinish = l.addedAtFinish) (hu : l'.Running → l'.unsent = l.unsent) :
      l'.Accounted R :=
    hl.congr hp ha hf fun hrun => ⟨.of_step h hrun, hu hrun⟩
  cases a with
  | go =>
    rcases step_go h with ⟨hpc, rfl⟩ | ⟨hpc, -, rfl⟩ | ⟨hpc, -, rfl⟩ | ⟨hpc, -, rfl⟩
    · obtain ⟨_, _, _, _, _, pc, hpc', h'⟩ := startPhase_eq cfg l
      refine hcongr (h' ▸ rfl) (h' ▸ rfl) (h' ▸ rfl) fun _ => ?_
      rcases hpc' with rfl | rfl <;> simp [h', unsent, hpc]
    · exact hcongr rfl rfl rfl fun _ => by simp [unsent, hpc]
    · have hrun : l.Running := by simp [Running, hpc]
      have hsent := hR _ _ [⟨.finishTest, .num 1⟩] (hl.running (hst.none hrun) hrun)
      rw [finish_eq hcfg]
      refine ⟨by simp, fun added hadded => ?_⟩
      obtain rfl := Option.some.inj hadded
      simpa [unsent, hpc, delivered, sendStats, Launcher.add, Stat.add] using hsent
    · obtain ⟨_, _, pc, hpc', h'⟩ := nextStep_eq l
      refine hcongr (h' ▸ rfl) (h' ▸ rfl) (h' ▸ rfl) fun _ => ?_
      rcases hpc' with rfl | rfl <;> simp [h', unsent, hpc]
  | tick draws =>
    obtain ⟨hpc, -, ⟨-, rfl⟩ | ⟨_, -, -, -, rfl⟩⟩ := step_tick h
    · exact hcongr rfl rfl rfl fun h => h.elim
    · exact hcongr rfl rfl rfl fun _ => by simp [unsent, hpc, startTick]
  | send sent =>
    rcases step_send h with ⟨hpc, -, rfl⟩ | ⟨-, -, rfl⟩ | ⟨sender, hpc, -, rfl⟩ | ⟨-, -, rfl⟩ | ⟨-, rfl⟩
    · exact hcongr rfl rfl rfl fun _ => by simp [unsent, hpc, Stat.reset]
    · exact hcongr rfl rfl rfl fun h => h.elim
    · cases sender with
      | tick => exact hcongr rfl rfl rfl fun _ => by simp [unsent, hpc]
      | finish => exact hcongr rfl rfl rfl fun h => h.elim
    · exact hcongr rfl rfl rfl fun h => h.elim
    · exact hcongr rfl rfl rfl fun h => h.elim
  | resume =>
    rcases step_resume h with ⟨w, hpc, rfl⟩ | ⟨_, -, -, rfl⟩ | ⟨sender, hpc, -, rfl⟩
    · have hrun : l.Running := by simp [Running, hpc]
      have hsent := hR _ _ l.gauges (hl.running (hst.none hrun) hrun)
      rw [wake_eq hcfg]
      refine ⟨fun _ _ => ?_, fun added hadded => ?_⟩
      · rw [delivered_sendStats, report_delivered, report_statBuf]
        simpa [unsent, hpc, sendStats, report] using hsent
      · rw [sendStats_addedAtFinish, report_addedAtFinish, hst.none hrun] at hadded
        cases hadded
    · exact hcongr rfl rfl rfl fun h => h.elim
    · cases sender with
      | tick => exact hcongr rfl rfl rfl fun _ => by simp [unsent, hpc]
      | finish => exact hcongr rfl rfl rfl fun h => h.elim
  | timeout =>
    obtain rfl := step_timeout h
    exact hcongr rfl rfl rfl fun h => h.elim
  | _ =>
    obtain ⟨hy, hm⟩ := step_meanwhile (by trivial) h
    obtain ⟨hf, -, hadded⟩ := meanwhile_frame hm
    refine ⟨fun hnone hrun => ?_, fun added h' => ?_⟩
    · have hsent := hl.running (hf.addedAtFinish ▸ hnone) (.of_step h hrun)
      rw [delivered, hf.payloads, hadded, unsent_meanwhile hy hm]
      split
      · rcases hlost with hnil | hlost
        · rw [hnil ‹_›, List.append_nil]
          exact hsent
        · exact hlost _ _ _ hsent
      · rw [← List.append_assoc]
        exact hR _ _ _ hsent
    · rw [delivered, hf.payloads]
      exact hl.finished added (hf.addedAtFinish ▸ h')

/-- All the records are sent or to be sent, in the order they were added in. -/
abbrev Kept : Launcher → Prop := Accounted Eq

/-- A record has been lost. -/
abbrev Leaked : Launcher → Prop := Accounted fun xs ys => xs.length < ys.length

theorem Kept.step (hcfg : cfg.noStatServer = false) (hst : l.Staged) (hl : l.Kept)
    (hloss : l.Lossless a) (h : step cfg l a = some l') : l'.Kept :=
  Accounted.step hcfg hst hl (fun _ _ _ => congrArg (· ++ _)) (.inl hloss) h

theorem Leaked.step (hcfg : cfg.noStatServer = false) (hst : l.Staged) (hl : l.Leaked)
    (h : step cfg l a = some l') : l'.Leaked := by
  refine Accounted.step hcfg hst hl (fun _ _ _ h => ?_) (.inr fun _ _ _ h => ?_) h
  · simpa using h
  · simp only [List.length_append]
    omega

/-- A record added while a tick waits for its payload to be sent is lost. -/
theorem Kept.leak (hst : l.Staged) (hl : l.Kept) (hloss : ¬l.Lossless a)
    (h : Launcher.step cfg l a = some l') : l'.Leaked := by
  obtain ⟨hpc, hrec⟩ := Classical.not_imp.1 hloss
  have hrun : l.Running := by simp [Running, hpc]
  have hnone := hst.none hrun
  have ha : a.IsMeanwhile := by cases a <;> trivial
  obtain ⟨hy, hm⟩ := step_meanwhile ha h
  obtain ⟨hf, -, hadded⟩ := meanwhile_frame hm
  refine ⟨fun _ _ => ?_, fun added h' => ?_⟩
  · rw [delivered, hf.payloads, hadded, unsent_meanwhile hy hm, if_pos hpc,
      ← hl.running hnone hrun]
    have hpos := List.length_pos_iff.2 hrec
    simp only [delivered, List.length_append]
    omega
  · rw [hf.addedAtFinish, hnone] at h'
    cases h'

/-! ## Conservation -/

/-- Along a run no record is lost if and only if every step loses none. -/
theorem kept_or_leaked (hcfg : cfg.noStatServer = false) {P : Launcher → Act → Prop}
    (h : (sys cfg).Run P l as l') (hst : l.Staged) :
    (l.Leaked → l'.Leaked) ∧
      (l.Kept → (sys cfg).Run Lossless l as l' ∧ l'.Kept ∨
        ¬(sys cfg).Run Lossless l as l' ∧ l'.Leaked) := by
  induction h with
  | nil => exact ⟨id, fun hl => .inl ⟨.nil _, hl⟩⟩
  | @cons l l₁ l' a as _ hs _ ih =>
    obtain ⟨hleak, hkeep⟩ := ih (hst.step hcfg hs)
    refine ⟨fun hl => hleak (hl.step hcfg hst hs), fun hl => ?_⟩
    simp only [System.run_cons]
    by_cases hloss : l.Lossless a
    · rcases hkeep (hl.step hcfg hst hloss hs) with ⟨hrun, hl'⟩ | ⟨hrun, hl'⟩
      · exact .inl ⟨⟨hloss, l₁, hs, hrun⟩, hl'⟩
      · refine .inr ⟨fun ⟨_, l₂, hs₂, hrun₂⟩ => hrun ?_, hl'⟩
        obtain rfl := Option.some.inj (hs.symm.trans hs₂)
        exact hrun₂
    · exact .inr ⟨fun ⟨hloss', _⟩ => hloss hloss', hleak (hl.leak hst hloss hs)⟩

theorem staged_start (now : ℚ) : (start now).Staged := fun h => by cases h

theorem kept_start (now : ℚ) : (start now).Kept where
  running _ _ := rfl
  finished _ h := by cases h

theorem numbered_of_run (hcfg : cfg.noStatServer = false) {P : Launcher → Act → Prop} {now : ℚ}
    (h : (sys cfg).Run P (start now) as l) : l.Numbered :=
  (h.invariant (fun hl _ hs => hl.step hcfg hs) (numbering_start now)).numbered

/-- In a run that has come to encode the payload of `finish_test`, every record
    added before is in exactly one payload, and the payloads are numbered one
    after the other, if and only if no record has been added while a tick was
    waiting for its payload to be sent. -/
theorem conserved_iff (hcfg : cfg.noStatServer = false) {now : ℚ} {added : List StatRecord}
    (h : (sys cfg).Run (fun _ _ => True) (start now) as l) (hfin : l.addedAtFinish = some added) :
    (l.delivered.Perm added ∧ l.Numbered) ↔ (sys cfg).Run Lossless (start now) as l := by
  rcases (kept_or_leaked hcfg h (staged_start now)).2 (kept_start now) with
    ⟨hrun, hl⟩ | ⟨hrun, hl⟩
  · exact iff_of_true ⟨.of_eq (hl.finished added hfin), numbered_of_run hcfg h⟩ hrun
  · refine iff_of_false (fun ⟨hperm, _⟩ => ?_) hrun
    exact (hl.finished added hfin).ne hperm.length_eq

/-- A test of one phase, without users and of no duration. -/
def idleTest : Config := ⟨[⟨.number 0, 0⟩], 0, false, List.cons_ne_nil _ _⟩

/-- The test up to the payload of `finish_test`, where `sent` are the first
    answers to the calls of `send` of the first tick. -/
def idleRun (sent : List Act) : List Act :=
  [.go, .tick [], .advance 1, .resume] ++ sent ++
    [.send .all, .go, .go, .go, .tick [], .resume, .send .all, .go]

theorem conserved_iff_idle : ∃ l added, l.addedAtFinish = some added ∧
    ((l.delivered.Perm added ∧ l.Numbered) ↔
      (sys idleTest).Run Lossless (start 0) (idleRun []) l) := by
  obtain ⟨l, hrun, hfin⟩ := System.exists_run_of_exec (sys idleTest) (start 0)
    (idleRun []) (·.addedAtFinish.isSome) (by decide +kernel)
  obtain ⟨added, hadded⟩ := Option.isSome_iff_exists.1 hfin
  exact ⟨l, added, hadded, conserved_iff rfl hrun hadded⟩

/-- In the first tick the socket is full once, and a request is counted
    meanwhile: no payload has the record. -/
theorem request_not_conserved :
    ¬∀ (cfg : Config) (now : ℚ) (as : List Act) (l : Launcher) (added : List StatRecord),
      cfg.noStatServer = false → (sys cfg).Run (fun _ _ => True) (start now) as l →
      l.addedAtFinish = some added → l.delivered.Perm added ∧ l.Numbered := by
  intro h
  obtain ⟨l, hrun, hl⟩ := System.exists_run_of_exec (sys idleTest) (start 0)
    (idleRun [.send .again, .add ⟨.requestSent, .num 1⟩, .resume])
    (fun l => l.addedAtFinish.any fun added => l.delivered.length < added.length)
    (by decide +kernel)
  cases hfin : l.addedAtFinish with
  | none => simp [hfin] at hl
  | some added =>
    have hperm := (h idleTest 0 _ l added rfl hrun hfin).1
    simp only [hfin, Option.any_some, decide_eq_true_eq] at hl
    exact hl.ne hperm.length_eq

end Mistress.Launcher
