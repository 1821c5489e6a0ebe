import Mistress.Launcher
import Mathlib.Tactic.Linarith
import Mathlib.Tactic.FieldSimp
import Mathlib.Algebra.Order.BigOperators.Group.Finset
import Mathlib.Algebra.BigOperators.Ring.Finset

/-!
# The load of all the workers

A test is run by `W` workers. The handler of a worker divides the rate of every
phase by their number (`dividePhase`), and its launcher launches, at every step,
the users of the divided rate. Together they should launch what is configured.

The rates are divided where they are, in the tables of the script. A table that is used
for two phases is divided twice, and they are not followed then (`shared_not_followed`): what
is proved is about phases that share no table (`PhaseList.Unshared`), each of which gets its
share once (`PhaseList.getElem?_dividePhases`).

* `round`, three times: of the ends of a ramp by the handler, of the value
  between them by `calc_rate`, and down to an integer by `range`;
* `Launcher.EverySecond`: every tick of a phase but its last one lasts a second,
  so that no step of a phase is beyond its duration (`step_le_duration`);
* `fidelity`: what all the workers launch at a step.
-/

namespace Mistress

open Transition

/-! ## The phases of the script -/

/-- `users_rate`, as the script gives it: of a `{from, to}` table, which one it is. -/
inductive UsersRate
  | number (rate : ℚ)
  | table (ends : ℕ)
  | function (rate : ℕ → ℕ → Option ℚ)

/-- A phase, as the script gives it. -/
structure PhaseTable where
  usersRate : UsersRate
  duration : ℚ

/-- `opts.phases`, with the tables it is made of. A table that the script uses twice is one
    table. -/
structure PhaseList where
  /-- The tables of the phases. -/
  phase : ℕ → PhaseTable
  /-- The `{from, to}` tables. -/
  ends : ℕ → ℚ × ℚ
  /-- Which tables of phases the list has. -/
  list : List ℕ

namespace PhaseList

/-- The phase `p`, with what its `{from, to}` table holds. -/
def read (t : PhaseList) (p : ℕ) : Phase where
  usersRate :=
    match (t.phase p).usersRate with
    | .number rate => .number rate
    | .table e => .table (t.ends e).1 (t.ends e).2
    | .function rate => .function rate
  duration := (t.phase p).duration

/-- The phases of the list. -/
def phases (t : PhaseList) : List Phase := t.list.map t.read

end PhaseList

/-! ## Dividing the rate -/

/-- `HTTPHandler:run`, on a phase: its rate is divided by the number of the workers, in its
    tables, unless the process exits. -/
def dividePhase (W : ℕ) (t : PhaseList) (p : ℕ) : Option PhaseList :=
  match (t.phase p).usersRate with
  | .number rate =>
    if rate > 0 ∧ rate < W then none
    else some { t with
      phase := Function.update t.phase p { t.phase p with usersRate := .number (rate / W) } }
  | .table e =>
    if (t.ends e).1 ≥ W ∧ (t.ends e).2 ≥ W then
      some { t with
        ends := Function.update t.ends e (round ((t.ends e).1 / W), round ((t.ends e).2 / W)) }
    else none
  -- A rate given by a function is left as it is.
  | .function _ => some t

/-- `HTTPHandler:run`, on the phases of a test, one after the other. -/
def dividePhases (W : ℕ) (t : PhaseList) : Option PhaseList := t.list.foldlM (dividePhase W) t

/-- The phase with its share of the rate, for one of `W` workers. -/
def Phase.share (W : ℕ) (phase : Phase) : Option Phase :=
  match phase.usersRate with
  | .number rate =>
    if rate > 0 ∧ rate < W then none else some { phase with usersRate := .number (rate / W) }
  | .table rateFrom rateTo =>
    if rateFrom ≥ W ∧ rateTo ≥ W then
      some { phase with usersRate := .table (round (rateFrom / W)) (round (rateTo / W)) }
    else none
  | .function _ => some phase

theorem duration_share {W : ℕ} {phase phase' : Phase} (h : phase.share W = some phase') :
    phase'.duration = phase.duration := by
  unfold Phase.share at h
  split at h
  · split at h
    · cases h
    · exact (Option.some.inj h) ▸ rfl
  · split at h
    · exact (Option.some.inj h) ▸ rfl
    · cases h
  · exact (Option.some.inj h) ▸ rfl

namespace PhaseList

variable {W i p q e : ℕ} {t t' : PhaseList} {phase : Phase}

/-- Two phases have no table in common. -/
def Apart (t : PhaseList) (p q : ℕ) : Prop :=
  p ≠ q ∧ ∀ e, (t.phase p).usersRate = .table e → (t.phase q).usersRate ≠ .table e

/-- The phase at `i` has no table in common with any other phase of the list. -/
def Unshared (t : PhaseList) (i : ℕ) : Prop :=
  ∀ j p q, i ≠ j → t.list[i]? = some p → t.list[j]? = some q → t.Apart p q

/-- What becomes of the tables when a phase is divided. -/
theorem dividePhase_cases (h : dividePhase W t p = some t') :
    (∃ rate, (t.phase p).usersRate = .number rate ∧ ¬(rate > 0 ∧ rate < W) ∧ t' = { t with
      phase := Function.update t.phase p { t.phase p with usersRate := .number (rate / W) } }) ∨
    (∃ e, (t.phase p).usersRate = .table e ∧ ((t.ends e).1 ≥ W ∧ (t.ends e).2 ≥ W) ∧ t' = { t with
      ends := Function.update t.ends e (round ((t.ends e).1 / W), round ((t.ends e).2 / W)) }) ∨
    (∃ rate, (t.phase p).usersRate = .function rate ∧ t' = t) := by
  unfold dividePhase at h
  split at h
  · obtain ⟨hrate, h⟩ := Option.ite_none_left_eq_some.1 h
    exact .inl ⟨_, ‹_›, hrate, (Option.some.inj h).symm⟩
  · obtain ⟨hends, h⟩ := Option.ite_none_right_eq_some.1 h
    exact .inr (.inl ⟨_, ‹_›, hends, (Option.some.inj h).symm⟩)
  · exact .inr (.inr ⟨_, ‹_›, (Option.some.inj h).symm⟩)

/-- The phase itself gets its share. -/
theorem share_read (h : dividePhase W t p = some t') :
    (t.read p).share W = some (t'.read p) := by
  rcases dividePhase_cases h with ⟨rate, hp, hrate, rfl⟩ | ⟨e, hp, hends, rfl⟩ | ⟨rate, hp, rfl⟩
  · simp [read, Phase.share, hp, if_neg hrate]
  · simp [read, Phase.share, hp, if_pos hends]
  · simp [read, Phase.share, hp]

/-- A phase refers to the tables it referred to before. -/
theorem table_dividePhase (h : dividePhase W t p = some t') (q e : ℕ) :
    (t'.phase q).usersRate = .table e ↔ (t.phase q).usersRate = .table e := by
  rcases dividePhase_cases h with ⟨rate, hp, -, rfl⟩ | ⟨e, -, -, rfl⟩ | ⟨rate, -, rfl⟩
  · simp only [Function.update_apply]
    split
    · subst q
      simp [hp]
    · rfl
  · rfl
  · rfl

theorem Apart.dividePhase (ha : t.Apart p q) {x : ℕ} (h : dividePhase W t x = some t') :
    t'.Apart p q :=
  ⟨ha.1, fun e hp hq => ha.2 e ((table_dividePhase h p e).1 hp) ((table_dividePhase h q e).1 hq)⟩

/-- A phase that has no table in common with it is left alone. -/
theorem read_of_apart (ha : t.Apart p q) (h : dividePhase W t q = some t') :
    t'.read p = t.read p := by
  rcases dividePhase_cases h with ⟨rate, -, -, rfl⟩ | ⟨e, hq, -, rfl⟩ | ⟨rate, -, rfl⟩
  · simp only [read, Function.update_of_ne ha.1]
  · have hne (e' : ℕ) (hp : (t.phase p).usersRate = .table e') : e' ≠ e := fun he =>
      ha.2 e (he ▸ hp) hq
    simp only [read]
    congr 1
    split
    · rfl
    · rw [Function.update_of_ne (hne _ ‹_›)]
    · rfl
  · rfl

theorem list_dividePhase (h : dividePhase W t p = some t') : t'.list = t.list := by
  rcases dividePhase_cases h with ⟨_, -, -, rfl⟩ | ⟨_, -, -, rfl⟩ | ⟨_, -, rfl⟩ <;> rfl

theorem list_foldlM {ps : List ℕ} (h : ps.foldlM (dividePhase W) t = some t') :
    t'.list = t.list := by
  induction ps generalizing t with
  | nil => exact (Option.some.inj h) ▸ rfl
  | cons q ps ih =>
    obtain ⟨u, hu, h⟩ := Option.bind_eq_some_iff.1 h
    exact (ih h).trans (list_dividePhase hu)

/-- Phases that have no table in common with it are divided. -/
theorem foldlM_of_apart {ps : List ℕ} (ha : ∀ q ∈ ps, t.Apart p q)
    (h : ps.foldlM (dividePhase W) t = some t') :
    t'.read p = t.read p ∧ ∀ q, t.Apart p q → t'.Apart p q := by
  induction ps generalizing t with
  | nil => exact (Option.some.inj h) ▸ ⟨rfl, fun _ hq => hq⟩
  | cons q ps ih =>
    obtain ⟨u, hu, h⟩ := Option.bind_eq_some_iff.1 h
    obtain ⟨hq, ha⟩ := List.forall_mem_cons.1 ha
    obtain ⟨hread, happ⟩ := ih (fun x hx => (ha x hx).dividePhase hu) h
    exact ⟨hread.trans (read_of_apart hq hu), fun x hx => happ x (hx.dividePhase hu)⟩

/-- A phase whose tables are not shared gets its share, and no more is done to it. -/
theorem getElem?_dividePhases (h : dividePhases W t = some t') (hun : t.Unshared i)
    (hi : t.phases[i]? = some phase) :
    ∃ phase', t'.phases[i]? = some phase' ∧ phase.share W = some phase' := by
  rw [phases, List.getElem?_map, Option.map_eq_some_iff] at hi
  obtain ⟨p, hp, rfl⟩ := hi
  refine ⟨t'.read p, by rw [phases, list_foldlM h, List.getElem?_map, hp]; rfl, ?_⟩
  -- The phases before it, the phase itself, and those after it.
  obtain ⟨hlt, rfl⟩ := List.getElem?_eq_some_iff.1 hp
  have hsplit : t.list = t.list.take i ++ t.list[i] :: t.list.drop (i + 1) := by simp
  have hbefore : ∀ q ∈ t.list.take i, t.Apart t.list[i] q := fun q hq => by
    obtain ⟨j, hj, rfl⟩ := List.mem_take_iff_getElem.1 hq
    exact hun j _ _ (by omega) hp (List.getElem?_eq_getElem _)
  have hafter : ∀ q ∈ t.list.drop (i + 1), t.Apart t.list[i] q := fun q hq => by
    obtain ⟨j, hj, rfl⟩ := List.mem_drop_iff_getElem.1 hq
    exact hun (i + 1 + j) _ _ (by omega) hp (List.getElem?_eq_getElem _)
  generalize t.list[i] = p at hbefore hafter hsplit
  rw [dividePhases, hsplit, List.foldlM_append] at h
  obtain ⟨u, hu, h⟩ := Option.bind_eq_some_iff.1 h
  obtain ⟨v, hv, h⟩ := Option.bind_eq_some_iff.1 h
  obtain ⟨hread, happ⟩ := foldlM_of_apart hbefore hu
  obtain ⟨hread', -⟩ := foldlM_of_apart
    (fun q hq => (happ q (hafter q hq)).dividePhase hv) h
  rw [hread', ← hread]
  exact share_read hv

end PhaseList

/-! ## Rounding -/

theorem round_of_nonneg {x : ℚ} (hx : 0 ≤ x) : round x = ⌊x + 1 / 2⌋ := if_pos hx

/-- Rounding is off by one half at most. -/
theorem abs_round_sub_le {x : ℚ} (hx : 0 ≤ x) : |round x - x| ≤ 1 / 2 := by
  rw [round_of_nonneg hx, abs_le]
  have hle := Int.floor_le (x + 1 / 2)
  have hlt := Int.lt_floor_add_one (x + 1 / 2)
  constructor <;> linarith

theorem round_mono {x y : ℚ} (hx : 0 ≤ x) (h : x ≤ y) : round x ≤ round y := by
  rw [round_of_nonneg hx, round_of_nonneg (hx.trans h), Int.cast_le]
  exact Int.floor_le_floor (by linarith)

/-- An integer is its own rounding. -/
theorem round_intCast {k : ℤ} (hk : 0 ≤ k) : round k = k := by
  rw [round_of_nonneg (by exact_mod_cast hk), Int.floor_intCast_add]
  norm_num

theorem exists_round_eq {x : ℚ} (hx : 0 ≤ x) : ∃ k : ℤ, 0 ≤ k ∧ round x = k :=
  ⟨⌊x + 1 / 2⌋, Int.floor_nonneg.2 (by linarith), round_of_nonneg hx⟩

theorem round_nonneg {x : ℚ} (hx : 0 ≤ x) : 0 ≤ round x := by
  obtain ⟨k, hk, hr⟩ := exists_round_eq hx
  rw [hr]
  exact_mod_cast hk

theorem length_launches (x : ℚ) : (launches x).length = ⌊x⌋₊ := by
  unfold launches
  split
  · rw [range, List.length_range']
  · rename_i hx
    rw [Nat.floor_of_nonpos (not_lt.1 hx), List.length_nil]

/-- A rate that is rounded is launched as it is. -/
theorem length_launches_round {x : ℚ} (hx : 0 ≤ x) : ((launches (round x)).length : ℚ) = round x := by
  obtain ⟨k, hk, hr⟩ := exists_round_eq hx
  obtain ⟨n, rfl⟩ := Int.eq_ofNat_of_zero_le hk
  rw [length_launches, hr]
  norm_cast

/-! ## Ramps -/

/-- The value of a ramp at the offset `s`. -/
def ramp (rateFrom rateTo D s : ℚ) : ℚ := rateFrom + (rateTo - rateFrom) * s / D

variable {a b D s : ℚ}

theorem ramp_eq (hD : 0 < D) : ramp a b D s = a * (1 - s / D) + b * (s / D) := by
  unfold ramp
  field_simp
  ring

/-- Both formulas of `calc_rate` are the ramp. -/
theorem calcRate_table {phase : Phase} (h : phase.usersRate = .table a b) (hD : 0 < phase.duration)
    (startStep k : ℕ) :
    phase.calcRate startStep (startStep + k) = some (round (ramp a b phase.duration k)) := by
  have hk : ((startStep + k : ℕ) : ℚ) - startStep = k := by push_cast; ring
  unfold Phase.calcRate
  simp only [h, hk, hD.ne', if_false]
  split
  · congr 2
    unfold ramp
    ring
  · congr 2
    unfold ramp
    ring

section ramp

variable (hD : 0 < D) (h0 : 0 ≤ s) (hs : s ≤ D)

include hD h0 hs

theorem offset_le_one : 0 ≤ s / D ∧ s / D ≤ 1 :=
  ⟨div_nonneg h0 hD.le, (div_le_one hD).2 hs⟩

/-- A ramp stays between its ends. -/
theorem ramp_between : min a b ≤ ramp a b D s ∧ ramp a b D s ≤ max a b := by
  obtain ⟨ht0, ht1⟩ := offset_le_one hD h0 hs
  rw [ramp_eq hD]
  constructor
  · have ha := mul_le_mul_of_nonneg_right (min_le_left a b) (sub_nonneg.2 ht1)
    have hb := mul_le_mul_of_nonneg_right (min_le_right a b) ht0
    linarith
  · have ha := mul_le_mul_of_nonneg_right (le_max_left a b) (sub_nonneg.2 ht1)
    have hb := mul_le_mul_of_nonneg_right (le_max_right a b) ht0
    linarith

theorem ramp_nonneg (ha : 0 ≤ a) (hb : 0 ≤ b) : 0 ≤ ramp a b D s :=
  (le_min ha hb).trans (ramp_between hD h0 hs).1

/-- Two ramps differ by no more than their ends do. -/
theorem abs_ramp_sub_le {a' b' e : ℚ} (ha : |a - a'| ≤ e) (hb : |b - b'| ≤ e) :
    |ramp a b D s - ramp a' b' D s| ≤ e := by
  obtain ⟨ht0, ht1⟩ := offset_le_one hD h0 hs
  have heq : ramp a b D s - ramp a' b' D s = (a - a') * (1 - s / D) + (b - b') * (s / D) := by
    rw [ramp_eq hD, ramp_eq hD]
    ring
  have hsum : |a - a'| * (1 - s / D) + |b - b'| * (s / D) ≤ e := by
    have ha' := mul_le_mul_of_nonneg_right ha (sub_nonneg.2 ht1)
    have hb' := mul_le_mul_of_nonneg_right hb ht0
    linarith
  rw [heq]
  refine (abs_add_le _ _).trans ?_
  rwa [abs_mul, abs_mul, abs_of_nonneg (sub_nonneg.2 ht1), abs_of_nonneg ht0]

end ramp

/-- A ramp goes one way. -/
theorem ramp_mono (hD : 0 < D) (hab : a ≤ b) {s' : ℚ} (h : s ≤ s') : ramp a b D s ≤ ramp a b D s' := by
  have hsub := div_le_div_of_nonneg_right h hD.le
  have hmul := mul_le_mul_of_nonneg_left hsub (sub_nonneg.2 hab)
  unfold ramp
  rw [mul_div_assoc, mul_div_assoc]
  linarith

theorem ramp_anti (hD : 0 < D) (hab : b ≤ a) {s' : ℚ} (h : s ≤ s') : ramp a b D s' ≤ ramp a b D s := by
  have hsub := div_le_div_of_nonneg_right h hD.le
  have hmul := mul_le_mul_of_nonneg_left hsub (sub_nonneg.2 hab)
  unfold ramp
  rw [mul_div_assoc, mul_div_assoc]
  linarith

/-! ## The steps of a phase -/

namespace Launcher

variable {cfg : Config} {l l' : Launcher} {a : Act}

/-- A tick lasts a second at least, unless it is shut down. -/
def EverySecond (l : Launcher) : Act → Prop
  | .resume => ∀ wakeAt, l.pc = .sleeping wakeAt → wakeAt ≤ l.now ∨ l.gonnaShutDown = true
  | _ => True

/-- The offset of the step in its phase. -/
def offset (l : Launcher) : ℚ := l.curStep - l.startStep

/-- In a phase of the list. -/
structure AtPhase (cfg : Config) (l : Launcher) : Prop where
  phase : cfg.allPhases[l.i]? = some l.phase
  finish : l.isFinishPhase = true → l.i = cfg.phases.length
  startStep_le : l.startStep ≤ l.curStep

/-- The offset of the step is not ahead of the time the phase has taken. -/
def OnTime (cfg : Config) (l : Launcher) : Prop :=
  match l.pc with
  | .phases => l.gonnaShutDown = false
  | .ticks => l.AtPhase cfg ∧ l.gonnaShutDown = false ∧ l.offset ≤ l.now - l.phaseStarted
  | .sleeping wakeAt => l.AtPhase cfg ∧ l.offset + 1 ≤ wakeAt - l.phaseStarted
  | .sending .tick | .suspended .tick | .ticked =>
    l.AtPhase cfg ∧ (l.gonnaShutDown = true ∨ l.offset + 1 ≤ l.now - l.phaseStarted)
  | _ => True

theorem length_allPhases (cfg : Config) : cfg.allPhases.length = cfg.phases.length + 1 := by
  rw [Config.allPhases, List.length_append, List.length_singleton]

theorem OnTime.startPhase (hl : l.gonnaShutDown = false) : (l.startPhase cfg).OnTime cfg := by
  unfold Launcher.startPhase
  split
  · trivial
  · rename_i phase hphase
    refine ⟨⟨hphase, fun h => ?_, le_rfl⟩, hl, by simp [offset]⟩
    have hlen : l.i + 1 = cfg.allPhases.length := by simpa [hl] using h
    rw [length_allPhases] at hlen
    exact Nat.succ.inj hlen

theorem OnTime.nextStep (hl : l.AtPhase cfg)
    (htime : l.gonnaShutDown = true ∨ l.offset + 1 ≤ l.now - l.phaseStarted) :
    l.nextStep.OnTime cfg := by
  unfold Launcher.nextStep
  split
  · exact rfl
  · rename_i hflag
    have hoff : ((l.curStep + 1 : ℕ) : ℚ) - l.startStep = l.offset + 1 := by
      rw [offset]
      push_cast
      ring
    exact ⟨⟨hl.phase, hl.finish, Nat.le_succ_of_le hl.startStep_le⟩, Bool.eq_false_iff.2 hflag,
      hoff.le.trans (htime.resolve_left hflag)⟩

/-- The end of the sleep of a tick. -/
theorem OnTime.wake (hl : l.AtPhase cfg)
    (htime : l.gonnaShutDown = true ∨ l.offset + 1 ≤ l.now - l.phaseStarted) :
    (l.wake cfg).OnTime cfg := by
  unfold Launcher.wake
  split <;> exact ⟨⟨hl.phase, hl.finish, hl.startStep_le⟩, htime⟩

/-- What happens while the launcher is suspended takes time. -/
theorem meanwhile_clock (h : l.meanwhile a = some l') :
    l'.startStep = l.startStep ∧ l'.phaseStarted = l.phaseStarted ∧ l.now ≤ l'.now ∧
      (l.gonnaShutDown = true → l'.gonnaShutDown = true) := by
  cases a with
  | go | tick | send | resume | timeout => cases h
  | advance d =>
    obtain ⟨hd, h⟩ := Option.ite_none_right_eq_some.1 h
    obtain rfl := Option.some.inj h
    exact ⟨rfl, rfl, le_add_of_nonneg_right hd, id⟩
  | userStart k =>
    obtain ⟨u, -, -, -, rfl⟩ := meanwhile_userStart h
    exact ⟨rfl, rfl, le_rfl, id⟩
  | userStop k =>
    obtain ⟨u, -, -, -, rfl⟩ := meanwhile_userStop h
    exact ⟨rfl, rfl, le_rfl, id⟩
  | userEnd k =>
    obtain ⟨u, -, -, rfl⟩ := meanwhile_userEnd h
    exact ⟨rfl, rfl, le_rfl, id⟩
  | shutDown =>
    obtain ⟨-, rfl⟩ := meanwhile_shutDown h
    exact ⟨rfl, rfl, le_rfl, fun _ => rfl⟩
  | add | connect | disconnect =>
    obtain rfl := Option.some.inj h
    exact ⟨rfl, rfl, le_rfl, id⟩

theorem OnTime.meanwhile (hl : l.OnTime cfg) (hy : l.Yielded) (h : l.meanwhile a = some l') :
    l'.OnTime cfg := by
  obtain ⟨hf, -, -⟩ := meanwhile_frame h
  obtain ⟨hstart, hphase, hnow, hflag⟩ := meanwhile_clock h
  have hat : l.AtPhase cfg → l'.AtPhase cfg := fun hat =>
    ⟨by rw [hf.i, hf.phase]; exact hat.phase, by rw [hf.i, hf.isFinishPhase]; exact hat.finish,
      by rw [hstart, hf.curStep]; exact hat.startStep_le⟩
  have hoff : l'.offset = l.offset := by rw [offset, offset, hstart, hf.curStep]
  rw [OnTime, hf.pc]
  rw [OnTime] at hl
  cases hpc : l.pc with
  | sleeping wakeAt =>
    rw [hpc] at hl
    exact ⟨hat hl.1, by rw [hoff, hphase]; exact hl.2⟩
  | suspended sender =>
    cases sender with
    | tick =>
      rw [hpc] at hl
      refine ⟨hat hl.1, hl.2.imp hflag fun h => ?_⟩
      rw [hoff, hphase]
      linarith
    | finish => trivial
  | returned => trivial
  | stopped => trivial
  | _ => simp [Yielded, hpc] at hy

theorem OnTime.step (hl : l.OnTime cfg) (hs : l.EverySecond a) (h : step cfg l a = some l') :
    l'.OnTime cfg := by
  cases a with
  | go =>
    rcases step_go h with ⟨hpc, rfl⟩ | ⟨hpc, -, rfl⟩ | ⟨-, -, rfl⟩ | ⟨hpc, -, rfl⟩
    all_goals simp only [OnTime, *] at hl
    · exact .startPhase hl
    · exact hl.2.1
    · unfold finish
      split <;> trivial
    · exact .nextStep hl.1 hl.2
  | tick draws =>
    obtain ⟨hpc, -, ⟨-, rfl⟩ | ⟨_, -, -, -, rfl⟩⟩ := step_tick h
    · trivial
    · rw [OnTime, hpc] at hl
      obtain ⟨hat, -, htime⟩ := hl
      refine ⟨⟨hat.phase, hat.finish, hat.startStep_le⟩, ?_⟩
      change l.offset + 1 ≤ l.now + 1 - l.phaseStarted
      linarith
  | send sent =>
    rcases step_send h with ⟨hpc, -, rfl⟩ | ⟨-, -, rfl⟩ | ⟨sender, hpc, -, rfl⟩ | ⟨-, -, rfl⟩ | ⟨-, rfl⟩
    · rw [OnTime, hpc] at hl
      exact ⟨⟨hl.1.phase, hl.1.finish, hl.1.startStep_le⟩, hl.2⟩
    · trivial
    · rw [OnTime, hpc] at hl
      cases sender
      · exact ⟨⟨hl.1.phase, hl.1.finish, hl.1.startStep_le⟩, hl.2⟩
      · trivial
    · trivial
    · trivial
  | resume =>
    rcases step_resume h with ⟨wakeAt, hpc, rfl⟩ | ⟨sender, -, -, rfl⟩ | ⟨sender, hpc, -, rfl⟩
    · rw [OnTime, hpc] at hl
      refine .wake hl.1 ((hs wakeAt hpc).symm.imp_right fun hw => ?_)
      have htime := hl.2
      linarith
    · trivial
    · rw [OnTime, hpc] at hl
      cases sender
      · exact ⟨⟨hl.1.phase, hl.1.finish, hl.1.startStep_le⟩, hl.2⟩
      · trivial
  | timeout =>
    obtain rfl := step_timeout h
    trivial
  | _ =>
    obtain ⟨hy, hm⟩ := step_meanwhile (by trivial) h
    exact hl.meanwhile hy hm

theorem onTime_of_reachable (h : (sys cfg).ReachableBy EverySecond l) : l.OnTime cfg :=
  h.invariant (by rintro _ ⟨now, rfl⟩; rfl) fun _ hl hP hs => hl.step hP hs

/-- The launcher of a test launches `n` users at the step `s` of the phase `i`. -/
def Launches (cfg : Config) (i s n : ℕ) : Prop :=
  ∃ l draws l', (sys cfg).ReachableBy EverySecond l ∧ l.i = i ∧ l.curStep = l.startStep + s ∧
    step cfg l (.tick draws) = some l' ∧ l'.pc ≠ .exited ∧ l'.users.length = l.users.length + n

/-- A step of a phase is not beyond its duration, and launches the users of its rate. -/
theorem Launches.spec {i s n : ℕ} (h : Launches cfg i s n) (hi : i < cfg.phases.length) :
    ∃ phase startStep rate, cfg.phases[i]? = some phase ∧ (s : ℚ) ≤ phase.duration ∧
      phase.calcRate startStep (startStep + s) = some rate ∧ n = (launches rate).length := by
  obtain ⟨l, draws, l', hl, rfl, hs, hstep, hexit, hn⟩ := h
  obtain ⟨hpc, hcont, hcase⟩ := step_tick hstep
  have htime := onTime_of_reachable hl
  rw [OnTime, hpc] at htime
  obtain ⟨hat, -, htime⟩ := htime
  have hfin : ¬l.isFinishPhase = true := fun hf => hi.ne (hat.finish hf)
  have hphase : cfg.phases[l.i]? = some l.phase := by
    rw [← hat.phase, Config.allPhases, List.getElem?_append_left hi]
  have hoff : l.offset = s := by
    rw [offset, hs]
    push_cast
    ring
  refine ⟨l.phase, l.startStep, ?_⟩
  rcases hcase with ⟨-, rfl⟩ | ⟨rate, hrate, hlen, -, rfl⟩
  · exact absurd rfl hexit
  · refine ⟨rate, hphase, ?_, hs ▸ hrate, ?_⟩
    · rw [← hoff]
      exact htime.trans (hcont.resolve_right hfin)
    · rw [← hlen]
      simp only [startTick, List.length_append, List.length_map] at hn
      exact (Nat.add_left_cancel hn).symm

instance (l : Launcher) : DecidablePred l.EverySecond := fun a =>
  match a, hpc : l.pc with
  | .resume, .sleeping wakeAt => decidable_of_iff (wakeAt ≤ l.now ∨ l.gonnaShutDown = true)
    ⟨fun h w hw => by rw [hpc] at hw; cases hw; exact h, fun h => h wakeAt hpc⟩
  | .resume, .phases | .resume, .ticks | .resume, .sending _ | .resume, .suspended _
  | .resume, .ticked | .resume, .handler | .resume, .returned | .resume, .stopped
  | .resume, .exited => isTrue fun w hw => by rw [hpc] at hw; cases hw
  | .go, _ | .tick _, _ | .send _, _ | .timeout, _ | .advance _, _ | .add _, _ | .userStart _, _
  | .userStop _, _ | .userEnd _, _ | .connect, _ | .disconnect, _ | .shutDown, _ => isTrue trivial

/-- A tick found by evaluation. -/
theorem launches_of_exec (as : List Act) (i s : ℕ) (draws : List ℚ)
    (h : ((sys cfg).execBy EverySecond (start 0) as).any fun l =>
      decide (l.i = i ∧ l.curStep = l.startStep + s) && (step cfg l (.tick draws)).any fun l' =>
        decide (l'.pc ≠ .exited ∧ l'.users.length = l.users.length + draws.length)) :
    Launches cfg i s draws.length := by
  obtain ⟨l, hrun, hl⟩ := System.exists_run_of_execBy _ _ _ _ _ h
  obtain ⟨hat, htick⟩ := Bool.and_eq_true_iff.1 hl
  obtain ⟨l', hl', hn⟩ := (Option.any_eq_true _ _).1 htick
  obtain ⟨hi, hs⟩ := of_decide_eq_true hat
  obtain ⟨hpc, hn⟩ := of_decide_eq_true hn
  exact ⟨l, draws, l', .run (.init ⟨0, rfl⟩) hrun, hi, hs, hl', hpc, hn⟩

end Launcher

/-! ## The load -/

variable {W : ℕ} {t : PhaseList} {cfg : Config} {i s n : ℕ} {phase : Phase}

/-- A multiple of the number of the workers. -/
def Divisible (W : ℕ) (rate : ℚ) : Prop := ∃ k : ℤ, rate = k * W

/-- What the workers launch at the step `s` of a phase follows its rate. -/
def Follows (W : ℕ) (phase : Phase) (s : ℕ) (launched : Fin W → ℕ) : Prop :=
  match phase.usersRate with
  | .number rate =>
    |∑ w, (launched w : ℚ) - rate| ≤ W ∧ (∑ w, (launched w : ℚ) = rate ↔ Divisible W rate)
  | .table a b =>
    |∑ w, (launched w : ℚ) - ramp a b phase.duration s| ≤ W ∧
    (Divisible W a → Divisible W b →
      |∑ w, (launched w : ℚ) - ramp a b phase.duration s| ≤ W / 2) ∧
    ∀ w, min (round (a / W)) (round (b / W)) ≤ launched w ∧
      launched w ≤ max (round (a / W)) (round (b / W))
  | .function _ => True

/-- What the workers launch goes the way of the ramp, from the step `s` to the step `s'`. -/
def Monotonic (W : ℕ) (phase : Phase) (launched launched' : Fin W → ℕ) : Prop :=
  ∀ a b, phase.usersRate = .table a b →
    (a ≤ b → ∀ w, launched w ≤ launched' w) ∧ (b ≤ a → ∀ w, launched' w ≤ launched w)

section workers

variable (h : (dividePhases W t).map PhaseList.phases = some cfg.phases) (hun : t.Unshared i)
  (hi : t.phases[i]? = some phase)

include h hun hi

/-- A worker at a step: the launcher goes by the divided phase. -/
theorem launches_divided (hl : Launcher.Launches cfg i s n) :
    ∃ phase' startStep rate, phase.share W = some phase' ∧ (s : ℚ) ≤ phase.duration ∧
      phase'.calcRate startStep (startStep + s) = some rate ∧ n = (launches rate).length := by
  obtain ⟨t', ht', hcfg⟩ := Option.map_eq_some_iff.1 h
  obtain ⟨phase', hi', hdiv⟩ := PhaseList.getElem?_dividePhases ht' hun hi
  rw [hcfg] at hi'
  obtain ⟨phase'', startStep, rate, hget, hs, hrate, hn⟩ :=
    hl.spec (List.getElem?_eq_some_iff.1 hi').1
  obtain rfl := Option.some.inj (hi'.symm.trans hget)
  exact ⟨phase', startStep, rate, hdiv, duration_share hdiv ▸ hs, hrate, hn⟩

theorem launches_number {rate : ℚ} (hrate : phase.usersRate = .number rate)
    (hl : Launcher.Launches cfg i s n) : n = ⌊rate / W⌋₊ := by
  obtain ⟨phase', startStep, rate', hdiv, -, hcalc, hn⟩ := launches_divided h hun hi hl
  simp only [Phase.share, hrate] at hdiv
  split at hdiv
  · cases hdiv
  · obtain rfl := Option.some.inj hdiv
    obtain rfl := Option.some.inj hcalc
    rw [hn, length_launches]

theorem launches_table {a b : ℚ} (hrate : phase.usersRate = .table a b) (hD : 0 < phase.duration)
    (hW : 0 < W) (hl : Launcher.Launches cfg i s n) :
    ((s : ℚ) ≤ phase.duration ∧ (W : ℚ) ≤ a ∧ (W : ℚ) ≤ b) ∧
      (n : ℚ) = round (ramp (round (a / W)) (round (b / W)) phase.duration s) := by
  obtain ⟨phase', startStep, rate', hdiv, hs, hcalc, hn⟩ := launches_divided h hun hi hl
  simp only [Phase.share, hrate] at hdiv
  split at hdiv
  case isFalse => cases hdiv
  case isTrue hab =>
    obtain rfl := Option.some.inj hdiv
    let phase' : Phase := { phase with usersRate := .table (round (a / W)) (round (b / W)) }
    have heq := calcRate_table (rfl : phase'.usersRate = .table _ _) hD startStep s
    obtain rfl := Option.some.inj (heq.symm.trans hcalc)
    refine ⟨⟨hs, hab.1, hab.2⟩, ?_⟩
    have hW' : (0 : ℚ) < W := by exact_mod_cast hW
    have hround : ∀ x : ℚ, (W : ℚ) ≤ x → 0 ≤ round (x / W) := fun x hx =>
      round_nonneg (div_nonneg (hW'.le.trans hx) hW'.le)
    rw [hn, length_launches_round (ramp_nonneg hD (Nat.cast_nonneg s) hs (hround a hab.1)
      (hround b hab.2))]

end workers

/-- The launched users of `W` workers that launch alike. -/
theorem sum_launched {launched : Fin W → ℕ} {x : ℚ} (h : ∀ w, (launched w : ℚ) = x) :
    ∑ w, (launched w : ℚ) = W * x := by
  rw [Finset.sum_congr rfl fun w _ => h w, Finset.sum_const, Finset.card_univ, Fintype.card_fin,
    nsmul_eq_mul]

/-- A constant rate: every worker launches the integer part of its share. -/
theorem follows_number (hW : 0 < W) {rate : ℚ} (hrate : phase.usersRate = .number rate)
    (h0 : 0 ≤ rate) {launched : Fin W → ℕ} (hl : ∀ w, launched w = ⌊rate / W⌋₊) :
    Follows W phase s launched := by
  have hW' : (0 : ℚ) < W := by exact_mod_cast hW
  have hsum := sum_launched fun w => congrArg (Nat.cast (R := ℚ)) (hl w)
  have hshare : W * (rate / W) = rate := by field_simp
  have hle := mul_le_mul_of_nonneg_left (Nat.floor_le (div_nonneg h0 hW'.le)) hW'.le
  have hlt := mul_lt_mul_of_pos_left (Nat.lt_floor_add_one (rate / W)) hW'
  rw [hshare] at hle hlt
  simp only [Follows, hrate, hsum]
  refine ⟨abs_le.2 ⟨by linarith, by linarith⟩, fun heq => ⟨⌊rate / W⌋₊, ?_⟩, ?_⟩
  · rw [Int.cast_natCast, mul_comm]
    exact heq.symm
  · rintro ⟨k, rfl⟩
    have hk : (k : ℚ) * W / W = k := mul_div_cancel_right₀ _ hW'.ne'
    have hk0 : 0 ≤ k := by
      rw [← Int.cast_nonneg_iff (R := ℚ), ← hk]
      exact div_nonneg h0 hW'.le
    obtain ⟨m, rfl⟩ := Int.eq_ofNat_of_zero_le hk0
    rw [hk]
    simp [mul_comm]

/-- A share of a rate, rounded and taken together, is off by half the number of
    the workers, and not at all if the rate is divisible. -/
theorem abs_share_sub_le (hW : 0 < W) {x : ℚ} (hx : (W : ℚ) ≤ x) :
    |W * round (x / W) - x| ≤ W / 2 ∧ (Divisible W x → |W * round (x / W) - x| ≤ 0) := by
  have hW' : (0 : ℚ) < W := by exact_mod_cast hW
  have hshare : x = W * (x / W) := by field_simp
  have hx0 : 0 ≤ x / W := div_nonneg (hW'.le.trans hx) hW'.le
  constructor
  · have hle := mul_le_mul_of_nonneg_left (abs_round_sub_le hx0) hW'.le
    calc |W * round (x / W) - x| = |W * (round (x / W) - x / W)| := by rw [mul_sub, ← hshare]
      _ = W * |round (x / W) - x / W| := by rw [abs_mul, abs_of_nonneg hW'.le]
      _ ≤ W / 2 := by linarith
  · rintro ⟨k, rfl⟩
    have hk : (k : ℚ) * W / W = k := mul_div_cancel_right₀ _ hW'.ne'
    rw [hk] at hx0 ⊢
    rw [round_intCast (by exact_mod_cast hx0), mul_comm, sub_self, abs_zero]

/-- A ramp: every worker launches the rounded value of its own ramp. -/
theorem follows_table (hW : 0 < W) {a b : ℚ} (hrate : phase.usersRate = .table a b)
    (hD : 0 < phase.duration) (hs : (s : ℚ) ≤ phase.duration) (ha : (W : ℚ) ≤ a) (hb : (W : ℚ) ≤ b)
    {launched : Fin W → ℕ} (hl : ∀ w, (launched w : ℚ) =
      round (ramp (round (a / W)) (round (b / W)) phase.duration s)) :
    Follows W phase s launched := by
  have hW' : (0 : ℚ) < W := by exact_mod_cast hW
  obtain ⟨A, hA0, hA⟩ := exists_round_eq (div_nonneg (hW'.le.trans ha) hW'.le)
  obtain ⟨B, hB0, hB⟩ := exists_round_eq (div_nonneg (hW'.le.trans hb) hW'.le)
  obtain ⟨hdA, heA⟩ := abs_share_sub_le hW ha
  obtain ⟨hdB, heB⟩ := abs_share_sub_le hW hb
  obtain ⟨hmin, hmax⟩ := ramp_between (a := round (a / W)) (b := round (b / W)) hD
    (Nat.cast_nonneg s) hs
  have h0 : 0 ≤ ramp (round (a / W)) (round (b / W)) phase.duration s :=
    ramp_nonneg hD (Nat.cast_nonneg s) hs (round_nonneg (div_nonneg (hW'.le.trans ha) hW'.le))
      (round_nonneg (div_nonneg (hW'.le.trans hb) hW'.le))
  have hsum := sum_launched hl
  -- The rounding of the ramp of a worker, and that of its ends.
  have hround : |W * round (ramp (round (a / W)) (round (b / W)) phase.duration s) -
      W * ramp (round (a / W)) (round (b / W)) phase.duration s| ≤ W / 2 := by
    rw [← mul_sub, abs_mul, abs_of_nonneg hW'.le]
    have hle := mul_le_mul_of_nonneg_left (abs_round_sub_le h0) hW'.le
    linarith
  have hscale : W * ramp (round (a / W)) (round (b / W)) phase.duration s =
      ramp (W * round (a / W)) (W * round (b / W)) phase.duration s := by
    unfold ramp
    ring
  have hends : ∀ e, |W * round (a / W) - a| ≤ e → |W * round (b / W) - b| ≤ e →
      |W * round (ramp (round (a / W)) (round (b / W)) phase.duration s) -
        ramp a b phase.duration s| ≤ W / 2 + e := fun e hae hbe => by
    have hle := abs_ramp_sub_le hD (Nat.cast_nonneg s) hs hae hbe
    rw [← hscale] at hle
    exact (abs_sub_le _ _ _).trans (add_le_add hround hle)
  simp only [Follows, hrate, hsum]
  refine ⟨(hends _ hdA hdB).trans_eq (add_halves _), fun hdiva hdivb => ?_, fun w => ?_⟩
  · simpa using hends 0 (heA hdiva) (heB hdivb)
  · rw [hl w]
    obtain ⟨lo, hlo0, hlo⟩ : ∃ k : ℤ, 0 ≤ k ∧ min (round (a / W)) (round (b / W)) = k :=
      ⟨min A B, le_min hA0 hB0, by rw [hA, hB]; push_cast; rfl⟩
    obtain ⟨hi, hhi0, hhi⟩ : ∃ k : ℤ, 0 ≤ k ∧ max (round (a / W)) (round (b / W)) = k :=
      ⟨max A B, le_max_of_le_left hA0, by rw [hA, hB]; push_cast; rfl⟩
    rw [hlo] at hmin ⊢
    rw [hhi] at hmax ⊢
    constructor
    · rw [← round_intCast hlo0]
      exact round_mono (by exact_mod_cast hlo0) hmin
    · rw [← round_intCast hhi0]
      exact round_mono h0 hmax

/-- The load at a step of a phase that shares no table with another one, and at a later step:
    it follows the rate, unless this is a negative number, at which nobody is launched. -/
theorem fidelity (hW : 0 < W) (h : (dividePhases W t).map PhaseList.phases = some cfg.phases)
    (hun : t.Unshared i) (hi : t.phases[i]? = some phase) (hD : 0 < phase.duration) {launched : Fin W → ℕ}
    (hl : ∀ w, Launcher.Launches cfg i s (launched w)) :
    ((∀ rate, phase.usersRate = .number rate → 0 ≤ rate) → Follows W phase s launched) ∧
    (∀ rate, phase.usersRate = .number rate → rate < 0 → ∀ w, launched w = 0) ∧
    ∀ s' launched', s ≤ s' → (∀ w, Launcher.Launches cfg i s' (launched' w)) →
      Monotonic W phase launched launched' := by
  refine ⟨fun h0 => ?_, fun rate hrate hneg w => ?_, fun s' launched' hs' hl' a b hrate => ?_⟩
  · cases hrate : phase.usersRate with
    | number rate =>
      exact follows_number hW hrate (h0 rate hrate) fun w => launches_number h hun hi hrate (hl w)
    | table a b =>
      have htable := fun w => launches_table h hun hi hrate hD hW (hl w)
      obtain ⟨hs, ha, hb⟩ := (htable ⟨0, hW⟩).1
      exact follows_table hW hrate hD hs ha hb fun w => (htable w).2
    | function rate => simp [Follows, hrate]
  · rw [launches_number h hun hi hrate (hl w)]
    exact Nat.floor_of_nonpos (div_nonpos_of_nonpos_of_nonneg hneg.le (Nat.cast_nonneg W))
  · have htable := fun w => launches_table h hun hi hrate hD hW (hl w)
    have htable' := fun w => launches_table h hun hi hrate hD hW (hl' w)
    obtain ⟨hs, ha, hb⟩ := (htable ⟨0, hW⟩).1
    have hsD' := (htable' ⟨0, hW⟩).1.1
    have hW' : (0 : ℚ) < W := by exact_mod_cast hW
    have hshare : ∀ x : ℚ, (W : ℚ) ≤ x → 0 ≤ x / W := fun x hx => div_nonneg (hW'.le.trans hx) hW'.le
    have h0 : ∀ t : ℕ, (t : ℚ) ≤ phase.duration →
        0 ≤ ramp (round (a / W)) (round (b / W)) phase.duration t := fun t ht =>
      ramp_nonneg hD (Nat.cast_nonneg t) ht (round_nonneg (hshare a ha)) (round_nonneg (hshare b hb))
    have hss : (s : ℚ) ≤ s' := by exact_mod_cast hs'
    constructor
    · intro hab w
      have hAB := round_mono (hshare a ha) (div_le_div_of_nonneg_right hab hW'.le)
      have hle := round_mono (h0 s hs) (ramp_mono hD hAB hss)
      rw [← (htable w).2, ← (htable' w).2] at hle
      exact_mod_cast hle
    · intro hab w
      have hAB := round_mono (hshare b hb) (div_le_div_of_nonneg_right hab hW'.le)
      have hle := round_mono (h0 s' hsD') (ramp_anti hD hAB hss)
      rw [← (htable w).2, ← (htable' w).2] at hle
      exact_mod_cast hle

/-- A list of phases that are all the table of one phase, whose rate is a constant or the
    `{from, to}` table it refers to. -/
def phaseList (usersRate : UsersRate) (ends : ℚ × ℚ) (duration : ℚ) (n : ℕ) : PhaseList :=
  ⟨fun _ => ⟨usersRate, duration⟩, fun _ => ends, List.replicate n 0⟩

/-- A test of some phases. -/
def phaseTest (phase : Phase) (phases : List Phase) : Config :=
  ⟨phase :: phases, 0, false, List.cons_ne_nil _ _⟩

theorem unshared_one (usersRate : UsersRate) (ends : ℚ × ℚ) (duration : ℚ) :
    (phaseList usersRate ends duration 1).Unshared 0 := by
  intro j p q hj _ hq
  have hlt := (List.getElem?_eq_some_iff.1 hq).1
  simp only [phaseList, List.length_replicate] at hlt
  omega

/-- Two workers, one second after the start of a ramp from 2 to 6, and at its end. -/
theorem fidelity_ramp : Follows 2 ⟨.table 2 6, 2⟩ 1 (fun _ => 2) ∧
    Monotonic 2 ⟨.table 2 6, 2⟩ (fun _ => 2) (fun _ => 3) := by
  have hround : ∀ k : ℕ, round k = k := fun k => round_intCast (Int.natCast_nonneg k)
  have hone : round (1 : ℚ) = 1 := by simpa using hround 1
  have hthree : round (3 : ℚ) = 3 := by simpa using hround 3
  have hdiv : (dividePhases 2 (phaseList (.table 0) (2, 6) 2 1)).map PhaseList.phases =
      some (phaseTest ⟨.table 1 3, 2⟩ []).phases := by
    norm_num [dividePhases, dividePhase, phaseTest, phaseList, PhaseList.phases, PhaseList.read,
      hone, hthree]
  have hsecond : Launcher.Launches (phaseTest ⟨.table 1 3, 2⟩ []) 0 1 2 :=
    Launcher.launches_of_exec [.go, .tick [0], .advance 1, .resume, .send .all, .go] 0 1 [0, 1 / 2]
      (by decide +kernel)
  have hthird : Launcher.Launches (phaseTest ⟨.table 1 3, 2⟩ []) 0 2 3 :=
    Launcher.launches_of_exec [.go, .tick [0], .advance 1, .resume, .send .all, .go,
      .tick [0, 1 / 2], .advance 1, .resume, .send .all, .go] 0 2 [0, 1 / 2, 1 / 2]
      (by decide +kernel)
  have hD : 0 < ((phaseList (.table 0) (2, 6) 2 1).read 0).duration := by
    norm_num [phaseList, PhaseList.read]
  obtain ⟨hfollows, -, hmono⟩ := fidelity two_pos hdiv (unshared_one _ _ _) rfl hD
    fun _ => hsecond
  exact ⟨hfollows (fun _ h => by cases h), hmono 2 _ one_le_two fun _ => hthird⟩

/-- A negative rate is accepted, and not followed. -/
theorem negative_not_followed : ¬∀ W > 0, ∀ t (cfg : Config) i phase s (launched : Fin W → ℕ),
    (dividePhases W t).map PhaseList.phases = some cfg.phases → t.phases[i]? = some phase →
    0 < phase.duration → (∀ w, Launcher.Launches cfg i s (launched w)) →
    Follows W phase s launched := by
  intro hall
  have hl : Launcher.Launches (phaseTest ⟨.number (-2), 1⟩ []) 0 0 0 :=
    Launcher.launches_of_exec [.go] 0 0 [] (by decide +kernel)
  have hf := hall 1 one_pos (phaseList (.number (-2)) (0, 0) 1 1)
    (phaseTest ⟨.number (-2), 1⟩ []) 0 _ 0 (fun _ => 0)
    (by norm_num [dividePhases, dividePhase, phaseTest, phaseList, PhaseList.phases,
      PhaseList.read]) rfl one_pos fun _ => hl
  have hle := hf.1
  norm_num at hle

/-- A phase that is listed twice is divided twice: at a rate of 10, two workers launch 4 users. -/
theorem shared_not_followed : ∃ cfg : Config,
    (dividePhases 2 (phaseList (.number 10) (0, 0) 1 2)).map PhaseList.phases = some cfg.phases ∧
      Launcher.Launches cfg 0 0 2 ∧ ¬Follows 2 ⟨.number 10, 1⟩ 0 fun _ => 2 := by
  refine ⟨phaseTest ⟨.number (5 / 2), 1⟩ [⟨.number (5 / 2), 1⟩], ?_, ?_, fun hf => ?_⟩
  · norm_num [dividePhases, dividePhase, phaseTest, phaseList, PhaseList.phases, PhaseList.read,
      List.replicate]
  · exact Launcher.launches_of_exec [.go] 0 0 [0, 0] (by decide +kernel)
  · have hle := hf.1
    norm_num at hle

end Mistress
