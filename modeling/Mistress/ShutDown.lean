import Mistress.Bystander

/-!
# Shutting down

`Manager:shut_down` flags every session and plans it, unless it is planned already.
In the pass that follows, each session should look at the flag before anything
else, raise `STOP`, and end: its finalizers are run, and it is removed.

All operations do so but two. `accept` asserts first that it is resumed with file
descriptors, of which there are none unless `cb_accept` has planned the session
before; and `send` that it is not resumed by a timeout. The sessions suspended in
them raise an error that `resume_active_sessions` passes on, and the process exits.
-/

namespace Mistress.Runtime

open Transition

variable {s t t' : Runtime} {id : Nat} {op : Op} {L : Nat → Prop}

/-- The values the session is planned with; none if it is not. -/
def wakeOf (s : Runtime) (id : Nat) : Wake :=
  ((s.sched.mgr.activeSessions.find? (·.1 = id)).map (·.2.args)).getD .nothing

/-- The session that runs, or in which an error is raised. -/
def running (s : Runtime) : Option Nat :=
  match s.sched.ctl with
  | .running id => some id
  | _ => none

/-- The steps after a shutdown of the sessions of `s`: of these, only those of `L`,
    as the launcher, catch an error. -/
def Handles (L : Nat → Prop) (s t : Runtime) : Act → Prop
  | .rescue => ∀ id ∈ t.running, L id ∨ id ∉ s.sched.mgr.sessions
  | _ => True

instance [DecidablePred L] (s t : Runtime) (a : Act) : Decidable (Handles L s t a) := by
  unfold Handles
  split <;> infer_instance

/-- What becomes of a session of `s` that was suspended in `op`: `t` is the state
    some steps later. -/
structure Leaves (L : Nat → Prop) (s t : Runtime) (id : Nat) (op : Op) : Prop where
  /-- It stays suspended until it raises `STOP`, and then ends, -/
  state : (t.session id).state = .waiting op ∨ (t.session id).state = .raised op true ∨
    (t.session id).state = .absent
  /-- at the latest by the end of the pass; by then `STOP` has left its `run` once, -/
  ended : s.sched.passes < t.sched.passes → id ∉ t.sched.mgr.sessions ∧
    t.stopped.count id = s.stopped.count id + 1
  /-- and the top-level session of its family has run the finalizers once. -/
  cleaned : s.sched.passes < t.sched.passes →
    (s.session id).root ∈ s.sched.mgr.sessions → ¬L (s.session id).root →
      t.cleaned.count (s.session id).root = s.cleaned.count (s.session id).root + 1

/-- The shutdown of the sessions `ids`, all of them suspended, is a clean one. -/
def ShutsDown (L : Nat → Prop) (s : Runtime) (ids : List Nat) : Prop :=
  ∀ as t, sys.Run (Handles L s) (s.shutDown ids) as t → ∀ id ∈ s.sched.mgr.sessions, ¬L id →
    ∀ op, (s.session id).state = .waiting op → Leaves L s t id op

/-! ## The sessions told -/

/-- The session is to be resumed with values its operation does not reject. -/
structure Waits (s t : Runtime) (id : Nat) (op : Op) : Prop where
  state : (t.session id).state = .waiting op
  flagged : (t.session id).gonnaShutDown = true
  entry : ∃ v, (id, v) ∈ t.entries ∧ op.Asserts v.args
  passes : t.sched.passes = s.sched.passes
  stopped : t.stopped.count id = s.stopped.count id
  cleaned : t.cleaned.count id = s.cleaned.count id

/-- The session has raised `STOP`, and nobody has caught it. -/
structure Stops (s t : Runtime) (id : Nat) (op : Op) : Prop where
  state : (t.session id).state = .raised op true
  ctl : t.sched.ctl = .running id
  passes : t.sched.passes = s.sched.passes
  stopped : t.stopped.count id = s.stopped.count id
  cleaned : t.cleaned.count id = s.cleaned.count id

/-- The session has ended. -/
structure Gone (s t : Runtime) (id : Nat) : Prop where
  state : (t.session id).state = .absent
  stopped : t.stopped.count id = s.stopped.count id + 1
  cleaned : (s.session id).join = none → t.cleaned.count id = s.cleaned.count id + 1

/-- A session of `s` that does not catch errors, from the shutdown on. -/
structure Told (s t : Runtime) (id : Nat) (op : Op) : Prop where
  le : id ≤ t.sched.mgr.nextId
  join : (t.session id).join = (s.session id).join
  stage : Waits s t id op ∨ Stops s t id op ∨ Gone s t id

theorem Base.entry_unique (hb : s.Base) {v v' : Values}
    (hget : s.sched.mgr.activeSessions[s.sched.cursor]? = some (id, v))
    (hv : (id, v') ∈ s.entries) : v' = v := by
  have hnd := hb.entries_nodup
  rw [entries_eq_cons hget] at hv hnd
  rcases List.mem_cons.1 hv with h | h
  · exact congrArg Prod.snd h
  · exact absurd (List.mem_map_of_mem (f := Prod.fst) h) (List.nodup_cons.1 hnd).1

/-- A flagged session that is resumed with values its operation does not reject
    raises `STOP`; otherwise it raises another error. -/
theorem resume_of_flag (hst : (t.session id).state = .waiting op)
    (hflag : (t.session id).gonnaShutDown = true) (args : Wake) (again : Bool) :
    t.resume id args again = some (t.setState id (.raised op (decide (op.Asserts args)))) := by
  have hr := reply_of_flag op args
  have hfree : t.freesTwice id op args = false := by
    unfold freesTwice
    rw [hflag, hr]
    cases op <;> split_ifs <;> rfl
  unfold resume
  rw [hst]
  simp only [hfree, resumeOp, hflag, hr]
  by_cases h : op.Asserts args
  · simp [h]
  · simp [h]

/-- The end of a coroutine, and what is counted of it. -/
theorem finish_counts (s : Runtime) (id : Nat) :
    (s.finish id).stopped = s.stopped ∧ (s.finish id).sched.passes = s.sched.passes ∧
      ((s.session id).join = none → (s.finish id).cleaned = s.cleaned ++ [id]) := by
  obtain ⟨_, _, heq, -⟩ := afterRun_eq s id
  obtain ⟨_, _, _, _, -, heq'⟩ := clean_eq (s.afterRun id) id
  refine ⟨?_, ?_, fun h => ?_⟩
  · change ((s.afterRun id).clean id).stopped = _
    rw [heq', heq]
  · change ((s.afterRun id).clean id).sched.passes = _
    rw [heq', heq]
  · have hsess : (s.afterRun id).session id = s.session id := by rw [heq]
    change ((s.afterRun id).clean id).cleaned = _
    unfold Runtime.clean
    rw [hsess, h, heq]

/-- A session that is to be resumed goes on waiting, or raises `STOP`. -/
theorem Waits.step (hw : Waits s t id op) (hb : t.Base) (hle : id ≤ t.sched.mgr.nextId) {a : Act}
    (h : t.step a = some t') : Waits s t' id op ∨ Stops s t' id op := by
  obtain ⟨v, hv, hass⟩ := hw.entry
  have hpend : id ∈ t.sched.pending := by
    rw [pending_eq_entries]
    exact List.mem_map_of_mem (f := Prod.fst) hv
  by_cases hinv : t.Involved id a
  · cases a with
    | fetch again =>
      obtain ⟨v', hget⟩ := hinv
      obtain ⟨-, id', v'', hget', h⟩ := step_fetch h
      obtain ⟨rfl, rfl⟩ := Prod.mk.inj (Option.some.inj (hget.symm.trans hget'))
      rcases h with ⟨-, h⟩ | ⟨hmem, -⟩
      · -- It is resumed with the values of its entry, and the flag makes it raise.
        rw [resume_of_flag (t := t.fetched id v') hw.state hw.flagged] at h
        obtain rfl := Option.some.inj h
        rw [hb.entry_unique hget hv] at hass
        refine .inr ⟨?_, rfl, hw.passes, hw.stopped, hw.cleaned⟩
        rw [state_setState, if_pos rfl, decide_eq_true hass]
      · rw [hb.registered, hw.state] at hmem
        simp at hmem
    -- It is queued, and so is not the session that runs.
    | _ => exact absurd hpend (hb.inv.disjoint (hb.inv.running id hinv).2)
  · have hby := bystander hb hle hinv h
    obtain ⟨hv', hpass⟩ := hby.entry v hv
    exact .inl ⟨hby.state.trans hw.state, hby.flagged hw.flagged, ⟨v, hv', hass⟩,
      hpass.trans hw.passes, hby.stopped.trans hw.stopped, hby.cleaned.trans hw.cleaned⟩

/-- A session that has raised `STOP` ends. -/
theorem Stops.step (hw : Stops s t id op) (hjoin : (t.session id).join = (s.session id).join)
    (hid : id ∈ s.sched.mgr.sessions) (hL : ¬L id) {a : Act} (hP : Handles L s t a)
    (h : t.step a = some t') : Gone s t' id := by
  have hcur {i} (hi : t.current = some i) : False := by
    obtain ⟨hctl, hst⟩ := current_eq_some.1 hi
    rw [← Ctl.running.inj (hw.ctl.symm.trans hctl), hw.state] at hst
    cases hst
  have hctl {c} (hc : t.sched.ctl = c) : c = .running id := hc.symm.trans hw.ctl
  cases a with
  | event handle args => exact absurd (hctl (step_event h).1) (by simp)
  | shutDown ids => exact absurd (hctl (step_shutDown h).1) (by simp)
  | start => exact absurd (hctl (step_start h).1) (by simp)
  | fetch again => exact absurd (hctl (step_fetch h).1) (by simp)
  | done => exact absurd (hctl (step_done h).1) (by simp)
  | spawn =>
    rcases (step_spawn h).1 with hc | ⟨i, hi⟩
    · exact absurd (hctl hc) (by simp)
    · exact (hcur hi).elim
  | block kind =>
    obtain ⟨i, hi, -⟩ := step_block h
    exact (hcur hi).elim
  | parallel n =>
    obtain ⟨i, hi, -⟩ := step_parallel h
    exact (hcur hi).elim
  | cooperate =>
    obtain ⟨i, hi, -⟩ := step_cooperate h
    exact (hcur hi).elim
  | close conn =>
    obtain ⟨i, hi, -⟩ := step_close h
    exact (hcur hi).elim
  | ret =>
    obtain ⟨i, hi, -⟩ := step_ret h
    exact (hcur hi).elim
  | throw falsy =>
    obtain ⟨i, hi, -⟩ := step_throw h
    exact (hcur hi).elim
  | rescue =>
    have hrun : t.running = some id := by rw [running, hw.ctl]
    -- It is not one of the sessions that catch errors.
    rcases hP id hrun with hl | hn
    · exact absurd hl hL
    · exact absurd hid hn
  | escape =>
    obtain ⟨i, op', hc, h⟩ := step_escape h
    obtain rfl := Ctl.running.inj (hw.ctl.symm.trans hc)
    rcases h with ⟨-, rfl⟩ | ⟨hst, -⟩
    · -- `STOP` comes out of its coroutine, and it is cleaned if it is a top-level session.
      obtain ⟨hstop, -, hclean⟩ := finish_counts t id
      refine ⟨?_, ?_, fun hj => ?_⟩
      · change ((t.finish id).session id).state = _
        rw [state_finish, if_pos rfl]
      · change (t.stopped ++ [id]).count id = _
        rw [List.count_append, List.count_singleton_self, hw.stopped]
      · change (t.finish id).cleaned.count id = _
        rw [hclean (hjoin.trans hj), List.count_append, List.count_singleton_self, hw.cleaned]
    · rw [hw.state] at hst
      simp at hst

/-- A session that has ended has ended. -/
theorem Gone.step (hw : Gone s t id) (hb : t.Base) (hle : id ≤ t.sched.mgr.nextId) {a : Act}
    (h : t.step a = some t') : Gone s t' id := by
  have hmem : id ∉ t.sched.mgr.sessions := by simp [hb.registered, hw.state]
  by_cases hinv : t.Involved id a
  · cases a with
    | fetch again =>
      obtain ⟨v, hget⟩ := hinv
      obtain ⟨-, id', v', hget', h⟩ := step_fetch h
      obtain ⟨rfl, rfl⟩ := Prod.mk.inj (Option.some.inj (hget.symm.trans hget'))
      rcases h with ⟨hm, -⟩ | ⟨-, rfl⟩
      · -- An entry of it that is left in the queue is passed over.
        exact absurd hm hmem
      · exact ⟨hw.state, hw.stopped, hw.cleaned⟩
    | _ => exact absurd (hb.inv.running id hinv).1 hmem
  · have hby := bystander hb hle hinv h
    exact ⟨hby.state.trans hw.state, hby.stopped.trans hw.stopped,
      fun hj => hby.cleaned.trans (hw.cleaned hj)⟩

/-- Every step after the shutdown keeps a session told. -/
theorem Told.step (ht : Told s t id op) (hb : t.Base) (hid : id ∈ s.sched.mgr.sessions)
    (hL : ¬L id) {a : Act} (hP : Handles L s t a) (h : t.step a = some t') : Told s t' id op := by
  have hk := kin hb h
  refine ⟨le_trans ht.le hk.nextId, (hk.root id ht.le).2.trans ht.join, ?_⟩
  rcases ht.stage with hw | hw | hw
  · exact (hw.step hb ht.le h).imp_right .inl
  · exact .inr (.inr (hw.step ht.join hid hL hP h))
  · exact .inr (.inr (hw.step hb ht.le h))

/-! ## The shutdown -/

theorem wakeOf_plan (s : Runtime) (id i : Nat) : (s.plan id).wakeOf i = s.wakeOf i := by
  unfold wakeOf plan Manager.planResume
  simp only
  split
  · rfl
  · simp only [List.find?_append]
    cases hf : s.sched.mgr.activeSessions.find? (·.1 = i) with
    | some e => rfl
    | none =>
      by_cases hi : id = i
      · simp [hi]
      · simp [hi]

/-- A queued session has an entry with the values it is planned with. -/
theorem entry_of_queued (h : id ∈ s.sched.mgr.queue) :
    ∃ v, (id, v) ∈ s.sched.mgr.activeSessions ∧ v.args = s.wakeOf id := by
  obtain ⟨⟨i, v⟩, hmem, rfl⟩ := List.mem_map.1 h
  cases hf : s.sched.mgr.activeSessions.find? (·.1 = i) with
  | none =>
    have := List.find?_eq_none.1 hf (i, v) hmem
    simp at this
  | some e =>
    have he : e.1 = i := by simpa using List.find?_some hf
    refine ⟨e.2, ?_, ?_⟩
    · rw [← he]
      exact List.mem_of_find?_eq_some hf
    · simp [wakeOf, hf]

theorem shutDown_eq (s : Runtime) (ids : List Nat) : ∃ mgr session,
    s.shutDown ids = { s with sched := { s.sched with mgr }, session } ∧
      mgr.sessions = s.sched.mgr.sessions := by
  induction ids generalizing s with
  | nil => exact ⟨_, _, rfl, rfl⟩
  | cons id ids ih =>
    obtain ⟨mgr, session, heq, hmgr⟩ := ih ((s.flag id).plan id)
    exact ⟨mgr, session, heq, hmgr.trans (Manager.planResume_sessions _)⟩

theorem wakeOf_shutDown (s : Runtime) (ids : List Nat) (i : Nat) :
    (s.shutDown ids).wakeOf i = s.wakeOf i := by
  induction ids generalizing s with
  | nil => rfl
  | cons id ids ih => exact (ih ((s.flag id).plan id)).trans (wakeOf_plan (s.flag id) id i)

/-- The sessions shut down are flagged and queued. -/
theorem mem_shutDown (hb : s.Base) {ids : List Nat} (hids : ∀ id ∈ ids, id ≤ s.sched.mgr.nextId)
    (hid : id ∈ ids) : ((s.shutDown ids).session id).gonnaShutDown = true ∧
      id ∈ (s.shutDown ids).sched.mgr.queue := by
  have hcons : ∀ (ids : List Nat) (s : Runtime), s.sched.mgr.Consistent →
      id ∈ s.sched.mgr.queue → id ∈ (s.shutDown ids).sched.mgr.queue := by
    intro ids
    induction ids with
    | nil => exact fun _ _ h => h
    | cons i ids ih =>
      intro s hm h
      exact ih ((s.flag i).plan i) (hm.planResume i _)
        (s.sched.mgr.queue_subset_planResume i _ h)
  induction ids generalizing s with
  | nil => exact absurd hid List.not_mem_nil
  | cons i ids ih =>
    have hb' : (s.flag i).Base := hb.congr rfl (state_flag s i) hb.watched hb.parents
    have hb₁ : ((s.flag i).plan i).Base := hb'.plan (hids i List.mem_cons_self) _
    have hids₁ : ∀ id ∈ ids, id ≤ ((s.flag i).plan i).sched.mgr.nextId := fun id h => by
      change id ≤ Manager.nextId (Manager.planResume _ _ _)
      rw [Manager.planResume_nextId]
      exact hids id (List.mem_cons_of_mem _ h)
    rcases List.mem_cons.1 hid with rfl | hid
    · have hflag : (((s.flag id).plan id).session id).gonnaShutDown = true := by
        simp [plan, flag]
      refine ⟨(Bystander.shutDown hb₁ hids₁ id).flagged hflag, ?_⟩
      exact hcons ids ((s.flag id).plan id) hb₁.inv.consistent
        (hb.inv.consistent.mem_queue_planResume id _)
    · exact ih hb₁ hids₁ hid

/-- The sessions shut down are to be resumed with the values they were planned with. -/
theorem entry_shutDown (hb : s.Base) (hctl : s.sched.ctl = .idle) {ids : List Nat}
    (hids : ids.Perm s.sched.mgr.sessions.keys) (hid : id ∈ s.sched.mgr.sessions) :
    ((s.shutDown ids).session id).gonnaShutDown = true ∧
      ∃ v, (id, v) ∈ (s.shutDown ids).entries ∧ v.args = s.wakeOf id := by
  obtain ⟨hflag, hq⟩ := mem_shutDown hb (fun i hi => hb.inv.consistent.le_nextId i
    (hids.mem_iff.1 hi)) (hids.mem_iff.2 hid)
  obtain ⟨v, hv, hargs⟩ := entry_of_queued hq
  obtain ⟨_, _, heq, -⟩ := shutDown_eq s ids
  have hcur : (s.shutDown ids).sched.cursor = 0 := by
    rw [heq]
    exact hb.inv.idle hctl
  refine ⟨hflag, v, ?_, hargs.trans (wakeOf_shutDown s ids id)⟩
  rw [entries, hcur]
  exact hv

theorem told_shutDown (hb : s.Base) (hctl : s.sched.ctl = .idle) {ids : List Nat}
    (hids : ids.Perm s.sched.mgr.sessions.keys) (hid : id ∈ s.sched.mgr.sessions)
    (hst : (s.session id).state = .waiting op) (hass : op.Asserts (s.wakeOf id)) :
    Told s (s.shutDown ids) id op := by
  have hby := Bystander.shutDown hb (fun i hi => hb.inv.consistent.le_nextId i
    (hids.mem_iff.1 hi)) id
  obtain ⟨hflag, v, hv, hargs⟩ := entry_shutDown hb hctl hids hid
  obtain ⟨_, _, heq, -⟩ := shutDown_eq s ids
  refine ⟨hby.le (hb.inv.consistent.le_nextId id hid), hby.join, .inl ⟨hby.state.trans hst, hflag,
    ⟨v, hv, hargs ▸ hass⟩, ?_, hby.stopped, hby.cleaned⟩⟩
  rw [heq]

theorem base_shutDown (hb : s.Base) {ids : List Nat} (hids : ids.Perm s.sched.mgr.sessions.keys) :
    (s.shutDown ids).Base :=
  hb.shutDown fun i hi => hb.inv.consistent.le_nextId i (hids.mem_iff.1 hi)

/-- If no session rejects the values it is resumed with, the shutdown is clean. -/
theorem shutsDown_of_asserts (hb : s.Base) (hr : s.Rooted) (hctl : s.sched.ctl = .idle)
    (hw : ∀ id ∈ s.sched.mgr.sessions, ∃ op, (s.session id).state = .waiting op) {ids : List Nat}
    (hids : ids.Perm s.sched.mgr.sessions.keys)
    (h : ∀ id ∈ s.sched.mgr.sessions, ¬L id → ∀ op, (s.session id).state = .waiting op →
      op.Asserts (s.wakeOf id)) : s.ShutsDown L ids := by
  intro as t hrun
  have hI : t.Base ∧ ∀ id ∈ s.sched.mgr.sessions, ¬L id → ∀ op,
      (s.session id).state = .waiting op → Told s t id op := by
    refine System.Run.invariant (I := fun t => t.Base ∧ ∀ id ∈ s.sched.mgr.sessions, ¬L id → ∀ op,
      (s.session id).state = .waiting op → Told s t id op) ?_ hrun
      ⟨base_shutDown hb hids, fun id hid hL op hst => ?_⟩
    · exact fun ⟨hb, ht⟩ hP hst => ⟨hb.step hst, fun id hid hL op hop =>
        (ht id hid hL op hop).step hb hid hL hP hst⟩
    · exact told_shutDown hb hctl hids hid hst (h id hid hL op hst)
  obtain ⟨hbt, ht⟩ := hI
  -- By the end of the pass, no session is left to be told.
  have hgone {id} (hid : id ∈ s.sched.mgr.sessions) (hL : ¬L id)
      (hlt : s.sched.passes < t.sched.passes) : Gone s t id := by
    obtain ⟨op, hst⟩ := hw id hid
    rcases (ht id hid hL op hst).stage with h | h | h
    · have := h.passes
      omega
    · have := h.passes
      omega
    · exact h
  intro id hid hL op hst
  refine ⟨?_, fun hlt => ⟨?_, (hgone hid hL hlt).stopped⟩, fun hlt hroot hLr => ?_⟩
  · rcases (ht id hid hL op hst).stage with h | h | h
    · exact .inl h.state
    · exact .inr (.inl h.state)
    · exact .inr (.inr h.state)
  · simp [hbt.registered, (hgone hid hL hlt).state]
  · exact (hgone hroot hLr hlt).cleaned (hr id ((hb.registered id).1 hid)).2.1

/-! ## The errors -/

theorem step_fetch_of_mem {v : Values} (hctl : t.sched.ctl = .loop)
    (hget : t.sched.mgr.activeSessions[t.sched.cursor]? = some (id, v))
    (hmem : id ∈ t.sched.mgr.sessions) (again : Bool) :
    t.step (.fetch again) = (t.fetched id v).resume id v.args again := by
  simp only [Runtime.step, hget, Sched.resume_of_fetch hctl hget hmem, if_pos hmem]
  rfl

theorem step_fetch_of_not_mem {v : Values} (hctl : t.sched.ctl = .loop)
    (hget : t.sched.mgr.activeSessions[t.sched.cursor]? = some (id, v))
    (hmem : id ∉ t.sched.mgr.sessions) (again : Bool) : t.step (.fetch again) =
      some { t with sched := { t.sched with cursor := t.sched.cursor + 1 } } := by
  simp only [Runtime.step, hget, Sched.skip_of_fetch hctl hget hmem, if_neg hmem]

theorem getElem?_of_entries {e : Nat × Values} {rest : List (Nat × Values)}
    (h : t.entries = e :: rest) : t.sched.mgr.activeSessions[t.sched.cursor]? = some e := by
  rw [← List.head?_drop]
  exact congrArg List.head? h

/-- When a coroutine ends, the queue is at most appended to. -/
theorem entries_finish (hb : t.Base) (id : Nat) :
    ∃ new, (t.finish id).entries = t.entries ++ new := by
  have hle : t.sched.cursor ≤ t.sched.mgr.activeSessions.length := by
    simpa [Manager.queue] using hb.inv.cursor_le
  obtain ⟨mgr, _, heq, hmgr⟩ := afterRun_eq t id
  have hent : (t.finish id).entries = mgr.activeSessions.drop t.sched.cursor := by
    change ((t.afterRun id).clean id).sched.mgr.activeSessions.drop
      ((t.afterRun id).clean id).sched.cursor = _
    rw [clean_sched, heq]
  rw [hent]
  rcases hmgr with rfl | ⟨parent, rfl⟩
  · exact ⟨[], (List.append_nil _).symm⟩
  · obtain ⟨new, hnew⟩ := t.sched.mgr.planResume_activeSessions parent
      (⟨.nothing, none⟩ : Values)
    exact ⟨new, by rw [hnew, List.drop_append_of_le_length hle]; rfl⟩

/-- A flagged session is resumed; the error it raises is caught or is `STOP`, and the
    pass goes on. -/
theorem exists_turn {v : Values} {rest : List (Nat × Values)} (hb : t.Base)
    (hctl : t.sched.ctl = .loop) (hent : t.entries = (id, v) :: rest)
    (hflag : (t.session id).gonnaShutDown = true) (hst : (t.session id).state = .waiting op)
    (hok : L id ∨ op.Asserts v.args) : ∃ as t' new, sys.Run (Handles L s) t as t' ∧
      t'.sched.ctl = .loop ∧ t'.entries = rest ++ new ∧
      ∀ i, i ≠ id → t'.session i = t.session i := by
  have hget := getElem?_of_entries hent
  have hmem : id ∈ t.sched.mgr.sessions := by simp [hb.registered, hst]
  have hrest : t.sched.mgr.activeSessions.drop (t.sched.cursor + 1) = rest := by
    rw [entries_eq_cons hget] at hent
    exact (List.cons.inj hent).2
  have h₁ : t.step (.fetch false) =
      some ((t.fetched id v).setState id (.raised op (decide (op.Asserts v.args)))) := by
    rw [step_fetch_of_mem hctl hget hmem]
    exact resume_of_flag (t := t.fetched id v) hst hflag v.args false
  have hraised : (((t.fetched id v).setState id
      (.raised op (decide (op.Asserts v.args)))).session id).state =
        .raised op (decide (op.Asserts v.args)) := by
    rw [state_setState, if_pos rfl]
  have hsess₁ {i} (hi : i ≠ id) : ((t.fetched id v).setState id
      (.raised op (decide (op.Asserts v.args)))).session i = t.session i :=
    Function.update_of_ne hi _ _
  generalize ht₁ : (t.fetched id v).setState id (.raised op (decide (op.Asserts v.args))) = t₁
    at h₁ hraised hsess₁
  have hctl₁ : t₁.sched.ctl = .running id := by rw [← ht₁]; rfl
  have hent₁ : t₁.entries = rest := by
    rw [← ht₁]
    exact hrest
  by_cases hl : L id
  · -- The error is caught, and the session waits again.
    have h₂ : t₁.step .rescue = some (t₁.setState id .user) := by
      simp only [Runtime.step, hctl₁, hraised]
    have h₃ : (t₁.setState id .user).step (.block .sleep) =
        some ((t₁.setState id .user).block id .sleep) := by
      have hcur : (t₁.setState id .user).current = some id :=
        current_eq_some.2 ⟨hctl₁, by rw [state_setState, if_pos rfl]⟩
      simp only [Runtime.step, hcur, Option.bind_some]
      exact if_pos trivial
    refine ⟨[.fetch false, .rescue, .block .sleep], _, [],
      .cons trivial h₁ (.cons (fun i hi => ?_) h₂ (.single trivial h₃)), rfl, ?_, fun i hi => ?_⟩
    · rw [running, hctl₁] at hi
      exact .inl (Option.some.inj hi ▸ hl)
    · rw [List.append_nil]
      exact hent₁
    · refine (Function.update_of_ne hi _ _).trans ((Function.update_of_ne hi _ _).trans (hsess₁ hi))
  · -- The error is `STOP`, and the session ends.
    rw [decide_eq_true (hok.resolve_left hl)] at hraised
    have h₂ : t₁.step .escape = some { t₁.finish id with stopped := t₁.stopped ++ [id] } := by
      simp only [Runtime.step, hctl₁, hraised]
    obtain ⟨new, hnew⟩ := entries_finish (hb.step h₁) id
    refine ⟨[.fetch false, .escape], _, new, .cons trivial h₁ (.single trivial h₂), rfl,
      hent₁ ▸ hnew, fun i hi => ?_⟩
    change (t₁.finish id).session i = _
    rw [finish_session, if_neg hi, hsess₁ hi]

/-- Where a session rejects the values it is to be resumed with, some session raises
    an error other than `STOP`. -/
theorem exists_error {v : Values} {post : List (Nat × Values)} (hid : id ∈ s.sched.mgr.sessions)
    (hL : ¬L id) (hrej : ¬op.Asserts v.args) (pre : List (Nat × Values)) (hb : t.Base)
    (hctl : t.sched.ctl = .loop) (hent : t.entries = pre ++ (id, v) :: post)
    (hpre : ∀ e ∈ pre, (t.session e.1).state = .absent ∨ (e.1 ∈ s.sched.mgr.sessions ∧
      (t.session e.1).gonnaShutDown = true ∧ ∃ op, (t.session e.1).state = .waiting op))
    (hflag : (t.session id).gonnaShutDown = true) (hst : (t.session id).state = .waiting op) :
    ∃ as t' i op', sys.Run (Handles L s) t as t' ∧ i ∈ s.sched.mgr.sessions ∧ ¬L i ∧
      (t'.session i).state = .raised op' false := by
  -- The session at the head of the queue, when it rejects its values.
  have hhead {t : Runtime} {i v op rest} (hb : t.Base) (hctl : t.sched.ctl = .loop)
      (hent : t.entries = (i, v) :: rest) (hflag : (t.session i).gonnaShutDown = true)
      (hst : (t.session i).state = .waiting op) (hrej : ¬op.Asserts v.args) :
      ∃ t', sys.Run (Handles L s) t [.fetch false] t' ∧
        (t'.session i).state = .raised op false := by
    have hget := getElem?_of_entries hent
    have hmem : i ∈ t.sched.mgr.sessions := by simp [hb.registered, hst]
    refine ⟨_, .single trivial ((step_fetch_of_mem hctl hget hmem false).trans
      (resume_of_flag (t := t.fetched i v) hst hflag v.args false)), ?_⟩
    rw [state_setState, if_pos rfl, decide_eq_false hrej]
  induction pre generalizing t post with
  | nil =>
    obtain ⟨t', hrun, hst'⟩ := hhead hb hctl hent hflag hst hrej
    exact ⟨_, t', id, op, hrun, hid, hL, hst'⟩
  | cons e pre ih =>
    obtain ⟨i, w⟩ := e
    have hnd := hb.entries_nodup
    rw [hent, List.cons_append, List.map_cons, List.nodup_cons] at hnd
    have hne {e : Nat × Values} (he : e ∈ pre ++ (id, v) :: post) : e.1 ≠ i := fun h => by
      have hmem := List.mem_map_of_mem (f := Prod.fst) he
      rw [h] at hmem
      exact hnd.1 hmem
    have hidne : id ≠ i := hne (List.mem_append_right _ List.mem_cons_self)
    rcases hpre (i, w) List.mem_cons_self with habs | ⟨hi, hfl, op', hwait⟩
    · -- The entry of an absent session is skipped.
      have hget := getElem?_of_entries hent
      have hstep := step_fetch_of_not_mem hctl hget (by simp [hb.registered, habs]) false
      obtain ⟨as, t', j, op', hrun, h⟩ := ih (hb.step hstep) hctl
        (List.cons.inj ((entries_eq_cons hget).symm.trans hent)).2
        (fun e he => hpre e (List.mem_cons_of_mem _ he)) hflag hst
      have hP : Handles L s t (.fetch false) := trivial
      exact ⟨_, t', j, op', .cons hP hstep hrun, h⟩
    · by_cases hok : L i ∨ op'.Asserts w.args
      · obtain ⟨as, t₁, new, hrun, hctl₁, hent₁, hsess⟩ :=
          exists_turn (s := s) hb hctl hent hfl hwait hok
        have hb₁ : t₁.Base := hrun.invariant (fun hI _ h => hI.step h) hb
        have hent₂ : t₁.entries = pre ++ (id, v) :: (post ++ new) := by simp [hent₁]
        obtain ⟨as', t', j, op', hrun', h⟩ := ih hb₁ hctl₁ hent₂
          (fun e he => by
            rw [hsess e.1 (hne (List.mem_append_left _ he))]
            exact hpre e (List.mem_cons_of_mem _ he))
          (by rw [hsess id hidne]; exact hflag) (by rw [hsess id hidne]; exact hst)
        exact ⟨_, t', j, op', hrun.trans hrun', h⟩
      · -- The session before it in the queue rejects its own values.
        obtain ⟨hLi, hrej'⟩ := not_or.1 hok
        obtain ⟨t', hrun, hst'⟩ := hhead hb hctl hent hfl hwait hrej'
        exact ⟨_, t', i, op', hrun, hi, hLi, hst'⟩

/-- The shutdown of the sessions of a reachable state, all of them suspended, is clean
    if and only if none of those that do not catch errors is to be resumed in
    `accept` without a file descriptor, or in `send` by a timeout. -/
theorem shutsDown_iff (hr : sys.Reachable s) (hctl : s.sched.ctl = .idle)
    (hw : ∀ id ∈ s.sched.mgr.sessions, ∃ op, (s.session id).state = .waiting op) {ids : List Nat}
    (hids : ids.Perm s.sched.mgr.sessions.keys) : s.ShutsDown L ids ↔
      ∀ id ∈ s.sched.mgr.sessions, ¬L id → ∀ op, (s.session id).state = .waiting op →
        op.Asserts (s.wakeOf id) := by
  have hb := base_of_reachable hr
  refine ⟨fun h id hid hL op hst => ?_, shutsDown_of_asserts hb (rooted_of_reachable hr) hctl hw hids⟩
  by_contra hrej
  have hb₀ := base_shutDown hb hids
  obtain ⟨mgr, session, heq, hmgr⟩ := shutDown_eq s ids
  have hstart : (s.shutDown ids).step .start = some { s.shutDown ids with
      sched := { (s.shutDown ids).sched with ctl := .loop } } := by
    have : (s.shutDown ids).sched.ctl = .idle := by rw [heq]; exact hctl
    simp [Runtime.step, Sched.step, this]
  obtain ⟨hflag, v, hv, hargs⟩ := entry_shutDown hb hctl hids hid
  obtain ⟨pre, post, hent⟩ := List.append_of_mem hv
  have hstate i : ((s.shutDown ids).session i).state = (s.session i).state :=
    (Bystander.shutDown hb (fun i hi => hb.inv.consistent.le_nextId i (hids.mem_iff.1 hi)) i).state
  have hpre e (_ : e ∈ pre) : ((s.shutDown ids).session e.1).state = .absent ∨
      (e.1 ∈ s.sched.mgr.sessions ∧ ((s.shutDown ids).session e.1).gonnaShutDown = true ∧
        ∃ op, ((s.shutDown ids).session e.1).state = .waiting op) := by
    by_cases he : e.1 ∈ s.sched.mgr.sessions
    · obtain ⟨opi, hopi⟩ := hw e.1 he
      exact .inr ⟨he, (entry_shutDown hb hctl hids he).1, opi, (hstate e.1).trans hopi⟩
    · exact .inl ((hstate e.1).trans (by simpa [hb.registered] using he))
  obtain ⟨as, t, i, op', hrun, hi, hLi, hst'⟩ := exists_error hid hL (hargs ▸ hrej) pre
    (hb₀.step hstart) rfl hent hpre hflag ((hstate id).trans hst)
  obtain ⟨opi, hopi⟩ := hw i hi
  have hP : Handles L s (s.shutDown ids) .start := trivial
  have hleave := (h _ t (.cons hP hstart hrun) i hi hLi opi hopi).state
  rw [hst'] at hleave
  simp at hleave

/-- A user session in `sleep`, another one in `parallel`, and its child in `receive`. -/
theorem shutsDown_three : ∃ s, sys.Reachable s ∧ s.sched.mgr.sessions.keys.Perm [1, 2, 3] ∧
    s.ShutsDown (fun _ => False) [1, 2, 3] := by
  obtain ⟨s, hrun, hs⟩ := System.exists_run_of_exec sys start
    [.spawn, .spawn, .start, .fetch false, .block .sleep, .fetch false, .parallel 1, .fetch false,
      .block (.receive none), .done]
    (fun s => decide (s.sched.ctl = .idle ∧ [1, 2, 3].Perm s.sched.mgr.sessions.keys ∧
      (s.session 1).state = .waiting (.watch .sleep 0) ∧
      (s.session 2).state = .waiting (.parallel 0) ∧
      (s.session 3).state = .waiting (.watch (.receive none) 1))) (by decide +kernel)
  obtain ⟨hctl, hids, h₁, h₂, h₃⟩ := of_decide_eq_true hs
  have hr : sys.Reachable s := System.ReachableBy.run (.init rfl) hrun
  have hmem {id} (h : id ∈ s.sched.mgr.sessions) : id = 1 ∨ id = 2 ∨ id = 3 := by
    simpa using hids.mem_iff.2 h
  refine ⟨s, hr, hids.symm, (shutsDown_iff hr hctl (fun id hid => ?_) hids).2
    fun id hid _ op hop => ?_⟩
  · rcases hmem hid with rfl | rfl | rfl
    · exact ⟨_, h₁⟩
    · exact ⟨_, h₂⟩
    · exact ⟨_, h₃⟩
  · rcases hmem hid with rfl | rfl | rfl
    · obtain rfl : .watch .sleep 0 = op := by simpa [h₁] using hop
      trivial
    · obtain rfl : .parallel 0 = op := by simpa [h₂] using hop
      trivial
    · obtain rfl : .watch (.receive none) 1 = op := by simpa [h₃] using hop
      trivial

/-- An acceptor, which waits for a connection when the shutdown comes: the error its
    assertion raises ends the pass, and the process. -/
theorem acceptor_not_shutDown : ∃ s, sys.Reachable s ∧ s.sched.ctl = .idle ∧
    s.sched.mgr.sessions.keys = [1] ∧ (s.session 1).state = .waiting (.watch .accept 0) ∧
    (∃ t, sys.Run (Handles (fun _ => False) s) (s.shutDown [1]) [.start, .fetch false, .escape] t ∧
      t.sched.ctl = .exited) ∧ ¬s.ShutsDown (fun _ => False) [1] := by
  obtain ⟨s, hrun, hs⟩ := System.exists_run_of_exec sys start
    [.spawn, .start, .fetch false, .block .accept, .done]
    (fun s => decide (s.sched.ctl = .idle ∧ s.sched.mgr.sessions.keys = [1] ∧
      (s.session 1).state = .waiting (.watch .accept 0) ∧
      (sys.execBy (Handles (fun _ => False) s) (s.shutDown [1]) [.start, .fetch false, .escape]).any
        (fun t => t.sched.ctl = .exited) ∧
      (sys.execBy (Handles (fun _ => False) s) (s.shutDown [1]) [.start, .fetch false]).any
        (fun t => (t.session 1).state = .raised (.watch .accept 0) false))) (by decide +kernel)
  obtain ⟨hctl, hkeys, hst, hexit, hraise⟩ := of_decide_eq_true hs
  obtain ⟨t, ht, hexit⟩ := System.exists_run_of_execBy sys _ _ _ _ hexit
  refine ⟨s, System.ReachableBy.run (.init rfl) hrun, hctl, hkeys, hst,
    ⟨t, ht, of_decide_eq_true hexit⟩, fun h => ?_⟩
  obtain ⟨t', ht', hraise⟩ := System.exists_run_of_execBy sys _ _ _ _ hraise
  have hmem : 1 ∈ s.sched.mgr.sessions := by
    change 1 ∈ s.sched.mgr.sessions.keys
    rw [hkeys]
    exact List.mem_singleton_self 1
  have hleave := (h _ t' ht' 1 hmem not_false _ hst).state
  rw [of_decide_eq_true hraise] at hleave
  simp at hleave

end Mistress.Runtime
