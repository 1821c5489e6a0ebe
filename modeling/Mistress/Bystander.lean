import Mistress.Runtime

/-!
# Bystanders

A step is the turn of one session at most. What it leaves alone of the others is
the same for all steps (`bystander`): what they are doing, whether they are to be
resumed and with which values, and what they have been through.

No step changes the family a session belongs to (`kin`).
-/

namespace Mistress.Runtime

open Transition

variable {s s' s'' : Runtime} {id i : Nat}

/-! ## The bystanders of a step -/

/-- The entries of the queue the loop has yet to fetch. -/
def entries (s : Runtime) : List (Nat × Values) := s.sched.mgr.activeSessions.drop s.sched.cursor

theorem entries_eq_cons {v : Values}
    (hget : s.sched.mgr.activeSessions[s.sched.cursor]? = some (id, v)) :
    s.entries = (id, v) :: s.sched.mgr.activeSessions.drop (s.sched.cursor + 1) := by
  obtain ⟨hlt, heq⟩ := List.getElem?_eq_some_iff.1 hget
  rw [entries, List.drop_eq_getElem_cons hlt, heq]

theorem pending_eq_entries (s : Runtime) : s.sched.pending = s.entries.map Prod.fst := by
  rw [Sched.pending, Manager.queue, entries, List.map_drop]

/-- The entries of the queue have different ids. -/
theorem Base.entries_nodup (hb : s.Base) : (s.entries.map Prod.fst).Nodup := by
  rw [← pending_eq_entries]
  exact (List.drop_sublist _ _).nodup hb.inv.consistent.nodup

/-- What a step leaves alone of a session that takes no part in it. -/
structure Bystander (i : Nat) (s s' : Runtime) : Prop where
  le : i ≤ s.sched.mgr.nextId → i ≤ s'.sched.mgr.nextId
  state : (s'.session i).state = (s.session i).state
  join : (s'.session i).join = (s.session i).join
  flagged : (s.session i).gonnaShutDown = true → (s'.session i).gonnaShutDown = true
  /-- It stays queued, and the pass goes on, -/
  entry : ∀ v, (i, v) ∈ s.entries → (i, v) ∈ s'.entries ∧ s'.sched.passes = s.sched.passes
  /-- and it is neither stopped nor cleaned. -/
  stopped : s'.stopped.count i = s.stopped.count i
  cleaned : s'.cleaned.count i = s.cleaned.count i

theorem Bystander.refl (i : Nat) (s : Runtime) : Bystander i s s :=
  ⟨id, rfl, rfl, id, fun _ hv => ⟨hv, rfl⟩, rfl, rfl⟩

theorem Bystander.trans (h : Bystander i s s') (h' : Bystander i s' s'') : Bystander i s s'' where
  le := h'.le ∘ h.le
  state := h'.state.trans h.state
  join := h'.join.trans h.join
  flagged := h'.flagged ∘ h.flagged
  entry v hv := by
    obtain ⟨hv', hp⟩ := h.entry v hv
    obtain ⟨hv'', hp'⟩ := h'.entry v hv'
    exact ⟨hv'', hp'.trans hp⟩
  stopped := h'.stopped.trans h.stopped
  cleaned := h'.cleaned.trans h.cleaned

/-- What changes neither the queue nor the session. -/
theorem Bystander.of_eq (hid : s'.sched.mgr.nextId = s.sched.mgr.nextId)
    (hqueue : s'.sched.mgr.activeSessions = s.sched.mgr.activeSessions)
    (hcursor : s'.sched.cursor = s.sched.cursor) (hpass : s'.sched.passes = s.sched.passes)
    (hsess : s'.session i = s.session i) (hstop : s'.stopped.count i = s.stopped.count i)
    (hclean : s'.cleaned.count i = s.cleaned.count i) : Bystander i s s' := by
  refine ⟨?_, by rw [hsess], by rw [hsess], by rw [hsess]; exact id, fun v hv => ⟨?_, hpass⟩, hstop,
    hclean⟩
  · rw [hid]
    exact id
  · rw [entries, hqueue, hcursor]
    exact hv

theorem Bystander.suspend (hi : i ≠ id) (op : Op) : Bystander i s (s.suspend id op) :=
  of_eq rfl rfl rfl rfl (Function.update_of_ne hi _ _) rfl rfl

theorem Bystander.setState (hi : i ≠ id) (st : SState) : Bystander i s (s.setState id st) :=
  of_eq rfl rfl rfl rfl (Function.update_of_ne hi _ _) rfl rfl

theorem Bystander.block (hi : i ≠ id) (kind : WatcherKind) : Bystander i s (s.block id kind) :=
  of_eq rfl rfl rfl rfl (Function.update_of_ne hi _ _) rfl rfl

/-- A session is planned. -/
theorem Bystander.plan (hb : s.Base) (id : Nat) (v : Values) (i : Nat) : Bystander i s
    { s with sched := { s.sched with mgr := s.sched.mgr.planResume id v } } := by
  obtain ⟨new, hnew⟩ := s.sched.mgr.planResume_activeSessions id v
  have hle : s.sched.cursor ≤ s.sched.mgr.activeSessions.length := by
    simpa [Manager.queue] using hb.inv.cursor_le
  refine ⟨fun h => ?_, rfl, rfl, fun h => h, fun v hv => ⟨?_, rfl⟩, rfl, rfl⟩
  · rw [Manager.planResume_nextId]
    exact h
  · rw [entries, hnew, List.drop_append_of_le_length hle]
    exact List.mem_append_left _ hv

theorem Bystander.spawn (hb : s.Base) (hi : i ≤ s.sched.mgr.nextId) (root : Nat)
    (join : Option Nat) : Bystander i s (s.spawn root join) := by
  obtain ⟨new, hnew⟩ := (s.sched.mgr.register fun _ => ()).planResume_activeSessions
    (s.sched.mgr.nextId + 1) (⟨.nothing, none⟩ : Values)
  have hle : s.sched.cursor ≤ s.sched.mgr.activeSessions.length := by
    simpa [Manager.queue] using hb.inv.cursor_le
  have hsess : (s.spawn root join).session i = s.session i := by
    rw [spawn_session, if_neg (by omega)]
  refine ⟨fun h => ?_, by rw [hsess], by rw [hsess], by rw [hsess]; exact id, fun v hv => ⟨?_, rfl⟩,
    rfl, rfl⟩
  · rw [spawn_nextId]
    omega
  · change (i, v) ∈ (Manager.planResume _ _ _).activeSessions.drop s.sched.cursor
    rw [hnew]
    exact (List.drop_append_of_le_length hle).symm ▸ List.mem_append_left _ hv

theorem Bystander.spawnChildren (hb : s.Base) (hi : i ≤ s.sched.mgr.nextId) (root join n : Nat) :
    Bystander i s (s.spawnChildren root join n) := by
  induction n generalizing s with
  | zero => exact .refl i s
  | succ n ih =>
    have h := Bystander.spawn hb hi root (some join)
    exact h.trans (ih (hb.spawn root (some join)) (h.le hi))

theorem Bystander.parallel (hb : s.Base) (hi : i ≤ s.sched.mgr.nextId) (hne : i ≠ id) (n : Nat) :
    Bystander i s (s.parallel id n) := by
  have h := Bystander.spawnChildren hb hi (s.session id).root s.nextJoin n
  exact (h.trans (.suspend hne (.parallel s.nextJoin))).trans
    (of_eq rfl rfl rfl rfl rfl rfl rfl)

theorem Bystander.afterRun (hb : s.Base) (id i : Nat) : Bystander i s (s.afterRun id) := by
  unfold Runtime.afterRun
  split
  · exact .refl i s
  · simp only
    split
    · exact Bystander.plan hb _ ⟨.nothing, none⟩ i |>.trans (of_eq rfl rfl rfl rfl rfl rfl rfl)
    · exact of_eq rfl rfl rfl rfl rfl rfl rfl

theorem Bystander.clean (hi : i ≠ id) : Bystander i s (s.clean id) := by
  unfold Runtime.clean
  split
  · exact .refl i s
  · refine of_eq rfl rfl rfl rfl rfl rfl ?_
    simp [List.count_append, hi.symm]

theorem Bystander.quit (hi : i ≠ id) : Bystander i s (s.quit id) :=
  (Bystander.clean hi).trans (of_eq rfl rfl rfl rfl (Function.update_of_ne hi _ _) rfl rfl)

theorem Bystander.finish (hb : s.Base) (hi : i ≠ id) : Bystander i s (s.finish id) :=
  (Bystander.afterRun hb id i).trans (.quit hi)

theorem Bystander.fail (hi : i ≠ id) : Bystander i s (s.fail id) :=
  have h := Bystander.clean (s := s) hi
  of_eq rfl rfl rfl rfl (congrFun (clean_session s id) i) h.stopped h.cleaned

theorem Bystander.release (s : Runtime) (id : Nat) (op : Op) (d c : Bool) (i : Nat) :
    Bystander i s (s.release id op d c) := by
  obtain ⟨_, _, _, -, h⟩ := release_eq s id op d c
  rw [h]
  exact of_eq rfl rfl rfl rfl rfl rfl rfl

theorem Bystander.returns (hi : i ≠ id) (op : Op) : Bystander i s (s.returns id op) := by
  unfold Runtime.returns
  split
  · exact of_eq rfl rfl rfl rfl (Function.update_of_ne hi _ _) rfl rfl
  · exact .setState hi _

theorem Bystander.resume (hi : i ≠ id) {args : Wake} {again : Bool}
    (h : s.resume id args again = some s') : Bystander i s s' := by
  rcases resume_cases h with ⟨-, rfl⟩ | ⟨op, -, ⟨-, rfl⟩ | rfl⟩
  · exact of_eq rfl rfl rfl rfl (Function.update_of_ne hi _ _) rfl rfl
  · exact of_eq rfl rfl rfl rfl rfl rfl rfl
  · rcases resumeOp_cases s id op args again with ⟨stop, -, h'⟩ | ⟨-, h'⟩ | ⟨d, c, -, h'⟩
    · exact h' ▸ .setState hi _
    · exact h' ▸ .suspend hi op
    · have hr := Bystander.release s id op d c i
      rcases h' with h' | ⟨conn, _, -, h'⟩
      · exact h' ▸ hr.trans (.returns hi op)
      · exact h' ▸ hr.trans (.block hi _)

/-- A shutdown flags and plans the sessions. -/
theorem Bystander.shutDown (hb : s.Base) {ids : List Nat} (hids : ∀ id ∈ ids, id ≤ s.sched.mgr.nextId)
    (i : Nat) : Bystander i s (s.shutDown ids) := by
  induction ids generalizing s with
  | nil => exact .refl i s
  | cons id ids ih =>
    have hf : Bystander i s (s.flag id) := by
      refine ⟨fun h => h, state_flag s id i, ?_, fun h => ?_, fun v hv => ⟨hv, rfl⟩, rfl, rfl⟩
      all_goals
        simp only [flag, Function.update_apply]
        split
      · rw [‹i = id›]
      · rfl
      · rfl
      · exact h
    have hb' : (s.flag id).Base := hb.congr rfl (state_flag s id) hb.watched hb.parents
    refine (hf.trans (.plan hb' id ⟨.nothing, none⟩ i)).trans (ih ?_ fun i hi => ?_)
    · exact hb'.plan (hids id List.mem_cons_self) _
    · change i ≤ Manager.nextId (Manager.planResume _ _ _)
      rw [Manager.planResume_nextId]
      exact hids i (List.mem_cons_of_mem _ hi)

/-- Who takes part in a step: the running session, or the one fetched. -/
def Involved (s : Runtime) (i : Nat) : Act → Prop
  | .fetch _ => ∃ v, s.sched.mgr.activeSessions[s.sched.cursor]? = some (i, v)
  | _ => s.sched.ctl = .running i

/-- The other sessions are bystanders. -/
theorem bystander (hb : s.Base) (hi : i ≤ s.sched.mgr.nextId) {a : Act} (hinv : ¬s.Involved i a)
    (h : s.step a = some s') : Bystander i s s' := by
  have hcur {id} (hn : ¬s.sched.ctl = .running i) (hid : s.current = some id) : i ≠ id := by
    rintro rfl
    exact hn (current_eq_some.1 hid).1
  have hrun {id} (hn : ¬s.sched.ctl = .running i) (hid : s.sched.ctl = .running id) : i ≠ id := by
    rintro rfl
    exact hn hid
  cases a with
  | event handle args =>
    obtain ⟨-, w, -, -, -, rfl⟩ := step_event h
    exact (Bystander.plan hb w.id ⟨args, some w.handle⟩ i).trans (.of_eq rfl rfl rfl rfl rfl rfl rfl)
  | shutDown ids =>
    obtain ⟨-, hperm, rfl⟩ := step_shutDown h
    exact .shutDown hb (fun id hid => hb.inv.consistent.le_nextId id (hperm.mem_iff.1 hid)) i
  | start =>
    obtain ⟨-, rfl⟩ := step_start h
    exact .of_eq rfl rfl rfl rfl rfl rfl rfl
  | fetch again =>
    obtain ⟨hctl, id, v, hget, h⟩ := step_fetch h
    have hne : i ≠ id := by
      rintro rfl
      exact hinv ⟨v, hget⟩
    -- The other entries are left in the queue.
    have htail {v'} (hv : (i, v') ∈ s.entries) :
        (i, v') ∈ s.sched.mgr.activeSessions.drop (s.sched.cursor + 1) := by
      rw [entries_eq_cons hget, List.mem_cons] at hv
      exact hv.resolve_left fun h => hne (congrArg Prod.fst h)
    rcases h with ⟨-, h⟩ | ⟨-, rfl⟩
    · have hf : Bystander i s (s.fetched id v) :=
        ⟨fun h => h, rfl, rfl, fun h => h, fun v' hv => ⟨htail hv, rfl⟩, rfl, rfl⟩
      exact hf.trans (.resume hne h)
    · exact ⟨fun h => h, rfl, rfl, fun h => h, fun v' hv => ⟨htail hv, rfl⟩, rfl, rfl⟩
  | done =>
    obtain ⟨-, hle, rfl⟩ := step_done h
    refine ⟨fun h => h, rfl, rfl, fun h => h, fun v hv => ?_, rfl, rfl⟩
    -- The pass ends when there is nothing left to be fetched.
    rw [entries, List.drop_eq_nil_of_le hle] at hv
    exact absurd hv List.not_mem_nil
  | spawn =>
    obtain ⟨-, rfl⟩ := step_spawn h
    exact .spawn hb hi _ _
  | block kind =>
    obtain ⟨id, hid, -, rfl⟩ := step_block h
    exact .block (hcur hinv hid) kind
  | parallel n =>
    obtain ⟨id, hid, rfl⟩ := step_parallel h
    exact .parallel hb hi (hcur hinv hid) n
  | cooperate =>
    obtain ⟨id, hid, rfl⟩ := step_cooperate h
    exact (Bystander.plan hb id ⟨.nothing, none⟩ i).trans (.suspend (hcur hinv hid) _)
  | close conn =>
    obtain ⟨id, -, -, -, rfl⟩ := step_close h
    exact .of_eq rfl rfl rfl rfl rfl rfl rfl
  | ret =>
    obtain ⟨id, hid, rfl⟩ := step_ret h
    exact .finish hb (hcur hinv hid)
  | throw falsy =>
    obtain ⟨id, hid, ⟨-, rfl⟩ | ⟨-, rfl⟩⟩ := step_throw h
    · exact .quit (hcur hinv hid)
    · exact .fail (hcur hinv hid)
  | rescue =>
    obtain ⟨id, op, stop, hid, -, rfl⟩ := step_rescue h
    exact .setState (hrun hinv hid) _
  | escape =>
    obtain ⟨id, op, hid, ⟨-, rfl⟩ | ⟨-, rfl⟩⟩ := step_escape h
    · refine (Bystander.finish hb (hrun hinv hid)).trans (.of_eq rfl rfl rfl rfl rfl ?_ rfl)
      simp only
      -- The one that is stopped is another session.
      have hstop : (s.finish id).stopped = s.stopped := by
        obtain ⟨_, _, heq, -⟩ := afterRun_eq s id
        obtain ⟨_, _, _, _, -, heq'⟩ := clean_eq (s.afterRun id) id
        change ((s.afterRun id).clean id).stopped = _
        rw [heq', heq]
      rw [hstop]
      simp [List.count_append, (hrun hinv hid).symm]
    · exact .fail (hrun hinv hid)

/-! ## Families -/

/-- The sessions there are keep their families, and none comes back. -/
structure Kin (s s' : Runtime) : Prop where
  nextId : s.sched.mgr.nextId ≤ s'.sched.mgr.nextId
  root : ∀ i ≤ s.sched.mgr.nextId, (s'.session i).root = (s.session i).root ∧
    (s'.session i).join = (s.session i).join
  absent : ∀ i ≤ s.sched.mgr.nextId, (s.session i).state = .absent → (s'.session i).state = .absent

theorem Kin.trans (h : Kin s s') (h' : Kin s' s'') : Kin s s'' where
  nextId := le_trans h.nextId h'.nextId
  root i hi := by
    obtain ⟨hr, hj⟩ := h.root i hi
    obtain ⟨hr', hj'⟩ := h'.root i (le_trans hi h.nextId)
    exact ⟨hr'.trans hr, hj'.trans hj⟩
  absent i hi ha := h'.absent i (le_trans hi h.nextId) (h.absent i hi ha)

theorem Kin.of_eq (hid : s'.sched.mgr.nextId = s.sched.mgr.nextId) (hsess : s'.session = s.session) :
    Kin s s' :=
  ⟨Nat.le_of_eq hid.symm, fun i _ => by rw [hsess]; exact ⟨rfl, rfl⟩, fun i _ h => by rwa [hsess]⟩

/-- A session that is registered goes on to another state. -/
theorem Kin.update {st : SState} (hid : s'.sched.mgr.nextId = s.sched.mgr.nextId)
    (hsess : s'.session = Function.update s.session id { s.session id with state := st })
    (h : (s.session id).state ≠ .absent) : Kin s s' := by
  refine ⟨Nat.le_of_eq hid.symm, fun i _ => ?_, fun i _ ha => ?_⟩
  all_goals
    rw [hsess, Function.update_apply]
    split
  · subst ‹i = id›
    exact ⟨rfl, rfl⟩
  · exact ⟨rfl, rfl⟩
  · exact absurd (‹i = id› ▸ ha) h
  · exact ha

theorem Kin.spawn (s : Runtime) (root : Nat) (join : Option Nat) : Kin s (s.spawn root join) := by
  refine ⟨by rw [spawn_nextId]; omega, fun i hi => ?_, fun i hi h => ?_⟩
  · rw [spawn_session, if_neg (by omega)]
    exact ⟨rfl, rfl⟩
  · rw [spawn_session, if_neg (by omega)]
    exact h

theorem Kin.spawnChildren (s : Runtime) (root join n : Nat) :
    Kin s (s.spawnChildren root join n) := by
  induction n generalizing s with
  | zero => exact .of_eq rfl rfl
  | succ n ih => exact (Kin.spawn s root (some join)).trans (ih _)

theorem Kin.quit (h : (s.session id).state ≠ .absent) : Kin s (s.quit id) := by
  have hsess : (s.quit id).session =
      Function.update s.session id { s.session id with state := .absent } := by
    change Function.update (s.clean id).session id
      { (s.clean id).session id with state := _ } = _
    rw [clean_session]
  exact .update (quit_nextId s id) hsess h

theorem Kin.finish (h : (s.session id).state ≠ .absent) : Kin s (s.finish id) := by
  obtain ⟨_, _, heq, -⟩ := afterRun_eq s id
  have hsess : (s.afterRun id).session = s.session := by rw [heq]
  exact (Kin.of_eq (afterRun_nextId s id) hsess).trans (.quit (by rwa [hsess]))

theorem Kin.fail (s : Runtime) (id : Nat) : Kin s (s.fail id) :=
  .of_eq rfl (clean_session s id)

theorem Kin.resume (h : (s.session id).state ≠ .absent) {args : Wake} {again : Bool}
    (hr : s.resume id args again = some s') : Kin s s' := by
  rcases resume_cases hr with ⟨-, rfl⟩ | ⟨op, -, ⟨-, rfl⟩ | rfl⟩
  · exact .update rfl rfl h
  · exact .of_eq rfl rfl
  · rcases resumeOp_cases s id op args again with ⟨stop, -, h'⟩ | ⟨-, h'⟩ | ⟨d, c, -, h'⟩
    · exact h' ▸ .update rfl rfl h
    · exact h' ▸ .update rfl rfl h
    · obtain ⟨_, _, _, -, heq⟩ := release_eq s id op d c
      rcases h' with h' | ⟨conn, _, -, h'⟩
      · rw [h', heq]
        unfold Runtime.returns
        split
        · exact .update rfl rfl h
        · exact .update rfl rfl h
      · rw [h', heq]
        exact .update rfl rfl h

theorem Kin.shutDown (s : Runtime) (ids : List Nat) : Kin s (s.shutDown ids) := by
  induction ids generalizing s with
  | nil => exact .of_eq rfl rfl
  | cons id ids ih =>
    have hf : Kin s (s.flag id) := by
      refine ⟨le_rfl, fun i _ => ?_, fun i _ h => (state_flag s id i).trans h⟩
      simp only [flag, Function.update_apply]
      split
      · subst ‹i = id›
        exact ⟨rfl, rfl⟩
      · exact ⟨rfl, rfl⟩
    have hp : Kin (s.flag id) ((s.flag id).plan id) := .of_eq (Manager.planResume_nextId _) rfl
    exact (hf.trans hp).trans (ih ((s.flag id).plan id))

/-- No step changes the family of a session. -/
theorem kin (hb : s.Base) {a : Act} (h : s.step a = some s') : Kin s s' := by
  have hcur {id} (hid : s.current = some id) : (s.session id).state ≠ .absent := by
    rw [(current_eq_some.1 hid).2]
    simp
  cases a with
  | event handle args =>
    obtain ⟨-, w, -, -, -, rfl⟩ := step_event h
    exact .of_eq (Manager.planResume_nextId _) rfl
  | shutDown ids =>
    obtain ⟨-, -, rfl⟩ := step_shutDown h
    exact .shutDown s ids
  | start =>
    obtain ⟨-, rfl⟩ := step_start h
    exact .of_eq rfl rfl
  | fetch again =>
    obtain ⟨-, id, v, -, ⟨hmem, h⟩ | ⟨-, rfl⟩⟩ := step_fetch h
    · have hf : Kin s (s.fetched id v) := .of_eq rfl rfl
      exact hf.trans (.resume ((hb.registered id).1 hmem) h)
    · exact .of_eq rfl rfl
  | done =>
    obtain ⟨-, -, rfl⟩ := step_done h
    exact .of_eq rfl rfl
  | spawn =>
    obtain ⟨-, rfl⟩ := step_spawn h
    exact .spawn s _ _
  | block kind =>
    obtain ⟨id, hid, -, rfl⟩ := step_block h
    exact .update rfl rfl (hcur hid)
  | parallel n =>
    obtain ⟨id, hid, rfl⟩ := step_parallel h
    have hc := Kin.spawnChildren s (s.session id).root s.nextJoin n
    refine hc.trans (.update rfl rfl ?_)
    have hle := hb.inv.consistent.le_nextId id (hb.inv.running id (current_eq_some.1 hid).1).1
    -- The parent is not one of the sessions created.
    rw [spawnChildren_of_le hle]
    exact hcur hid
  | cooperate =>
    obtain ⟨id, hid, rfl⟩ := step_cooperate h
    exact .update (Manager.planResume_nextId _) rfl (hcur hid)
  | close conn =>
    obtain ⟨id, -, -, -, rfl⟩ := step_close h
    exact .of_eq rfl rfl
  | ret =>
    obtain ⟨id, hid, rfl⟩ := step_ret h
    exact .finish (hcur hid)
  | throw falsy =>
    obtain ⟨id, hid, ⟨-, rfl⟩ | ⟨-, rfl⟩⟩ := step_throw h
    · exact .quit (hcur hid)
    · exact .fail s id
  | rescue =>
    obtain ⟨id, op, stop, -, hst, rfl⟩ := step_rescue h
    exact .update rfl rfl (by simp [hst])
  | escape =>
    obtain ⟨id, op, -, ⟨hst, rfl⟩ | ⟨-, rfl⟩⟩ := step_escape h
    · exact (Kin.finish (by simp [hst])).trans (.of_eq rfl rfl)
    · exact .fail s id

theorem resume_nextId {args : Wake} {again : Bool} (hr : s.resume id args again = some s') :
    s'.sched.mgr.nextId = s.sched.mgr.nextId := by
  rcases resume_cases hr with ⟨-, rfl⟩ | ⟨op, -, ⟨-, rfl⟩ | rfl⟩
  · rfl
  · rfl
  · rcases resumeOp_cases s id op args again with ⟨stop, -, h'⟩ | ⟨-, h'⟩ | ⟨d, c, -, h'⟩
    · rw [h']
      rfl
    · rw [h']
      rfl
    · obtain ⟨_, _, _, -, heq⟩ := release_eq s id op d c
      rcases h' with h' | ⟨conn, _, -, h'⟩ <;> rw [h', heq]
      · unfold Runtime.returns
        split <;> rfl
      · rfl

theorem shutDown_nextId (s : Runtime) (ids : List Nat) :
    (s.shutDown ids).sched.mgr.nextId = s.sched.mgr.nextId := by
  induction ids generalizing s with
  | nil => rfl
  | cons id ids ih => exact (ih ((s.flag id).plan id)).trans (Manager.planResume_nextId _)

/-- Sessions are created by two actions only. -/
theorem nextId_cases {a : Act} (h : s.step a = some s') :
    s'.sched.mgr.nextId = s.sched.mgr.nextId ∨ s' = s.spawn (s.sched.mgr.nextId + 1) none ∨
      ∃ id n, s.current = some id ∧ s' = s.parallel id n := by
  cases a with
  | event handle args =>
    obtain ⟨-, w, -, -, -, rfl⟩ := step_event h
    exact .inl (Manager.planResume_nextId _)
  | shutDown ids =>
    obtain ⟨-, -, rfl⟩ := step_shutDown h
    exact .inl (shutDown_nextId s ids)
  | start =>
    obtain ⟨-, rfl⟩ := step_start h
    exact .inl rfl
  | fetch again =>
    obtain ⟨-, id, v, -, ⟨-, h⟩ | ⟨-, rfl⟩⟩ := step_fetch h
    · exact .inl ((resume_nextId h).trans rfl)
    · exact .inl rfl
  | done =>
    obtain ⟨-, -, rfl⟩ := step_done h
    exact .inl rfl
  | spawn =>
    obtain ⟨-, rfl⟩ := step_spawn h
    exact .inr (.inl rfl)
  | block kind =>
    obtain ⟨id, -, -, rfl⟩ := step_block h
    exact .inl rfl
  | parallel n =>
    obtain ⟨id, hid, rfl⟩ := step_parallel h
    exact .inr (.inr ⟨id, n, hid, rfl⟩)
  | cooperate =>
    obtain ⟨id, -, rfl⟩ := step_cooperate h
    exact .inl (Manager.planResume_nextId _)
  | close conn =>
    obtain ⟨id, -, -, -, rfl⟩ := step_close h
    exact .inl rfl
  | ret =>
    obtain ⟨id, -, rfl⟩ := step_ret h
    exact .inl (finish_nextId s id)
  | throw falsy =>
    obtain ⟨id, -, ⟨-, rfl⟩ | ⟨-, rfl⟩⟩ := step_throw h
    · exact .inl (quit_nextId s id)
    · exact .inl rfl
  | rescue =>
    obtain ⟨id, op, stop, -, -, rfl⟩ := step_rescue h
    exact .inl rfl
  | escape =>
    obtain ⟨id, op, -, ⟨-, rfl⟩ | ⟨-, rfl⟩⟩ := step_escape h
    · exact .inl (finish_nextId s id)
    · exact .inl rfl

/-- The sessions of a family share the table of finalizers of its top-level session. -/
def Rooted (s : Runtime) : Prop :=
  ∀ i, (s.session i).state ≠ .absent → (s.session i).root ≤ s.sched.mgr.nextId ∧
    (s.session (s.session i).root).join = none ∧
    ((s.session i).join = none → (s.session i).root = i)

theorem Rooted.step (hs : s.Rooted) (hb : s.Base) {a : Act} (h : s.step a = some s') :
    s'.Rooted := by
  have hk := kin hb h
  have hle {i} (hi : (s.session i).state ≠ .absent) : i ≤ s.sched.mgr.nextId :=
    hb.inv.consistent.le_nextId i ((hb.registered i).2 hi)
  have hold {i} (hi : i ≤ s.sched.mgr.nextId) (hst : (s'.session i).state ≠ .absent) :
      (s'.session i).root ≤ s'.sched.mgr.nextId ∧ (s'.session (s'.session i).root).join = none ∧
        ((s'.session i).join = none → (s'.session i).root = i) := by
    obtain ⟨hr, hj⟩ := hk.root i hi
    obtain ⟨hrle, hrj, hrt⟩ := hs i fun h => hst (hk.absent i hi h)
    rw [hr, hj, (hk.root _ hrle).2]
    exact ⟨le_trans hrle hk.nextId, hrj, hrt⟩
  have hb' := hb.step h
  intro i hst
  by_cases hi : i ≤ s.sched.mgr.nextId
  · exact hold hi hst
  have hle' := hb'.inv.consistent.le_nextId i ((hb'.registered i).2 hst)
  rcases nextId_cases h with heq | rfl | ⟨id, n, hid, rfl⟩
  · omega
  · rw [spawn_nextId] at hle' ⊢
    -- A new top-level session is its own family.
    obtain rfl : i = s.sched.mgr.nextId + 1 := by omega
    simp [spawn_session]
  · obtain ⟨-, huser⟩ := current_eq_some.1 hid
    have hne : (s.session id).state ≠ .absent := by simp [huser]
    obtain ⟨hrle, hrj, -⟩ := hs id hne
    obtain ⟨-, -, hids, -⟩ := parallel_eq s id n
    have hidle := hle hne
    have hnew := parallel_session s hidle n
    rw [hids] at hle' ⊢
    -- A child belongs to the family of its parent.
    have hroot : (s.parallel id n).session i =
        ⟨false, (s.session id).root, some s.nextJoin, .fresh⟩ := by
      rw [hnew, if_neg (by omega), if_pos (by omega)]
    rw [hroot]
    refine ⟨by simp only; omega, ?_, fun h => by cases h⟩
    exact ((hk.root _ hrle).2).trans hrj

theorem rooted_of_reachable {P : Runtime → Act → Prop} (hs : sys.ReachableBy P s) : s.Rooted :=
  hs.invariant (by rintro _ rfl i h; simp [start] at h) fun hr hI _ h =>
    hI.step (base_of_reachable hr) h

end Mistress.Runtime
