import Mistress.Sched

/-!
# The semantics of a pass

What a pass resumes, in terms of what has happened: `Observed` is the scheduler
together with a record of the sessions made, of those that have ended, and, since
the last pass ended, of the calls of `plan_resume` and of the turns of the loop.

* `firstPlans`: the calls that count, the first one for each id;
* `Observed.Inv`: the queue is `firstPlans` of the calls, and the table of the
  sessions is that of the sessions made that have not ended;
* `Observed.semantics`: at the end of a pass every id planned has had its turn
  once, in the order and with the arguments of the first call, and those
  registered at their turn have been resumed, no others.
-/

namespace Mistress

open Transition

variable {σ α : Type}

/-- The first call for each id, in order. -/
def firstPlans : List (Nat × α) → List (Nat × α)
  | [] => []
  | p :: ps => p :: (firstPlans ps).filter fun q => q.1 ≠ p.1

theorem mem_firstPlans_ids {ps : List (Nat × α)} {id : Nat} :
    id ∈ (firstPlans ps).map Prod.fst ↔ id ∈ ps.map Prod.fst := by
  induction ps with
  | nil => rfl
  | cons p ps ih =>
    by_cases h : id = p.1
    · simp [firstPlans, h]
    · rw [List.map_cons, List.mem_cons, or_iff_right h, ← ih]
      simp only [firstPlans, List.map_cons, List.mem_cons, h, false_or, List.mem_map,
        List.mem_filter, decide_eq_true_eq]
      constructor
      · rintro ⟨q, ⟨hq, -⟩, rfl⟩
        exact ⟨q, hq, rfl⟩
      · rintro ⟨q, hq, rfl⟩
        exact ⟨q, ⟨hq, h⟩, rfl⟩

/-- A call counts only if there is none for the id yet. -/
theorem firstPlans_concat (ps : List (Nat × α)) (p : Nat × α) :
    firstPlans (ps ++ [p]) =
      if p.1 ∈ ps.map Prod.fst then firstPlans ps else firstPlans ps ++ [p] := by
  induction ps with
  | nil => rfl
  | cons q ps ih =>
    rw [List.cons_append, firstPlans, ih, List.map_cons]
    by_cases hq : p.1 = q.1
    · have hpq : [p].filter (fun r => decide (r.1 ≠ q.1)) = [] := by simp [hq]
      have hmem : p.1 ∈ q.1 :: ps.map Prod.fst := hq ▸ List.mem_cons_self
      rw [if_pos hmem, firstPlans]
      split
      · rfl
      · rw [List.filter_append, hpq, List.append_nil]
    · by_cases hp : p.1 ∈ ps.map Prod.fst
      · rw [if_pos hp, if_pos (List.mem_cons_of_mem _ hp), firstPlans]
      · have hpq : [p].filter (fun r => decide (r.1 ≠ q.1)) = [p] := by simp [hq]
        rw [if_neg hp, if_neg (by simp [hq, hp]), List.filter_append, hpq, firstPlans,
          List.cons_append]

/-- The session whose coroutine is running, if there is one. -/
def Ctl.coroutine : Ctl → List Nat
  | .running id => [id]
  | _ => []

theorem Ctl.mem_coroutine {ctl : Ctl} {id : Nat} : id ∈ ctl.coroutine ↔ ctl = .running id := by
  cases ctl <;> simp [coroutine, eq_comm]

/-- The scheduler and what has happened to it. -/
structure Observed (σ α : Type) where
  sched : Sched σ α
  /-- The session objects made, with the ids they were made with. -/
  created : List (Nat × σ)
  /-- The sessions whose coroutine has ended. -/
  ended : List Nat
  /-- The calls of `plan_resume` since the last pass ended. -/
  plans : List (Nat × α)
  /-- The turns of the loop since the last pass ended: the entry fetched, and whether
      its session was registered. -/
  turns : List ((Nat × α) × Bool)
  /-- The number of resumes when the last pass ended. -/
  before : Nat

namespace Observed

open Sched

/-- The record, after the step of an action. -/
def note (o : Observed σ α) : Act σ α → Sched σ α → Observed σ α
  | .plan id args, sched => { o with sched, plans := o.plans ++ [(id, args)] }
  | .register callback, sched =>
    let id := o.sched.mgr.nextId + 1
    { o with sched, created := o.created ++ [(id, callback id)] }
  | .fetch, sched =>
    { o with sched, turns := o.turns ++ (o.sched.mgr.activeSessions[o.sched.cursor]?.map fun e =>
        (e, decide (e.1 ∈ o.sched.mgr.sessions))).toList }
  | .finish, sched | .raise, sched =>
    { o with sched, ended := o.sched.ctl.coroutine ++ o.ended }
  | .done, sched => { o with sched, plans := [], turns := [], before := sched.resumes.length }
  | .start, sched | .yield, sched => { o with sched }

/-- The scheduler, observed from the start. -/
def sys : System (Observed σ α) (Act σ α) where
  init o := o = ⟨Sched.start, [], [], [], [], 0⟩
  step o a := (o.sched.step a).map (o.note a)

/-- What has been resumed since the last pass ended. -/
def resumed (o : Observed σ α) : List (Nat × α) := o.sched.resumes.drop o.before

/-- The turns of the registered sessions. -/
def registeredTurns (o : Observed σ α) : List (Nat × α) :=
  (o.turns.filter fun t => t.2).map Prod.fst

variable {o o' : Observed σ α} {a : Act σ α}

theorem step_eq (h : sys.step o a = some o') :
    ∃ s', o.sched.step a = some s' ∧ o' = o.note a s' := by
  obtain ⟨s', hs, rfl⟩ := Option.map_eq_some_iff.1 h
  exact ⟨s', hs, rfl⟩

theorem note_sched (o : Observed σ α) (a : Act σ α) (s' : Sched σ α) : (o.note a s').sched = s' := by
  cases a <;> rfl

/-- Observing changes nothing. -/
theorem refinement : Refinement (sys (σ := σ) (α := α)) Sched.sys Observed.sched where
  init := by rintro _ rfl; rfl
  step _ h := by
    obtain ⟨s', hs, rfl⟩ := step_eq h
    exact ⟨[_], .single trivial (by rw [note_sched]; exact hs)⟩

/-! ## The invariant -/

/-- The sessions of the table are those made that have not ended. -/
def Live (o : Observed σ α) : Prop :=
  ∀ id x, o.sched.mgr.sessions.lookup id = some x ↔ (id, x) ∈ o.created ∧ id ∉ o.ended

structure Inv (o : Observed σ α) : Prop where
  sched : o.sched.Inv
  ids_nodup : o.sched.mgr.activeSessionsIds.Nodup
  /-- The ids are given in order. -/
  ids : o.created.map Prod.fst = List.range' 1 o.sched.mgr.nextId
  ended : ∀ id ∈ o.ended, id ≤ o.sched.mgr.nextId
  live : o.sched.ctl ≠ .exited → o.Live
  queue : o.sched.mgr.activeSessions = firstPlans o.plans
  turns : o.turns.map Prod.fst = o.sched.mgr.activeSessions.take o.sched.cursor
  before : o.before ≤ o.sched.resumes.length
  resumed : o.resumed = o.registeredTurns

theorem inv_start : Inv (⟨Sched.start, [], [], [], [], 0⟩ : Observed σ α) where
  sched := Sched.inv_start
  ids_nodup := List.nodup_nil
  ids := rfl
  ended _ h := absurd h List.not_mem_nil
  live _ id x := by simp [Sched.start, Manager.init]
  queue := rfl
  turns := rfl
  before := le_rfl
  resumed := rfl

/-! ### Planning and registering -/

theorem Inv.plan (ho : o.Inv) {id : Nat} {args : α} {s' : Sched σ α}
    (h : o.sched.step (.plan id args) = some s') : (o.note (.plan id args) s').Inv := by
  obtain ⟨-, rfl⟩ := step_plan h
  have hids : (o.sched.mgr.planResume id args).activeSessionsIds.Nodup := by
    by_cases hmem : id ∈ o.sched.mgr.activeSessionsIds
    · rw [Manager.planResume_of_mem _ hmem]
      exact ho.ids_nodup
    · rw [Manager.planResume_of_not_mem _ hmem]
      exact List.nodup_cons.2 ⟨hmem, ho.ids_nodup⟩
  have hqueue : (o.sched.mgr.planResume id args).activeSessions =
      firstPlans (o.plans ++ [(id, args)]) := by
    have hmem : id ∈ o.sched.mgr.activeSessionsIds ↔ id ∈ o.plans.map Prod.fst := by
      rw [ho.sched.consistent.mem_ids, ← mem_firstPlans_ids, ← ho.queue, Manager.queue]
    rw [firstPlans_concat, ← ho.queue]
    split
    · rw [Manager.planResume_of_mem _ (hmem.2 ‹_›)]
    · rw [Manager.planResume_of_not_mem _ (mt hmem.1 ‹_›)]
  refine ⟨ho.sched.plan id args, hids, ?_, fun i hi => ?_, fun hctl i x => ?_, hqueue, ?_, ho.before,
    ho.resumed⟩
  · rw [note, Manager.planResume_nextId]
    exact ho.ids
  · rw [note, Manager.planResume_nextId]
    exact ho.ended i hi
  · rw [note, Manager.planResume_sessions]
    exact ho.live hctl i x
  · -- What the loop has fetched stays at the front of the queue.
    obtain ⟨new, hnew⟩ := o.sched.mgr.planResume_activeSessions id args
    have hle : o.sched.cursor ≤ o.sched.mgr.activeSessions.length := by
      simpa [Manager.queue] using ho.sched.cursor_le
    change o.turns.map Prod.fst = _
    rw [note, hnew, List.take_append_of_le_length hle]
    exact ho.turns

theorem Inv.register (ho : o.Inv) {callback : Nat → σ} {s' : Sched σ α}
    (h : o.sched.step (.register callback) = some s') : (o.note (.register callback) s').Inv := by
  obtain ⟨-, rfl⟩ := step_register h
  have hfresh : ∀ x, (o.sched.mgr.nextId + 1, x) ∉ o.created := fun x hx => by
    have hid := List.mem_map_of_mem (f := Prod.fst) hx
    rw [ho.ids, List.mem_range'_1] at hid
    omega
  refine ⟨ho.sched.register callback, ho.ids_nodup, ?_, fun i hi => Nat.le_succ_of_le (ho.ended i hi),
    fun hctl i x => ?_, ho.queue, ho.turns, ho.before, ho.resumed⟩
  · simp only [note, List.map_append, List.map_cons, List.map_nil, ho.ids, Manager.register]
    rw [List.range'_concat, Nat.one_mul, Nat.add_comm 1]
  · simp only [note, Manager.register, List.mem_append, List.mem_singleton, Prod.mk.injEq]
    rw [Table.lookup_insert]
    split
    · rename_i hi
      subst hi
      have hne : o.sched.mgr.nextId + 1 ∉ o.ended := fun hmem => by
        have hle := ho.ended _ hmem
        omega
      simp [hfresh x, hne, eq_comm]
    · rename_i hi
      simpa [hi] using ho.live hctl i x

/-! ### Turns -/

theorem Inv.fetch (ho : o.Inv) {s' : Sched σ α} (h : o.sched.step .fetch = some s') :
    (o.note .fetch s').Inv := by
  have hs' := ho.sched.fetch h
  obtain ⟨hctl, id, args, hget, hs⟩ := step_fetch h
  have htake : o.sched.mgr.activeSessions.take (o.sched.cursor + 1) =
      o.sched.mgr.activeSessions.take o.sched.cursor ++ [(id, args)] := by
    obtain ⟨hlt, hget⟩ := List.getElem?_eq_some_iff.1 hget
    rw [List.take_succ_eq_append_getElem hlt, hget]
  have hlive := ho.live (by simp [hctl])
  rcases hs with ⟨hmem, rfl⟩ | ⟨hmem, rfl⟩
  · refine ⟨hs', ho.ids_nodup, ho.ids, ho.ended, fun _ => hlive, ho.queue, ?_, ?_, ?_⟩
    · simp only [note, hget, List.map_append, ho.turns, htake]
      rfl
    · simp only [note, List.length_append]
      exact Nat.le_add_right_of_le ho.before
    · have hres := ho.resumed
      simp only [Observed.resumed, registeredTurns] at hres
      simp [note, Observed.resumed, registeredTurns, hget, hmem, hres,
        List.drop_append_of_le_length ho.before]
  · refine ⟨hs', ho.ids_nodup, ho.ids, ho.ended, fun _ => hlive, ho.queue, ?_, ho.before, ?_⟩
    · simp only [note, hget, List.map_append, ho.turns, htake]
      rfl
    · have hres := ho.resumed
      simp only [Observed.resumed, registeredTurns] at hres
      simp [note, Observed.resumed, registeredTurns, hget, hmem, hres]

theorem Inv.finish (ho : o.Inv) {s' : Sched σ α} (h : o.sched.step .finish = some s') :
    (o.note .finish s').Inv := by
  have hs' := ho.sched.step h
  obtain ⟨id, hctl, rfl⟩ := step_finish h
  have hid := ho.sched.consistent.le_nextId id (ho.sched.running id hctl).1
  refine ⟨hs', ho.ids_nodup, ho.ids, fun i hi => ?_, fun _ i x => ?_, ho.queue, ho.turns,
    ho.before, ho.resumed⟩
  · rcases List.mem_append.1 hi with hi | hi
    · rw [Ctl.mem_coroutine, hctl] at hi
      exact Ctl.running.inj hi ▸ hid
    · exact ho.ended i hi
  · have hlive := ho.live (by simp [hctl]) i x
    simp only [note, Manager.remove, List.mem_append, Ctl.mem_coroutine, hctl, Ctl.running.injEq]
    rw [Table.lookup_erase]
    split
    · rename_i hi
      simp [hi]
    · rename_i hi
      rw [hlive]
      simp [Ne.symm hi]

theorem Inv.step (ho : o.Inv) (h : sys.step o a = some o') : o'.Inv := by
  obtain ⟨s', hs, rfl⟩ := step_eq h
  have hs' := ho.sched.step hs
  cases a with
  | plan id args => exact ho.plan hs
  | register callback => exact ho.register hs
  | fetch => exact ho.fetch hs
  | finish => exact ho.finish hs
  | start =>
    obtain ⟨hctl, rfl⟩ := step_start hs
    exact ⟨hs', ho.ids_nodup, ho.ids, ho.ended, fun _ => ho.live (by simp [hctl]), ho.queue,
      ho.turns, ho.before, ho.resumed⟩
  | yield =>
    obtain ⟨id, hctl, rfl⟩ := step_yield hs
    exact ⟨hs', ho.ids_nodup, ho.ids, ho.ended, fun _ => ho.live (by simp [hctl]), ho.queue,
      ho.turns, ho.before, ho.resumed⟩
  | raise =>
    obtain ⟨id, hctl, rfl⟩ := step_raise hs
    have hid := ho.sched.consistent.le_nextId id (ho.sched.running id hctl).1
    refine ⟨hs', ho.ids_nodup, ho.ids, fun i hi => ?_, fun hne => absurd rfl hne, ho.queue,
      ho.turns, ho.before, ho.resumed⟩
    rcases List.mem_append.1 hi with hi | hi
    · rw [Ctl.mem_coroutine, hctl] at hi
      exact Ctl.running.inj hi ▸ hid
    · exact ho.ended i hi
  | done =>
    obtain ⟨hctl, -, rfl⟩ := step_done hs
    exact ⟨hs', List.nodup_nil, ho.ids, ho.ended, fun _ => ho.live (by simp [hctl]), rfl, rfl,
      le_rfl, List.drop_length⟩

theorem inv_of_reachable (ho : sys.Reachable o) : o.Inv :=
  ho.invariant (by rintro _ rfl; exact inv_start) fun _ hI _ h => hI.step h

/-! ## The semantics -/

/-- What holds of the manager in a state, and of its next step. -/
structure Semantics (o : Observed σ α) : Prop where
  /-- The set of the queued ids holds those of the queue, each of them once. -/
  mem_ids : ∀ id, id ∈ o.sched.mgr.activeSessionsIds ↔ id ∈ o.sched.mgr.queue
  ids_nodup : o.sched.mgr.activeSessionsIds.Nodup
  nodup : o.sched.mgr.queue.Nodup
  /-- A session made gets an id no session had. -/
  fresh : (o.created.map Prod.fst).Nodup
  /-- The table holds, by their ids, the sessions made whose coroutine has not ended. -/
  live : o.sched.ctl ≠ .exited → o.Live
  /-- A session is resumed only if its coroutine has not ended. -/
  alive : ∀ id, o.sched.ctl = .running id → id ∉ o.ended
  /-- At the end of a pass, the ids planned since the one before have had their turn,
      once each, in the order and with the arguments of the first call, -/
  turns : ∀ o', sys.step o .done = some o' → o.turns.map Prod.fst = firstPlans o.plans
  /-- those registered at their turn have been resumed, and no others, -/
  resumed : o.resumed = o.registeredTurns
  /-- and the queues are empty. -/
  empty : ∀ o', sys.step o .done = some o' →
    o'.sched.mgr.activeSessions = [] ∧ o'.sched.mgr.activeSessionsIds = []

/-- The scheduler resumes what has been planned. -/
theorem semantics (ho : sys.Reachable o) : o.Semantics := by
  have hI := inv_of_reachable ho
  refine ⟨hI.sched.consistent.mem_ids, hI.ids_nodup, hI.sched.consistent.nodup, ?_, hI.live,
    fun id hid => ?_, fun o' h => ?_, hI.resumed, fun o' h => ?_⟩
  · rw [hI.ids]
    exact List.nodup_range'
  · obtain ⟨x, hx⟩ := Option.isSome_iff_exists.1 (AList.lookup_isSome.2 (hI.sched.running id hid).1)
    exact ((hI.live (by simp [hid]) id x).1 hx).2
  · obtain ⟨s', hs, -⟩ := step_eq h
    obtain ⟨-, hle, -⟩ := step_done hs
    rw [hI.turns, List.take_of_length_le hle, hI.queue]
  · obtain ⟨s', hs, rfl⟩ := step_eq h
    obtain ⟨-, -, rfl⟩ := step_done hs
    exact ⟨rfl, rfl⟩

/-- The session 1 is planned twice. While it runs, it makes the session 2, plans it
    and ends; a session 3 that is not there is planned before that. -/
theorem semantics_two : ∃ o : Observed Unit Nat, o.Semantics ∧ (sys.step o .done).isSome ∧
    o.resumed = [(1, 5), (2, 8)] ∧ o.turns.map Prod.fst = [(1, 5), (3, 7), (2, 8)] := by
  obtain ⟨o, hrun, ho⟩ := System.exists_run_of_exec sys ⟨Sched.start, [], [], [], [], 0⟩
    [.register fun _ => (), .plan 1 5, .plan 1 6, .plan 3 7, .start, .fetch, .register fun _ => (),
      .plan 2 8, .finish, .fetch, .fetch, .yield]
    (fun o => decide ((sys.step o .done).isSome ∧ o.resumed = [(1, 5), (2, 8)] ∧
      o.turns.map Prod.fst = [(1, 5), (3, 7), (2, 8)])) (by decide +kernel)
  exact ⟨o, semantics (System.ReachableBy.run (.init rfl) hrun), of_decide_eq_true ho⟩

end Observed

end Mistress
