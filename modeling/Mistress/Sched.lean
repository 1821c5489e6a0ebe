import Mistress.Manager

/-!
# The scheduler

`Sched` is a manager together with the point its passes stand at. A pass is the
loop of `resume_active_sessions`, which `cb_prepare` runs once per iteration of
the event loop:

* between passes, `libev` runs the C callbacks, which call `planResume` (as
  does the program before it enters the event loop, when it registers the first
  session);
* within a pass, the session being resumed runs until it yields or its
  coroutine ends. While it runs it may register and plan other sessions, and
  plan itself.

No session runs outside a pass, and none while another one does.

* `Inv`: the queue is consistent, the loop is within it, and the session being
  resumed is the one fetched last (`inv_of_reachable`);
* `taken` and `pending`: the ids the loop has fetched already, and those it has
  yet to fetch;
* `drain`: whatever is queued, the pass can be finished, every session it
  resumes yielding at once.
-/

namespace Mistress

open Transition

variable {σ α : Type}

/-- Where the program stands. -/
inductive Ctl
  /-- Between two passes. -/
  | idle
  /-- At the head of the loop of a pass. -/
  | loop
  /-- In the loop of a pass, the coroutine of the session `id` running. -/
  | running (id : Nat)
  /-- A pass has raised an error: `cb_prepare` exits the process. -/
  | exited
  deriving DecidableEq

/-- A manager and its passes. -/
structure Sched (σ α : Type) where
  mgr : Manager σ α
  ctl : Ctl
  /-- The number of entries of the queue the loop of the pass has fetched. -/
  cursor : Nat
  /-- History: the resumes started so far, with the values passed. -/
  resumes : List (Nat × α)
  /-- History: the number of passes completed so far. -/
  passes : Nat

namespace Sched

/-- The steps of the scheduler. -/
inductive Act (σ α : Type)
  /-- A call of `plan_resume`, by a C callback or by the running session. -/
  | plan (id : Nat) (args : α)
  /-- A call of `register`. -/
  | register (callback : Nat → σ)
  /-- `cb_prepare` calls `resume_active_sessions`. -/
  | start
  /-- The loop fetches the next entry and resumes its session, if it is registered. -/
  | fetch
  /-- The running session yields. -/
  | yield
  /-- The coroutine of the running session ends, without an error. -/
  | finish
  /-- The coroutine of the running session ends with an error, which the pass raises. -/
  | raise
  /-- The loop ends, and the queue is emptied. -/
  | done

/-- The state before the first call to the manager. -/
def start : Sched σ α where
  mgr := Manager.init
  ctl := .idle
  cursor := 0
  resumes := []
  passes := 0

/-- Whether the manager can be called: by a C callback, or by the running session. -/
def Callable (s : Sched σ α) : Prop := s.ctl = .idle ∨ ∃ id, s.ctl = .running id

instance (s : Sched σ α) : Decidable s.Callable :=
  match h : s.ctl with
  | .idle => .isTrue (.inl h)
  | .running id => .isTrue (.inr ⟨id, h⟩)
  | .loop => .isFalse (by simp [Callable, h])
  | .exited => .isFalse (by simp [Callable, h])

/-- The step of an action, where it is possible. -/
def step (s : Sched σ α) : Act σ α → Option (Sched σ α)
  | .plan id args => if s.Callable then some { s with mgr := s.mgr.planResume id args } else none
  | .register callback =>
    if s.Callable then some { s with mgr := s.mgr.register callback } else none
  | .start => if s.ctl = .idle then some { s with ctl := .loop } else none
  | .fetch =>
    if s.ctl = .loop then
      match s.mgr.activeSessions[s.cursor]? with
      | none => none
      | some (id, args) =>
        if id ∈ s.mgr.sessions then
          some { s with
            ctl := .running id
            cursor := s.cursor + 1
            resumes := s.resumes ++ [(id, args)] }
        -- "!! sess is absent"
        else some { s with cursor := s.cursor + 1 }
    else none
  | .yield =>
    match s.ctl with
    | .running _ => some { s with ctl := .loop }
    | _ => none
  | .finish =>
    match s.ctl with
    | .running id => some { s with ctl := .loop, mgr := s.mgr.remove id }
    | _ => none
  | .raise =>
    match s.ctl with
    | .running _ => some { s with ctl := .exited }
    | _ => none
  | .done =>
    if s.ctl = .loop ∧ s.mgr.activeSessions.length ≤ s.cursor then
      some { s with ctl := .idle, mgr := s.mgr.clear, cursor := 0, passes := s.passes + 1 }
    else none

/-- The scheduler, from a manager without sessions. -/
def sys : System (Sched σ α) (Act σ α) where
  init s := s = start
  step := step

/-- A run of the scheduler. -/
abbrev Run (s : Sched σ α) (as : List (Act σ α)) (s' : Sched σ α) : Prop :=
  sys.Run (fun _ _ => True) s as s'

/-- The ids of the entries the loop of the pass has fetched. -/
def taken (s : Sched σ α) : List Nat := s.mgr.queue.take s.cursor

/-- The ids of the entries the loop of the pass, or of the next one, has yet to fetch. -/
def pending (s : Sched σ α) : List Nat := s.mgr.queue.drop s.cursor

theorem queue_eq (s : Sched σ α) : s.mgr.queue = s.taken ++ s.pending :=
  (List.take_append_drop _ _).symm

/-! ## What a step does -/

variable {s s' : Sched σ α} {id : Nat} {args : α} {callback : Nat → σ}

theorem step_plan (h : s.step (.plan id args) = some s') :
    s.Callable ∧ s' = { s with mgr := s.mgr.planResume id args } := by
  simp only [step] at h
  split at h
  · exact ⟨‹_›, (Option.some.inj h).symm⟩
  · cases h

theorem step_register (h : s.step (.register callback) = some s') :
    s.Callable ∧ s' = { s with mgr := s.mgr.register callback } := by
  simp only [step] at h
  split at h
  · exact ⟨‹_›, (Option.some.inj h).symm⟩
  · cases h

theorem step_start (h : s.step .start = some s') : s.ctl = .idle ∧ s' = { s with ctl := .loop } := by
  simp only [step] at h
  split at h
  · exact ⟨‹_›, (Option.some.inj h).symm⟩
  · cases h

/-- The loop fetches the entry at the cursor: its session is resumed, or it is absent. -/
theorem step_fetch (h : s.step .fetch = some s') :
    s.ctl = .loop ∧ ∃ id args, s.mgr.activeSessions[s.cursor]? = some (id, args) ∧
      ((id ∈ s.mgr.sessions ∧ s' = { s with
          ctl := .running id, cursor := s.cursor + 1, resumes := s.resumes ++ [(id, args)] }) ∨
        (id ∉ s.mgr.sessions ∧ s' = { s with cursor := s.cursor + 1 })) := by
  simp only [step] at h
  split at h
  case isFalse => cases h
  case isTrue hctl =>
    split at h
    · cases h
    · rename_i id args hget
      refine ⟨hctl, id, args, hget, ?_⟩
      split at h
      · exact .inl ⟨‹_›, (Option.some.inj h).symm⟩
      · exact .inr ⟨‹_›, (Option.some.inj h).symm⟩

theorem step_yield (h : s.step .yield = some s') :
    ∃ id, s.ctl = .running id ∧ s' = { s with ctl := .loop } := by
  simp only [step] at h
  split at h
  · exact ⟨_, ‹_›, (Option.some.inj h).symm⟩
  · cases h

theorem step_finish (h : s.step .finish = some s') :
    ∃ id, s.ctl = .running id ∧ s' = { s with ctl := .loop, mgr := s.mgr.remove id } := by
  simp only [step] at h
  split at h
  · exact ⟨_, ‹_›, (Option.some.inj h).symm⟩
  · cases h

theorem step_raise (h : s.step .raise = some s') :
    ∃ id, s.ctl = .running id ∧ s' = { s with ctl := .exited } := by
  simp only [step] at h
  split at h
  · exact ⟨_, ‹_›, (Option.some.inj h).symm⟩
  · cases h

theorem step_done (h : s.step .done = some s') :
    s.ctl = .loop ∧ s.mgr.activeSessions.length ≤ s.cursor ∧
      s' = { s with ctl := .idle, mgr := s.mgr.clear, cursor := 0, passes := s.passes + 1 } := by
  simp only [step] at h
  split at h
  · rename_i hc
    exact ⟨hc.1, hc.2, (Option.some.inj h).symm⟩
  · cases h

/-! ## The invariant -/

/-- The invariant of the scheduler. -/
structure Inv (s : Sched σ α) : Prop where
  consistent : s.mgr.Consistent
  /-- Between passes, nothing of the queue has been fetched. -/
  idle : s.ctl = .idle → s.cursor = 0
  cursor_le : s.cursor ≤ s.mgr.queue.length
  /-- The running session is registered, and was fetched in this pass. -/
  running : ∀ id, s.ctl = .running id → id ∈ s.mgr.sessions ∧ id ∈ s.taken

theorem inv_start : Inv (start : Sched σ α) where
  consistent := Manager.consistent_init
  idle _ := rfl
  cursor_le := Nat.zero_le _
  running _ h := by cases h

/-- Planning keeps what the loop has fetched. -/
theorem Inv.taken_planResume (hs : s.Inv) (id : Nat) (args : α) :
    taken { s with mgr := s.mgr.planResume id args } = s.taken := by
  obtain ⟨new, hnew⟩ := s.mgr.planResume_activeSessions id args
  simp only [taken, Manager.queue, hnew, List.map_append]
  exact List.take_append_of_le_length hs.cursor_le

/-- Planning keeps what the loop has yet to fetch. -/
theorem Inv.pending_planResume (hs : s.Inv) (i : Nat) (args : α) :
    s.pending ⊆ pending { s with mgr := s.mgr.planResume i args } := by
  obtain ⟨new, hnew⟩ := s.mgr.planResume_activeSessions i args
  have hle := hs.cursor_le
  simp only [pending, Manager.queue, hnew, List.map_append] at hle ⊢
  rw [List.drop_append_of_le_length hle]
  exact List.subset_append_left _ _

/-- A session the loop has not fetched is, once planned, yet to be fetched. -/
theorem Inv.mem_pending_planResume (hs : s.Inv) (h : id ∉ s.taken) (args : α) :
    id ∈ pending { s with mgr := s.mgr.planResume id args } := by
  have hq := hs.consistent.mem_queue_planResume id args
  rw [queue_eq { s with mgr := s.mgr.planResume id args }, hs.taken_planResume] at hq
  exact (List.mem_append.1 hq).resolve_left h

theorem Inv.plan (hs : s.Inv) (id : Nat) (args : α) :
    Inv { s with mgr := s.mgr.planResume id args } := by
  obtain ⟨new, hnew⟩ := s.mgr.planResume_activeSessions id args
  refine ⟨hs.consistent.planResume id args, hs.idle, ?_, fun i hi => ?_⟩
  · simp only [Manager.queue, hnew, List.map_append, List.length_append]
    exact Nat.le_add_right_of_le hs.cursor_le
  · rw [hs.taken_planResume, Manager.planResume_sessions]
    exact hs.running i hi

/-- Planning a session changes nothing to whether another one is yet to be fetched. -/
theorem Inv.mem_pending_planResume_iff (hs : s.Inv) {i : Nat} (hne : i ≠ id) (args : α) :
    i ∈ pending { s with mgr := s.mgr.planResume id args } ↔ i ∈ s.pending := by
  refine ⟨fun h => ?_, fun h => hs.pending_planResume id args h⟩
  by_cases hid : id ∈ s.mgr.activeSessionsIds
  · rwa [Manager.planResume_of_mem _ hid] at h
  · rw [Manager.planResume_of_not_mem _ hid] at h
    simp only [pending, Manager.queue, List.map_append] at h
    rw [List.drop_append_of_le_length (by simpa [Manager.queue] using hs.cursor_le)] at h
    exact (List.mem_append.1 h).resolve_right fun h => hne (List.mem_singleton.1 h)

theorem Inv.register (hs : s.Inv) (callback : Nat → σ) :
    Inv { s with mgr := s.mgr.register callback } where
  consistent := hs.consistent.register callback
  idle := hs.idle
  cursor_le := hs.cursor_le
  running i hi := ⟨AList.mem_insert _ |>.2 (.inr (hs.running i hi).1), (hs.running i hi).2⟩

/-- The entry at the cursor is the next one to be fetched. -/
theorem pending_eq_cons (h : s.mgr.activeSessions[s.cursor]? = some (id, args)) :
    s.pending = id :: s.mgr.queue.drop (s.cursor + 1) ∧
      s.mgr.queue.take (s.cursor + 1) = s.taken ++ [id] := by
  have hq : s.mgr.queue[s.cursor]? = some id := by simp [Manager.queue, h]
  obtain ⟨hlt, hget⟩ := List.getElem?_eq_some_iff.1 hq
  exact ⟨by rw [pending, List.drop_eq_getElem_cons hlt, hget],
    by rw [List.take_succ_eq_append_getElem hlt, hget]; rfl⟩

theorem Inv.fetch (hs : s.Inv) (h : s.step .fetch = some s') : s'.Inv := by
  obtain ⟨hctl, id, args, hget, hs'⟩ := step_fetch h
  have hlt : s.cursor < s.mgr.queue.length := by
    rw [Manager.queue, List.length_map]
    exact (List.getElem?_eq_some_iff.1 hget).1
  rcases hs' with ⟨hmem, rfl⟩ | ⟨-, rfl⟩
  · refine ⟨hs.consistent, fun h => (by cases h), hlt, fun i hi => ?_⟩
    obtain rfl := Ctl.running.inj hi
    refine ⟨hmem, ?_⟩
    rw [taken, (pending_eq_cons hget).2]
    exact List.mem_append_right _ (List.mem_singleton_self _)
  · exact ⟨hs.consistent, fun h => (by rw [hctl] at h; cases h), hlt,
      fun i hi => (by rw [hctl] at hi; cases hi)⟩

/-- Every step keeps the invariant. -/
theorem Inv.step (hs : s.Inv) {a : Act σ α} (h : s.step a = some s') : s'.Inv := by
  cases a with
  | plan id args =>
    obtain ⟨-, rfl⟩ := step_plan h
    exact hs.plan id args
  | register callback =>
    obtain ⟨-, rfl⟩ := step_register h
    exact hs.register callback
  | start =>
    obtain ⟨-, rfl⟩ := step_start h
    exact ⟨hs.consistent, fun h => (by cases h), hs.cursor_le, fun i hi => (by cases hi)⟩
  | fetch => exact hs.fetch h
  | yield =>
    obtain ⟨_, -, rfl⟩ := step_yield h
    exact ⟨hs.consistent, fun h => (by cases h), hs.cursor_le, fun i hi => (by cases hi)⟩
  | finish =>
    obtain ⟨id, -, rfl⟩ := step_finish h
    exact ⟨hs.consistent.remove id, fun h => (by cases h), hs.cursor_le, fun i hi => (by cases hi)⟩
  | raise =>
    obtain ⟨_, -, rfl⟩ := step_raise h
    exact ⟨hs.consistent, fun h => (by cases h), hs.cursor_le, fun i hi => (by cases hi)⟩
  | done =>
    obtain ⟨-, -, rfl⟩ := step_done h
    exact ⟨hs.consistent.clear, fun _ => rfl, Nat.zero_le _, fun i hi => (by cases hi)⟩

theorem inv_of_reachable (hs : sys.Reachable s) : s.Inv :=
  hs.invariant (by rintro _ rfl; exact inv_start) fun _ hI _ h => hI.step h

/-- Between passes, nothing is taken. -/
theorem Inv.taken_of_idle (hs : s.Inv) (h : s.ctl = .idle) : s.taken = [] := by
  rw [taken, hs.idle h, List.take_zero]

/-- The loop fetches no id twice. -/
theorem Inv.disjoint (hs : s.Inv) : List.Disjoint s.taken s.pending :=
  List.disjoint_of_nodup_append (s.queue_eq ▸ hs.consistent.nodup)

/-! ## Finishing a pass -/

theorem resume_of_fetch (hctl : s.ctl = .loop)
    (hget : s.mgr.activeSessions[s.cursor]? = some (id, args)) (hmem : id ∈ s.mgr.sessions) :
    s.step .fetch = some { s with
      ctl := .running id, cursor := s.cursor + 1, resumes := s.resumes ++ [(id, args)] } := by
  simp [step, hctl, hget, hmem]

theorem skip_of_fetch (hctl : s.ctl = .loop)
    (hget : s.mgr.activeSessions[s.cursor]? = some (id, args)) (hmem : id ∉ s.mgr.sessions) :
    s.step .fetch = some { s with cursor := s.cursor + 1 } := by
  simp [step, hctl, hget, hmem]

/-- From the head of the loop, the pass can be finished by resuming only the
    sessions that are queued and not fetched yet, all of which yield at once. -/
theorem drain (n : Nat) : ∀ (s : Sched σ α), s.ctl = .loop → s.pending.length = n →
    ∃ as new s', Run s as s' ∧ s'.ctl = .idle ∧ s'.mgr = s.mgr.clear ∧ s'.cursor = 0 ∧
      s'.passes = s.passes + 1 ∧ s'.resumes = s.resumes ++ new ∧
      ∀ e ∈ new, e.1 ∈ s.pending := by
  induction n with
  | zero =>
    intro s hctl hlen
    have hle : s.mgr.activeSessions.length ≤ s.cursor := by
      simpa [pending, Manager.queue, Nat.sub_eq_zero_iff_le] using hlen
    refine ⟨[.done], [], { s with
        ctl := .idle, mgr := s.mgr.clear, cursor := 0, passes := s.passes + 1 },
      .single trivial (by simp [sys, step, hctl, hle]), rfl, rfl, rfl, rfl,
      (List.append_nil _).symm, fun e he => absurd he List.not_mem_nil⟩
  | succ n ih =>
    intro s hctl hlen
    have hlt : s.cursor < s.mgr.activeSessions.length := by
      simp only [pending, Manager.queue, List.length_drop, List.length_map] at hlen
      omega
    obtain ⟨⟨id, args⟩, hget⟩ : ∃ e, s.mgr.activeSessions[s.cursor]? = some e :=
      ⟨_, List.getElem?_eq_getElem hlt⟩
    obtain ⟨hpend, -⟩ := pending_eq_cons hget
    have hlen' : (s.mgr.queue.drop (s.cursor + 1)).length = n := by
      rw [hpend] at hlen
      exact Nat.succ.inj hlen
    by_cases hmem : id ∈ s.mgr.sessions
    · -- The session is resumed, and yields.
      obtain ⟨as, new, s', hrun, hctl', hmgr, hcur, hpass, hres, hnew⟩ := ih
        { s with ctl := .loop, cursor := s.cursor + 1, resumes := s.resumes ++ [(id, args)] } rfl hlen'
      refine ⟨.fetch :: .yield :: as, (id, args) :: new, s',
        .cons trivial (resume_of_fetch hctl hget hmem) (.cons trivial rfl hrun),
        hctl', hmgr, hcur, hpass, by rw [hres, List.append_assoc]; rfl, fun e he => ?_⟩
      rw [hpend]
      rcases List.mem_cons.1 he with rfl | he
      · exact List.mem_cons_self
      · exact List.mem_cons_of_mem _ (hnew e he)
    · obtain ⟨as, new, s', hrun, hctl', hmgr, hcur, hpass, hres, hnew⟩ := ih
        { s with cursor := s.cursor + 1 } hctl hlen'
      refine ⟨.fetch :: as, new, s', .cons trivial (skip_of_fetch hctl hget hmem) hrun,
        hctl', hmgr, hcur, hpass, hres, fun e he => ?_⟩
      rw [hpend]
      exact List.mem_cons_of_mem _ (hnew e he)

end Sched

end Mistress
