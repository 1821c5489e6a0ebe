import Mistress.Table
import Mistress.Transition

/-!
# The manager

`Manager` schedules the sessions, the coroutines of the virtual users. It keeps
the table of the live sessions and the queue of those to be resumed:
`planResume` queues a session, unless it is queued already, and a *pass*, the
loop of `resume_active_sessions`, resumes the queued sessions in turn. The loop
goes on over the entries queued while it runs; it is only at its end that the
queue and the set of the queued ids are emptied.

The values a session is resumed with are those of the call that queued it: a
call for a session queued already changes nothing (`planResume_of_mem`).

The queue and the set of its ids always agree (`Manager.Consistent`): the set
holds exactly the ids of the queue, and none of them is queued twice.
-/

namespace Mistress

variable {σ α : Type}

/-- The manager, for session objects `σ` and values `α` a session is resumed with. -/
structure Manager (σ α : Type) where
  sessions : Table Nat σ
  activeSessions : List (Nat × α)
  /-- The keys of the table `active_sessions_ids`, whose values are all `true`. -/
  activeSessionsIds : List Nat
  nextId : Nat

namespace Manager

/-- `Manager:init`. -/
def init : Manager σ α where
  sessions := ∅
  activeSessions := []
  activeSessionsIds := []
  nextId := 0

/-- `Manager:register`: the new session is made by `callback` from its id. -/
def register (m : Manager σ α) (callback : Nat → σ) : Manager σ α :=
  let nextId := m.nextId + 1
  { m with nextId, sessions := m.sessions.insert nextId (callback nextId) }

/-- `Manager:plan_resume`: a session that is queued already stays queued with the
    values of its first entry, and the call only prints `'late resume'`. -/
def planResume (m : Manager σ α) (id : Nat) (args : α) : Manager σ α :=
  if id ∈ m.activeSessionsIds then m
  else { m with
    activeSessionsIds := id :: m.activeSessionsIds
    activeSessions := m.activeSessions ++ [(id, args)] }

/-- The end of `Manager:resume_active_sessions`. -/
def clear (m : Manager σ α) : Manager σ α :=
  { m with activeSessions := [], activeSessionsIds := [] }

/-- The removal of the session `id` from the table, its coroutine being dead. -/
def remove (m : Manager σ α) (id : Nat) : Manager σ α :=
  { m with sessions := m.sessions.erase id }

/-- The ids of the queue, in order. -/
def queue (m : Manager σ α) : List Nat := m.activeSessions.map Prod.fst

variable (m : Manager σ α) {id id' : Nat} {args : α}

theorem planResume_of_mem (h : id ∈ m.activeSessionsIds) : m.planResume id args = m :=
  if_pos h

theorem planResume_of_not_mem (h : id ∉ m.activeSessionsIds) :
    m.planResume id args = { m with
      activeSessionsIds := id :: m.activeSessionsIds
      activeSessions := m.activeSessions ++ [(id, args)] } :=
  if_neg h

@[simp] theorem planResume_sessions : (m.planResume id args).sessions = m.sessions := by
  unfold planResume; split <;> rfl

@[simp] theorem planResume_nextId : (m.planResume id args).nextId = m.nextId := by
  unfold planResume; split <;> rfl

/-- A call of `planResume` only ever appends to the queue. -/
theorem planResume_activeSessions (id : Nat) (args : α) :
    ∃ new, (m.planResume id args).activeSessions = m.activeSessions ++ new := by
  by_cases h : id ∈ m.activeSessionsIds
  · exact ⟨[], by rw [planResume_of_mem m h, List.append_nil]⟩
  · exact ⟨[(id, args)], by rw [planResume_of_not_mem m h]⟩

/-- What is queued stays queued. -/
theorem queue_subset_planResume (id : Nat) (args : α) :
    m.queue ⊆ (m.planResume id args).queue := by
  obtain ⟨new, hnew⟩ := m.planResume_activeSessions id args
  rw [queue, queue, hnew, List.map_append]
  exact List.subset_append_left _ _

/-- The queue and the set of its ids agree, and no id is queued twice. -/
structure Consistent (m : Manager σ α) : Prop where
  mem_ids : ∀ id, id ∈ m.activeSessionsIds ↔ id ∈ m.queue
  nodup : m.queue.Nodup
  /-- The ids given so far are those from 1 up to `nextId`. -/
  pos : ∀ id ∈ m.sessions, 0 < id
  le_nextId : ∀ id ∈ m.sessions, id ≤ m.nextId

theorem consistent_init : (init : Manager σ α).Consistent where
  mem_ids := by simp [init, queue]
  nodup := by simp [init, queue]
  pos id h := absurd h (AList.notMem_empty id)
  le_nextId id h := absurd h (AList.notMem_empty id)

variable {m}

theorem Consistent.register (hm : m.Consistent) (callback : Nat → σ) :
    (m.register callback).Consistent where
  mem_ids := hm.mem_ids
  nodup := hm.nodup
  pos id h := by
    change id ∈ m.sessions.insert _ _ at h
    rcases AList.mem_insert _ |>.1 h with rfl | h
    · exact Nat.succ_pos _
    · exact hm.pos id h
  le_nextId id h := by
    change id ∈ m.sessions.insert _ _ at h
    change id ≤ m.nextId + 1
    rcases AList.mem_insert _ |>.1 h with rfl | h
    · exact le_rfl
    · exact Nat.le_succ_of_le (hm.le_nextId id h)

theorem Consistent.planResume (hm : m.Consistent) (id : Nat) (args : α) :
    (m.planResume id args).Consistent := by
  by_cases h : id ∈ m.activeSessionsIds
  · rwa [planResume_of_mem m h]
  rw [planResume_of_not_mem m h]
  have hq : id ∉ m.queue := fun hid => h ((hm.mem_ids id).2 hid)
  refine ⟨fun i => ?_, ?_, hm.pos, hm.le_nextId⟩
  · simp [queue, hm.mem_ids i, or_comm]
  · simp only [queue, List.map_append, List.map_cons, List.map_nil]
    exact List.nodup_append.2 ⟨hm.nodup, List.nodup_singleton _, fun a ha b hb =>
      (List.mem_singleton.1 hb) ▸ fun e => hq (e ▸ ha)⟩

theorem Consistent.clear (hm : m.Consistent) : m.clear.Consistent where
  mem_ids := by simp [Manager.clear, queue]
  nodup := List.nodup_nil
  pos := hm.pos
  le_nextId := hm.le_nextId

theorem Consistent.remove (hm : m.Consistent) (id : Nat) : (m.remove id).Consistent where
  mem_ids := hm.mem_ids
  nodup := hm.nodup
  pos i h := hm.pos i (AList.mem_erase.1 h).2
  le_nextId i h := hm.le_nextId i (AList.mem_erase.1 h).2

/-- After a call of `planResume` for it, a session is queued. -/
theorem Consistent.mem_queue_planResume (hm : m.Consistent) (id : Nat) (args : α) :
    id ∈ (m.planResume id args).queue := by
  by_cases h : id ∈ m.activeSessionsIds
  · rw [planResume_of_mem m h]
    exact (hm.mem_ids id).1 h
  · simp [planResume_of_not_mem m h, queue]

end Manager

end Mistress
