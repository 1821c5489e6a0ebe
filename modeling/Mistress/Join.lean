import Mistress.Runtime

/-!
# Joining

`parallel` should run each of its functions once, and its session should go on
once, after all of them have ended.

The last child to end plans the parent. The scheduler drops that call if the
parent has been fetched in the same pass, as it has in the pass it calls
`parallel` in; and nobody makes the call where there are no functions. In both
cases the parent is never resumed. Apart from them, `parallel` is a join
(`joined_of_reachable`).
-/

namespace Mistress.Runtime

open Transition

variable {s s' : Runtime} {id i j : Nat}

/-! ## The sessions started -/

/-- The sessions started are those registered that are not to be started any more. -/
structure Starts (s : Runtime) : Prop where
  nodup : s.started.Nodup
  mem : ∀ i, i ∈ s.started ↔ 0 < i ∧ i ≤ s.sched.mgr.nextId ∧ (s.session i).state ≠ .fresh

/-- What neither creates nor starts a session keeps the sessions started. -/
theorem Starts.congr (hs : s.Starts) (hstarted : s'.started = s.started)
    (hid : s'.sched.mgr.nextId = s.sched.mgr.nextId)
    (hstate : ∀ i, (s'.session i).state = .fresh ↔ (s.session i).state = .fresh) : s'.Starts where
  nodup := hstarted ▸ hs.nodup
  mem i := by rw [hstarted, hs.mem, hid, ne_eq, ne_eq, hstate]

theorem Starts.release (hs : s.Starts) (op : Op) (d c : Bool) : (s.release id op d c).Starts := by
  obtain ⟨_, _, _, -, h⟩ := release_eq s id op d c
  rw [h]
  exact hs.congr rfl rfl fun _ => .rfl

theorem starts_start : start.Starts where
  nodup := List.nodup_nil
  mem _ := iff_of_false List.not_mem_nil fun ⟨h, hle, _⟩ => absurd (lt_of_lt_of_le h hle) (lt_irrefl 0)

theorem Starts.spawn (hs : s.Starts) (root : Nat) (join : Option Nat) :
    (s.spawn root join).Starts where
  nodup := hs.nodup
  mem i := by
    change i ∈ s.started ↔ _
    rw [hs.mem, spawn_nextId, state_spawn]
    split
    · refine iff_of_false ?_ (by simp)
      omega
    · refine and_congr_right fun _ => and_congr_left fun _ => ?_
      omega

theorem Starts.spawnChildren (hs : s.Starts) (root join n : Nat) :
    (s.spawnChildren root join n).Starts := by
  induction n generalizing s with
  | zero => exact hs
  | succ n ih => exact ih (hs.spawn root (some join))

/-- A started session goes on to another state, which is not the first one. -/
theorem Starts.setState (hs : s.Starts) {st : SState} (h : (s.session id).state ≠ .fresh)
    (hst : st ≠ .fresh) : (s.setState id st).Starts :=
  hs.congr rfl rfl fun i => by
    rw [state_setState]
    split
    · subst ‹i = id›
      exact iff_of_false hst h
    · rfl

theorem Starts.suspend (hs : s.Starts) (h : (s.session id).state ≠ .fresh) (op : Op) :
    (s.suspend id op).Starts :=
  (hs.setState h (by simp)).congr rfl rfl fun _ => .rfl

theorem Starts.quit (hs : s.Starts) (h : (s.session id).state ≠ .fresh) : (s.quit id).Starts := by
  refine hs.congr ?_ (quit_nextId s id) fun i => ?_
  · obtain ⟨_, _, _, _, -, h'⟩ := clean_eq s id
    change (s.clean id).started = _
    rw [h']
  · rw [state_quit]
    split
    · subst ‹i = id›
      exact iff_of_false (by simp) h
    · rfl

theorem Starts.finish (hs : s.Starts) (h : (s.session id).state ≠ .fresh) :
    (s.finish id).Starts := by
  obtain ⟨_, _, heq, -⟩ := afterRun_eq s id
  have ha : (s.afterRun id).Starts :=
    hs.congr (by rw [heq]) (afterRun_nextId s id) fun _ => by rw [heq]
  exact ha.quit (by rwa [heq])

theorem Starts.fail (hs : s.Starts) : (s.fail id).Starts := by
  obtain ⟨_, _, _, _, -, h⟩ := clean_eq s id
  unfold Runtime.fail
  rw [h]
  exact hs.congr rfl rfl fun _ => .rfl

/-- A fresh session starts. -/
theorem Starts.first (hs : s.Starts) (hb : s.Base) (hid : id ∈ s.sched.mgr.sessions)
    (h : (s.session id).state = .fresh) :
    Starts { s.setState id .user with started := s.started ++ [id] } where
  nodup := by
    refine List.nodup_append.2 ⟨hs.nodup, List.nodup_singleton _, fun a ha b hb => ?_⟩
    rintro rfl
    rw [List.mem_singleton.1 hb, hs.mem] at ha
    exact ha.2.2 h
  mem i := by
    change i ∈ s.started ++ [id] ↔ 0 < i ∧ i ≤ s.sched.mgr.nextId ∧
      ((s.setState id .user).session i).state ≠ .fresh
    rw [List.mem_append, hs.mem, List.mem_singleton, state_setState]
    split
    · subst ‹i = id›
      refine iff_of_true (.inr rfl) ⟨hb.inv.consistent.pos _ hid, ?_, by simp⟩
      exact hb.inv.consistent.le_nextId _ hid
    · simp [‹i ≠ id›]

theorem Starts.resume (hs : s.Starts) (hb : s.Base) (hid : id ∈ s.sched.mgr.sessions)
    {args : Wake} {again : Bool} (h : s.resume id args again = some s') : s'.Starts := by
  rcases resume_cases h with ⟨hst, rfl⟩ | ⟨op, hst, ⟨-, rfl⟩ | rfl⟩
  · exact hs.first hb hid hst
  · exact hs.congr rfl rfl fun _ => .rfl
  · have hne : (s.session id).state ≠ .fresh := by simp [hst]
    rcases resumeOp_cases s id op args again with ⟨stop, -, h'⟩ | ⟨-, h'⟩ | ⟨d, c, -, h'⟩
    · exact h' ▸ hs.setState hne (by simp)
    · exact h' ▸ hs.suspend hne op
    · have hr : (s.release id op d c).Starts := hs.release op d c
      have hne' : ((s.release id op d c).session id).state ≠ .fresh := by
        obtain ⟨_, _, _, -, heq⟩ := release_eq s id op d c
        rwa [heq]
      rcases h' with h' | ⟨conn, _, -, h'⟩
      · have hu : ((s.release id op d c).setState id .user).Starts := hr.setState hne' (by simp)
        rw [h']
        unfold returns
        split
        · exact hu.congr rfl rfl fun _ => .rfl
        · exact hu
      · exact h' ▸ (hr.suspend hne' _).congr rfl rfl fun _ => .rfl

theorem Starts.shutDown (hs : s.Starts) (ids : List Nat) : (s.shutDown ids).Starts := by
  induction ids generalizing s with
  | nil => exact hs
  | cons id ids ih =>
    refine ih (hs.congr rfl ?_ fun i => ?_)
    · exact Manager.planResume_nextId _
    · change ((s.flag id).session i).state = _ ↔ _
      rw [state_flag]

/-- Every step keeps the sessions started. -/
theorem Starts.step (hs : s.Starts) (hb : s.Base) {a : Act} (h : s.step a = some s') :
    s'.Starts := by
  have hrun {id} (hst : (s.session id).state.Runs) : (s.session id).state ≠ .fresh := fun h => by
    rw [h] at hst
    exact hst
  have hcur {id} (hid : s.current = some id) : (s.session id).state ≠ .fresh := by
    rw [(current_eq_some.1 hid).2]
    simp
  cases a with
  | event handle args =>
    obtain ⟨-, w, -, -, -, rfl⟩ := step_event h
    exact hs.congr rfl (Manager.planResume_nextId _) fun _ => .rfl
  | shutDown ids =>
    obtain ⟨-, -, rfl⟩ := step_shutDown h
    exact hs.shutDown ids
  | start =>
    obtain ⟨-, rfl⟩ := step_start h
    exact hs.congr rfl rfl fun _ => .rfl
  | fetch again =>
    obtain ⟨hctl, id, v, hget, ⟨hmem, h⟩ | ⟨-, rfl⟩⟩ := step_fetch h
    · exact Starts.resume (s := s.fetched id v) (hs.congr rfl rfl fun _ => .rfl)
        (hb.fetched hctl hget hmem) hmem h
    · exact hs.congr rfl rfl fun _ => .rfl
  | done =>
    obtain ⟨-, -, rfl⟩ := step_done h
    exact hs.congr rfl rfl fun _ => .rfl
  | spawn =>
    obtain ⟨-, rfl⟩ := step_spawn h
    exact hs.spawn _ _
  | block kind =>
    obtain ⟨id, hid, -, rfl⟩ := step_block h
    exact (hs.suspend (hcur hid) _).congr rfl rfl fun _ => .rfl
  | parallel n =>
    obtain ⟨id, hid, rfl⟩ := step_parallel h
    have hle := hb.inv.consistent.le_nextId id (hb.inv.running id (current_eq_some.1 hid).1).1
    have hc := hs.spawnChildren (s.session id).root s.nextJoin n
    refine (hc.suspend ?_ (.parallel s.nextJoin)).congr rfl rfl fun _ => .rfl
    rw [spawnChildren_of_le hle]
    exact hcur hid
  | cooperate =>
    obtain ⟨id, hid, rfl⟩ := step_cooperate h
    have hp : (s.plan id).Starts := hs.congr rfl (Manager.planResume_nextId _) fun _ => .rfl
    exact hp.suspend (hcur hid) _
  | close conn =>
    obtain ⟨id, -, -, -, rfl⟩ := step_close h
    exact hs.congr rfl rfl fun _ => .rfl
  | ret =>
    obtain ⟨id, hid, rfl⟩ := step_ret h
    exact hs.finish (hcur hid)
  | throw falsy =>
    obtain ⟨id, hid, ⟨-, rfl⟩ | ⟨-, rfl⟩⟩ := step_throw h
    · exact hs.quit (hcur hid)
    · exact hs.fail
  | rescue =>
    obtain ⟨id, op, stop, -, hst, rfl⟩ := step_rescue h
    exact hs.setState (by simp [hst]) (by simp)
  | escape =>
    obtain ⟨id, op, -, ⟨hst, rfl⟩ | ⟨-, rfl⟩⟩ := step_escape h
    · exact (hs.finish (by simp [hst])).congr rfl rfl fun _ => .rfl
    · exact hs.fail

theorem starts_of_reachable {P : Runtime → Act → Prop} (hs : sys.ReachableBy P s) : s.Starts :=
  hs.invariant (by rintro _ rfl; exact starts_start) fun hr hI _ h =>
    hI.step (base_of_reachable hr) h

/-! ## The calls of `parallel` -/

/-- The functions of a call that have not ended. -/
def left (s : Runtime) (j : Nat) : Nat :=
  (s.join j).children.countP fun c => (s.session c).state ≠ .absent

/-- The steps without a shutdown, in which events are delivered only for the
    operation a session waits in, and no function raises `nil` or `false`. An error
    with another value ends the process. -/
def Undisturbed (s : Runtime) : Act → Prop
  | .shutDown _ => False
  | .event handle _ => ∀ w ∈ s.watchers, w.handle = handle →
      (s.session w.id).state = .waiting (.watch w.kind w.handle)
  | .throw falsy => falsy = true → ∀ id ∈ s.current, (s.session id).join = none
  | _ => True

/-- The undisturbed steps by which no call of `parallel` is without functions, and
    the last function of a call does not end in the pass its parent has been fetched in. -/
def Joinable (s : Runtime) (a : Act) : Prop :=
  s.Undisturbed a ∧ match a with
  | .parallel n => 0 < n
  | .ret => ∀ id ∈ s.current, ∀ j ∈ (s.session id).join,
      (s.join j).fnsLeft = 1 → (s.join j).parent ∉ s.sched.taken
  | _ => True

instance (s : Runtime) (a : Act) : Decidable (s.Undisturbed a) := by
  unfold Undisturbed
  split <;> infer_instance

instance (s : Runtime) (a : Act) : Decidable (s.Joinable a) := by
  unfold Joinable
  cases a <;> infer_instance

/-- Where a call of `parallel` stands. -/
structure Joining (s : Runtime) (j : Nat) : Prop where
  nodup : (s.join j).children.Nodup
  child : ∀ c ∈ (s.join j).children, 0 < c ∧ c ≤ s.sched.mgr.nextId ∧
    ((s.session c).state ≠ .absent → (s.session c).join = some j)
  fnsLeft : (s.join j).fnsLeft = s.left j
  /-- It has returned after its functions have ended, -/
  returned : j ∈ s.returned → (s.join j).fnsLeft = 0
  /-- and until then the parent waits, and is planned when they have. -/
  waits : j ∉ s.returned → (s.session (s.join j).parent).state = .waiting (.parallel j) ∧
    ((s.join j).parent ∈ s.sched.pending ↔ (s.join j).fnsLeft = 0)

/-- The invariant of the calls of `parallel`. -/
structure Joins (s : Runtime) : Prop where
  unflagged : ∀ id, (s.session id).gonnaShutDown = false
  unstopped : ∀ id op, (s.session id).state ≠ .raised op true
  nodup : s.returned.Nodup
  waiting : ∀ p j, (s.session p).state = .waiting (.parallel j) →
    j < s.nextJoin ∧ (s.join j).parent = p ∧ j ∉ s.returned
  member : ∀ c j, (s.session c).state ≠ .absent → (s.session c).join = some j →
    j < s.nextJoin ∧ c ∈ (s.join j).children
  joining : ∀ j < s.nextJoin, s.Joining j
  lt : ∀ j ∈ s.returned, j < s.nextJoin

/-- The sessions `D` go on without joining anything, and the others are as they were. -/
structure Turn (D : Nat → Prop) (s s' : Runtime) : Prop where
  nextId : s'.sched.mgr.nextId = s.sched.mgr.nextId
  join : s'.join = s.join
  nextJoin : s'.nextJoin = s.nextJoin
  returned : s'.returned = s.returned
  passes : s.sched.pending ≠ [] → s'.sched.passes = s.sched.passes
  same : ∀ i, ¬D i → s'.session i = s.session i ∧ (i ∈ s'.sched.pending ↔ i ∈ s.sched.pending)
  flag : ∀ i, D i → (s'.session i).gonnaShutDown = (s.session i).gonnaShutDown ∧
    (s'.session i).join = (s.session i).join
  absent : ∀ i, D i → ((s'.session i).state = .absent ↔ (s.session i).state = .absent)
  old : ∀ i, D i → ∀ j, (s.session i).state ≠ .waiting (.parallel j)
  new : ∀ i, D i → ∀ j, (s'.session i).state ≠ .waiting (.parallel j)
  unstopped : ∀ i, D i → ∀ op, (s'.session i).state ≠ .raised op true

theorem Joins.turn {D : Nat → Prop} (hs : s.Joins) (ht : Turn D s s') : s'.Joins := by
  have hflag i : (s'.session i).gonnaShutDown = (s.session i).gonnaShutDown ∧
      (s'.session i).join = (s.session i).join := by
    by_cases hi : D i
    · exact ht.flag i hi
    · rw [(ht.same i hi).1]
      exact ⟨rfl, rfl⟩
  have habs i : (s'.session i).state = .absent ↔ (s.session i).state = .absent := by
    by_cases hi : D i
    · exact ht.absent i hi
    · rw [(ht.same i hi).1]
  -- No call of `parallel` begins or returns in such a turn.
  have hwait i j : (s'.session i).state = .waiting (.parallel j) ↔
      (s.session i).state = .waiting (.parallel j) := by
    by_cases hi : D i
    · exact iff_of_false (ht.new i hi j) (ht.old i hi j)
    · rw [(ht.same i hi).1]
  refine ⟨fun i => ?_, fun i op => ?_, ?_, fun p j h => ?_, fun c j hc hj => ?_, fun j hj => ?_, ?_⟩
  · rw [(hflag i).1]
    exact hs.unflagged i
  · by_cases hi : D i
    · exact ht.unstopped i hi op
    · rw [(ht.same i hi).1]
      exact hs.unstopped i op
  · rw [ht.returned]
    exact hs.nodup
  · rw [ht.nextJoin, ht.join, ht.returned]
    exact hs.waiting p j ((hwait p j).1 h)
  · rw [ht.nextJoin, ht.join]
    exact hs.member c j (fun h => hc ((habs c).2 h)) ((hflag c).2 ▸ hj)
  · have hJ := hs.joining j (ht.nextJoin ▸ hj)
    refine ⟨?_, ?_, ?_, ?_, ?_⟩
    · rw [ht.join]
      exact hJ.nodup
    · rw [ht.join, ht.nextId]
      intro c hc
      obtain ⟨hpos, hle, hcj⟩ := hJ.child c hc
      refine ⟨hpos, hle, fun h => ?_⟩
      rw [(hflag c).2]
      exact hcj fun h' => h ((habs c).2 h')
    · rw [left, ht.join, hJ.fnsLeft, left]
      simp only [ne_eq, habs]
    · rw [ht.join, ht.returned]
      exact hJ.returned
    · rw [ht.join, ht.returned]
      intro hj
      obtain ⟨hp, hpend⟩ := hJ.waits hj
      -- The parent waits in `parallel`, and so has no part in the turn.
      have hD : ¬D (s.join j).parent := fun hD => ht.old _ hD j hp
      rw [hwait, (ht.same _ hD).2]
      exact ⟨hp, hpend⟩
  · rw [ht.returned, ht.nextJoin]
    exact hs.lt

/-- A top-level session is created. -/
theorem Joins.spawn (hs : s.Joins) (hb : s.Base) (root : Nat) : (s.spawn root none).Joins := by
  have hold {i} (hi : i ≠ s.sched.mgr.nextId + 1) :
      (s.spawn root none).session i = s.session i := by rw [spawn_session, if_neg hi]
  have hnew : (s.spawn root none).session (s.sched.mgr.nextId + 1) = ⟨false, root, none, .fresh⟩ := by
    rw [spawn_session, if_pos rfl]
  have hpend {i} (hi : i ≠ s.sched.mgr.nextId + 1) :
      i ∈ (s.spawn root none).sched.pending ↔ i ∈ s.sched.pending :=
    (hb.inv.register fun _ => ()).mem_pending_planResume_iff hi _
  refine ⟨fun i => ?_, fun i op => ?_, hs.nodup, fun p j h => ?_, fun c j hc hj => ?_,
    fun j hj => ?_, hs.lt⟩
  · by_cases hi : i = s.sched.mgr.nextId + 1
    · rw [hi, hnew]
    · rw [hold hi]
      exact hs.unflagged i
  · by_cases hi : i = s.sched.mgr.nextId + 1
    · rw [hi, hnew]
      simp
    · rw [hold hi]
      exact hs.unstopped i op
  · by_cases hi : p = s.sched.mgr.nextId + 1
    · rw [hi, hnew] at h
      cases h
    · rw [hold hi] at h
      exact hs.waiting p j h
  · by_cases hi : c = s.sched.mgr.nextId + 1
    · rw [hi, hnew] at hj
      cases hj
    · rw [hold hi] at hc hj
      exact hs.member c j hc hj
  · have hJ := hs.joining j hj
    -- The functions and their parent were created before.
    have hne {c} (hc : c ∈ (s.join j).children) : c ≠ s.sched.mgr.nextId + 1 := by
      have := (hJ.child c hc).2.1
      omega
    refine ⟨hJ.nodup, fun c hc => ?_, ?_, hJ.returned, fun hret => ?_⟩
    · obtain ⟨hpos, hle, hcj⟩ := hJ.child c hc
      rw [hold (hne hc), spawn_nextId]
      exact ⟨hpos, Nat.le_succ_of_le hle, hcj⟩
    · refine hJ.fnsLeft.trans (List.countP_congr fun c hc => ?_)
      rw [hold (hne hc)]
    · have hp : (s.join j).parent ≠ s.sched.mgr.nextId + 1 := by
        have := hb.parents j
        omega
      obtain ⟨hst, hiff⟩ := hJ.waits hret
      refine ⟨?_, (hpend hp).trans hiff⟩
      change ((s.spawn root none).session (s.join j).parent).state = _
      rw [hold hp]
      exact hst

theorem pending_spawnChildren {s : Runtime} (hb : s.Base) (root join n : Nat) {i : Nat}
    (hi : i ≤ s.sched.mgr.nextId) :
    i ∈ (s.spawnChildren root join n).sched.pending ↔ i ∈ s.sched.pending := by
  induction n generalizing s with
  | zero => rfl
  | succ n ih =>
    refine (ih (hb.spawn root (some join)) ?_).trans ?_
    · rw [spawn_nextId]
      omega
    · exact (hb.inv.register fun _ => ()).mem_pending_planResume_iff (by omega) _

/-- `parallel` creates the sessions of its functions, and waits for them. -/
theorem Joins.parallel (hs : s.Joins) (hb : s.Base) (hid : s.current = some id) {n : Nat}
    (hn : 0 < n) : (s.parallel id n).Joins := by
  obtain ⟨hctl, huser⟩ := current_eq_some.1 hid
  obtain ⟨hmem, htaken⟩ := hb.inv.running id hctl
  have hle := hb.inv.consistent.le_nextId id hmem
  have hsess := parallel_session s hle n
  obtain ⟨hret, hnext, hids, hjoin⟩ := parallel_eq s id n
  have hpend {i} (hi : i ≤ s.sched.mgr.nextId) :
      i ∈ (s.parallel id n).sched.pending ↔ i ∈ s.sched.pending :=
    pending_spawnChildren hb _ _ n hi
  -- The sessions there were stay as they were, but for the parent.
  have hold {i} (hi : i ≤ s.sched.mgr.nextId) (hne : i ≠ id) :
      (s.parallel id n).session i = s.session i := by
    rw [hsess, if_neg hne, if_neg (by omega)]
  have hchild {c j} (hj : j < s.nextJoin) (hc : c ∈ (s.join j).children) :
      (((s.parallel id n).session c).state ≠ .absent ↔ (s.session c).state ≠ .absent) ∧
        ((s.parallel id n).session c).join = (s.session c).join := by
    have hcle := ((hs.joining j hj).child c hc).2.1
    by_cases hne : c = id
    · rw [hsess, if_pos hne, hne, huser]
      simp
    · rw [hold hcle hne]
      exact ⟨.rfl, rfl⟩
  refine ⟨fun i => ?_, fun i op => ?_, hret ▸ hs.nodup, fun p j h => ?_, fun c j hc hj => ?_,
    fun j hj => ?_, fun j hj => ?_⟩
  · rw [hsess]
    split_ifs
    · exact hs.unflagged id
    · rfl
    · exact hs.unflagged i
  · rw [hsess]
    split_ifs
    · simp
    · simp
    · exact hs.unstopped i op
  · rw [hsess] at h
    rw [hret, hnext, hjoin]
    split_ifs at h with h₁ h₂
    · obtain rfl : s.nextJoin = j := by simpa using h
      rw [if_pos rfl]
      exact ⟨Nat.lt_succ_self _, h₁.symm, fun h => absurd (hs.lt _ h) (lt_irrefl _)⟩
    · obtain ⟨hlt, hp, hj⟩ := hs.waiting p j h
      rw [if_neg (by omega)]
      exact ⟨by omega, hp, hj⟩
  · rw [hnext, hjoin]
    by_cases hci : c = id
    · rw [hsess, if_pos hci] at hj
      obtain ⟨hlt, hc'⟩ := hs.member id j (by simp [huser]) hj
      rw [if_neg (by omega), hci]
      exact ⟨by omega, hc'⟩
    · rw [hsess, if_neg hci] at hc hj
      split_ifs at hc hj with h₂
      · obtain rfl : s.nextJoin = j := by simpa using hj
        rw [if_pos rfl, List.mem_range'_1]
        exact ⟨Nat.lt_succ_self _, by omega⟩
      · obtain ⟨hlt, hc'⟩ := hs.member c j hc hj
        rw [if_neg (by omega)]
        exact ⟨by omega, hc'⟩
  · rw [hnext] at hj
    by_cases hjn : j = s.nextJoin
    · have hnew : (s.parallel id n).join j =
          ⟨id, n, List.range' (s.sched.mgr.nextId + 1) n⟩ := by rw [hjoin, if_pos hjn]
      have hfresh {c} (hc : c ∈ List.range' (s.sched.mgr.nextId + 1) n) :
          (s.parallel id n).session c = ⟨false, (s.session id).root, some j, .fresh⟩ := by
        rw [List.mem_range'_1] at hc
        rw [hsess, if_neg (by omega), if_pos (by omega), hjn]
      refine ⟨?_, ?_, ?_, fun h => ?_, fun _ => ⟨?_, ?_⟩⟩
      · rw [hnew]
        exact List.nodup_range'
      · rw [hnew, hids]
        intro c hc
        rw [hfresh hc]
        rw [List.mem_range'_1] at hc
        exact ⟨by omega, by omega, fun _ => rfl⟩
      · rw [left, hnew, List.countP_eq_length.2 fun c hc => by rw [hfresh hc]; simp,
          List.length_range']
      · rw [hret, hjn] at h
        exact absurd (hs.lt _ h) (lt_irrefl _)
      · rw [hnew, hsess, if_pos rfl, hjn]
      · rw [hnew, hpend hle]
        exact iff_of_false (fun h => hb.inv.disjoint htaken h) (by simp; omega)
    · have hlt : j < s.nextJoin := by omega
      have hJ := hs.joining j hlt
      have hsame : (s.parallel id n).join j = s.join j := by rw [hjoin, if_neg hjn]
      refine ⟨?_, ?_, ?_, ?_, ?_⟩
      · rw [hsame]
        exact hJ.nodup
      · rw [hsame, hids]
        intro c hc
        obtain ⟨hpos, hcle, hcj⟩ := hJ.child c hc
        obtain ⟨habs, hjn⟩ := hchild hlt hc
        rw [habs, hjn]
        exact ⟨hpos, by omega, hcj⟩
      · rw [left, hsame, hJ.fnsLeft, left]
        refine (List.countP_congr fun c hc => ?_).symm
        simpa using (hchild hlt hc).1
      · rw [hsame, hret]
        exact hJ.returned
      · rw [hsame, hret]
        intro hj
        obtain ⟨hp, hiff⟩ := hJ.waits hj
        have hne : (s.join j).parent ≠ id := fun h => by
          rw [h, huser] at hp
          cases hp
        rw [hold (hb.parents j) hne, hpend (hb.parents j)]
        exact ⟨hp, hiff⟩
  · rw [hret] at hj
    exact Nat.lt_succ_of_lt (hs.lt j hj)

/-- The session that ends is counted off in the call it runs a function of. -/
theorem finish_join (s : Runtime) (id j : Nat) :
    (s.finish id).join j = if (s.session id).join = some j then
      { s.join j with fnsLeft := (s.join j).fnsLeft - 1 } else s.join j := by
  rw [(finish_eq s id).2.2.1]
  unfold afterRun
  split
  · rw [‹(s.session id).join = none›, if_neg (by simp)]
  · rename_i j' hj'
    have : Function.update s.join j' { s.join j' with fnsLeft := (s.join j').fnsLeft - 1 } j =
        if (s.session id).join = some j then
          { s.join j with fnsLeft := (s.join j).fnsLeft - 1 } else s.join j := by
      rw [Function.update_apply]
      by_cases h : j = j'
      · rw [if_pos h, if_pos (h ▸ hj'), h]
      · rw [if_neg h, if_neg fun h' => h (Option.some.inj (h'.symm.trans hj'))]
    simp only
    split <;> exact this

/-- The last function to end plans the parent. -/
theorem afterRun_sched (hj : (s.session id).join = some j) : (s.afterRun id).sched =
    if (s.join j).fnsLeft - 1 = 0 then (s.plan (s.join j).parent).sched else s.sched := by
  unfold afterRun
  rw [hj]
  simp only
  split
  · simp only [plan, Function.update_self]
  · rfl

/-- Only the parent is planned, and only by the last one. -/
theorem mem_pending_finish (hb : s.Base) (i : Nat)
    (hi : ∀ j, (s.session id).join = some j → (s.join j).fnsLeft ≤ 1 → i ≠ (s.join j).parent) :
    i ∈ (s.finish id).sched.pending ↔ i ∈ s.sched.pending := by
  rw [(finish_eq s id).2.2.2]
  cases hj : (s.session id).join with
  | none =>
    unfold afterRun
    rw [hj]
  | some j =>
    rw [afterRun_sched hj]
    split
    · exact hb.inv.mem_pending_planResume_iff (hi j hj (by omega)) _
    · rfl

theorem parent_mem_pending_finish (hb : s.Base) {j : Nat} (hj : (s.session id).join = some j)
    (hle : (s.join j).fnsLeft ≤ 1) (hp : (s.join j).parent ∉ s.sched.taken) :
    (s.join j).parent ∈ (s.finish id).sched.pending := by
  rw [(finish_eq s id).2.2.2, afterRun_sched hj, if_pos (by omega)]
  exact hb.inv.mem_pending_planResume hp _

/-- A function ends: its parent is planned if it is the last one. -/
theorem Joins.finish (hs : s.Joins) (hb : s.Base) (hid : s.current = some id)
    (hP : s.Joinable .ret) : (s.finish id).Joins := by
  obtain ⟨hctl, huser⟩ := current_eq_some.1 hid
  have hsess := finish_session s id
  obtain ⟨hret, hnext, -, -⟩ := finish_eq s id
  have hjoin := finish_join s id
  have hsame j : ((s.finish id).join j).children = (s.join j).children ∧
      ((s.finish id).join j).parent = (s.join j).parent := by
    rw [hjoin]
    split <;> exact ⟨rfl, rfl⟩
  refine ⟨fun i => ?_, fun i op => ?_, hret ▸ hs.nodup, fun p j h => ?_, fun c j hc hj => ?_,
    fun j hj => ?_, fun j hj => ?_⟩
  · rw [hsess]
    split_ifs
    · exact hs.unflagged id
    · exact hs.unflagged i
  · rw [hsess]
    split_ifs
    · simp
    · exact hs.unstopped i op
  · rw [hsess] at h
    split_ifs at h
    rw [hnext, hret, (hsame j).2]
    exact hs.waiting p j h
  · rw [hsess] at hc hj
    split_ifs at hc hj
    · exact absurd rfl hc
    · rw [hnext, (hsame j).1]
      exact hs.member c j hc hj
  · rw [hnext] at hj
    have hJ := hs.joining j hj
    -- The session is among the functions if and only if it runs one of them.
    have hmem : id ∈ (s.join j).children ↔ (s.session id).join = some j :=
      ⟨fun h => (hJ.child id h).2.2 (by simp [huser]), fun h =>
        (hs.member id j (by simp [huser]) h).2⟩
    -- Their number decreases by one if the session runs one of them.
    have hleft : (s.finish id).left j =
        if (s.session id).join = some j then s.left j - 1 else s.left j := by
      rw [left, (hsame j).1, left]
      simp only [hsess]
      split_ifs with h
      · have hperm := List.perm_cons_erase (hmem.2 h)
        rw [hperm.countP_eq, hperm.countP_eq, List.countP_cons_of_neg (by simp),
          List.countP_cons_of_pos (by simp [huser]), Nat.add_sub_cancel]
        refine List.countP_congr fun c hc => ?_
        rw [if_neg (hJ.nodup.mem_erase_iff.1 hc).1]
      · refine List.countP_congr fun c hc => ?_
        rw [if_neg fun h' : c = id => h (hmem.1 (h' ▸ hc))]
    have hfns : ((s.finish id).join j).fnsLeft = (s.finish id).left j := by
      rw [hleft, hjoin, ← hJ.fnsLeft]
      split <;> rfl
    refine ⟨?_, ?_, hfns, ?_, ?_⟩
    · rw [(hsame j).1]
      exact hJ.nodup
    · rw [(hsame j).1, finish_nextId]
      intro c hc
      obtain ⟨hpos, hle, hcj⟩ := hJ.child c hc
      refine ⟨hpos, hle, ?_⟩
      rw [hsess]
      split_ifs
      · exact fun h => absurd rfl h
      · exact hcj
    · rw [hret, hfns, hleft, ← hJ.fnsLeft]
      intro h
      rw [hJ.returned h]
      split <;> rfl
    · -- The parent is not the session, which runs. It is planned if this was the last function.
      rw [hret, hfns, hleft, ← hJ.fnsLeft, (hsame j).2]
      intro h
      obtain ⟨hp, hiff⟩ := hJ.waits h
      have hne : (s.join j).parent ≠ id := fun h => by
        rw [h, huser] at hp
        cases hp
      rw [hsess, if_neg hne]
      refine ⟨hp, ?_⟩
      split_ifs with hidj
      · have hpos : 0 < (s.join j).fnsLeft := by
          rw [hJ.fnsLeft]
          exact List.countP_pos_iff.2 ⟨id, hmem.2 hidj, by simp [huser]⟩
        by_cases hone : (s.join j).fnsLeft = 1
        · refine iff_of_true (parent_mem_pending_finish hb hidj (by omega) ?_) (by omega)
          exact hP.2 id hid j hidj hone
        · refine (mem_pending_finish hb _ fun j' hj' hle => ?_).trans (hiff.trans ?_)
          · obtain rfl := Option.some.inj (hidj.symm.trans hj')
            omega
          · omega
      · -- The last function of another call plans another session.
        refine (mem_pending_finish hb _ fun j' hj' hle heq => ?_).trans hiff
        have hpos : 0 < (s.join j').fnsLeft := by
          rw [(hs.joining j' (hs.member id j' (by simp [huser]) hj').1).fnsLeft]
          refine List.countP_pos_iff.2 ⟨id, ?_, by simp [huser]⟩
          exact (hs.member id j' (by simp [huser]) hj').2
        have hJ' := hs.joining j' (hs.member id j' (by simp [huser]) hj').1
        have hp' := (hJ'.waits fun h => by rw [hJ'.returned h] at hpos; omega).1
        rw [← heq, hp] at hp'
        obtain rfl : j = j' := by simpa using hp'
        exact hidj hj'
  · rw [hret] at hj
    rw [hnext]
    exact hs.lt j hj

/-! ## The steps -/

/-- A call of `parallel` returns: its session is fetched. -/
theorem Joins.returns (hs : s.Joins) {v : Values}
    (hget : s.sched.mgr.activeSessions[s.sched.cursor]? = some (id, v))
    (hst : (s.session id).state = .waiting (.parallel j)) :
    ((s.fetched id v).returns id (.parallel j)).Joins := by
  obtain ⟨hlt, hpar, hnot⟩ := hs.waiting id j hst
  have hpend {i} (hi : i ≠ id) :
      i ∈ ((s.fetched id v).returns id (.parallel j)).sched.pending ↔ i ∈ s.sched.pending := by
    rw [(Sched.pending_eq_cons hget).1, List.mem_cons, or_iff_right hi]
    rfl
  -- It has been planned, so its functions have ended.
  have hdone : (s.join j).fnsLeft = 0 := by
    rw [← ((hs.joining j hlt).waits hnot).2, hpar, (Sched.pending_eq_cons hget).1]
    exact List.mem_cons_self
  have hsess i : ((s.fetched id v).returns id (.parallel j)).session i =
      if i = id then { s.session id with state := .user } else s.session i :=
    Function.update_apply _ _ _ _
  have hmem i : i ∈ ((s.fetched id v).returns id (.parallel j)).returned ↔
      i ∈ s.returned ∨ i = j := by
    change i ∈ s.returned ++ [j] ↔ _
    rw [List.mem_append, List.mem_singleton]
  refine ⟨fun i => ?_, fun i op => ?_, ?_, fun p k h => ?_, fun c k hc hk => ?_, fun k hk => ?_,
    fun k hk => ?_⟩
  · rw [hsess]
    split_ifs
    · exact hs.unflagged id
    · exact hs.unflagged i
  · rw [hsess]
    split_ifs
    · simp
    · exact hs.unstopped i op
  · refine List.nodup_append.2 ⟨hs.nodup, List.nodup_singleton _, fun a ha b hb => ?_⟩
    -- The call has not returned before.
    rintro rfl
    exact hnot (List.mem_singleton.1 hb ▸ ha)
  · rw [hsess] at h
    split_ifs at h with hp
    -- Another session waits in another call.
    obtain ⟨hlt', hp', hk⟩ := hs.waiting p k h
    refine ⟨hlt', hp', fun h => ((hmem k).1 h).elim hk fun heq => ?_⟩
    rw [heq, hpar] at hp'
    exact hp hp'.symm
  · rw [hsess] at hc hk
    split_ifs at hc hk with h
    · exact h ▸ hs.member id k (by simp [hst]) hk
    · exact hs.member c k hc hk
  · have hJ := hs.joining k hk
    -- The session is alive before and after, so as many functions are left to all calls.
    have hstate c : (((s.fetched id v).returns id (.parallel j)).session c).state ≠ .absent ↔
        (s.session c).state ≠ .absent := by
      rw [hsess]
      split_ifs with h
      · rw [h, hst]
        simp
      · rfl
    refine ⟨hJ.nodup, fun c hc => ?_, ?_, fun h => ?_, fun h => ?_⟩
    · obtain ⟨hpos, hle, hck⟩ := hJ.child c hc
      refine ⟨hpos, hle, fun h => ?_⟩
      rw [hsess]
      split_ifs with hcid
      · exact hcid ▸ hck ((hstate c).1 h)
      · exact hck ((hstate c).1 h)
    · refine hJ.fnsLeft.trans (List.countP_congr fun c _ => ?_)
      simpa using (hstate c).symm
    · rcases (hmem k).1 h with h | rfl
      · exact hJ.returned h
      · exact hdone
    · have hk' : k ∉ s.returned := fun h' => h ((hmem k).2 (.inl h'))
      obtain ⟨hp, hiff⟩ := hJ.waits hk'
      have hne : (s.join k).parent ≠ id := fun heq => by
        rw [heq, hst] at hp
        exact h ((hmem k).2 (.inr (by simpa using hp.symm)))
      refine ⟨?_, (hpend hne).trans hiff⟩
      change (((s.fetched id v).returns id (.parallel j)).session (s.join k).parent).state = _
      rw [hsess, if_neg hne]
      exact hp
  · rcases (hmem k).1 hk with hk | rfl
    · exact hs.lt k hk
    · exact hlt

/-- A registered session that neither joins nor has been stopped. -/
def Apart : SState → Prop
  | .absent | .waiting (.parallel _) | .raised _ true => False
  | _ => True

/-- A turn of a single session, apart before and after it. -/
theorem Turn.single {st : SState}
    (hsess : s'.session = Function.update s.session id { s.session id with state := st })
    (hold : Apart (s.session id).state) (hnew : Apart st)
    (hnext : s'.sched.mgr.nextId = s.sched.mgr.nextId) (hjoin : s'.join = s.join)
    (hnextJoin : s'.nextJoin = s.nextJoin) (hret : s'.returned = s.returned)
    (hpass : s'.sched.passes = s.sched.passes)
    (hpend : ∀ i, i ≠ id → (i ∈ s'.sched.pending ↔ i ∈ s.sched.pending)) :
    Turn (· = id) s s' := by
  have hid : s'.session id = { s.session id with state := st } := by
    rw [hsess, Function.update_self]
  refine ⟨hnext, hjoin, hnextJoin, hret, fun _ => hpass, fun i hi => ⟨?_, hpend i hi⟩, ?_, ?_, ?_,
    ?_, ?_⟩
  · rw [hsess, Function.update_of_ne hi]
  all_goals rintro i rfl
  · rw [hid]
    exact ⟨rfl, rfl⟩
  · rw [hid]
    exact iff_of_false (fun h : st = _ => (h ▸ hnew :)) fun h => (h ▸ hold :)
  · exact fun j h => (h ▸ hold :)
  · rw [hid]
    exact fun j (h : st = _) => (h ▸ hnew :)
  · rw [hid]
    exact fun op (h : st = _) => (h ▸ hnew :)

theorem Joins.apart (hs : s.Joins) (hst : (s.session id).state.Runs) :
    Apart (s.session id).state := by
  have hstop := hs.unstopped id
  generalize (s.session id).state = st at hst hstop
  match st, hst with
  | .user, _ => trivial
  | .raised _ false, _ => trivial
  | .raised op true, _ => exact hstop op rfl

/-- The turn of a session that is resumed, unless it is in `parallel`. -/
theorem turn_resume (hs : s.Joins) {v : Values} {again : Bool}
    (hget : s.sched.mgr.activeSessions[s.sched.cursor]? = some (id, v))
    (h : (s.fetched id v).resume id v.args again = some s') :
    Turn (· = id) s s' ∨ ∃ j, (s.session id).state = .waiting (.parallel j) ∧
      s' = (s.fetched id v).returns id (.parallel j) := by
  have hpend i (hi : i ≠ id) :
      i ∈ (s.fetched id v).sched.pending ↔ i ∈ s.sched.pending := by
    rw [(Sched.pending_eq_cons hget).1, List.mem_cons, or_iff_right hi]
    rfl
  rcases resume_cases h with ⟨hst, rfl⟩ | ⟨op, hst, h⟩
  · -- It is started.
    have hst' : (s.session id).state = .fresh := hst
    exact .inl (Turn.single rfl (by rw [hst']; trivial) trivial rfl rfl rfl rfl rfl hpend)
  have hst' : (s.session id).state = .waiting op := hst
  have hflag : ((s.fetched id v).session id).gonnaShutDown = false := hs.unflagged id
  by_cases hop : ∃ j, op = .parallel j
  · -- It returns from `parallel`, as no session is flagged.
    obtain ⟨j, rfl⟩ := hop
    refine .inr ⟨j, hst', ?_⟩
    obtain ⟨htwice, -⟩ | rfl := h
    · cases htwice
    · unfold resumeOp
      rw [hflag]
      rfl
  have hold : Apart (s.session id).state := by
    rw [hst']
    match op, hop with
    | .watch _ _, _ => trivial
    | .cooperate, _ => trivial
    | .parallel j, h => exact h ⟨j, rfl⟩
  refine .inl ?_
  obtain ⟨-, rfl⟩ | rfl := h
  · -- The process ends, where the session waits.
    have hsess : (s.fetched id v).abort.session =
        Function.update s.session id { s.session id with state := (s.session id).state } :=
      (Function.update_eq_self id s.session).symm
    exact Turn.single hsess hold hold rfl rfl rfl rfl rfl hpend
  rcases resumeOp_cases (s.fetched id v) id op v.args again with
    ⟨stop, hr, h'⟩ | ⟨-, h'⟩ | ⟨d, c, -, h'⟩
  · rw [hflag] at hr
    -- It does not raise `STOP` without the flag.
    cases stop with
    | true => exact absurd hr (reply_false_ne_stop op v.args)
    | false => exact h' ▸ Turn.single rfl hold trivial rfl rfl rfl rfl rfl hpend
  · exact h' ▸ Turn.single rfl hold (hst' ▸ hold) rfl rfl rfl rfl rfl hpend
  · obtain ⟨_, _, _, -, heq⟩ := release_eq (s.fetched id v) id op d c
    rcases h' with h' | ⟨conn, _, -, h'⟩
    · -- Other operations are not recorded when they return.
      have hret : (s.fetched id v |>.release id op d c).returns id op =
          ((s.fetched id v).release id op d c).setState id .user := by
        unfold returns
        split
        · exact absurd ⟨_, rfl⟩ hop
        · rfl
      rw [h', hret, heq]
      exact Turn.single rfl hold trivial rfl rfl rfl rfl rfl hpend
    · rw [h', heq]
      exact Turn.single rfl hold trivial rfl rfl rfl rfl rfl hpend

/-- Nobody's turn: the sessions and what is to be fetched stay as they are. -/
theorem Turn.none (hsess : s'.session = s.session) (hnext : s'.sched.mgr.nextId = s.sched.mgr.nextId)
    (hjoin : s'.join = s.join) (hnextJoin : s'.nextJoin = s.nextJoin)
    (hret : s'.returned = s.returned)
    (hpass : s.sched.pending ≠ [] → s'.sched.passes = s.sched.passes)
    (hpend : ∀ i, i ∈ s'.sched.pending ↔ i ∈ s.sched.pending) : Turn (fun _ => False) s s' := by
  refine ⟨hnext, hjoin, hnextJoin, hret, hpass, fun i _ => ⟨by rw [hsess], hpend i⟩, ?_, ?_, ?_, ?_,
    ?_⟩
  all_goals exact fun _ h => h.elim

/-- Every step is somebody's turn, creates a session, or belongs to `parallel`. -/
theorem joinable_cases (hs : s.Joins) (hb : s.Base) {a : Act} (hP : s.Joinable a)
    (h : s.step a = some s') :
    (∃ D, Turn D s s') ∨ s' = s.spawn (s.sched.mgr.nextId + 1) none ∨
      (∃ id n, s.current = some id ∧ 0 < n ∧ s' = s.parallel id n) ∨
      (∃ id, s.current = some id ∧ s.Joinable .ret ∧ s' = s.finish id) ∨
      ∃ id v j, s.sched.mgr.activeSessions[s.sched.cursor]? = some (id, v) ∧
        (s.session id).state = .waiting (.parallel j) ∧
        s' = (s.fetched id v).returns id (.parallel j) := by
  have hcur {id} (hid : s.current = some id) : Apart (s.session id).state := by
    rw [(current_eq_some.1 hid).2]
    trivial
  have hfail {id} : Turn (fun _ => False) s (s.fail id) := by
    obtain ⟨_, _, _, _, -, heq⟩ := clean_eq s id
    refine Turn.none (clean_session s id) ?_ ?_ ?_ ?_ ?_ ?_ <;> unfold Runtime.fail <;> rw [heq]
    · exact fun _ => rfl
    · exact fun _ => .rfl
  cases a with
  | event handle args =>
    obtain ⟨-, w, hw, hh, -, rfl⟩ := step_event h
    have hst := hP.1 w hw hh
    -- The session stays as it is, and is planned.
    have hsess : s.session = Function.update s.session w.id
        { s.session w.id with state := .waiting (.watch w.kind w.handle) } := by
      rw [← hst, Function.update_eq_self]
    exact .inl ⟨_, Turn.single hsess (by rw [hst]; trivial) trivial (Manager.planResume_nextId _)
      rfl rfl rfl rfl fun i hi => hb.inv.mem_pending_planResume_iff hi _⟩
  | shutDown ids => exact hP.1.elim
  | start =>
    obtain ⟨-, rfl⟩ := step_start h
    exact .inl ⟨_, Turn.none rfl rfl rfl rfl rfl (fun _ => rfl) fun _ => .rfl⟩
  | fetch again =>
    obtain ⟨hctl, id, v, hget, ⟨hmem, h⟩ | ⟨hmem, rfl⟩⟩ := step_fetch h
    · rcases turn_resume hs hget h with ht | ⟨j, hst, heq⟩
      · exact .inl ⟨_, ht⟩
      · exact .inr (.inr (.inr (.inr ⟨id, v, j, hget, hst, heq⟩)))
    · -- What has been planned for a session that has ended is passed over.
      have habs : (s.session id).state = .absent := by
        simpa [hb.registered id] using hmem
      refine .inl ⟨(· = id), rfl, rfl, rfl, rfl, fun _ => rfl, fun i hi => ⟨rfl, ?_⟩, ?_, ?_, ?_, ?_,
        ?_⟩
      · rw [(Sched.pending_eq_cons hget).1, List.mem_cons, or_iff_right hi]
        rfl
      all_goals rintro i rfl
      · exact ⟨rfl, rfl⟩
      · exact .rfl
      all_goals simp [habs]
  | done =>
    obtain ⟨-, hle, rfl⟩ := step_done h
    -- The pass ends where nothing is left to be fetched.
    have hnil : s.sched.pending = [] :=
      List.drop_eq_nil_of_le (by rwa [Manager.queue, List.length_map])
    refine .inl ⟨_, Turn.none rfl rfl rfl rfl rfl (fun h => absurd hnil h) fun i => ?_⟩
    rw [hnil]
    rfl
  | spawn =>
    obtain ⟨-, rfl⟩ := step_spawn h
    exact .inr (.inl rfl)
  | block kind =>
    obtain ⟨id, hid, -, rfl⟩ := step_block h
    exact .inl ⟨_, Turn.single rfl (hcur hid) trivial rfl rfl rfl rfl rfl fun _ _ => .rfl⟩
  | parallel n =>
    obtain ⟨id, hid, rfl⟩ := step_parallel h
    exact .inr (.inr (.inl ⟨id, n, hid, hP.2, rfl⟩))
  | cooperate =>
    obtain ⟨id, hid, rfl⟩ := step_cooperate h
    exact .inl ⟨_, Turn.single rfl (hcur hid) trivial (Manager.planResume_nextId _) rfl rfl rfl rfl
      fun i hi => hb.inv.mem_pending_planResume_iff hi _⟩
  | close conn =>
    obtain ⟨id, -, -, -, rfl⟩ := step_close h
    exact .inl ⟨_, Turn.none rfl rfl rfl rfl rfl (fun _ => rfl) fun _ => .rfl⟩
  | ret =>
    obtain ⟨id, hid, rfl⟩ := step_ret h
    exact .inr (.inr (.inr (.inl ⟨id, hid, hP, rfl⟩)))
  | throw falsy =>
    obtain ⟨id, hid, ⟨rfl, rfl⟩ | ⟨-, rfl⟩⟩ := step_throw h
    · -- It is a top-level session, which ends as if it returned.
      have htop := hP.1 rfl id hid
      refine .inr (.inr (.inr (.inl ⟨id, hid, ⟨trivial, fun i hi j hj => ?_⟩,
        (finish_of_top htop).symm⟩)))
      obtain rfl := Option.some.inj (hid.symm.trans hi)
      rw [htop] at hj
      cases hj
    · exact .inl ⟨_, hfail⟩
  | rescue =>
    obtain ⟨id, op, stop, -, hst, rfl⟩ := step_rescue h
    have hold : Apart (s.session id).state := hs.apart (by rw [hst]; trivial)
    exact .inl ⟨_, Turn.single rfl hold trivial rfl rfl rfl rfl rfl fun _ _ => .rfl⟩
  | escape =>
    obtain ⟨id, op, -, ⟨hst, rfl⟩ | ⟨-, rfl⟩⟩ := step_escape h
    · exact absurd hst (hs.unstopped id op)
    · exact .inl ⟨_, hfail⟩

/-- What becomes of the calls of `parallel`. -/
structure Later (s s' : Runtime) : Prop where
  nextJoin : s.nextJoin ≤ s'.nextJoin
  call : ∀ j < s.nextJoin, (s'.join j).children = (s.join j).children ∧
    (s'.join j).fnsLeft ≤ (s.join j).fnsLeft
  returned : s.returned ⊆ s'.returned
  passes : s.sched.pending ≠ [] → s'.sched.passes = s.sched.passes

/-- Every step meeting the condition keeps the invariant. -/
theorem Joins.step (hs : s.Joins) (hb : s.Base) {a : Act} (hP : s.Joinable a)
    (h : s.step a = some s') : s'.Joins ∧ Later s s' := by
  rcases joinable_cases hs hb hP h with ⟨D, ht⟩ | rfl | ⟨id, n, hid, hn, rfl⟩ | ⟨id, hid, hr, rfl⟩ |
    ⟨id, v, j, hget, hst, rfl⟩
  · refine ⟨hs.turn ht, Nat.le_of_eq ht.nextJoin.symm, fun j _ => ?_, ?_, ht.passes⟩
    · rw [ht.join]
      exact ⟨rfl, le_rfl⟩
    · rw [ht.returned]
      exact List.Subset.refl _
  · exact ⟨hs.spawn hb _, le_rfl, fun _ _ => ⟨rfl, le_rfl⟩, List.Subset.refl _, fun _ => rfl⟩
  · obtain ⟨hret, hnext, -, hjoin⟩ := parallel_eq s id n
    refine ⟨hs.parallel hb hid hn, by omega, fun j hj => ?_, ?_, fun _ => ?_⟩
    · rw [hjoin, if_neg (by omega)]
      exact ⟨rfl, le_rfl⟩
    · rw [hret]
      exact List.Subset.refl _
    · change (s.spawnChildren _ _ n).sched.passes = _
      rw [spawnChildren_eq]
  · obtain ⟨hret, hnext, -, -⟩ := finish_eq s id
    refine ⟨hs.finish hb hid hr, Nat.le_of_eq hnext.symm, fun j _ => ?_, ?_, fun _ => ?_⟩
    · rw [finish_join]
      split
      · exact ⟨rfl, Nat.sub_le _ _⟩
      · exact ⟨rfl, le_rfl⟩
    · rw [hret]
      exact List.Subset.refl _
    · obtain ⟨_, _, heq, -⟩ := afterRun_eq s id
      change ((s.afterRun id).clean id).sched.passes = _
      rw [clean_sched, heq]
  · exact ⟨hs.returns hget hst, le_rfl, fun _ _ => ⟨rfl, le_rfl⟩, List.subset_append_left _ _,
      fun _ => rfl⟩

theorem joins_start : start.Joins where
  unflagged _ := rfl
  unstopped _ _ := by simp [start]
  nodup := List.nodup_nil
  waiting p j h := by cases h
  member c j h := absurd rfl h
  joining j h := absurd h (Nat.not_lt_zero j)
  lt j h := absurd h List.not_mem_nil

theorem joins_of_reachable (hs : sys.ReachableBy Joinable s) : s.Joins :=
  hs.invariant (by rintro _ rfl; exact joins_start) fun hr hI hP h =>
    (hI.step (base_of_reachable hr) hP h).1

/-! ## The join -/

/-- The session of a function has ended. -/
def Ended (s : Runtime) (c : Nat) : Prop := (s.session c).state = .absent

/-- What a call of `parallel` promises. -/
structure Joined (s : Runtime) (j : Nat) : Prop where
  /-- No function is run twice, -/
  atMostOnce : ∀ c ∈ (s.join j).children, s.started.count c ≤ 1
  /-- until the call returns its session waits in it, and nothing resumes it before
      the functions have ended, -/
  waits : j ∉ s.returned → (s.session (s.join j).parent).state = .waiting (.parallel j) ∧
    ((s.join j).parent ∈ s.sched.pending ↔ ∀ c ∈ (s.join j).children, s.Ended c)
  /-- it returns once, after each of the functions has been run and has ended. -/
  returns : j ∈ s.returned → s.returned.count j = 1 ∧
    ∀ c ∈ (s.join j).children, s.Ended c ∧ s.started.count c = 1

theorem Joining.ended_iff (hJ : s.Joining j) :
    (∀ c ∈ (s.join j).children, s.Ended c) ↔ (s.join j).fnsLeft = 0 := by
  rw [hJ.fnsLeft, left, List.countP_eq_zero]
  simp [Ended]

theorem Joins.joined (hs : s.Joins) (hst : s.Starts) (hj : j < s.nextJoin) : s.Joined j := by
  have hJ := hs.joining j hj
  refine ⟨fun c _ => List.nodup_iff_count_le_one.1 hst.nodup c, fun h => ?_, fun h => ?_⟩
  · rw [hJ.ended_iff]
    exact hJ.waits h
  · have hended := hJ.ended_iff.2 (hJ.returned h)
    refine ⟨List.count_eq_one_of_mem hs.nodup h, fun c hc => ⟨hended c hc, ?_⟩⟩
    obtain ⟨hpos, hle, -⟩ := hJ.child c hc
    have habs : (s.session c).state = .absent := hended c hc
    exact List.count_eq_one_of_mem hst.nodup ((hst.mem c).2 ⟨hpos, hle, by simp [habs]⟩)

theorem returned_subset {as : List Act} (hr : sys.ReachableBy Joinable s)
    (h : sys.Run Joinable s as s') : s.returned ⊆ s'.returned := by
  have hinv : sys.ReachableBy Joinable s' ∧ s.returned ⊆ s'.returned := by
    refine System.Run.invariant
      (I := fun t => sys.ReachableBy Joinable t ∧ s.returned ⊆ t.returned) ?_ h
      ⟨hr, List.Subset.refl _⟩
    rintro t a t' ⟨ht, hsub⟩ hP hst
    obtain ⟨-, hlater⟩ := (joins_of_reachable ht).step (base_of_reachable ht) hP hst
    exact ⟨ht.step hP hst, List.Subset.trans hsub hlater.returned⟩
  exact hinv.2

/-- Once its functions have ended, a call of `parallel` returns by the end of the pass. -/
theorem returned_of_passes {as : List Act} (hr : sys.ReachableBy Joinable s) (hj : j < s.nextJoin)
    (hended : ∀ c ∈ (s.join j).children, s.Ended c) (h : sys.Run Joinable s as s') :
    s'.sched.passes = s.sched.passes ∨ j ∈ s'.returned := by
  induction h with
  | nil => exact .inl rfl
  | @cons s s₁ s' a as hP hst hrun ih =>
    have hs := joins_of_reachable hr
    have hr₁ := hr.step hP hst
    obtain ⟨-, hlater⟩ := hs.step (base_of_reachable hr) hP hst
    have hfns := (hs.joining j hj).ended_iff.1 hended
    by_cases hret : j ∈ s.returned
    · exact .inr (returned_subset hr (.cons hP hst hrun) hret)
    · -- The session is to be fetched, and the pass does not end before it is.
      have hp := ((hs.joining j hj).waits hret).2.2 hfns
      have hj₁ := lt_of_lt_of_le hj hlater.nextJoin
      have hended₁ := ((joins_of_reachable hr₁).joining j hj₁).ended_iff.2
        (Nat.le_zero.1 (hfns ▸ (hlater.call j hj).2))
      rw [← hlater.passes (List.ne_nil_of_mem hp)]
      exact ih hr₁ hj₁ hended₁

/-- In runs without a shutdown in which every list of functions has an element, and
    the last function of a list does not end in the pass its parent has been fetched
    in, `parallel` is a join: it runs each function once, does not return before they
    have ended, and returns once, by the end of the pass in which the last one has. -/
theorem parallel_joins (hr : sys.ReachableBy Joinable s) (hj : j < s.nextJoin) :
    s.Joined j ∧ ∀ as s', (∀ c ∈ (s.join j).children, s.Ended c) → sys.Run Joinable s as s' →
      s.sched.passes < s'.sched.passes → j ∈ s'.returned := by
  refine ⟨(joins_of_reachable hr).joined (starts_of_reachable hr) hj, fun as s' hended h hlt => ?_⟩
  exact (returned_of_passes hr hj hended h).resolve_left (by omega)

/-- A call of `parallel` with two functions, the last of which ends a pass later. -/
theorem parallel_joins_two : ∃ s, sys.ReachableBy Joinable s ∧ 0 < s.nextJoin ∧
    (s.join 0).children = [2, 3] ∧ s.Joined 0 := by
  obtain ⟨s, hrun, hs⟩ := System.exists_run_of_execBy sys Joinable start
    [.spawn, .start, .fetch false, .parallel 2, .fetch false, .ret, .fetch false, .block .sleep, .done,
      .event 0 .nothing, .start, .fetch false, .ret]
    (fun s => decide (0 < s.nextJoin ∧ (s.join 0).children = [2, 3])) (by decide +kernel)
  obtain ⟨hj, hc⟩ := of_decide_eq_true hs
  have hr := System.ReachableBy.run (.init rfl) hrun
  exact ⟨s, hr, hj, hc, (parallel_joins hr hj).1⟩

/-! ## The calls that never return -/

/-- Nothing is planned, and nothing is waited for. -/
structure Idle (s : Runtime) : Prop where
  ctl : s.sched.ctl = .idle ∨ s.sched.ctl = .loop
  queue : s.sched.mgr.activeSessions = []
  watchers : s.watchers = []

instance (s : Runtime) : Decidable s.Idle :=
  decidable_of_iff (_ ∧ _ ∧ _) ⟨fun ⟨h, h', h''⟩ => ⟨h, h', h''⟩, fun ⟨h, h', h''⟩ => ⟨h, h', h''⟩⟩

/-- Where nothing is planned or waited for, only the loop goes on. -/
theorem Idle.step (hs : s.Idle) {a : Act} (hP : s.Undisturbed a) (hne : a ≠ .spawn)
    (h : s.step a = some s') : s'.Idle ∧ s'.returned = s.returned := by
  have hrun {id} (hid : s.sched.ctl = .running id) : False := by
    rcases hs.ctl with h | h <;> rw [h] at hid <;> cases hid
  have hcur {id} (hid : s.current = some id) : False := hrun (current_eq_some.1 hid).1
  cases a with
  | event handle args =>
    obtain ⟨-, w, hw, -, -, -⟩ := step_event h
    -- Nothing is waited for.
    rw [hs.watchers] at hw
    exact absurd hw List.not_mem_nil
  | shutDown ids => exact hP.elim
  | start =>
    obtain ⟨-, rfl⟩ := step_start h
    exact ⟨⟨.inr rfl, hs.queue, hs.watchers⟩, rfl⟩
  | fetch again =>
    obtain ⟨-, id, v, hget, -⟩ := step_fetch h
    -- Nothing is queued to be fetched.
    rw [hs.queue] at hget
    cases hget
  | done =>
    obtain ⟨-, -, rfl⟩ := step_done h
    exact ⟨⟨.inl rfl, rfl, hs.watchers⟩, rfl⟩
  | spawn => exact absurd rfl hne
  | block kind =>
    obtain ⟨id, hid, -, -⟩ := step_block h
    exact (hcur hid).elim
  | parallel n =>
    obtain ⟨id, hid, -⟩ := step_parallel h
    exact (hcur hid).elim
  | cooperate =>
    obtain ⟨id, hid, -⟩ := step_cooperate h
    exact (hcur hid).elim
  | close conn =>
    obtain ⟨id, hid, -⟩ := step_close h
    exact (hcur hid).elim
  | ret =>
    obtain ⟨id, hid, -⟩ := step_ret h
    exact (hcur hid).elim
  | throw falsy =>
    obtain ⟨id, hid, -⟩ := step_throw h
    exact (hcur hid).elim
  | rescue =>
    obtain ⟨id, op, stop, hid, -⟩ := step_rescue h
    exact (hrun hid).elim
  | escape =>
    obtain ⟨id, op, hid, -⟩ := step_escape h
    exact (hrun hid).elim

theorem Idle.run (hs : s.Idle) {as : List Act}
    (h : sys.Run (fun s a => s.Undisturbed a ∧ a ≠ .spawn) s as s') :
    s'.returned = s.returned := by
  have hinv : s'.Idle ∧ s'.returned = s.returned := by
    refine System.Run.invariant (I := fun t => t.Idle ∧ t.returned = s.returned) ?_ h ⟨hs, rfl⟩
    rintro t a t' ⟨ht, heq⟩ hP hst
    obtain ⟨ht', hret⟩ := ht.step hP.1 hP.2 hst
    exact ⟨ht', hret.trans heq⟩
  exact hinv.2

/-- A session takes the actions `as` from the call of `parallel` on, after which the
    functions have ended and the call never returns. -/
def Hangs (as : List Act) : Prop :=
  ∃ s, sys.Run Undisturbed start ([.spawn, .start, .fetch false] ++ as) s ∧ 0 < s.nextJoin ∧
    (∀ c ∈ (s.join 0).children, s.Ended c) ∧
    ∀ as' s', sys.Run (fun s a => s.Undisturbed a ∧ a ≠ .spawn) s as' s' → 0 ∉ s'.returned

theorem hangs_of_exec {as : List Act}
    (h : (sys.execBy Undisturbed start ([.spawn, .start, .fetch false] ++ as)).any fun s =>
      decide (s.Idle ∧ s.returned = [] ∧ 0 < s.nextJoin ∧
        ∀ c ∈ (s.join 0).children, (s.session c).state = .absent)) : Hangs as := by
  obtain ⟨s, hr, hs⟩ := System.exists_run_of_execBy sys Undisturbed start _ _ h
  obtain ⟨hi, hret, hj, hended⟩ := of_decide_eq_true hs
  refine ⟨s, hr, hj, hended, fun as' s' h' => ?_⟩
  rw [hi.run h', hret]
  exact List.not_mem_nil

/-- A session calls `parallel` with no functions, or with one that returns at once. -/
theorem parallel_hangs :
    Hangs [.parallel 0, .done] ∧ Hangs [.parallel 1, .fetch false, .ret, .done] :=
  ⟨hangs_of_exec (by decide +kernel), hangs_of_exec (by decide +kernel)⟩

end Mistress.Runtime
