import Mistress.ShutDown

/-!
# The ownership of watchers

A session that is suspended in an operation has the watcher of this operation, and no
other: when an operation gives control back to the code of the session, it has destroyed
its watcher, and taken the function that does so out of the finalizers. A session is then
resumed by events of the operation it is suspended in only, and no connection is closed
while it is received from (`Owned`).

There are two ways in which a watcher survives its operation: `receive` returns without
destroying it when the peer has closed the connection or what it has sent cannot be
parsed, and an error raised by an operation leaves the watcher to the finalizers, which
are not run if the code of the session catches the error. In runs without them the
watchers are owned (`owned_of_careful`).
-/

namespace Mistress

open Transition

/-- What an entry of a table of finalizers is about: a watcher, or the connection of one. -/
def Finalizer.handle : Finalizer → Nat
  | .destroy _ handle => handle
  | .fin conn => conn

/-- The session is suspended in `receive`. -/
def SState.isReceiving : SState → Bool
  | .waiting (.watch (.receive _) _) => true
  | _ => false

/-- An error of an operation with a watcher is on its way out. -/
def SState.isFailing : SState → Bool
  | .raised (.watch _ _) _ => true
  | _ => false

namespace Runtime

variable {s s' s'' : Runtime} {id i handle : Nat} {op : Op}

/-! ## What is promised -/

/-- The operation the session is suspended in, or whose error is on its way out of it. -/
def operation (s : Runtime) (id : Nat) : Option Op :=
  match (s.session id).state with
  | .waiting op | .raised op _ => some op
  | _ => none

/-- The operation of the session is the one that has created the watcher. -/
def Holds (s : Runtime) (id handle : Nat) : Prop :=
  ∃ kind, s.operation id = some (.watch kind handle)

/-- The watchers are **owned** by the operations the sessions are suspended in. -/
structure Owned (s : Runtime) : Prop where
  /-- The active watchers of a session are those of its operation, -/
  watcher : ∀ w ∈ s.watchers, (s.session w.id).state ≠ .absent → s.Holds w.id w.handle
  /-- and so are the functions that destroy them. -/
  finalizer : ∀ root id handle, .destroy id handle ∈ s.finalizers root →
    (s.session id).state ≠ .absent → s.Holds id handle
  /-- A session that an event has planned waits for this event, -/
  planned : ∀ id v handle, (id, v) ∈ s.entries → v.source = some handle →
    (s.session id).state ≠ .absent → ∃ kind, (s.session id).state = .waiting (.watch kind handle)
  /-- and the connection a session closes is not received from. -/
  closed : ∀ conn s', s.step (.close conn) = some s' →
    ∀ w ∈ s.watchers, w.kind ≠ .receive (some conn)

/-- The steps in which no `receive` is ended by the peer or by what cannot be parsed,
    unless its session is shut down, and no session catches an error of an operation
    with a watcher. -/
def Careful (s : Runtime) : Act → Prop
  | .fetch _ => ∀ e ∈ s.sched.mgr.activeSessions[s.sched.cursor]?,
      (s.session e.1).state.isReceiving = true →
        (s.session e.1).gonnaShutDown = true ∨ (e.2.args ≠ .closed ∧ e.2.args ≠ .parseFailed)
  | .rescue => ∀ id ∈ s.running, (s.session id).state.isFailing = false
  | _ => True

instance (s : Runtime) (a : Act) : Decidable (s.Careful a) :=
  match a with
  | .fetch _ => @Option.decidableForallMem _ _ (fun _ => inferInstance) _
  | .rescue => @Option.decidableForallMem _ _ (fun _ => inferInstance) _
  | .event _ _ | .shutDown _ | .start | .done | .spawn | .block _ | .parallel _ | .cooperate
  | .close _ | .ret | .throw _ | .escape => .isTrue trivial

/-! ## The tables of finalizers -/

/-- The session has no watchers to destroy. -/
def Free (s : Runtime) (id : Nat) : Prop := ∀ root handle, .destroy id handle ∉ s.finalizers root

/-- What the tables of finalizers keep, whatever the sessions do. -/
structure Ledger (s : Runtime) : Prop where
  lt : ∀ root, ∀ f ∈ s.finalizers root, f.handle < s.nextHandle
  nodup : ∀ root, (s.finalizers root).Nodup
  /-- An entry is in the table of its family. -/
  root : ∀ root id handle, .destroy id handle ∈ s.finalizers root →
    id ≤ s.sched.mgr.nextId ∧ (s.session id).root = root
  /-- An active watcher has an entry. -/
  watched : ∀ w ∈ s.watchers, .destroy w.id w.handle ∈ s.finalizers (s.session w.id).root

/-- The tables and the active watchers become less, no watcher losing its entry alone. -/
structure Trims (s s' : Runtime) : Prop where
  nextHandle : s'.nextHandle = s.nextHandle
  finalizers : ∀ root, (s'.finalizers root).Sublist (s.finalizers root)
  watchers : ∀ w ∈ s'.watchers, w ∈ s.watchers ∧ ∀ root,
    .destroy w.id w.handle ∈ s.finalizers root → .destroy w.id w.handle ∈ s'.finalizers root

theorem Trims.trans (h : Trims s s') (h' : Trims s' s'') : Trims s s'' where
  nextHandle := h'.nextHandle.trans h.nextHandle
  finalizers root := (h'.finalizers root).trans (h.finalizers root)
  watchers w hw := by
    obtain ⟨hw', hd'⟩ := h'.watchers w hw
    obtain ⟨hw, hd⟩ := h.watchers w hw'
    exact ⟨hw, fun root hr => hd' root (hd root hr)⟩

theorem Trims.of_eq (hnext : s'.nextHandle = s.nextHandle) (hfin : s'.finalizers = s.finalizers)
    (hw : s'.watchers ⊆ s.watchers) : Trims s s' := by
  refine ⟨hnext, fun root => ?_, fun w h => ⟨hw h, fun root hr => ?_⟩⟩
  · rw [hfin]
  · rw [hfin]
    exact hr

/-- An entry is removed from one table, and with it the watchers it is about. -/
theorem Trims.erase {root : Nat} {f : Finalizer} (hnext : s'.nextHandle = s.nextHandle)
    (hfin : s'.finalizers = Function.update s.finalizers root ((s.finalizers root).erase f))
    (hw : ∀ w ∈ s'.watchers, w ∈ s.watchers ∧ .destroy w.id w.handle ≠ f) : Trims s s' := by
  refine ⟨hnext, fun r => ?_, fun w h => ⟨(hw w h).1, fun r hr => ?_⟩⟩
  all_goals
    rw [hfin, Function.update_apply]
    split
  · -- The table the entry is in, and the others.
    subst r
    exact List.erase_sublist
  · exact List.Sublist.refl _
  · subst r
    exact (List.mem_erase_of_ne (hw w h).2).2 hr
  · exact hr

theorem trims_destroy (s : Runtime) (id handle : Nat) : Trims s (s.destroy id handle) := by
  refine Trims.erase rfl rfl fun w hw => ?_
  obtain ⟨hw, hne⟩ := List.mem_filter.1 hw
  refine ⟨hw, fun heq => of_decide_eq_true hne ?_⟩
  exact (Finalizer.destroy.inj heq).2

theorem trims_closeConn (s : Runtime) (root conn : Nat) : Trims s (s.closeConn root conn) :=
  Trims.erase rfl rfl fun w hw => ⟨hw, fun heq => by cases heq⟩

theorem trims_release (s : Runtime) (id : Nat) (op : Op) (destroys closes : Bool) :
    Trims s (s.release id op destroys closes) := by
  have hrefl (s : Runtime) : Trims s s := .of_eq rfl rfl (List.Subset.refl _)
  unfold release
  split
  · rename_i handle
    have hd : Trims s (if destroys then s.destroy id handle else s) := by
      split
      · exact trims_destroy s id handle
      · exact hrefl s
    cases closes with
    | true => exact hd.trans (trims_closeConn _ _ _)
    | false => exact hd
  · exact hrefl s

theorem trims_clean (s : Runtime) (id : Nat) : Trims s (s.clean id) := by
  unfold clean
  split
  · exact .of_eq rfl rfl (List.Subset.refl _)
  · refine ⟨rfl, fun root => ?_, fun w hw => ?_⟩
    · simp only [Function.update_apply]
      split
      · exact List.nil_sublist _
      · exact List.Sublist.refl _
    · obtain ⟨hw, hnot⟩ := List.mem_filter.1 hw
      refine ⟨hw, fun root hr => ?_⟩
      simp only [Function.update_apply]
      split
      · subst root
        exact absurd hr (of_decide_eq_true hnot)
      · exact hr

theorem trims_quit (s : Runtime) (id : Nat) : Trims s (s.quit id) := by
  have hc := trims_clean s id
  exact ⟨hc.nextHandle, hc.finalizers, hc.watchers⟩

theorem trims_finish (s : Runtime) (id : Nat) : Trims s (s.finish id) := by
  obtain ⟨_, _, heq, -⟩ := afterRun_eq s id
  have ha : Trims s (s.afterRun id) := by
    rw [heq]
    exact .of_eq rfl rfl (List.Subset.refl _)
  exact ha.trans (trims_quit (s.afterRun id) id)

theorem trims_fail (s : Runtime) (id : Nat) : Trims s (s.fail id) := by
  have hc := trims_clean s id
  exact ⟨hc.nextHandle, hc.finalizers, hc.watchers⟩

theorem trims_shutDown (s : Runtime) (ids : List Nat) : Trims s (s.shutDown ids) := by
  obtain ⟨_, _, heq, -⟩ := shutDown_eq s ids
  rw [heq]
  exact .of_eq rfl rfl (List.Subset.refl _)

/-- A step trims the tables, and after that a session may wait with a new watcher. -/
theorem trims_step (hb : s.Base) {a : Act} (h : s.step a = some s') : Trims s s' ∨
    ∃ s₁ id kind, Trims s s₁ ∧ s₁.session = s.session ∧
      s₁.sched.mgr.nextId = s.sched.mgr.nextId ∧ id ≤ s.sched.mgr.nextId ∧
      s' = s₁.block id kind := by
  have hrefl (s : Runtime) : Trims s s := .of_eq rfl rfl (List.Subset.refl _)
  have hsub (ws : List Watcher) : ws ⊆ ws := List.Subset.refl _
  cases a with
  | event handle args =>
    obtain ⟨-, w, -, -, -, rfl⟩ := step_event h
    -- A one-shot watcher is no longer active after its event.
    refine .inl (.of_eq rfl rfl fun w' hw' => ?_)
    unfold event at hw'
    split at hw'
    · exact List.mem_of_mem_filter hw'
    · exact hw'
  | shutDown ids =>
    obtain ⟨-, -, rfl⟩ := step_shutDown h
    exact .inl (trims_shutDown s ids)
  | start =>
    obtain ⟨-, rfl⟩ := step_start h
    exact .inl (.of_eq rfl rfl (hsub _))
  | fetch again =>
    obtain ⟨-, id, v, -, ⟨hmem, h⟩ | ⟨-, rfl⟩⟩ := step_fetch h
    · have hle := hb.inv.consistent.le_nextId id hmem
      have hf : Trims s (s.fetched id v) := .of_eq rfl rfl (hsub _)
      -- Only an operation that returns destroys its watcher, and only `send` creates one then.
      rcases resume_cases h with ⟨-, rfl⟩ | ⟨op, -, ⟨-, rfl⟩ | rfl⟩
      · exact .inl (.of_eq rfl rfl (hsub _))
      · exact .inl (.of_eq rfl rfl (hsub _))
      · rcases resumeOp_cases (s.fetched id v) id op v.args again with
          ⟨stop, -, h'⟩ | ⟨-, h'⟩ | ⟨d, c, -, h'⟩
        · exact .inl (h' ▸ .of_eq rfl rfl (hsub _))
        · exact .inl (h' ▸ .of_eq rfl rfl (hsub _))
        · have hr := hf.trans (trims_release (s.fetched id v) id op d c)
          rcases h' with h' | ⟨conn, _, -, h'⟩
          · refine .inl (h' ▸ hr.trans ?_)
            unfold returns
            split <;> exact .of_eq rfl rfl (hsub _)
          · refine .inr ⟨_, id, .send conn, hr, ?_, ?_, hle, h'⟩
            all_goals
              obtain ⟨_, _, _, -, heq⟩ := release_eq (s.fetched id v) id op d c
              rw [heq]
              rfl
    · exact .inl (.of_eq rfl rfl (hsub _))
  | done =>
    obtain ⟨-, -, rfl⟩ := step_done h
    exact .inl (.of_eq rfl rfl (hsub _))
  | spawn =>
    obtain ⟨-, rfl⟩ := step_spawn h
    exact .inl (.of_eq rfl rfl (hsub _))
  | block kind =>
    obtain ⟨id, hid, -, rfl⟩ := step_block h
    have hle := hb.inv.consistent.le_nextId id (hb.inv.running id (current_eq_some.1 hid).1).1
    exact .inr ⟨s, id, kind, hrefl s, rfl, rfl, hle, rfl⟩
  | parallel n =>
    obtain ⟨id, -, rfl⟩ := step_parallel h
    have hc : Trims s (s.spawnChildren (s.session id).root s.nextJoin n) := by
      rw [spawnChildren_eq]
      exact .of_eq rfl rfl (hsub _)
    exact .inl ⟨hc.nextHandle, hc.finalizers, hc.watchers⟩
  | cooperate =>
    obtain ⟨id, -, rfl⟩ := step_cooperate h
    exact .inl (.of_eq rfl rfl (hsub _))
  | close conn =>
    obtain ⟨id, -, -, -, rfl⟩ := step_close h
    exact .inl (trims_closeConn s _ conn)
  | ret =>
    obtain ⟨id, -, rfl⟩ := step_ret h
    exact .inl (trims_finish s id)
  | throw falsy =>
    obtain ⟨id, -, ⟨-, rfl⟩ | ⟨-, rfl⟩⟩ := step_throw h
    · exact .inl (trims_quit s id)
    · exact .inl (trims_fail s id)
  | rescue =>
    obtain ⟨id, op, stop, -, -, rfl⟩ := step_rescue h
    exact .inl (.of_eq rfl rfl (hsub _))
  | escape =>
    obtain ⟨id, op, -, ⟨-, rfl⟩ | ⟨-, rfl⟩⟩ := step_escape h
    · have hf := trims_finish s id
      exact .inl ⟨hf.nextHandle, hf.finalizers, hf.watchers⟩
    · exact .inl (trims_fail s id)

theorem ledger_start : start.Ledger where
  lt _ _ hf := absurd hf List.not_mem_nil
  nodup _ := List.nodup_nil
  root _ _ _ h := absurd h List.not_mem_nil
  watched _ hw := absurd hw List.not_mem_nil

theorem Ledger.trims (hl : s.Ledger) (hb : s.Base) (hk : Kin s s') (ht : Trims s s') :
    s'.Ledger where
  lt root f hf := by
    rw [ht.nextHandle]
    exact hl.lt root f ((ht.finalizers root).subset hf)
  nodup root := (ht.finalizers root).nodup (hl.nodup root)
  root root id handle h := by
    obtain ⟨hle, hr⟩ := hl.root root id handle ((ht.finalizers root).subset h)
    exact ⟨Nat.le_trans hle hk.nextId, (hk.root id hle).1.trans hr⟩
  watched w hw := by
    obtain ⟨hw, hd⟩ := ht.watchers w hw
    rw [(hk.root w.id (hb.watched w hw)).1]
    exact hd _ (hl.watched w hw)

/-- The entries of a new watcher. -/
def newEntries (id handle : Nat) (kind : WatcherKind) : List Finalizer :=
  if kind = .connect then [.destroy id handle, .fin handle] else [.destroy id handle]

theorem mem_newEntries {kind : WatcherKind} {f : Finalizer} (h : f ∈ newEntries id handle kind) :
    f = .destroy id handle ∨ f = .fin handle := by
  unfold newEntries at h
  split at h <;> simp at h <;> tauto

theorem nodup_newEntries (id handle : Nat) (kind : WatcherKind) :
    (newEntries id handle kind).Nodup := by
  unfold newEntries
  split <;> simp

theorem destroy_mem_newEntries (id handle : Nat) (kind : WatcherKind) :
    .destroy id handle ∈ newEntries id handle kind := by
  unfold newEntries
  split <;> simp

theorem block_finalizers (s : Runtime) (id : Nat) (kind : WatcherKind) (root : Nat) :
    (s.block id kind).finalizers root = s.finalizers root ++
      if root = (s.session id).root then newEntries id s.nextHandle kind else [] := by
  change Function.update s.finalizers (s.session id).root
    (s.finalizers (s.session id).root ++ newEntries id s.nextHandle kind) root = _
  rw [Function.update_apply]
  split
  · rw [‹root = _›]
  · rw [List.append_nil]

theorem mem_block_finalizers {kind : WatcherKind} {root : Nat} {f : Finalizer}
    (h : f ∈ (s.block id kind).finalizers root) : f ∈ s.finalizers root ∨
      root = (s.session id).root ∧ f ∈ newEntries id s.nextHandle kind := by
  rw [block_finalizers, List.mem_append] at h
  refine h.imp_right fun h => ?_
  split at h
  · exact ⟨‹_›, h⟩
  · exact absurd h List.not_mem_nil

theorem block_session (s : Runtime) (id : Nat) (kind : WatcherKind) (i : Nat) :
    (s.block id kind).session i = if i = id then
      { s.session id with state := .waiting (.watch kind s.nextHandle) } else s.session i :=
  Function.update_apply _ _ _ _

/-- The session waits with a new watcher, under a handle that has not been used. -/
theorem Ledger.block (hl : s.Ledger) (hle : id ≤ s.sched.mgr.nextId) (kind : WatcherKind) :
    (s.block id kind).Ledger := by
  have hroot i : ((s.block id kind).session i).root = (s.session i).root := by
    rw [block_session]
    split
    · rw [‹i = id›]
    · rfl
  refine ⟨fun root f hf => ?_, fun root => ?_, fun root id' handle h => ?_, fun w hw => ?_⟩
  · change f.handle < s.nextHandle + 1
    rcases mem_block_finalizers hf with hf | ⟨-, hf⟩
    · exact Nat.lt_succ_of_lt (hl.lt root f hf)
    · rcases mem_newEntries hf with rfl | rfl <;> exact Nat.lt_succ_self _
  · rw [block_finalizers]
    refine (hl.nodup root).append ?_ fun f hf hf' => ?_
    · split
      · exact nodup_newEntries id s.nextHandle kind
      · exact List.nodup_nil
    · -- The handle of the new watcher is greater than all those in the tables.
      have hlt := hl.lt root f hf
      split at hf'
      · rcases mem_newEntries hf' with rfl | rfl <;> exact absurd hlt (Nat.lt_irrefl _)
      · exact List.not_mem_nil hf'
  · rw [hroot]
    rcases mem_block_finalizers h with hold | ⟨rfl, hnew⟩
    · exact hl.root root id' handle hold
    · rcases mem_newEntries hnew with heq | heq
      · obtain ⟨rfl, -⟩ := Finalizer.destroy.inj heq
        exact ⟨hle, rfl⟩
      · cases heq
  · rw [hroot, block_finalizers, List.mem_append]
    rcases List.mem_append.1 hw with hw | hw
    · exact .inl (hl.watched w hw)
    · obtain rfl := List.mem_singleton.1 hw
      rw [if_pos rfl]
      exact .inr (destroy_mem_newEntries _ _ _)

theorem Ledger.step (hl : s.Ledger) (hb : s.Base) {a : Act} (h : s.step a = some s') :
    s'.Ledger := by
  rcases trims_step hb h with ht | ⟨s₁, id, kind, ht, hsess, hid, hle, rfl⟩
  · exact hl.trims hb (kin hb h) ht
  · exact (hl.trims hb (.of_eq hid hsess) ht).block (hid ▸ hle) kind

/-! ## The owners -/

/-- The functions that destroy the watchers of a session are of its operation. -/
def Owners (s : Runtime) : Prop :=
  ∀ root id handle, .destroy id handle ∈ s.finalizers root → (s.session id).state ≠ .absent →
    s.Holds id handle

/-- A session whose operation has no watcher, or which is in none, has none to destroy. -/
theorem Owners.free (ho : s.Owners) (hst : (s.session id).state ≠ .absent)
    (hop : ∀ kind handle, s.operation id ≠ some (.watch kind handle)) : s.Free id := by
  intro root handle h
  obtain ⟨kind, hk⟩ := ho root id handle h hst
  exact hop kind handle hk

/-- The tables become less, and each session keeps its operation or has no watchers left. -/
theorem Owners.trims (ho : s.Owners) (hl : s.Ledger)
    (hfin : ∀ root, (s'.finalizers root).Sublist (s.finalizers root))
    (hst : ∀ i ≤ s.sched.mgr.nextId, (s'.session i).state ≠ .absent →
      ((s.session i).state ≠ .absent ∧ s'.operation i = s.operation i) ∨ s'.Free i) :
    s'.Owners := by
  intro root id handle h hlive
  have hs := (hfin root).subset h
  rcases hst id (hl.root root id handle hs).1 hlive with ⟨hlive', hop⟩ | hfree
  · obtain ⟨kind, hk⟩ := ho root id handle hs hlive'
    exact ⟨kind, hop.trans hk⟩
  · exact absurd h (hfree root handle)

/-- A session without watchers waits with a new one. -/
theorem Owners.block (ho : s.Owners) (hfree : s.Free id) (kind : WatcherKind) :
    (s.block id kind).Owners := by
  intro root i handle h hlive
  rcases mem_block_finalizers h with hold | ⟨-, hnew⟩
  · have hne : i ≠ id := by
      rintro rfl
      exact hfree root handle hold
    rw [block_session, if_neg hne] at hlive
    obtain ⟨kind', hk⟩ := ho root i handle hold hlive
    refine ⟨kind', ?_⟩
    rw [operation, block_session, if_neg hne]
    exact hk
  · rcases mem_newEntries hnew with heq | heq
    · obtain ⟨rfl, rfl⟩ := Finalizer.destroy.inj heq
      refine ⟨kind, ?_⟩
      rw [operation, block_session, if_pos rfl]
    · cases heq

/-- An operation that returns has destroyed its watcher, but for `receive`. -/
theorem destroys_of_reply {kind : WatcherKind} {flag : Bool} {args : Wake} {destroys closes : Bool}
    (h : (Op.watch kind handle).reply flag args = .ret destroys closes) :
    destroys = true ∨ ∃ conn, kind = .receive conn ∧ flag = false ∧
      (args = .closed ∨ args = .parseFailed) := by
  cases kind with
  | sleep | connect | send conn | accept =>
    left
    simp only [Op.reply, sleepReply, connectReply, sendReply, acceptReply] at h
    all_goals
      split_ifs at h
      all_goals
        cases h
        rfl
  | receive conn =>
    simp only [Op.reply, receiveReply] at h
    cases flag with
    | true => cases h
    | false =>
      simp only [Bool.false_eq_true, if_false] at h
      split at h
      · exact .inl (Reply.ret.inj h).1.symm
      · split at h
        · -- The peer has closed the connection, or has sent what cannot be parsed.
          exact .inr ⟨conn, rfl, rfl, .inl rfl⟩
        · exact .inr ⟨conn, rfl, rfl, .inr rfl⟩
        · cases h
        · exact .inl (Reply.ret.inj h).1.symm
        · cases h

/-- Once its watcher has been destroyed, the session has none to destroy. -/
theorem Owners.free_destroy (ho : s.Owners) (hl : s.Ledger) (hst : (s.session id).state ≠ .absent)
    {kind : WatcherKind} (hop : s.operation id = some (.watch kind handle)) :
    (s.destroy id handle).Free id := by
  intro root handle' h
  have hs := ((trims_destroy s id handle).finalizers root).subset h
  obtain ⟨kind', hk⟩ := ho root id handle' hs hst
  -- Any watcher left would be that of the operation, whose entry is there once.
  have heq : handle = handle' := (Op.watch.inj (Option.some.inj (hop.symm.trans hk))).2
  subst heq
  obtain ⟨-, rfl⟩ := hl.root root id handle hs
  change _ ∈ Function.update s.finalizers (s.session id).root _ (s.session id).root at h
  rw [Function.update_self] at h
  exact (hl.nodup _).mem_erase_iff.1 h |>.1 rfl

/-- An operation that returns leaves no watcher behind. -/
theorem Owners.free_release (ho : s.Owners) (hl : s.Ledger)
    (hst : (s.session id).state = .waiting op) {args : Wake} {destroys closes : Bool}
    (hr : op.reply (s.session id).gonnaShutDown args = .ret destroys closes)
    (hP : ∀ conn handle, op = .watch (.receive conn) handle →
      (s.session id).gonnaShutDown = true ∨ (args ≠ .closed ∧ args ≠ .parseFailed)) :
    (s.release id op destroys closes).Free id := by
  have hlive : (s.session id).state ≠ .absent := by simp [hst]
  have hop : s.operation id = some op := by simp [operation, hst]
  cases op with
  | watch kind handle =>
    have hd : destroys = true := by
      refine (destroys_of_reply hr).resolve_right ?_
      rintro ⟨conn, rfl, hflag, hargs⟩
      rcases hP conn handle rfl with h | ⟨h, h'⟩
      · exact Bool.false_ne_true (hflag.symm.trans h)
      · exact hargs.elim h h'
    subst hd
    have hfree := ho.free_destroy hl hlive hop
    cases closes with
    | false => exact hfree
    | true =>
      intro root handle' h
      exact hfree root handle' (((trims_closeConn _ _ _).finalizers root).subset h)
  | parallel j | cooperate =>
    refine ho.free hlive fun kind handle h => ?_
    rw [hop] at h
    cases h

/-- The session `id` comes to a state in which it keeps its operation, or has no watchers
    left, and the others stay as they are. -/
theorem Owners.change (ho : s.Owners) (hl : s.Ledger) (id : Nat)
    (hfin : ∀ root, (s'.finalizers root).Sublist (s.finalizers root))
    (hst : ∀ i ≤ s.sched.mgr.nextId, i ≠ id → (s'.session i).state = (s.session i).state)
    (hid : (s'.session id).state ≠ .absent →
      ((s.session id).state ≠ .absent ∧ s'.operation id = s.operation id) ∨ s'.Free id) :
    s'.Owners := by
  refine ho.trims hl hfin fun i hi hlive => ?_
  by_cases hne : i = id
  · subst i
    exact hid hlive
  · have heq := hst i hi hne
    refine .inl ⟨fun h => hlive (heq.trans h), ?_⟩
    rw [operation, heq]
    rfl

/-- The sessions stay as they are. -/
theorem Owners.same (ho : s.Owners) (hl : s.Ledger)
    (hfin : ∀ root, (s'.finalizers root).Sublist (s.finalizers root))
    (hst : ∀ i ≤ s.sched.mgr.nextId, (s'.session i).state = (s.session i).state) : s'.Owners := by
  refine ho.trims hl hfin fun i hi hlive => .inl ⟨fun h => hlive ((hst i hi).trans h), ?_⟩
  rw [operation, hst i hi]
  rfl

/-- A session whose code runs has no watchers. -/
theorem Owners.free_user (ho : s.Owners) (hst : (s.session id).state = .user) : s.Free id :=
  ho.free (by simp [hst]) (by simp [operation, hst])

/-- A session that is resumed. -/
theorem Owners.resume (ho : s.Owners) (hl : s.Ledger) {args : Wake} {again : Bool}
    (hP : ∀ conn handle, (s.session id).state = .waiting (.watch (.receive conn) handle) →
      (s.session id).gonnaShutDown = true ∨ (args ≠ .closed ∧ args ≠ .parseFailed))
    (h : s.resume id args again = some s') : s'.Owners := by
  have hother {s₁ : Runtime} (hs₁ : s₁.session = s.session) (st : SState) {i : Nat} (hne : i ≠ id) :
      ((s₁.setState id st).session i).state = (s.session i).state := by
    rw [state_setState, if_neg hne, hs₁]
  have hrefl root : (s.finalizers root).Sublist (s.finalizers root) := List.Sublist.refl _
  rcases resume_cases h with ⟨hst, rfl⟩ | ⟨op, hst, ⟨-, rfl⟩ | rfl⟩
  · -- It is started, and has no watchers yet.
    refine ho.change hl id hrefl (fun i _ hne => hother rfl .user hne) fun _ => .inr ?_
    exact ho.free (by simp [hst]) (by simp [operation, hst])
  · exact ho.same hl hrefl fun _ _ => rfl
  · have hlive : (s.session id).state ≠ .absent := by simp [hst]
    have hop : s.operation id = some op := by simp [operation, hst]
    rcases resumeOp_cases s id op args again with ⟨stop, -, h'⟩ | ⟨-, h'⟩ | ⟨d, c, hr, h'⟩
    · rw [h']
      -- The operation raises an error, which is on its way out of it,
      refine ho.change hl id hrefl (fun i _ hne => hother rfl _ hne) fun _ => .inl ⟨hlive, ?_⟩
      rw [hop, operation, state_setState, if_pos rfl]
    · rw [h']
      -- or goes on waiting,
      refine ho.change hl id hrefl (fun i _ hne => hother rfl _ hne) fun _ => .inl ⟨hlive, ?_⟩
      rw [hop, operation]
      change (match ((s.setState id (.waiting op)).session id).state with
        | .waiting op | .raised op _ => some op
        | _ => none) = _
      rw [state_setState, if_pos rfl]
    · -- or returns.
      have hfree := ho.free_release hl hst hr fun conn handle heq => hP conn handle (heq ▸ hst)
      have ht := trims_release s id op d c
      have hsess : (s.release id op d c).session = s.session := by
        obtain ⟨_, _, _, -, heq⟩ := release_eq s id op d c
        rw [heq]
      rcases h' with h' | ⟨conn, _, -, h'⟩
      · have heq : ((s.release id op d c).returns id op).finalizers =
            (s.release id op d c).finalizers ∧
            ((s.release id op d c).returns id op).session =
              ((s.release id op d c).setState id .user).session := by
          unfold returns
          split <;> exact ⟨rfl, rfl⟩
        rw [h']
        refine ho.change hl id (fun root => ?_) (fun i _ hne => ?_) fun _ =>
          .inr fun root handle => ?_
        · rw [heq.1]
          exact ht.finalizers root
        · rw [heq.2]
          exact hother hsess .user hne
        · rw [heq.1]
          exact hfree root handle
      · rw [h']
        -- The next call of `mistress.send` has a watcher of its own.
        refine Owners.block (ho.same hl ht.finalizers fun i _ => ?_) hfree _
        rw [hsess]

/-- Every step meeting the condition keeps the owners. -/
theorem Owners.step (ho : s.Owners) (hl : s.Ledger) (hb : s.Base) {a : Act} (hP : s.Careful a)
    (h : s.step a = some s') : s'.Owners := by
  have hrefl root : (s.finalizers root).Sublist (s.finalizers root) := List.Sublist.refl _
  have hended id (hfin : ∀ root, (s'.finalizers root).Sublist (s.finalizers root))
      (hst : ∀ i, (s'.session i).state = if i = id then .absent else (s.session i).state) :
      s'.Owners := by
    refine ho.change hl id hfin (fun i _ hne => ?_) fun hlive => ?_
    · rw [hst, if_neg hne]
    · rw [hst, if_pos rfl] at hlive
      exact absurd rfl hlive
  have hfail id : (s.fail id).Owners :=
    ho.same hl (trims_fail s id).finalizers fun i _ =>
      congrArg Session.state (congrFun (clean_session s id) i)
  cases a with
  | event handle args =>
    obtain ⟨-, w, -, -, -, rfl⟩ := step_event h
    exact ho.same hl hrefl fun _ _ => rfl
  | shutDown ids =>
    obtain ⟨-, -, rfl⟩ := step_shutDown h
    exact ho.same hl (trims_shutDown s ids).finalizers fun i _ => state_shutDown s ids i
  | start =>
    obtain ⟨-, rfl⟩ := step_start h
    exact ho.same hl hrefl fun _ _ => rfl
  | fetch again =>
    obtain ⟨-, id, v, hget, ⟨-, h⟩ | ⟨-, rfl⟩⟩ := step_fetch h
    · have hf : (s.fetched id v).Owners := ho.same hl hrefl fun _ _ => rfl
      have hlf : (s.fetched id v).Ledger := ⟨hl.lt, hl.nodup, hl.root, hl.watched⟩
      -- The condition excludes the two results on which `receive` leaves its watcher.
      refine hf.resume hlf (fun conn handle hst => ?_) h
      have hst' : (s.session id).state = .waiting (.watch (.receive conn) handle) := hst
      have hc := hP (id, v) hget
      rw [hst'] at hc
      exact hc rfl
    · exact ho.same hl hrefl fun _ _ => rfl
  | done =>
    obtain ⟨-, -, rfl⟩ := step_done h
    exact ho.same hl hrefl fun _ _ => rfl
  | spawn =>
    obtain ⟨-, rfl⟩ := step_spawn h
    refine ho.same hl hrefl fun i hi => ?_
    rw [state_spawn, if_neg (by omega)]
  | block kind =>
    obtain ⟨id, hid, -, rfl⟩ := step_block h
    exact ho.block (ho.free_user (current_eq_some.1 hid).2) kind
  | parallel n =>
    obtain ⟨id, hid, rfl⟩ := step_parallel h
    obtain ⟨hctl, huser⟩ := current_eq_some.1 hid
    have hle := hb.inv.consistent.le_nextId id (hb.inv.running id hctl).1
    have hfin : (s.parallel id n).finalizers = s.finalizers := by
      change (s.spawnChildren (s.session id).root s.nextJoin n).finalizers = _
      rw [spawnChildren_eq]
    -- The new sessions have no watchers, and nor has the parent, which ran.
    refine ho.change hl id (fun root => ?_) (fun i hi hne => ?_) fun _ => .inr fun root handle => ?_
    · rw [hfin]
    · rw [parallel_session s hle, if_neg hne, if_neg (by omega)]
    · exact hfin ▸ ho.free_user huser root handle
  | cooperate =>
    obtain ⟨id, hid, rfl⟩ := step_cooperate h
    refine ho.change hl id hrefl (fun i _ hne => ?_) fun _ => .inr ?_
    · exact (state_setState s id (.waiting .cooperate) i).trans (if_neg hne)
    · exact ho.free_user (current_eq_some.1 hid).2
  | close conn =>
    obtain ⟨id, -, -, -, rfl⟩ := step_close h
    exact ho.same hl (trims_closeConn s _ conn).finalizers fun _ _ => rfl
  | ret =>
    obtain ⟨id, -, rfl⟩ := step_ret h
    exact hended id (trims_finish s id).finalizers (state_finish s id)
  | throw falsy =>
    obtain ⟨id, -, ⟨-, rfl⟩ | ⟨-, rfl⟩⟩ := step_throw h
    · exact hended id (trims_quit s id).finalizers (state_quit s id)
    · exact hfail id
  | rescue =>
    obtain ⟨id, op, stop, hctl, hst, rfl⟩ := step_rescue h
    refine ho.change hl id hrefl (fun i _ hne => ?_) fun _ => .inr ?_
    · rw [state_setState, if_neg hne]
    · -- The condition excludes an operation with a watcher.
      refine ho.free (by simp [hst]) fun kind handle hop => ?_
      rw [operation, hst] at hop
      obtain rfl := Option.some.inj hop
      have hc := hP id (by simp [running, hctl])
      rw [hst] at hc
      cases hc
  | escape =>
    obtain ⟨id, op, -, ⟨-, rfl⟩ | ⟨-, rfl⟩⟩ := step_escape h
    · exact hended id (trims_finish s id).finalizers (state_finish s id)
    · exact hfail id

/-! ## The sessions planned by events -/

/-- What a step adds to the queue carries no values of an event. -/
def Adds (s s' : Runtime) : Prop := ∀ e ∈ s'.entries, e ∈ s.entries ∨ e.2.source = none

theorem Adds.trans (h : Adds s s') (h' : Adds s' s'') : Adds s s'' := fun e he =>
  (h' e he).elim (h e) .inr

theorem Adds.of_eq (hqueue : s'.sched.mgr.activeSessions = s.sched.mgr.activeSessions)
    (hcursor : s'.sched.cursor = s.sched.cursor) : Adds s s' := by
  intro e he
  rw [entries, hqueue, hcursor] at he
  exact .inl he

/-- A session is planned. -/
theorem mem_entries_plan (s s₁ : Runtime) (id : Nat) (v : Values)
    (hqueue : s₁.sched.mgr.activeSessions = (s.sched.mgr.planResume id v).activeSessions)
    (hcursor : s₁.sched.cursor = s.sched.cursor) {e : Nat × Values} (he : e ∈ s₁.entries) :
    e ∈ s.entries ∨ e = (id, v) := by
  rw [entries, hqueue, hcursor] at he
  -- A session that is queued already is not queued again.
  by_cases hmem : id ∈ s.sched.mgr.activeSessionsIds
  · rw [Manager.planResume_of_mem _ hmem] at he
    exact .inl he
  · rw [Manager.planResume_of_not_mem _ hmem, List.drop_append, List.mem_append] at he
    refine he.imp_right fun he => ?_
    exact List.mem_singleton.1 (List.mem_of_mem_drop he)

/-- A session is planned without values. -/
theorem Adds.of_plan (hqueue : s'.sched.mgr.activeSessions =
      (s.sched.mgr.planResume id ⟨.nothing, none⟩).activeSessions)
    (hcursor : s'.sched.cursor = s.sched.cursor) : Adds s s' := by
  intro e he
  refine (mem_entries_plan s s' id ⟨.nothing, none⟩ hqueue hcursor he).imp_right fun heq => ?_
  rw [heq]

theorem Adds.spawn (s : Runtime) (root : Nat) (join : Option Nat) : Adds s (s.spawn root join) := by
  have hr : Adds s { s with sched := { s.sched with mgr := s.sched.mgr.register fun _ => () } } :=
    .of_eq rfl rfl
  exact hr.trans (.of_plan rfl rfl)

theorem Adds.spawnChildren (s : Runtime) (root join n : Nat) :
    Adds s (s.spawnChildren root join n) := by
  induction n generalizing s with
  | zero => exact fun _ => .inl
  | succ n ih => exact (Adds.spawn s root (some join)).trans (ih _)

theorem Adds.shutDown (s : Runtime) (ids : List Nat) : Adds s (s.shutDown ids) := by
  induction ids generalizing s with
  | nil => exact fun _ => .inl
  | cons id ids ih =>
    have hf : Adds s (s.flag id) := .of_eq rfl rfl
    have hp : Adds (s.flag id) ((s.flag id).plan id) := .of_plan rfl rfl
    exact (hf.trans hp).trans (ih _)

theorem Adds.quit (s : Runtime) (id : Nat) : Adds s (s.quit id) := by
  refine .of_eq ?_ ?_
  · change (s.clean id).sched.mgr.activeSessions = _
    rw [clean_sched]
  · change (s.clean id).sched.cursor = _
    rw [clean_sched]

theorem Adds.finish (s : Runtime) (id : Nat) : Adds s (s.finish id) := by
  have ha : Adds s (s.afterRun id) := by
    obtain ⟨mgr, _, heq, rfl | ⟨parent, rfl⟩⟩ := afterRun_eq s id <;> rw [heq]
    · exact .of_eq rfl rfl
    · exact .of_plan rfl rfl
  exact ha.trans (.quit (s.afterRun id) id)

theorem Adds.fail (s : Runtime) (id : Nat) : Adds s (s.fail id) :=
  .of_eq rfl rfl

/-- Nor does a session that is resumed. -/
theorem Adds.resume {args : Wake} {again : Bool} (h : s.resume id args again = some s') :
    Adds s s' := by
  rcases resume_cases h with ⟨-, rfl⟩ | ⟨op, -, ⟨-, rfl⟩ | rfl⟩
  · exact .of_eq rfl rfl
  · exact .of_eq rfl rfl
  · rcases resumeOp_cases s id op args again with ⟨stop, -, h'⟩ | ⟨-, h'⟩ | ⟨d, c, -, h'⟩
    · exact h' ▸ .of_eq rfl rfl
    · exact h' ▸ .of_eq rfl rfl
    · obtain ⟨_, _, _, -, heq⟩ := release_eq s id op d c
      rcases h' with h' | ⟨conn, _, -, h'⟩ <;> rw [h', heq]
      · unfold returns
        split <;> exact .of_eq rfl rfl
      · exact .of_eq rfl rfl

/-- A session that is still to be fetched after a step has taken no part in it, and has been
    planned before, unless it has been planned without an event in it. -/
theorem adds_step (hb : s.Base) {a : Act} (ha : ∀ handle args, a ≠ .event handle args)
    (h : s.step a = some s') : ∀ e ∈ s'.entries,
      (e ∈ s.entries ∧ ¬ s.Involved e.1 a) ∨ e.2.source = none := by
  have hrun {e : Nat × Values} (he : e ∈ s.entries) : s.sched.ctl ≠ .running e.1 := by
    intro hctl
    refine hb.inv.disjoint (hb.inv.running e.1 hctl).2 ?_
    rw [pending_eq_entries]
    exact List.mem_map_of_mem he
  have hother (hadds : Adds s s') (hinv : ∀ i, s.Involved i a → s.sched.ctl = .running i) :
      ∀ e ∈ s'.entries, (e ∈ s.entries ∧ ¬ s.Involved e.1 a) ∨ e.2.source = none := fun e he =>
    (hadds e he).imp_left fun he => ⟨he, fun hi => hrun he (hinv e.1 hi)⟩
  cases a with
  | event handle args => exact absurd rfl (ha handle args)
  | shutDown ids =>
    obtain ⟨-, -, rfl⟩ := step_shutDown h
    exact hother (.shutDown s ids) fun _ => id
  | start =>
    obtain ⟨-, rfl⟩ := step_start h
    exact hother (.of_eq rfl rfl) fun _ => id
  | fetch again =>
    obtain ⟨-, id, v, hget, h⟩ := step_fetch h
    have hcons := entries_eq_cons hget
    -- The entries that are left are of other sessions.
    have htail : ∀ e ∈ s.sched.mgr.activeSessions.drop (s.sched.cursor + 1),
        e ∈ s.entries ∧ ¬ s.Involved e.1 (.fetch again) := by
      intro e he
      have hmem : e ∈ s.entries := by
        rw [hcons]
        exact List.mem_cons_of_mem _ he
      refine ⟨hmem, ?_⟩
      rintro ⟨v', hv'⟩
      obtain ⟨rfl, rfl⟩ := Prod.mk.inj (Option.some.inj (hget.symm.trans hv'))
      have hnd := hb.entries_nodup
      rw [hcons] at hnd
      exact (List.nodup_cons.1 hnd).1 (List.mem_map.2 ⟨e, he, rfl⟩)
    rcases h with ⟨-, h⟩ | ⟨-, rfl⟩
    · exact fun e he => (Adds.resume h e he).imp_left (htail e)
    · exact fun e he => .inl (htail e he)
  | done =>
    obtain ⟨-, -, rfl⟩ := step_done h
    exact fun e he => absurd he List.not_mem_nil
  | spawn =>
    obtain ⟨-, rfl⟩ := step_spawn h
    exact hother (.spawn s _ none) fun _ => id
  | block kind =>
    obtain ⟨id, -, -, rfl⟩ := step_block h
    exact hother (.of_eq rfl rfl) fun _ h => h
  | parallel n =>
    obtain ⟨id, -, rfl⟩ := step_parallel h
    have hc := Adds.spawnChildren s (s.session id).root s.nextJoin n
    exact hother (hc.trans (.of_eq rfl rfl)) fun _ h => h
  | cooperate =>
    obtain ⟨id, -, rfl⟩ := step_cooperate h
    exact hother (.of_plan rfl rfl) fun _ h => h
  | close conn =>
    obtain ⟨id, -, -, -, rfl⟩ := step_close h
    exact hother (.of_eq rfl rfl) fun _ h => h
  | ret =>
    obtain ⟨id, -, rfl⟩ := step_ret h
    exact hother (.finish s id) fun _ h => h
  | throw falsy =>
    obtain ⟨id, -, ⟨-, rfl⟩ | ⟨-, rfl⟩⟩ := step_throw h
    · exact hother (.quit s id) fun _ h => h
    · exact hother (.fail s id) fun _ h => h
  | rescue =>
    obtain ⟨id, op, stop, -, -, rfl⟩ := step_rescue h
    exact hother (.of_eq rfl rfl) fun _ h => h
  | escape =>
    obtain ⟨id, op, -, ⟨-, rfl⟩ | ⟨-, rfl⟩⟩ := step_escape h
    · exact hother ((Adds.finish s id).trans (.of_eq rfl rfl)) fun _ h => h
    · exact hother (.fail s id) fun _ h => h

/-- The sessions planned by an event wait for it. -/
def Planned (s : Runtime) : Prop := ∀ id v handle, (id, v) ∈ s.entries → v.source = some handle →
  (s.session id).state ≠ .absent → ∃ kind, (s.session id).state = .waiting (.watch kind handle)

/-- Between two passes, the watcher of a session is that of the operation it waits in. -/
theorem Owners.waiting (ho : s.Owners) (hl : s.Ledger) (hb : s.Base) (hctl : s.sched.ctl = .idle)
    {w : Watcher} (hw : w ∈ s.watchers) (hlive : (s.session w.id).state ≠ .absent) :
    ∃ kind, (s.session w.id).state = .waiting (.watch kind w.handle) := by
  obtain ⟨kind, hk⟩ := ho _ w.id w.handle (hl.watched w hw) hlive
  have hnot := hb.not_runs (.inl hctl) w.id
  refine ⟨kind, ?_⟩
  unfold operation at hk
  split at hk
  · rw [‹(s.session w.id).state = _›, Option.some.inj hk]
  · rw [‹(s.session w.id).state = _›] at hnot
    exact absurd trivial hnot
  · cases hk

theorem Planned.step (hp : s.Planned) (ho : s.Owners) (hl : s.Ledger) (hb : s.Base) {a : Act}
    (h : s.step a = some s') : s'.Planned := by
  intro id v handle hv hsource hlive
  by_cases ha : ∃ handle args, a = .event handle args
  · obtain ⟨h', args, rfl⟩ := ha
    obtain ⟨hctl, w, hw, -, -, rfl⟩ := step_event h
    -- The session of the event is planned; its watcher is active, and so owned.
    rcases mem_entries_plan s (s.event w args) w.id ⟨args, some w.handle⟩ rfl rfl hv with hold | heq
    · exact hp id v handle hold hsource hlive
    · obtain ⟨rfl, rfl⟩ := Prod.mk.inj heq
      obtain rfl := Option.some.inj hsource
      exact ho.waiting hl hb hctl hw hlive
  · have ha' : ∀ handle args, a ≠ .event handle args := fun h' args heq => ha ⟨h', args, heq⟩
    rcases adds_step hb ha' h (id, v) hv with ⟨hold, hinv⟩ | hnone
    · -- An older entry: the session has had no part in the step, and waits as before.
      have hle : id ≤ s.sched.mgr.nextId := by
        refine hb.queued id (List.mem_of_mem_drop (i := s.sched.cursor) ?_)
        change id ∈ s.sched.pending
        rw [pending_eq_entries]
        exact List.mem_map_of_mem hold
      have hst := (bystander hb hle hinv h).state
      rw [hst] at hlive ⊢
      exact hp id v handle hold hsource hlive
    · rw [hnone] at hsource
      cases hsource

/-! ## Every run -/

/-- Where the functions that destroy the watchers have their owners, the watchers have. -/
theorem Owners.owned (ho : s.Owners) (hl : s.Ledger) (hp : s.Planned) : s.Owned := by
  have hw : ∀ w ∈ s.watchers, (s.session w.id).state ≠ .absent → s.Holds w.id w.handle :=
    fun w hw hlive => ho _ w.id w.handle (hl.watched w hw) hlive
  refine ⟨hw, ho, hp, fun conn s' h w hmem hkind => ?_⟩
  -- No other session receives from the connection, and the running one has no watcher.
  obtain ⟨id, hid, -, hother, -⟩ := step_close h
  obtain rfl := hother w hmem hkind
  have huser := (current_eq_some.1 hid).2
  obtain ⟨kind, hk⟩ := hw w hmem (by simp [huser])
  rw [operation, huser] at hk
  cases hk

/-- In runs in which no `receive` is ended by the peer or by what cannot be parsed, unless
    its session is shut down, and no session catches an error of an operation with a watcher,
    every watcher is one of the operation its session is suspended in. -/
theorem owned_of_careful (h : sys.ReachableBy Careful s) : s.Owned := by
  obtain ⟨hl, ho, hp⟩ : s.Ledger ∧ s.Owners ∧ s.Planned := by
    refine h.invariant (I := fun s => s.Ledger ∧ s.Owners ∧ s.Planned) ?_ ?_
    · rintro _ rfl
      exact ⟨ledger_start, fun root id handle h => absurd h List.not_mem_nil,
        fun id v handle h => absurd h List.not_mem_nil⟩
    · intro s a s' hr ⟨hl, ho, hp⟩ hP hs
      have hb := base_of_reachable hr
      exact ⟨hl.step hb hs, ho.step hl hb hP hs, hp.step ho hl hb hs⟩
  exact ho.owned hl hp

/-- A session that has received a part of a response, while its child sleeps. -/
theorem owned_of_careful_parallel : ∃ s, sys.ReachableBy Careful s ∧
    s.watchers.map Watcher.id = [2, 3] ∧ s.Owned := by
  obtain ⟨s, hrun, hs⟩ := System.exists_run_of_execBy sys Careful start
    [.spawn, .start, .fetch false, .block .connect, .done, .event 0 .connected, .start,
      .fetch false, .parallel 2, .fetch false, .block (.receive (some 0)), .fetch false,
      .block .sleep, .done, .event 1 .part, .start, .fetch false]
    (fun s => decide (s.watchers.map Watcher.id = [2, 3])) (by decide +kernel)
  have hr := System.ReachableBy.run (.init rfl) hrun
  exact ⟨s, hr, of_decide_eq_true hs, owned_of_careful hr⟩

/-- A session goes on after the peer has closed the connection it has received from: it
    still has the watcher. -/
theorem closed_not_owned : ¬ ∀ s, sys.Reachable s → s.Owned := by
  intro hall
  obtain ⟨s, hrun, hs⟩ := System.exists_run_of_exec sys start
    [.spawn, .start, .fetch false, .block (.receive none), .done, .event 0 .closed, .start,
      .fetch false]
    (fun s => decide (⟨0, 1, .receive none⟩ ∈ s.watchers ∧ (s.session 1).state = .user))
    (by decide +kernel)
  obtain ⟨hw, huser⟩ := of_decide_eq_true hs
  obtain ⟨kind, hk⟩ := (hall s (System.ReachableBy.run (.init rfl) hrun)).watcher _ hw
    (by simp [huser])
  rw [operation, huser] at hk
  cases hk

end Runtime

end Mistress
