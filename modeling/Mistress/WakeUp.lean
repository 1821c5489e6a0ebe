import Mistress.Sched

/-!
# Wake-ups

A call of `planResume` for a live session should wake it up: the session is to
be resumed once more, by a resume starting after the call, in the pass the call
is made in or in the next one (`Wakes`).

The set of the queued ids is emptied at the end of a pass only. A session
fetched by the loop therefore stays in it up to the end of the pass, and a call
made for it in the meantime is dropped: nothing is left in the queue to resume
it. So the calls that wake the session up are exactly those made while the pass
has not fetched the session yet (`wakes_iff`). In particular

* a C callback always wakes the session up, being run between passes;
* a session planning itself, as `Uthread:cooperate` does, never does
  (`cooperate_not_pending`).
-/

namespace Mistress.Sched

open Transition

variable {σ α : Type} {s s' : Sched σ α} {id : Nat} {args : α}

/-- The number of passes completed once the pass after a call made in `s` is. -/
def nextPass (s : Sched σ α) : Nat := if s.ctl = .idle then s.passes + 1 else s.passes + 2

/-- A call of `planResume` for the session `id` in `s` wakes it up: once the
    next pass is over, it has been resumed by a resume starting after the call. -/
def Wakes (s : Sched σ α) (id : Nat) (args : α) : Prop :=
  ∀ s₁ as s₂, s.step (.plan id args) = some s₁ → Run s₁ as s₂ → s.nextPass ≤ s₂.passes →
    ∃ v, (id, v) ∈ s₂.resumes.drop s₁.resumes.length

/-- Since the `n`-th resume, the session `id` has been resumed, or the pass after
    the `p`-th one is not over and has yet to resume it. -/
def Awaited (n p id : Nat) (s : Sched σ α) : Prop :=
  n ≤ s.resumes.length ∧ ((∃ v, (id, v) ∈ s.resumes.drop n) ∨
    (s.passes = p ∧ id ∈ s.mgr.sessions ∧ id ∈ s.pending))

/-- Fetching an entry resumes its session, and leaves the others to be fetched. -/
theorem Awaited.fetch {n p : Nat} (hw : s.Awaited n p id) (h : s.step .fetch = some s') :
    s'.Awaited n p id := by
  obtain ⟨-, i, v, hget, hs'⟩ := step_fetch h
  obtain ⟨hn, hw⟩ := hw
  obtain ⟨hpend, -⟩ := pending_eq_cons hget
  rcases hs' with ⟨-, rfl⟩ | ⟨habs, rfl⟩
  · refine ⟨by simp only [List.length_append]; exact Nat.le_add_right_of_le hn, ?_⟩
    simp only [List.drop_append_of_le_length hn]
    rcases hw with ⟨v', hv'⟩ | ⟨hp, hmem, hid⟩
    · exact .inl ⟨v', List.mem_append_left _ hv'⟩
    · rw [hpend] at hid
      rcases List.mem_cons.1 hid with rfl | hid
      · exact .inl ⟨v, List.mem_append_right _ (List.mem_singleton_self _)⟩
      · exact .inr ⟨hp, hmem, hid⟩
  · refine ⟨hn, hw.imp_right fun ⟨hp, hmem, hid⟩ => ⟨hp, hmem, ?_⟩⟩
    rw [hpend] at hid
    exact (List.mem_cons.1 hid).resolve_left fun e => habs (e ▸ hmem)

/-- No step loses an awaited session. -/
theorem Awaited.step {n p : Nat} (hs : s.Inv) (hw : s.Awaited n p id) {a : Act σ α}
    (h : s.step a = some s') : s'.Awaited n p id := by
  cases a with
  | plan i args =>
    obtain ⟨-, rfl⟩ := step_plan h
    refine ⟨hw.1, hw.2.imp_right fun ⟨hp, hmem, hid⟩ => ⟨hp, ?_, hs.pending_planResume i args hid⟩⟩
    rwa [Manager.planResume_sessions]
  | register callback =>
    obtain ⟨-, rfl⟩ := step_register h
    exact ⟨hw.1, hw.2.imp_right fun ⟨hp, hmem, hid⟩ =>
      ⟨hp, AList.mem_insert _ |>.2 (.inr hmem), hid⟩⟩
  | start =>
    obtain ⟨-, rfl⟩ := step_start h
    exact hw
  | fetch => exact hw.fetch h
  | yield =>
    obtain ⟨_, -, rfl⟩ := step_yield h
    exact hw
  | finish =>
    obtain ⟨i, hi, rfl⟩ := step_finish h
    refine ⟨hw.1, hw.2.imp_right fun ⟨hp, hmem, hid⟩ => ⟨hp, AList.mem_erase.2 ⟨?_, hmem⟩, hid⟩⟩
    -- The session that ends has been fetched already.
    rintro rfl
    exact hs.disjoint (hs.running _ hi).2 hid
  | raise =>
    obtain ⟨_, -, rfl⟩ := step_raise h
    exact hw
  | done =>
    obtain ⟨-, hle, rfl⟩ := step_done h
    refine ⟨hw.1, .inl (hw.2.resolve_right fun ⟨_, _, hid⟩ => ?_)⟩
    rw [pending, List.drop_eq_nil_of_le (by rwa [Manager.queue, List.length_map])] at hid
    exact List.not_mem_nil hid

theorem Awaited.run {n p : Nat} {as : List (Act σ α)} (hs : s.Inv) (hw : s.Awaited n p id)
    (h : Run s as s') : s'.Awaited n p id :=
  (h.invariant (I := fun s => s.Inv ∧ s.Awaited n p id)
    (fun ⟨hI, hw⟩ _ h => ⟨hI.step h, hw.step hI h⟩) ⟨hs, hw⟩).2

/-- A call for a session the pass has not fetched wakes it up. -/
theorem Inv.wakes (hs : s.Inv) (hid : id ∈ s.mgr.sessions) (h : id ∉ s.taken) :
    s.Wakes id args := by
  intro s₁ as s₂ hstep hrun hpass
  obtain ⟨-, rfl⟩ := step_plan hstep
  have hw : Awaited s.resumes.length s.passes id { s with mgr := s.mgr.planResume id args } :=
    ⟨le_rfl, .inr ⟨rfl, by rwa [Manager.planResume_sessions], hs.mem_pending_planResume h args⟩⟩
  refine (hw.run (hs.plan id args) hrun).2.resolve_right fun ⟨hp, _⟩ => ?_
  unfold nextPass at hpass
  split at hpass <;> omega

/-- A call for a session the pass has fetched is dropped, and the session may
    then not be resumed in this pass nor in the next one. -/
theorem Inv.not_wakes (hs : s.Inv) (hcall : s.Callable) (h : id ∈ s.taken) :
    ¬s.Wakes id args := by
  intro hw
  have hids : id ∈ s.mgr.activeSessionsIds :=
    (hs.consistent.mem_ids id).2 (List.mem_of_mem_take h)
  have hplan : s.step (.plan id args) = some s := by
    simp [Sched.step, hcall, Manager.planResume_of_mem s.mgr hids]
  rcases hcall with hidle | ⟨r, hr⟩
  · rw [hs.taken_of_idle hidle] at h
    exact List.not_mem_nil h
  · -- The running session yields, the pass is finished, and the next one finds nothing queued.
    obtain ⟨as, new, s', hrun, hctl, hmgr, hcur, hpass, hres, hnew⟩ :=
      drain _ { s with ctl := .loop } rfl rfl
    have hyield : Run s [.yield] { s with ctl := .loop } :=
      .single trivial (by simp [sys, Sched.step, hr])
    have hstart : sys.step s' .start = some { s' with ctl := .loop } := by
      simp [sys, Sched.step, hctl]
    have hnext : Run s' [.start, .done] { s' with
        ctl := .idle, mgr := s'.mgr.clear, cursor := 0, passes := s'.passes + 1 } :=
      .cons trivial hstart (.single trivial (by simp [sys, Sched.step, hmgr, Manager.clear]))
    obtain ⟨v, hv⟩ := hw _ _ _ hplan ((hyield.trans hrun).trans hnext)
      (by simp [nextPass, hr, hpass])
    rw [hres] at hv
    simp only [List.drop_left] at hv
    exact hs.disjoint h (hnew _ hv)

/-- A call of `planResume` for a registered session wakes it up if and only if
    the pass the call is made in has not fetched the session yet. -/
theorem wakes_iff (hs : sys.Reachable s) (hcall : s.Callable) (hid : id ∈ s.mgr.sessions) :
    s.Wakes id args ↔ id ∉ s.taken :=
  have hI := inv_of_reachable hs
  ⟨fun hw h => hI.not_wakes hcall h hw, hI.wakes hid⟩

/-- Between two passes, a C callback plans the only session there is. -/
theorem wakes_iff_callback :
    Wakes ⟨Manager.init.register fun _ => (), .idle, 0, [(1, ())], 1⟩ 1 () ↔
      1 ∉ taken ⟨Manager.init.register fun _ => (), .idle, 0, [(1, ())], 1⟩ :=
  wakes_iff (System.reachable_of_exec
    [.register fun _ => (), .plan 1 (), .start, .fetch, .yield, .done] rfl rfl)
    (by decide) (by decide)

/-! ## Cooperating -/

/-- A session that plans itself while it runs is left, by its yield, with no
    entry to be fetched. -/
theorem cooperate_not_pending (hs : sys.Reachable s) (hid : s.ctl = .running id) (args : α) :
    ∃ s', Run s [.plan id args, .yield] s' ∧ id ∈ s'.mgr.sessions ∧ id ∉ s'.pending := by
  have hI := inv_of_reachable hs
  obtain ⟨hmem, htaken⟩ := hI.running id hid
  have hplan : s.mgr.planResume id args = s.mgr :=
    Manager.planResume_of_mem _ ((hI.consistent.mem_ids id).2 (List.mem_of_mem_take htaken))
  have hcall : s.Callable := .inr ⟨id, hid⟩
  have hstep : sys.step s (.plan id args) = some s := by simp [sys, step, hcall, hplan]
  have hyield : sys.step s .yield = some { s with ctl := .loop } := by simp [sys, step, hid]
  exact ⟨{ s with ctl := .loop }, .cons trivial hstep (.single trivial hyield), hmem,
    fun h => hI.disjoint htaken h⟩

/-- The session `1` cooperates in its first run, and is not resumed by the next pass. -/
theorem cooperate_not_wakes :
    ¬∀ (s : Sched Unit Unit) (id : Nat) (args : Unit), sys.Reachable s → s.Callable →
      id ∈ s.mgr.sessions → s.Wakes id args := by
  intro h
  obtain ⟨v, hv⟩ := h
    ⟨(Manager.init.register fun _ => ()).planResume 1 (), .running 1, 1, [(1, ())], 0⟩ 1 ()
    (System.reachable_of_exec [.register fun _ => (), .plan 1 (), .start, .fetch] rfl rfl)
    (by decide) (by decide) _ _ _ rfl
    (System.run_of_exec [.yield, .done, .start, .done] rfl) (by decide)
  exact List.not_mem_nil hv

end Mistress.Sched
