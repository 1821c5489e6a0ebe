import Mistress.PoolInv

/-!
# Exclusive use of connections

Whatever the order in which the sessions of a family take turns, and whatever
becomes of their calls of `http`, a connection is used by one call at a time, and a
call begins with a connection on which nothing is left to be read.

This holds as long as no connection is closed again (`exclusive`). Where one is, the
connection that has got its file descriptor is closed, which may be in use.
-/

namespace Mistress.Pool

open Transition

/-- What the pool promises. -/
structure Exclusive (s : Pool) : Prop where
  /-- An open connection that `get_connection` has created is in exactly one of the
      two tables of its host key, -/
  table : ∀ c, (s.conn c).cached → s.Open c →
    Xor ((s.free (s.conn c).key).lookup (s.conn c).fd = some c)
      ((s.busy (s.conn c).key).lookup (s.conn c).fd = some c)
  /-- and only there, under its own file descriptor. -/
  place : ∀ c key fd, (s.free key).lookup fd = some c ∨ (s.busy key).lookup fd = some c →
    key = (s.conn c).key ∧ fd = (s.conn c).fd
  /-- No two calls use the same connection. -/
  call : ∀ i j c, (s.session i).http.conn = some c → (s.session j).http.conn = some c → i = j
  /-- All the responses to the requests written to a free connection have been read, -/
  free : ∀ key fd c, (s.free key).lookup fd = some c → (s.conn c).written = (s.conn c).read
  /-- so that a call that waits for a response waits for the one to its own request. -/
  receive : ∀ i c, (s.session i).http = .receive c → (s.conn c).written = (s.conn c).read + 1

variable {s : Pool}

theorem Inv.exclusively (hs : s.Inv) : s.Exclusive where
  table c hc ho := by
    rcases hs.cached c hc ho with h | h
    · refine .inl ⟨h, fun h' => hs.not_free h' _ _ h⟩
    · exact .inr ⟨h, hs.not_free h _ _⟩
  place c key fd h := by
    have he : s.Entry key fd c := h.elim (fun h => (hs.free key fd c h).1) (hs.busy key fd c)
    exact ⟨he.key.symm, he.fd.symm⟩
  call := hs.unique
  free key fd c h := (hs.free key fd c h).2.2
  receive i c h := by
    have hu := (hs.calls i c (by rw [h]; rfl)).written
    rwa [if_pos h] at hu

/-- As long as no session goes on with an event queued before its top-level session was
    cleaned, the connections are used exclusively. -/
theorem exclusive (hs : sys.ReachableBy Timely s) : s.Exclusive := (inv_of_reachable hs).exclusively

/-- Two children of a session, one of which has read its response, while the other
    one waits for it. -/
theorem exclusive_two : ∃ s, sys.ReachableBy Timely s ∧
    (s.free (1, "10.0.0.1:80")).lookup 5 = some 0 ∧
    (s.busy (1, "10.0.0.1:80")).lookup 6 = some 1 ∧ s.Exclusive := by
  obtain ⟨s, hrun, hs⟩ := System.exists_run_of_execBy sys Timely start
    [.spawn, .start, .fetch, .parallel 2, .fetch, .connect "10.0.0.1:80" 5, .fetch,
      .connect "10.0.0.1:80" 6, .done, .event 3, .event 2, .start, .fetch, .connected 3,
      .send .full, .fetch, .connected 2, .send .all, .done, .event 2, .event 3, .start, .fetch,
      .received 2 (.done true), .yield, .fetch, .sendReady 3, .send .all]
    (fun s => decide ((s.free (1, "10.0.0.1:80")).lookup 5 = some 0 ∧
      (s.busy (1, "10.0.0.1:80")).lookup 6 = some 1)) (by decide +kernel)
  obtain ⟨hfree, hbusy⟩ := of_decide_eq_true hs
  have hr : sys.ReachableBy Timely s := System.ReachableBy.run (.init rfl) hrun
  exact ⟨s, hr, hfree, hbusy, exclusive hr⟩

/-- Two top-level sessions, 1 and 2, and the child 3 of the first one are shut down, and
    catch the `STOP`: the child calls `parallel` again, which makes the session 6, and so does
    the session 2, which makes the sessions 4 and 5.

    In a later pass the session 1 ends first, which closes the connection of the session 6; but
    the event that its server has closed it is queued already. Before its turn the session 4
    opens a connection, with the same file descriptor. The session 6 closes it, and then the
    session 5 opens one: the requests of both are written to one socket. -/
theorem reclosed_not_exclusive : ¬∀ s, sys.Reachable s → s.Exclusive := by
  intro hall
  obtain ⟨s, hrun, hs⟩ := System.exists_run_of_exec sys start
    [.spawn, .spawn, .start, .fetch, .parallel 1, .fetch, .yield, .fetch, .yield, .done,
      .shutDown [1, 2, 3], .start, .fetch, .yield, .fetch, .parallel 2, .fetch, .parallel 1,
      .fetch, .yield, .fetch, .yield, .fetch, .connect "10.0.0.1:80" 5, .done,
      .event 6, .start, .fetch, .connected 6, .send .all, .done,
      .plan 1, .plan 4, .event 6, .plan 5, .start, .fetch, .finish [0],
      .fetch, .connect "10.0.0.1:80" 5, .fetch, .reclose 6, .yield,
      .fetch, .connect "10.0.0.1:80" 5, .done, .event 4, .event 5, .start,
      .fetch, .connected 4, .send .all, .fetch, .connected 5, .send .all]
    (fun s => decide ((s.session 5).http = .receive 2 ∧ (s.conn 2).written = 2 ∧
      (s.conn 2).read = 0)) (by decide +kernel)
  obtain ⟨hhttp, hw, hr⟩ := of_decide_eq_true hs
  have hex := (hall s (.run (.init rfl) hrun)).receive 5 2 hhttp
  rw [hw, hr] at hex
  cases hex

end Mistress.Pool
