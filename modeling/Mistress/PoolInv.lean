import Mistress.Pool

/-!
# The invariant of the pool

An open connection that has been established has an entry in one table, which is
its own; the other way round, the entries of the tables are about open
connections. A call of `http` keeps its connection out of the free table, and the
connection stays open as long as the call can go on: `clean` closes connections
that are in use, but destroys the watchers of the calls that use them first.

Each operation on the state keeps `Inv`, and so does every step in which no connection is
closed again (`Inv.act`): a second `close` would close the file descriptor of another one.
`inv_of_reachable` has it for the states of the runs made of such steps.
-/

namespace Mistress.Pool

open Transition

variable {s s' : Pool} {id c : Nat}

/-- The socket of the connection is open. -/
def Open (s : Pool) (c : Nat) : Prop := s.fds (s.conn c).fd = some (.conn c)

/-- The connection is used by nobody. -/
def Unused (s : Pool) (c : Nat) : Prop := ∀ i, (s.session i).http.conn ≠ some c

/-- The connection an entry of a table is about: it is at its place, and open. -/
structure Entry (s : Pool) (key : Nat × String) (fd c : Nat) : Prop where
  cached : (s.conn c).cached = true
  key : (s.conn c).key = key
  fd : (s.conn c).fd = fd
  isOpen : s.Open c

/-- The connection a call of `http` uses. -/
structure Using (s : Pool) (i c : Nat) : Prop where
  lt : c < s.nextConn
  root : (s.conn c).root = (s.session i).root
  cached : (s.conn c).cached = true ↔ (s.session i).http ≠ .connect c
  /-- It is open unless the call has lost its watcher, -/
  isOpen : (s.session i).watching = true ∨ (s.session i).http = .request c → s.Open c
  /-- and the responses to all requests but the one of the call have been read. -/
  written : (s.conn c).written =
    (s.conn c).read + if (s.session i).http = .receive c then 1 else 0

/-- The invariant of the pool. -/
structure Inv (s : Pool) : Prop where
  sock : ∀ fd c, s.fds fd = some (.conn c) → c < s.nextConn ∧ (s.conn c).fd = fd
  free : ∀ key fd c, (s.free key).lookup fd = some c →
    s.Entry key fd c ∧ s.Unused c ∧ (s.conn c).written = (s.conn c).read
  busy : ∀ key fd c, (s.busy key).lookup fd = some c → s.Entry key fd c
  apart : ∀ key fd, (s.free key).lookup fd = none ∨ (s.busy key).lookup fd = none
  cached : ∀ c, (s.conn c).cached = true → s.Open c →
    (s.free (s.conn c).key).lookup (s.conn c).fd = some c ∨
      (s.busy (s.conn c).key).lookup (s.conn c).fd = some c
  calls : ∀ i c, (s.session i).http.conn = some c → s.Using i c
  unique : ∀ i j c, (s.session i).http.conn = some c → (s.session j).http.conn = some c → i = j
  /-- The finalizers close what is open, once. -/
  fin : ∀ root c, c ∈ s.finalizers root → s.Open c ∧ (s.conn c).root = root
  nodup : ∀ root, (s.finalizers root).Nodup
  ctl : ∀ i c, (s.session i).http = .request c → s.ctl = some i

theorem inv_start : start.Inv where
  sock _ _ h := by cases h
  free _ _ _ h := by cases h
  busy _ _ _ h := by cases h
  apart _ _ := .inl rfl
  cached _ h := by cases h
  calls _ _ h := by cases h
  unique _ _ _ h := by cases h
  fin _ _ h := absurd h List.not_mem_nil
  nodup _ := List.nodup_nil
  ctl _ _ h := by cases h

/-! ## The sessions -/

/-- Only the sessions change, and they use what they used. -/
theorem Inv.sessions (hs : s.Inv) (hfds : s'.fds = s.fds) (hconn : s'.conn = s.conn)
    (hnext : s'.nextConn = s.nextConn) (hfree : s'.free = s.free) (hbusy : s'.busy = s.busy)
    (hfin : s'.finalizers = s.finalizers)
    (hcalls : ∀ i c, (s'.session i).http.conn = some c →
      (s.session i).http.conn = some c ∧ s'.Using i c)
    (hctl : ∀ i c, (s'.session i).http = .request c → s'.ctl = some i) : s'.Inv := by
  have hopen c : s'.Open c ↔ s.Open c := by rw [Open, hfds, hconn]; rfl
  have hentry {key fd c} (h : s.Entry key fd c) : s'.Entry key fd c :=
    ⟨hconn ▸ h.cached, hconn ▸ h.key, hconn ▸ h.fd, (hopen c).2 h.isOpen⟩
  refine ⟨?_, fun key fd c h => ?_, fun key fd c h => ?_, ?_, fun c hc ho => ?_,
    fun i c h => (hcalls i c h).2, fun i j c hi hj => ?_, fun root c h => ?_, ?_, hctl⟩
  · rw [hfds, hconn, hnext]
    exact hs.sock
  · rw [hfree] at h
    obtain ⟨he, hu, hw⟩ := hs.free key fd c h
    exact ⟨hentry he, fun i hi => hu i (hcalls i c hi).1, hconn ▸ hw⟩
  · rw [hbusy] at h
    exact hentry (hs.busy key fd c h)
  · rw [hfree, hbusy]
    exact hs.apart
  · rw [hconn] at hc
    rw [hconn, hfree, hbusy]
    exact hs.cached c hc ((hopen c).1 ho)
  · exact hs.unique i j c (hcalls i c hi).1 (hcalls j c hj).1
  · rw [hfin] at h
    obtain ⟨ho, hr⟩ := hs.fin root c h
    exact ⟨(hopen c).2 ho, hconn ▸ hr⟩
  · rw [hfin]
    exact hs.nodup

/-- A call that stays where it is. -/
theorem Using.congr {i : Nat} (h : s.Using i c) (hfds : s'.fds = s.fds) (hconn : s'.conn = s.conn)
    (hnext : s'.nextConn = s.nextConn) (hsess : s'.session i = s.session i) : s'.Using i c := by
  have hopen : s'.Open c ↔ s.Open c := by rw [Open, hfds, hconn]; rfl
  refine ⟨?_, ?_, ?_, fun h' => ?_, ?_⟩
  · rw [hnext]
    exact h.lt
  · rw [hconn, hsess]
    exact h.root
  · rw [hconn, hsess]
    exact h.cached
  · rw [hsess] at h'
    exact hopen.2 (h.isOpen h')
  · rw [hconn, hsess]
    exact h.written

theorem session_goOn (s : Pool) (id : Nat) (http : Http) (i : Nat) :
    (s.goOn id http).session i =
      if i = id then { s.session id with http, watching := false } else s.session i :=
  Function.update_apply _ _ _ _

theorem session_wait (s : Pool) (id : Nat) (http : Http) (i : Nat) :
    (s.wait id http).session i =
      if i = id then { s.session id with http, watching := true } else s.session i :=
  Function.update_apply _ _ _ _

/-- No session but the one that runs is between `mark_busy` and `send`. -/
theorem Inv.not_request (hs : s.Inv) (hctl : s.ctl = some id) {i : Nat} (hi : i ≠ id) :
    (s.session i).http ≠ .request c := fun h => by
  have hctl' := hs.ctl i c h
  rw [hctl] at hctl'
  exact hi (Option.some.inj hctl').symm

/-- The scheduler goes on, without resuming a session between `mark_busy` and `send`. -/
theorem Inv.resched (hs : s.Inv) (sched : Sched Unit Unit)
    (h : ∀ i c, (s.session i).http = .request c → sched.ctl = .running i) :
    Inv { s with sched } :=
  hs.sessions rfl rfl rfl rfl rfl rfl (fun i _ hi => ⟨hi, (hs.calls i _ hi).congr rfl rfl rfl rfl⟩)
    fun i c hi => ctl_eq_some.2 (h i c hi)

/-- The running session, which is not between `mark_busy` and `send`, is suspended. -/
theorem Inv.suspend (hs : s.Inv) (hctl : s.ctl = some id)
    (hne : ∀ c, (s.session id).http ≠ .request c) : s.suspend.Inv := by
  refine hs.resched _ fun i c hi => ?_
  obtain rfl := Option.some.inj (hctl.symm.trans (hs.ctl i c hi))
  exact absurd hi (hne c)

/-- A session leaves `http`, or goes on outside of it. -/
theorem Inv.leave (hs : s.Inv) (hctl : s.ctl = some id) : (s.goOn id .out).Inv := by
  refine hs.sessions rfl rfl rfl rfl rfl rfl (fun i c h => ?_) fun i c h => ?_
  · rw [session_goOn] at h
    split at h
    · cases h
    · refine ⟨h, (hs.calls i c h).congr rfl rfl rfl ?_⟩
      rw [session_goOn, if_neg ‹_›]
  · rw [session_goOn] at h
    split at h
    · cases h
    · exact absurd h (hs.not_request hctl ‹_›)

/-- A session that is not in `http` begins to use a connection nobody uses. -/
theorem Inv.enter (hs : s.Inv) (hctl : s.ctl = some id) (hu : s.Unused c)
    (hfree : ∀ key fd, (s.free key).lookup fd ≠ some c) (hout : (s.session id).http = .out)
    (hsess : ∀ i, i ≠ id → s'.session i = s.session i) (hc : (s'.session id).http.conn = some c)
    (huse : s'.Using id c) (hreq : ∀ c, (s'.session id).http = .request c → s'.ctl = some id)
    (hfds : s'.fds = s.fds) (hconn : s'.conn = s.conn) (hnext : s'.nextConn = s.nextConn)
    (hfree' : s'.free = s.free) (hbusy : s'.busy = s.busy)
    (hfin : s'.finalizers = s.finalizers) : s'.Inv := by
  have hopen c : s'.Open c ↔ s.Open c := by rw [Open, hfds, hconn]; rfl
  have hentry {key fd c} (h : s.Entry key fd c) : s'.Entry key fd c :=
    ⟨hconn ▸ h.cached, hconn ▸ h.key, hconn ▸ h.fd, (hopen c).2 h.isOpen⟩
  -- Whoever uses another connection is another session, and was using it before.
  have hold {i c'} (h : (s'.session i).http.conn = some c') :
      (i = id ∧ c' = c) ∨ (i ≠ id ∧ (s.session i).http.conn = some c') := by
    by_cases hi : i = id
    · rw [hi, hc] at h
      exact .inl ⟨hi, (Option.some.inj h).symm⟩
    · rw [hsess i hi] at h
      exact .inr ⟨hi, h⟩
  refine ⟨?_, fun key fd c' h => ?_, fun key fd c h => ?_, ?_, fun c hc ho => ?_,
    fun i c' h => ?_, fun i j c' hi hj => ?_, fun root c h => ?_, ?_, fun i c' h => ?_⟩
  · rw [hfds, hconn, hnext]
    exact hs.sock
  · rw [hfree'] at h
    obtain ⟨he, hu', hw⟩ := hs.free key fd c' h
    refine ⟨hentry he, fun i hi => ?_, hconn ▸ hw⟩
    rcases hold hi with ⟨-, rfl⟩ | ⟨-, hi⟩
    · exact hfree key fd h
    · exact hu' i hi
  · rw [hbusy] at h
    exact hentry (hs.busy key fd c h)
  · rw [hfree', hbusy]
    exact hs.apart
  · rw [hconn] at hc
    rw [hconn, hfree', hbusy]
    exact hs.cached c hc ((hopen c).1 ho)
  · rcases hold h with ⟨rfl, rfl⟩ | ⟨hi, h⟩
    · exact huse
    · exact (hs.calls i c' h).congr hfds hconn hnext (hsess i hi)
  · rcases hold hi with ⟨rfl, rfl⟩ | ⟨-, hi⟩ <;> rcases hold hj with ⟨rfl, hcc⟩ | ⟨-, hj⟩
    · rfl
    · exact absurd hj (hu j)
    · exact absurd (hcc ▸ hi) (hu i)
    · exact hs.unique i j c' hi hj
  · rw [hfin] at h
    obtain ⟨ho, hr⟩ := hs.fin root c h
    exact ⟨(hopen c).2 ho, hconn ▸ hr⟩
  · rw [hfin]
    exact hs.nodup
  · by_cases hi : i = id
    · exact hi ▸ hreq c' (hi ▸ h)
    · rw [hsess i hi] at h
      exact absurd h (hs.not_request hctl hi)

/-! ## The tables -/

theorem lookup_update_assign (f : Nat × String → Table Nat Nat) (key key' : Nat × String)
    (fd fd' : Nat) (v : Option Nat) :
    (Function.update f key ((f key).assign fd v) key').lookup fd' =
      if key' = key ∧ fd' = fd then v else (f key').lookup fd' := by
  rw [Function.update_apply]
  by_cases hk : key' = key
  · rw [if_pos hk, Table.lookup_assign, hk]
    simp
  · rw [if_neg hk, if_neg fun h => hk h.1]

theorem lookup_update_erase (f : Nat × String → Table Nat Nat) (key key' : Nat × String)
    (fd fd' : Nat) :
    (Function.update f key ((f key).erase fd) key').lookup fd' =
      if key' = key ∧ fd' = fd then none else (f key').lookup fd' :=
  lookup_update_assign f key key' fd fd' none

/-- Two open connections have different file descriptors. -/
theorem Open.inj {c' : Nat} (h : s.Open c) (h' : s.Open c') (hfd : (s.conn c).fd = (s.conn c').fd) :
    c = c' := by
  rw [Open, hfd, h'] at h
  exact (Sock.conn.inj (Option.some.inj h)).symm

/-- A free connection is marked busy. -/
theorem Inv.markBusy (hs : s.Inv)
    (hc : (s.free (s.conn c).key).lookup (s.conn c).fd = some c) : (s.markBusy c).Inv := by
  have hfree key fd : ((s.markBusy c).free key).lookup fd =
      if key = (s.conn c).key ∧ fd = (s.conn c).fd then none else (s.free key).lookup fd :=
    lookup_update_erase s.free _ key _ fd
  have hbusy key fd : ((s.markBusy c).busy key).lookup fd =
      if key = (s.conn c).key ∧ fd = (s.conn c).fd then some c else (s.busy key).lookup fd := by
    rw [← hc]
    exact lookup_update_assign s.busy _ key _ fd _
  refine ⟨hs.sock, fun key fd c' h => ?_, fun key fd c' h => ?_, fun key fd => ?_,
    fun c' hc' ho => ?_, fun i c h => (hs.calls i c h).congr rfl rfl rfl rfl, hs.unique, hs.fin,
    hs.nodup, hs.ctl⟩
  · rw [hfree] at h
    split at h
    · cases h
    · obtain ⟨he, hu⟩ := hs.free key fd c' h
      exact ⟨⟨he.cached, he.key, he.fd, he.isOpen⟩, hu⟩
  · rw [hbusy] at h
    split at h
    · -- The new entry is about the connection that was free.
      obtain rfl := Option.some.inj h
      obtain ⟨rfl, rfl⟩ := ‹_ ∧ _›
      obtain ⟨he, -⟩ := hs.free _ _ c hc
      exact ⟨he.cached, he.key, he.fd, he.isOpen⟩
    · obtain he := hs.busy key fd c' h
      exact ⟨he.cached, he.key, he.fd, he.isOpen⟩
  · rw [hfree, hbusy]
    split
    · exact .inl rfl
    · exact hs.apart key fd
  · change ((s.markBusy c).free (s.conn c').key).lookup (s.conn c').fd = _ ∨
      ((s.markBusy c).busy (s.conn c').key).lookup (s.conn c').fd = _
    rw [hfree, hbusy]
    split
    · -- Its place is taken by no other connection.
      rename_i hplace
      rw [Open.inj (hs.free _ _ c hc).1.isOpen ho hplace.2.symm]
      exact .inr rfl
    · exact hs.cached c' hc' ho

/-- A connection nobody uses any more is marked free. -/
theorem Inv.markFree (hs : s.Inv) (hu : s.Unused c) (hw : (s.conn c).written = (s.conn c).read)
    (hc : (s.busy (s.conn c).key).lookup (s.conn c).fd = some c) : (s.markFree c).Inv := by
  have hfree key fd : ((s.markFree c).free key).lookup fd =
      if key = (s.conn c).key ∧ fd = (s.conn c).fd then some c else (s.free key).lookup fd := by
    rw [← hc]
    exact lookup_update_assign s.free _ key _ fd _
  have hbusy key fd : ((s.markFree c).busy key).lookup fd =
      if key = (s.conn c).key ∧ fd = (s.conn c).fd then none else (s.busy key).lookup fd :=
    lookup_update_erase s.busy _ key _ fd
  refine ⟨hs.sock, fun key fd c' h => ?_, fun key fd c' h => ?_, fun key fd => ?_,
    fun c' hc' ho => ?_, fun i c h => (hs.calls i c h).congr rfl rfl rfl rfl, hs.unique, hs.fin,
    hs.nodup, hs.ctl⟩
  · rw [hfree] at h
    split at h
    · -- The new entry: nobody uses the connection, and nothing is left to be read.
      obtain rfl := Option.some.inj h
      obtain ⟨rfl, rfl⟩ := ‹_ ∧ _›
      have he := hs.busy _ _ c hc
      exact ⟨⟨he.cached, he.key, he.fd, he.isOpen⟩, hu, hw⟩
    · obtain ⟨he, hu⟩ := hs.free key fd c' h
      exact ⟨⟨he.cached, he.key, he.fd, he.isOpen⟩, hu⟩
  · rw [hbusy] at h
    split at h
    · cases h
    · obtain he := hs.busy key fd c' h
      exact ⟨he.cached, he.key, he.fd, he.isOpen⟩
  · rw [hfree, hbusy]
    split
    · exact .inr rfl
    · exact hs.apart key fd
  · change ((s.markFree c).free (s.conn c').key).lookup (s.conn c').fd = _ ∨
      ((s.markFree c).busy (s.conn c').key).lookup (s.conn c').fd = _
    rw [hfree, hbusy]
    split
    · -- Its place is taken by no other connection.
      rename_i hplace
      rw [Open.inj (hs.busy _ _ c hc).isOpen ho hplace.2.symm]
      exact .inl rfl
    · exact hs.cached c' hc' ho

/-! ## Closing -/

/-- What closing an open connection changes. -/
theorem closeConn_eq (hc : s.Open c) (leaveFin : Bool) :
    ∃ free busy finalizers, s.closeConn c leaveFin = { s with
        fds := Function.update s.fds (s.conn c).fd none, free, busy, finalizers } ∧
      (∀ key fd, (free key).lookup fd = if (s.conn c).cached ∧ key = (s.conn c).key ∧
        fd = (s.conn c).fd then none else (s.free key).lookup fd) ∧
      (∀ key fd, (busy key).lookup fd = if (s.conn c).cached ∧ key = (s.conn c).key ∧
        fd = (s.conn c).fd then none else (s.busy key).lookup fd) ∧
      finalizers = if leaveFin then s.finalizers
        else Function.update s.finalizers (s.conn c).root
          ((s.finalizers (s.conn c).root).erase c) := by
  have hsock (s : Pool) {fd : Nat} (h : s.fds fd = some (.conn c)) :
      s.closeSocket fd = { s with fds := Function.update s.fds fd none } := by
    rw [closeSocket, h]
  unfold closeConn
  by_cases hcached : (s.conn c).cached = true
  · simp only [if_pos hcached]
    rw [hsock (s.uncache c) hc]
    refine ⟨(s.uncache c).free, (s.uncache c).busy, _, ?_, fun key fd => ?_, fun key fd => ?_, rfl⟩
    · split <;> rfl
    · rw [if_congr (and_iff_right hcached) rfl rfl]
      exact lookup_update_erase s.free _ key _ fd
    · rw [if_congr (and_iff_right hcached) rfl rfl]
      exact lookup_update_erase s.busy _ key _ fd
  · simp only [if_neg hcached]
    rw [hsock s hc]
    refine ⟨s.free, s.busy, _, ?_, fun key fd => ?_, fun key fd => ?_, rfl⟩
    · split <;> rfl
    · rw [if_neg fun h => hcached h.1]
    · rw [if_neg fun h => hcached h.1]

/-- An open connection is closed that nobody will go on to use. -/
theorem Inv.closeConn (hs : s.Inv) (hc : s.Open c)
    (hdead : ∀ i, (s.session i).http.conn = some c →
      (s.session i).watching = false ∧ (s.session i).http ≠ .request c)
    {leaveFin : Bool} (hfin : leaveFin = true → ∀ root, c ∉ s.finalizers root) :
    (s.closeConn c leaveFin).Inv := by
  obtain ⟨free, busy, finalizers, heq, hfree, hbusy, hfins⟩ := closeConn_eq hc leaveFin
  rw [heq]
  -- The others stay open, since each has a file descriptor of its own.
  have hopen {c'} : Open { s with
      fds := Function.update s.fds (s.conn c).fd none, free, busy, finalizers } c' ↔
        s.Open c' ∧ c' ≠ c := by
    change Function.update s.fds (s.conn c).fd none (s.conn c').fd = _ ↔ _
    rw [Function.update_apply]
    split
    · refine iff_of_false (by simp) fun ⟨ho, hne⟩ => hne (Open.inj ho hc ‹_›)
    · refine (and_iff_left_of_imp fun _ h => ?_).symm
      exact ‹¬_› (by rw [h])
  -- Only the entry of the connection itself is removed.
  have hentry {key fd c'} (he : s.Entry key fd c')
      (hne : ¬((s.conn c).cached ∧ key = (s.conn c).key ∧ fd = (s.conn c).fd)) :
      Entry { s with
        fds := Function.update s.fds (s.conn c).fd none, free, busy, finalizers } key fd c' := by
    refine ⟨he.cached, he.key, he.fd, hopen.2 ⟨he.isOpen, ?_⟩⟩
    rintro rfl
    exact hne ⟨he.cached, he.key.symm, he.fd.symm⟩
  have hmem {root c'} (h : c' ∈ finalizers root) : c' ∈ s.finalizers root ∧ c' ≠ c := by
    rw [hfins] at h
    cases leaveFin with
    | true => exact ⟨h, fun h' => hfin rfl root (h' ▸ h)⟩
    | false =>
      simp only [Bool.false_eq_true, if_false, Function.update_apply] at h
      split at h
      · rw [(hs.nodup _).mem_erase_iff] at h
        exact ⟨‹root = _› ▸ h.2, h.1⟩
      · refine ⟨h, fun h' => ?_⟩
        exact absurd (hs.fin root c (h' ▸ h)).2.symm ‹_›
  refine ⟨fun fd c' h => ?_, fun key fd c' h => ?_, fun key fd c' h => ?_, fun key fd => ?_,
    fun c' hc' ho => ?_, fun i c' h => ?_, hs.unique, fun root c' h => ?_, fun root => ?_, hs.ctl⟩
  · simp only [Function.update_apply] at h
    split at h
    · cases h
    · exact hs.sock fd c' h
  · rw [hfree] at h
    split at h
    · cases h
    · obtain ⟨he, hu⟩ := hs.free key fd c' h
      exact ⟨hentry he ‹_›, hu⟩
  · rw [hbusy] at h
    split at h
    · cases h
    · exact hentry (hs.busy key fd c' h) ‹_›
  · simp only [hfree, hbusy]
    split
    · exact .inl rfl
    · exact hs.apart key fd
  · -- The others keep their places in the tables.
    obtain ⟨ho', hne⟩ := hopen.1 ho
    simp only [hfree, hbusy]
    rw [if_neg fun h => hne (Open.inj ho' hc h.2.2), if_neg fun h => hne (Open.inj ho' hc h.2.2)]
    exact hs.cached c' hc' ho'
  · have hu := hs.calls i c' h
    refine ⟨hu.lt, hu.root, hu.cached, fun h' => hopen.2 ⟨hu.isOpen h', ?_⟩, hu.written⟩
    rintro rfl
    -- A call whose connection is closed under it can no longer go on.
    obtain ⟨hw, hr⟩ := hdead i h
    rcases h' with h' | h'
    · exact absurd (hw.symm.trans h') (by simp)
    · exact hr h'
  · -- With `leaveFin`, the finalizers have been emptied by `clean`.
    obtain ⟨hm, hne⟩ := hmem h
    obtain ⟨ho, hr⟩ := hs.fin root c' hm
    exact ⟨hopen.2 ⟨ho, hne⟩, hr⟩
  · rw [hfins]
    cases leaveFin with
    | true => exact hs.nodup root
    | false =>
      simp only [Bool.false_eq_true, if_false, Function.update_apply]
      split
      · exact (hs.nodup _).erase c
      · exact hs.nodup root

/-- `http` closes a connection nobody uses any more. -/
theorem Inv.close (hs : s.Inv) (hc : s.Open c) (hu : s.Unused c) : (s.closeConn c false).Inv := by
  refine hs.closeConn hc (fun i hi => absurd hi (hu i)) fun h => ?_
  cases h

/-- Closing a connection leaves the sessions, and the other open connections, alone. -/
theorem closeConn_open (hc : s.Open c) (leaveFin : Bool) :
    (s.closeConn c leaveFin).session = s.session ∧ (s.closeConn c leaveFin).conn = s.conn ∧
      (leaveFin = true → (s.closeConn c leaveFin).finalizers = s.finalizers) ∧
      ∀ c', s.Open c' → c' ≠ c → (s.closeConn c leaveFin).Open c' := by
  obtain ⟨free, busy, finalizers, heq, -, -, hfins⟩ := closeConn_eq hc leaveFin
  rw [heq]
  refine ⟨rfl, rfl, fun h => ?_, fun c' ho hne => ?_⟩
  · exact hfins.trans (if_pos h)
  · change Function.update s.fds (s.conn c).fd none (s.conn c').fd = _
    rw [Function.update_of_ne fun h => hne (Open.inj ho hc h)]
    exact ho

/-- The connections of a family that nobody will go on to use are closed. -/
theorem Inv.closeAll (root : Nat) (cs : List Nat) (hs : s.Inv) (hnd : cs.Nodup)
    (hcs : ∀ c ∈ cs, s.Open c ∧ (s.conn c).root = root ∧ ∀ r, c ∉ s.finalizers r)
    (hdead : ∀ i, (s.session i).root = root → (s.session i).watching = false)
    (hreq : ∀ i c, (s.session i).http ≠ .request c) :
    (cs.foldl (fun s c => s.closeConn c true) s).Inv := by
  induction cs generalizing s with
  | nil => exact hs
  | cons c cs ih =>
    obtain ⟨hc, hroot, hfin⟩ := hcs c List.mem_cons_self
    obtain ⟨hsess, hconn, hfins, hopen⟩ := closeConn_open hc true
    rw [List.nodup_cons] at hnd
    refine ih (hs.closeConn hc (fun i hi => ⟨hdead i ?_, hreq i c⟩) fun _ => hfin) hnd.2
      (fun c' hc' => ?_) ?_ ?_
    · exact (hs.calls i c hi).root.symm.trans hroot
    · obtain ⟨ho, hr, hf⟩ := hcs c' (List.mem_cons_of_mem _ hc')
      refine ⟨hopen c' ho fun h => hnd.1 (h ▸ hc'), ?_, ?_⟩
      · rw [hconn]
        exact hr
      · rw [hfins rfl]
        exact hf
    · rw [hsess]
      exact hdead
    · rw [hsess]
      exact hreq

/-- A session may lose its watcher. -/
theorem Using.lose {i : Nat} (h : s.Using i c) (hfds : s'.fds = s.fds) (hconn : s'.conn = s.conn)
    (hnext : s'.nextConn = s.nextConn) (hroot : (s'.session i).root = (s.session i).root)
    (hhttp : (s'.session i).http = (s.session i).http)
    (hw : (s'.session i).watching = true → (s.session i).watching = true) : s'.Using i c := by
  have hopen : s'.Open c ↔ s.Open c := by rw [Open, hfds, hconn]; rfl
  refine ⟨?_, ?_, ?_, fun h' => hopen.2 (h.isOpen (h'.imp hw fun h' => hhttp ▸ h')), ?_⟩
  · rw [hnext]
    exact h.lt
  · rw [hconn, hroot]
    exact h.root
  · rw [hconn, hhttp]
    exact h.cached
  · rw [hconn, hhttp]
    exact h.written

/-- Some finalizers are forgotten. -/
theorem Inv.forget (hs : s.Inv) (finalizers : Nat → List Nat)
    (hsub : ∀ root, finalizers root ⊆ s.finalizers root)
    (hnd : ∀ root, (finalizers root).Nodup) : Inv { s with finalizers } where
  sock := hs.sock
  free key fd c h := by
    obtain ⟨he, hu⟩ := hs.free key fd c h
    exact ⟨⟨he.cached, he.key, he.fd, he.isOpen⟩, hu⟩
  busy key fd c h := by
    have he := hs.busy key fd c h
    exact ⟨he.cached, he.key, he.fd, he.isOpen⟩
  apart := hs.apart
  cached := hs.cached
  calls i c h := (hs.calls i c h).congr rfl rfl rfl rfl
  unique := hs.unique
  fin root c h := hs.fin root c (hsub root h)
  nodup := hnd
  ctl := hs.ctl

/-- The coroutine of the running session has ended. -/
theorem Inv.ended (hs : s.Inv) (hid : s.current = some id) : (s.ended id).Inv := by
  obtain ⟨hctl, hout⟩ := current_eq_some.1 hid
  refine hs.resched _ fun i c h => ?_
  obtain rfl := Option.some.inj (hctl.symm.trans (hs.ctl i c h))
  rw [hout] at h
  cases h

/-- A session is registered: it is in no call. -/
theorem Inv.register (hs : s.Inv) (root : Nat) : (s.register root).Inv := by
  refine hs.sessions rfl rfl rfl rfl rfl rfl (fun i c hi => ?_) fun i c hi => ?_
  · simp only [Pool.register, Function.update_apply] at hi
    split at hi
    · cases hi
    · exact ⟨hi, (hs.calls i c hi).congr rfl rfl rfl (Function.update_of_ne ‹_› _ _)⟩
  · simp only [Pool.register, Function.update_apply] at hi
    split at hi
    · cases hi
    · exact hs.ctl i c hi

theorem Inv.registerChildren (hs : s.Inv) (hctl : s.ctl = some id)
    (hne : ∀ c, (s.session id).http ≠ .request c) (root n : Nat) :
    (s.registerChildren root n).Inv ∧ (s.registerChildren root n).ctl = some id ∧
      ∀ c, ((s.registerChildren root n).session id).http ≠ .request c := by
  induction n generalizing s with
  | zero => exact ⟨hs, hctl, hne⟩
  | succ n ih =>
    refine ih (hs.register root) hctl fun c hc => ?_
    simp only [Pool.register, Function.update_apply] at hc
    split at hc
    · cases hc
    · exact hne c hc

theorem http_flag (s : Pool) (id i : Nat) :
    ((s.flag id).session i).http = (s.session i).http ∧
      ((s.flag id).session i).root = (s.session i).root ∧
      ((s.flag id).session i).watching = (s.session i).watching := by
  simp only [Pool.flag, Function.update_apply]
  split
  · subst i
    exact ⟨rfl, rfl, rfl⟩
  · exact ⟨rfl, rfl, rfl⟩

theorem Inv.unwatch (hs : s.Inv) (root : Nat) : (s.unwatch root).Inv := by
  have hsess i : ((s.unwatch root).session i).http = (s.session i).http ∧
      ((s.unwatch root).session i).root = (s.session i).root ∧
      (((s.unwatch root).session i).watching = true → (s.session i).watching = true) := by
    simp only [Pool.unwatch]
    split
    · exact ⟨rfl, rfl, fun h => by cases h⟩
    · exact ⟨rfl, rfl, id⟩
  refine hs.sessions rfl rfl rfl rfl rfl rfl (fun i c h => ?_) fun i c h => ?_
  · rw [(hsess i).1] at h
    exact ⟨h, (hs.calls i c h).lose rfl rfl rfl (hsess i).2.1 (hsess i).1 (hsess i).2.2⟩
  · rw [(hsess i).1] at h
    exact hs.ctl i c h

/-- A session that is told to shut down stays where it is. -/
theorem Inv.flag (hs : s.Inv) (id : Nat) : (s.flag id).Inv := by
  refine hs.sessions rfl rfl rfl rfl rfl rfl (fun i c h => ?_) fun i c h => ?_
  · obtain ⟨hhttp, hroot, hw⟩ := http_flag s id i
    rw [hhttp] at h
    exact ⟨h, (hs.calls i c h).lose rfl rfl rfl hroot hhttp fun h => hw ▸ h⟩
  · rw [(http_flag s id i).1] at h
    exact hs.ctl i c h

theorem Inv.clean (hs : s.Inv) (hctl : s.ctl = none) {root : Nat} {cs : List Nat}
    (hcs : cs.Perm (s.finalizers root)) : (s.clean root cs).Inv := by
  have hsub r : Function.update s.finalizers root [] r ⊆ s.finalizers r := by
    rw [Function.update_apply]
    split
    · exact List.nil_subset _
    · exact List.Subset.refl _
  have hnd r : (Function.update s.finalizers root [] r).Nodup := by
    rw [Function.update_apply]
    split
    · exact List.nodup_nil
    · exact hs.nodup r
  have hI := (hs.unwatch root).forget (Function.update s.finalizers root []) hsub hnd
  refine hI.closeAll root cs (hcs.nodup_iff.2 (hs.nodup root)) (fun c hc => ?_) (fun i hi => ?_)
    fun i c h => ?_
  · obtain ⟨ho, hr⟩ := hs.fin root c (hcs.mem_iff.1 hc)
    refine ⟨ho, hr, fun r h => ?_⟩
    simp only [Function.update_apply] at h
    split at h
    · exact absurd h List.not_mem_nil
    · exact absurd ((hs.fin r c h).2.symm.trans hr) ‹_›
  · simp only [Pool.unwatch] at hi ⊢
    split at hi
    · rw [if_pos ‹_›]
    · exact absurd hi ‹_›
  · have := hI.ctl i c h
    rw [show s.ctl = some i from this] at hctl
    cases hctl

/-! ## Opening -/

/-- A new connection: it is the only one at its file descriptor, and nobody knows it yet. -/
theorem Inv.openConn (hs : s.Inv) (hid : s.current = some id) {hkey : String} {fd : Nat}
    (hfd : s.fds fd = none) : (s.openConn id hkey fd).Inv := by
  obtain ⟨hctl, hout⟩ := current_eq_some.1 hid
  have hnew : (s.openConn id hkey fd).conn s.nextConn =
      ⟨(s.session id).root, hkey, fd, false, 0, 0⟩ := Function.update_self _ _ _
  have hold {c} (hc : c < s.nextConn) : (s.openConn id hkey fd).conn c = s.conn c :=
    Function.update_of_ne (Nat.ne_of_lt hc) _ _
  have hlt {c} (ho : s.Open c) : c < s.nextConn := (hs.sock _ c ho).1
  have hopen {c} (ho : s.Open c) : (s.openConn id hkey fd).Open c := by
    have hne : (s.conn c).fd ≠ fd := fun h => by
      rw [Open, h, hfd] at ho
      cases ho
    rw [Open, hold (hlt ho)]
    exact (Function.update_of_ne hne _ _).trans ho
  have hopenNew : (s.openConn id hkey fd).Open s.nextConn := by
    rw [Open, hnew]
    exact Function.update_self _ _ _
  have hentry {key fd' c} (he : s.Entry key fd' c) : (s.openConn id hkey fd).Entry key fd' c := by
    have hc := hold (hlt he.isOpen)
    exact ⟨hc ▸ he.cached, hc ▸ he.key, hc ▸ he.fd, hopen he.isOpen⟩
  have hsess {i} (hi : i ≠ id) : (s.openConn id hkey fd).session i = s.session i :=
    Function.update_of_ne hi _ _
  have hself : (s.openConn id hkey fd).session id =
      { s.session id with http := .connect s.nextConn, watching := true } :=
    Function.update_self _ _ _
  -- A call of `http` is the one that opens the connection, or was under way.
  have hcall {i c} (h : ((s.openConn id hkey fd).session i).http.conn = some c) :
      (i = id ∧ c = s.nextConn) ∨ (i ≠ id ∧ (s.session i).http.conn = some c) := by
    by_cases hi : i = id
    · rw [hi, hself] at h
      exact .inl ⟨hi, (Option.some.inj h).symm⟩
    · rw [hsess hi] at h
      exact .inr ⟨hi, h⟩
  refine ⟨fun fd' c h => ?_, fun key fd' c h => ?_, fun key fd' c h => ?_, hs.apart,
    fun c hc ho => ?_, fun i c h => ?_, fun i j c hi hj => ?_, fun root c h => ?_, fun root => ?_,
    fun i c h => ?_⟩
  · -- The socket is the new one, or was there before.
    by_cases hf : fd' = fd
    · have h' : (s.openConn id hkey fd).fds fd' = some (.conn s.nextConn) := by
        rw [hf]
        exact Function.update_self _ _ _
      obtain rfl : s.nextConn = c := Sock.conn.inj (Option.some.inj (h'.symm.trans h))
      rw [hnew]
      exact ⟨Nat.lt_succ_self _, hf.symm⟩
    · obtain ⟨hc, hc'⟩ := hs.sock fd' c ((Function.update_of_ne hf _ _).symm.trans h)
      rw [hold hc]
      exact ⟨Nat.lt_succ_of_lt hc, hc'⟩
  · -- What is free has been opened before, and nobody uses it.
    obtain ⟨he, hu, hw⟩ := hs.free key fd' c h
    refine ⟨hentry he, fun i hi => ?_, ?_⟩
    · rcases hcall hi with ⟨-, rfl⟩ | ⟨-, hi⟩
      · exact lt_irrefl _ (hlt he.isOpen)
      · exact hu i hi
    · rw [hold (hlt he.isOpen)]
      exact hw
  · exact hentry (hs.busy key fd' c h)
  · -- The new connection is not in the cache yet.
    by_cases hcn : c = s.nextConn
    · rw [hcn, hnew] at hc
      cases hc
    · have heq : (s.openConn id hkey fd).conn c = s.conn c := Function.update_of_ne hcn _ _
      rw [heq] at hc ⊢
      refine hs.cached c hc ?_
      rw [Open, heq] at ho
      by_cases hf : (s.conn c).fd = fd
      · have h' : (s.openConn id hkey fd).fds (s.conn c).fd = some (.conn s.nextConn) := by
          rw [hf]
          exact Function.update_self _ _ _
        exact absurd (Sock.conn.inj (Option.some.inj (ho.symm.trans h'))) hcn
      · exact (Function.update_of_ne hf _ _).symm.trans ho
  · -- The call that opens it has its watcher.
    rcases hcall h with ⟨rfl, rfl⟩ | ⟨hi, h⟩
    · refine ⟨Nat.lt_succ_self _, ?_, ?_, fun _ => hopenNew, ?_⟩ <;> rw [hnew, hself] <;> simp
    · have hu := hs.calls i c h
      refine ⟨Nat.lt_succ_of_lt hu.lt, ?_, ?_, fun h' => hopen (hu.isOpen (hsess hi ▸ h')), ?_⟩
      all_goals rw [hold hu.lt, hsess hi]
      · exact hu.root
      · exact hu.cached
      · exact hu.written
  · -- No call under way uses a connection with the new number.
    rcases hcall hi with ⟨rfl, hc⟩ | ⟨-, hi'⟩ <;> rcases hcall hj with ⟨rfl, hc'⟩ | ⟨-, hj'⟩
    · rfl
    · exact absurd (hs.calls j c hj').lt (by omega)
    · exact absurd (hs.calls i c hi').lt (by omega)
    · exact hs.unique i j c hi' hj'
  · -- The finalizer of the new connection is the last one of the family.
    have hmem : c ∈ s.finalizers root ∨ (c = s.nextConn ∧ root = (s.session id).root) := by
      by_cases hr : root = (s.session id).root
      · have h' : (s.openConn id hkey fd).finalizers root = s.finalizers root ++ [s.nextConn] := by
          rw [hr]
          exact Function.update_self _ _ _
        rw [h', List.mem_append, List.mem_singleton] at h
        exact h.imp_right fun h => ⟨h, hr⟩
      · exact .inl ((Function.update_of_ne hr _ _ : (s.openConn id hkey fd).finalizers root = _) ▸ h)
    rcases hmem with h | ⟨rfl, rfl⟩
    · obtain ⟨ho, hr⟩ := hs.fin root c h
      rw [hold (hlt ho)]
      exact ⟨hopen ho, hr⟩
    · rw [hnew]
      exact ⟨hopenNew, rfl⟩
  · change (Function.update s.finalizers (s.session id).root _ root).Nodup
    rw [Function.update_apply]
    split
    · refine List.nodup_append.2 ⟨hs.nodup _, List.nodup_singleton _, fun a ha b hb hab => ?_⟩
      rw [List.mem_singleton] at hb
      exact absurd (hlt (hs.fin _ a ha).1) (by omega)
    · exact hs.nodup root
  · by_cases hi : i = id
    · rw [hi, hself] at h
      cases h
    · rw [hsess hi] at h
      exact absurd h (hs.not_request hctl hi)

/-- An established connection is put in the cache. -/
theorem Inv.cache (hs : s.Inv) (ho : s.Open c) (hu : s.Unused c)
    (hcached : (s.conn c).cached = false) (hw : (s.conn c).written = (s.conn c).read) :
    (s.cache c).Inv := by
  have hconn c' : (s.cache c).conn c' =
      if c' = c then { s.conn c with cached := true } else s.conn c' := Function.update_apply _ _ _ _
  have hfd c' : ((s.cache c).conn c').fd = (s.conn c').fd ∧
      ((s.cache c).conn c').key = (s.conn c').key ∧
      ((s.cache c).conn c').root = (s.conn c').root ∧
      ((s.cache c).conn c').written = (s.conn c').written ∧
      ((s.cache c).conn c').read = (s.conn c').read := by
    rw [hconn]
    split
    · subst ‹c' = c›
      exact ⟨rfl, rfl, rfl, rfl, rfl⟩
    · exact ⟨rfl, rfl, rfl, rfl, rfl⟩
  have hopen c' : (s.cache c).Open c' ↔ s.Open c' := by
    rw [Open, (hfd c').1]
    rfl
  have hfree key fd : ((s.cache c).free key).lookup fd =
      if key = (s.conn c).key ∧ fd = (s.conn c).fd then some c else (s.free key).lookup fd :=
    lookup_update_assign s.free _ key _ fd (some c)
  have hentry {key fd c'} (he : s.Entry key fd c') : (s.cache c).Entry key fd c' := by
    obtain ⟨hf, hk, -⟩ := hfd c'
    refine ⟨?_, hk.trans he.key, hf.trans he.fd, (hopen c').2 he.isOpen⟩
    rw [hconn]
    split
    · rfl
    · exact he.cached
  -- The tables have no entry at the file descriptor of a connection that is not in the cache.
  have hnone {key fd c'} (he : s.Entry key fd c') (h : fd = (s.conn c).fd) : False := by
    obtain rfl := Open.inj he.isOpen ho (he.fd.trans h)
    have h' := he.cached
    rw [hcached] at h'
    cases h'
  refine ⟨fun fd c' h => ?_, fun key fd c' h => ?_, fun key fd c' h => ?_, fun key fd => ?_,
    fun c' hc' ho' => ?_, fun i c' h => ?_, hs.unique, fun root c' h => ?_, hs.nodup, hs.ctl⟩
  · rw [(hfd c').1]
    exact hs.sock fd c' h
  · rw [hfree] at h
    split at h
    · rename_i hplace
      obtain rfl := Option.some.inj h
      -- The new entry: nothing has been written to the connection that is left to be read.
      obtain ⟨hf, hk, -, hw', hr'⟩ := hfd c
      refine ⟨⟨?_, ?_, ?_, (hopen c).2 ho⟩, hu, hw'.trans (hw.trans hr'.symm)⟩
      · rw [hconn, if_pos rfl]
      · exact hk.trans hplace.1.symm
      · exact hf.trans hplace.2.symm
    · obtain ⟨he, hu', hw'⟩ := hs.free key fd c' h
      obtain ⟨-, -, -, hwr, hrd⟩ := hfd c'
      exact ⟨hentry he, hu', hwr.trans (hw'.trans hrd.symm)⟩
  · exact hentry (hs.busy key fd c' h)
  · rw [hfree]
    split
    · refine .inr (Option.eq_none_iff_forall_ne_some.2 fun c' h => ?_)
      exact hnone (hs.busy key fd c' h) ‹_ ∧ _›.2
    · exact hs.apart key fd
  · obtain ⟨hf, hk, -⟩ := hfd c'
    rw [hf, hk]
    change ((s.cache c).free _).lookup _ = _ ∨ (s.busy _).lookup _ = _
    rw [hfree]
    split
    · rename_i hplace
      rw [Open.inj ho ((hopen c').1 ho') hplace.2.symm]
      exact .inl rfl
    · rename_i hplace
      refine hs.cached c' ?_ ((hopen c').1 ho')
      rw [hconn, if_neg fun h : c' = c => hplace ⟨by rw [h], by rw [h]⟩] at hc'
      exact hc'
  · -- The calls under way use other connections.
    have hne : c' ≠ c := fun h' => hu i (h' ▸ h)
    have huse := hs.calls i c' h
    obtain ⟨-, -, hr, hw', hrd⟩ := hfd c'
    refine ⟨huse.lt, hr.trans huse.root, ?_, fun h' => (hopen c').2 (huse.isOpen h'), ?_⟩
    · rw [hconn, if_neg hne]
      exact huse.cached
    · rw [hw', hrd]
      exact huse.written
  · obtain ⟨ho', hr⟩ := hs.fin root c' h
    exact ⟨(hopen c').2 ho', (hfd c').2.2.1.trans hr⟩

/-- What is counted of a connection nobody uses and that is not free is no matter. -/
theorem Inv.count (hs : s.Inv) (hu : s.Unused c)
    (hfree : ∀ key fd, (s.free key).lookup fd ≠ some c) (written read : Nat) :
    (s.count c written read).Inv := by
  have hconn c' : (s.count c written read).conn c' =
      if c' = c then { s.conn c with written, read } else s.conn c' := Function.update_apply _ _ _ _
  have hfd c' : ((s.count c written read).conn c').fd = (s.conn c').fd ∧
      ((s.count c written read).conn c').key = (s.conn c').key ∧
      ((s.count c written read).conn c').root = (s.conn c').root ∧
      ((s.count c written read).conn c').cached = (s.conn c').cached := by
    rw [hconn]
    split
    · subst ‹c' = c›
      exact ⟨rfl, rfl, rfl, rfl⟩
    · exact ⟨rfl, rfl, rfl, rfl⟩
  have hopen c' : (s.count c written read).Open c' ↔ s.Open c' := by
    rw [Open, (hfd c').1]
    rfl
  have hentry {key fd c'} (he : s.Entry key fd c') : (s.count c written read).Entry key fd c' := by
    obtain ⟨hf, hk, -, hc⟩ := hfd c'
    exact ⟨hc.trans he.cached, hk.trans he.key, hf.trans he.fd, (hopen c').2 he.isOpen⟩
  refine ⟨fun fd c' h => ?_, fun key fd c' h => ?_, fun key fd c' h => hentry (hs.busy key fd c' h),
    hs.apart, fun c' hc' ho => ?_, fun i c' h => ?_, hs.unique, fun root c' h => ?_, hs.nodup,
    hs.ctl⟩
  · rw [(hfd c').1]
    exact hs.sock fd c' h
  · -- The free connections are others.
    obtain ⟨he, hu', hw⟩ := hs.free key fd c' h
    refine ⟨hentry he, hu', ?_⟩
    rw [hconn, if_neg fun h' : c' = c => hfree key fd (h' ▸ h)]
    exact hw
  · obtain ⟨hf, hk, -, hc⟩ := hfd c'
    rw [hf, hk]
    exact hs.cached c' (hc.symm.trans hc') ((hopen c').1 ho)
  · -- So are those the calls use.
    have hne : c' ≠ c := fun h' => hu i (h' ▸ h)
    have huse := hs.calls i c' h
    obtain ⟨-, -, hr, hc⟩ := hfd c'
    refine ⟨huse.lt, hr.trans huse.root, ?_, fun h' => (hopen c').2 (huse.isOpen h'), ?_⟩
    · rw [hc]
      exact huse.cached
    · rw [hconn, if_neg hne]
      exact huse.written
  · obtain ⟨ho, hr⟩ := hs.fin root c' h
    exact ⟨(hopen c').2 ho, (hfd c').2.2.1.trans hr⟩

/-- Other file descriptors are opened and closed. -/
theorem Inv.other (hs : s.Inv) {fd : Nat} {sock : Option Sock}
    (hfd : ∀ c, s.fds fd ≠ some (.conn c)) (hsock : ∀ c, sock ≠ some (.conn c)) :
    Inv { s with fds := Function.update s.fds fd sock } := by
  have hfds {fd' c} : Function.update s.fds fd sock fd' = some (.conn c) ↔
      s.fds fd' = some (.conn c) := by
    rw [Function.update_apply]
    split
    · subst ‹fd' = fd›
      exact iff_of_false (hsock c) (hfd c)
    · rfl
  have hentry {key fd' c} (he : s.Entry key fd' c) :
      Entry { s with fds := Function.update s.fds fd sock } key fd' c :=
    ⟨he.cached, he.key, he.fd, hfds.2 he.isOpen⟩
  refine ⟨fun fd' c h => hs.sock fd' c (hfds.1 h), fun key fd' c h => ?_,
    fun key fd' c h => hentry (hs.busy key fd' c h), hs.apart,
    fun c hc ho => hs.cached c hc (hfds.1 ho), fun i c h => ?_, hs.unique, fun root c h => ?_,
    hs.nodup, hs.ctl⟩
  · obtain ⟨he, hu⟩ := hs.free key fd' c h
    exact ⟨hentry he, hu⟩
  · have hu := hs.calls i c h
    exact ⟨hu.lt, hu.root, hu.cached, fun h' => hfds.2 (hu.isOpen h'), hu.written⟩
  · obtain ⟨ho, hr⟩ := hs.fin root c h
    exact ⟨hfds.2 ho, hr⟩

/-! ## The steps -/

/-- A call goes from one operation to another. -/
theorem Inv.move (hs : s.Inv) (hctl : s.ctl = some id)
    (hc : (s.session id).http.conn = some c) (hsess : ∀ i, i ≠ id → s'.session i = s.session i)
    (hc' : (s'.session id).http.conn = some c) (huse : s'.Using id c)
    (hreq : ∀ c, (s'.session id).http = .request c → s'.ctl = some id) (hfds : s'.fds = s.fds)
    (hconn : s'.conn = s.conn) (hnext : s'.nextConn = s.nextConn) (hfree : s'.free = s.free)
    (hbusy : s'.busy = s.busy) (hfin : s'.finalizers = s.finalizers) : s'.Inv := by
  refine hs.sessions hfds hconn hnext hfree hbusy hfin (fun i c' h => ?_) fun i c' h => ?_
  · by_cases hi : i = id
    · rw [hi] at h ⊢
      obtain rfl := Option.some.inj (hc'.symm.trans h)
      exact ⟨hc, huse⟩
    · rw [hsess i hi] at h
      exact ⟨h, (hs.calls i c' h).congr hfds hconn hnext (hsess i hi)⟩
  · by_cases hi : i = id
    · exact hi ▸ hreq c' (hi ▸ h)
    · rw [hsess i hi] at h
      exact absurd h (hs.not_request hctl hi)

/-- The connection of a call that ends is used by nobody. -/
theorem Inv.unused_leave (hs : s.Inv) (hc : (s.session id).http.conn = some c) :
    (s.goOn id .out).Unused c := fun i h => by
  rw [session_goOn] at h
  split at h
  · cases h
  · exact absurd (hs.unique i id c h hc) ‹_›

/-- A busy connection is not free. -/
theorem Inv.not_free (hs : s.Inv)
    (hc : (s.busy (s.conn c).key).lookup (s.conn c).fd = some c) (key : Nat × String) (fd : Nat) :
    (s.free key).lookup fd ≠ some c := fun h => by
  obtain ⟨he, -⟩ := hs.free key fd c h
  have hk := he.key
  have hf := he.fd
  rw [hk, hf] at hc
  rcases hs.apart key fd with h' | h'
  · rw [h] at h'
    cases h'
  · rw [hc] at h'
    cases h'

/-- The connection of a call that has one of the cache is busy. -/
theorem Inv.busy_of_using (hs : s.Inv) (hc : (s.session id).http.conn = some c)
    (hne : (s.session id).http ≠ .connect c) (ho : s.Open c) :
    (s.busy (s.conn c).key).lookup (s.conn c).fd = some c := by
  have hu := hs.calls id c hc
  refine (hs.cached c (hu.cached.2 hne) ho).resolve_left fun h => ?_
  exact (hs.free _ _ c h).2.1 id hc

/-- The running session has marked a connection busy. -/
theorem Inv.request (hs : s.Inv) (hctl : s.ctl = some id) (hout : (s.session id).http = .out)
    (hu : s.Unused c) (hbusy : (s.busy (s.conn c).key).lookup (s.conn c).fd = some c)
    (hroot : (s.conn c).root = (s.session id).root)
    (hw : (s.conn c).written = (s.conn c).read) : (s.goOn id (.request c)).Inv := by
  have he := hs.busy _ _ c hbusy
  have hself : (s.goOn id (.request c)).session id =
      { s.session id with http := .request c, watching := false } := Function.update_self _ _ _
  refine hs.enter hctl hu (hs.not_free hbusy) hout (fun i hi => Function.update_of_ne hi _ _)
    ?_ ⟨?_, ?_, ?_, fun _ => he.isOpen, ?_⟩ (fun _ _ => hctl) rfl rfl rfl rfl rfl rfl
  · rw [hself]
    rfl
  · exact (hs.sock _ c he.isOpen).1
  · rw [hself]
    exact hroot
  · rw [hself]
    exact iff_of_true he.cached (by simp)
  · rw [hself]
    exact hw

/-- The connection of a session that waits for an event is open, and would be used by nobody
    if the session went on. -/
theorem Inv.waiting (hs : s.Inv) {http : Http} (hw : s.waiting id = some http)
    (hc : http.conn = some c) :
    s.Using id c ∧ s.Open c ∧ (s.goOn id .out).Inv ∧ (s.goOn id .out).Unused c := by
  obtain ⟨hctl, ⟨-, hwatch⟩, rfl⟩ := waiting_eq_some.1 hw
  have huse := hs.calls id c hc
  exact ⟨huse, huse.isOpen (.inl hwatch), hs.leave hctl, hs.unused_leave hc⟩

/-- A free connection is used again. -/
theorem Inv.reuse (hs : s.Inv) (hid : s.current = some id) {hkey : String} {fd : Nat}
    (hc : (s.free ((s.session id).root, hkey)).lookup fd = some c) :
    ((s.markBusy c).goOn id (.request c)).Inv := by
  obtain ⟨hctl, hout⟩ := current_eq_some.1 hid
  obtain ⟨he, hu, hw⟩ := hs.free _ fd c hc
  have hkey := he.key
  have hplace : (s.free (s.conn c).key).lookup (s.conn c).fd = some c := by
    rw [hkey, he.fd]
    exact hc
  refine (hs.markBusy hplace).request hctl hout hu ?_ (congrArg Prod.fst hkey) hw
  exact (lookup_update_assign s.busy _ _ _ _ _).trans ((if_pos ⟨rfl, rfl⟩).trans hplace)

/-- A connection has been established, and is used. -/
theorem Inv.connected (hs : s.Inv) (hw : s.waiting id = some (.connect c)) :
    ((((s.goOn id .out).cache c).markBusy c).goOn id (.request c)).Inv := by
  have hhttp := (waiting_eq_some.1 hw).2.2
  obtain ⟨huse, ho, hleave, hu⟩ := hs.waiting hw rfl
  have hcached : (s.conn c).cached = false :=
    Bool.eq_false_iff.2 fun h => huse.cached.1 h hhttp
  have hwr : (s.conn c).written = (s.conn c).read := by
    rw [huse.written, hhttp]
    simp
  have h₂ := hleave.cache ho hu hcached hwr
  have hself : ((s.goOn id .out).cache c).conn c = { s.conn c with cached := true } :=
    Function.update_self _ _ _
  have hplace : (((s.goOn id .out).cache c).free (((s.goOn id .out).cache c).conn c).key).lookup
      (((s.goOn id .out).cache c).conn c).fd = some c := by
    rw [hself]
    exact (lookup_update_assign s.free _ _ _ _ (some c)).trans (if_pos ⟨rfl, rfl⟩)
  have hid : ((s.goOn id .out).session id).http = .out ∧
      ((s.goOn id .out).session id).root = (s.session id).root := by
    rw [session_goOn, if_pos rfl]
    exact ⟨rfl, rfl⟩
  refine (h₂.markBusy hplace).request (waiting_eq_some.1 hw).1 hid.1 hu ?_ ?_ ?_
  · exact (lookup_update_assign _ _ _ _ _ _).trans ((if_pos ⟨rfl, rfl⟩).trans hplace)
  · exact (congrArg Conn.root hself).trans (huse.root.trans hid.2.symm)
  · exact (congrArg Conn.written hself).trans (hwr.trans (congrArg Conn.read hself).symm)

/-- The request has been sent, and the response is waited for. -/
theorem Inv.sent (hs : s.Inv) (hctl : s.ctl = some id) (hhttp : (s.session id).http = .request c) :
    (((s.goOn id .out).write (s.conn c).fd).wait id (.receive c)).Inv := by
  have hc : (s.session id).http.conn = some c := by rw [hhttp]; rfl
  have huse := hs.calls id c hc
  have ho := huse.isOpen (.inr hhttp)
  have hbusy := hs.busy_of_using hc (by simp [hhttp]) ho
  have hu := hs.unused_leave hc
  have hnot : ∀ key fd, ((s.goOn id .out).free key).lookup fd ≠ some c := hs.not_free hbusy
  -- The request is written to the connection itself, whose file descriptor has not been reused.
  have hwrite : (s.goOn id .out).write (s.conn c).fd =
      (s.goOn id .out).count c ((s.conn c).written + 1) (s.conn c).read := by
    unfold write
    rw [show (s.goOn id .out).fds (s.conn c).fd = some (.conn c) from ho]
    rfl
  have h₂ := (hs.leave hctl).count hu hnot ((s.conn c).written + 1) (s.conn c).read
  have hself : ((s.goOn id .out).count c ((s.conn c).written + 1) (s.conn c).read).conn c =
      { s.conn c with written := (s.conn c).written + 1 } := Function.update_self _ _ _
  have hid : (s.goOn id .out).session id = { s.session id with http := .out, watching := false } :=
    Function.update_self _ _ _
  rw [hwrite]
  generalize hs₂ : (s.goOn id .out).count c ((s.conn c).written + 1) (s.conn c).read = s₂
    at h₂ hself
  have hsess : s₂.session = (s.goOn id .out).session := by rw [← hs₂]; rfl
  have hwait : (s₂.wait id (.receive c)).session id =
      { s₂.session id with http := .receive c, watching := true } := Function.update_self _ _ _
  have hout : (s₂.session id).http = .out := by rw [hsess, hid]
  have hctl₂ : s₂.ctl = some id := by
    rw [← hs₂]
    exact hctl
  -- The call goes on with the same connection, waiting for one response.
  refine h₂.enter (c := c) hctl₂ ?_ ?_ hout
    (fun i hi => Function.update_of_ne hi _ _) ?_ ⟨?_, ?_, ?_, fun _ => ?_, ?_⟩ ?_ rfl rfl rfl rfl
    rfl rfl
  · rw [Unused, hsess]
    exact hu
  · rw [← hs₂]
    exact hnot
  · rw [hwait]
    rfl
  · rw [← hs₂]
    exact huse.lt
  · rw [hwait, hsess, hid]
    exact (congrArg Conn.root hself).trans huse.root
  · rw [hwait]
    exact iff_of_true ((congrArg Conn.cached hself).trans (huse.cached.2 (by simp [hhttp])))
      (by simp)
  · change s₂.fds (s₂.conn c).fd = _
    rw [hself, ← hs₂]
    exact ho
  · rw [hwait]
    change (s₂.conn c).written = (s₂.conn c).read + _
    rw [hself]
    simp [huse.written, hhttp]
  · rw [hwait]
    exact fun c h => by cases h

/-- A complete response has been read, and the connection is used by nobody. -/
theorem Inv.readDone (hs : s.Inv) (hw : s.waiting id = some (.receive c)) :
    ∃ s₂, (s.goOn id .out).read (s.conn c).fd = s₂ ∧ s₂.Inv ∧ s₂.Unused c ∧ s₂.Open c ∧
      (s₂.conn c).written = (s₂.conn c).read ∧
      (s₂.busy (s₂.conn c).key).lookup (s₂.conn c).fd = some c := by
  have hhttp := (waiting_eq_some.1 hw).2.2
  obtain ⟨huse, ho, hleave, hu⟩ := hs.waiting hw rfl
  have hbusy := hs.busy_of_using (by rw [hhttp]; rfl) (by simp [hhttp]) ho
  have hread : (s.goOn id .out).read (s.conn c).fd =
      (s.goOn id .out).count c (s.conn c).written ((s.conn c).read + 1) := by
    unfold read
    rw [show (s.goOn id .out).fds (s.conn c).fd = some (.conn c) from ho]
    rfl
  have hself : ((s.goOn id .out).count c (s.conn c).written ((s.conn c).read + 1)).conn c =
      { s.conn c with read := (s.conn c).read + 1 } := Function.update_self _ _ _
  refine ⟨_, hread, hleave.count hu (hs.not_free hbusy) _ _, hu, ?_, ?_, ?_⟩
  · rw [Open, hself]
    exact ho
  · rw [hself]
    simp [huse.written, hhttp]
  · rw [hself]
    exact hbusy

/-- `receive` has ended, and the rest of `http` is run. -/
theorem Inv.receive (hs : s.Inv) (hw : s.waiting id = some (.receive c)) (out : ReceiveOutcome) :
    (s.receive id c out).Inv := by
  obtain ⟨s₂, hread, h₂, hu, ho, hwr, hbusy⟩ := hs.readDone hw
  cases out with
  | done keepalive =>
    have h₃ := h₂.markFree hu hwr hbusy
    simp only [Pool.receive, hread]
    split
    · exact h₃
    · exact h₃.close ho hu
  | raised =>
    simp only [Pool.receive, hread]
    exact h₂
  | failed =>
    obtain ⟨-, ho, hleave, hu⟩ := hs.waiting hw rfl
    exact hleave.close ho hu

/-- The calls of a session that has been resumed go on, or wait for an event again. -/
theorem Inv.part (hs : s.Inv) (hr : s.resumed id = some (.receive c)) : s.suspend.Inv := by
  obtain ⟨hctl, -, hhttp⟩ := resumed_eq_some.1 hr
  refine hs.suspend hctl fun c h => ?_
  rw [hhttp] at h
  cases h

/-- Every step keeps the invariant, unless a connection is closed again. -/
theorem Inv.act (hs : s.Inv) {a : Act} (ha : s.Timely a) (h : s.act a = some s') : s'.Inv := by
  cases a with
  | plan | event | start | fetch | done =>
    obtain ⟨sched, rfl, -, -, hctl⟩ := act_scheduling h trivial
    exact hs.resched sched fun i c hi => hctl i (ctl_eq_some.1 (hs.ctl i c hi))
  | spawn =>
    obtain ⟨-, h⟩ := Option.ite_none_right_eq_some.1 h
    obtain rfl := Option.some.inj h
    exact hs.register _
  | shutDown ids =>
    obtain ⟨-, rfl⟩ := act_shutDown h
    exact List.foldlRecOn ids Pool.flag hs fun _ hs id _ => hs.flag id
  | parallel n =>
    obtain ⟨id, hid, rfl⟩ := Option.map_eq_some_iff.1 h
    obtain ⟨hctl, hout⟩ := current_eq_some.1 hid
    -- The children are registered while the session runs, which is out of `http`.
    obtain ⟨hs', hctl', hne⟩ := hs.registerChildren hctl
      (fun c hc => by rw [hout] at hc; cases hc) (s.session id).root n
    exact hs'.suspend hctl' hne
  | yield =>
    obtain ⟨id, hid, rfl⟩ := Option.map_eq_some_iff.1 h
    obtain ⟨hctl, hout⟩ := current_eq_some.1 hid
    refine hs.suspend hctl fun c hc => ?_
    rw [hout] at hc
    cases hc
  | finish cs =>
    -- The session is in no call any more; a top-level session is then cleaned.
    obtain ⟨id, hid, ⟨-, hcs, rfl⟩ | ⟨-, rfl⟩⟩ := act_finish h
    · exact (hs.ended hid).clean rfl hcs
    · exact hs.ended hid
  | exit =>
    obtain rfl := Option.some.inj h
    exact hs.sessions rfl rfl rfl rfl rfl rfl
      (fun i c hi => ⟨hi, (hs.calls i c hi).congr rfl rfl rfl rfl⟩) hs.ctl
  | reuse hkey fd =>
    obtain ⟨id, c, hid, hc, rfl⟩ := act_reuse h
    exact hs.reuse hid hc
  | connect hkey fd =>
    obtain ⟨id, hid, -, hfd, rfl⟩ := act_connect h
    exact hs.openConn hid hfd
  | connected id =>
    obtain ⟨c, hw, -, rfl⟩ := act_connected h
    exact hs.connected hw
  | refused id =>
    obtain ⟨c, hw, rfl⟩ := act_refused h
    obtain ⟨-, ho, hleave, hu⟩ := hs.waiting hw rfl
    exact hleave.close ho hu
  | send out =>
    obtain ⟨id, c, hctl, hhttp, ⟨-, rfl⟩ | ⟨-, -, rfl⟩ | ⟨-, -, rfl⟩⟩ := act_send h
    · exact hs.leave hctl
    · have hc : (s.session id).http.conn = some c := by rw [hhttp]; rfl
      have huse := hs.calls id c hc
      -- The rest of the request is to be sent on the same connection.
      have hself : (s.wait id (.send c)).session id =
          { s.session id with http := .send c, watching := true } := Function.update_self _ _ _
      refine hs.move hctl hc (fun i hi => Function.update_of_ne hi _ _) (by rw [hself]; rfl)
        ⟨huse.lt, ?_, ?_, fun _ => huse.isOpen (.inr hhttp), ?_⟩ ?_ rfl rfl rfl rfl rfl rfl
      · rw [hself]
        exact huse.root
      · rw [hself]
        exact iff_of_true (huse.cached.2 (by simp [hhttp])) (by simp)
      · rw [hself]
        refine huse.written.trans ?_
        simp [hhttp]
        rfl
      · rw [hself]
        exact fun c h => by cases h
    · exact hs.sent hctl hhttp
  | sendReady id =>
    obtain ⟨c, hw, rfl⟩ := act_sendReady h
    obtain ⟨hctl, -, hhttp⟩ := waiting_eq_some.1 hw
    obtain ⟨huse, ho, -, -⟩ := hs.waiting hw rfl
    have hself : (s.goOn id (.request c)).session id =
        { s.session id with http := .request c, watching := false } := Function.update_self _ _ _
    refine hs.move hctl (by rw [hhttp]; rfl) (fun i hi => Function.update_of_ne hi _ _)
      (by rw [hself]; rfl) ⟨huse.lt, ?_, ?_, fun _ => ho, ?_⟩ (fun _ _ => hctl) rfl rfl rfl rfl
      rfl rfl
    · rw [hself]
      exact huse.root
    · rw [hself]
      exact iff_of_true (huse.cached.2 (by simp [hhttp])) (by simp)
    · rw [hself]
      refine huse.written.trans ?_
      simp [hhttp]
      rfl
  | sendTimeout id =>
    obtain ⟨hctl, rfl⟩ := act_sendTimeout h
    exact hs.leave hctl
  | part id =>
    obtain ⟨c, hr, rfl⟩ := act_part h
    exact hs.part hr
  | received id out =>
    obtain ⟨c, hw, rfl⟩ := act_received h
    exact hs.receive hw out
  | reclose id => exact ha.elim
  | stop id =>
    obtain ⟨hctl, -, rfl⟩ := act_stop h
    exact hs.leave hctl
  | «open» fd =>
    obtain ⟨hfd, h⟩ := Option.ite_none_right_eq_some.1 h
    obtain rfl := Option.some.inj h
    exact hs.other (by simp [hfd]) (by simp)
  | close fd =>
    obtain ⟨hfd, h⟩ := Option.ite_none_right_eq_some.1 h
    obtain rfl := Option.some.inj h
    exact hs.other (by simp [hfd]) (by simp)

theorem inv_of_reachable (hs : sys.ReachableBy Timely s) : s.Inv :=
  hs.invariant (by rintro _ rfl; exact inv_start) fun _ hI ha h => by
    obtain ⟨-, h⟩ := Option.ite_none_left_eq_some.1 h
    exact hI.act ha h

end Mistress.Pool
