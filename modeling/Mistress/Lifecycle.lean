import Mistress.PoolInv

/-!
# The life of a connection

Every socket opened by `mistress.connect` should be closed once, when the
top-level session it belongs to is cleaned at the latest. It is closed by `http`,
by `connect` itself if the connection is not established, or by the finalizer
`fin` that `connect` leaves with the session.

`Life` is the pool of connections with a record of the calls of
`Connection:close`, and with the connections that session code opens by calling
`connect` itself: these are not in any table, and are closed by `clean`.

* What a step does to the sockets: it closes the connections `closing`, each of them
  open, and opens the connection `opening` (`Effect`, `effect_act`).
* The children of a session share the table of its finalizers. But `clean` gives the
  session a new table, and what a child opens later is left in the old one
  (`Life.late_not_accounted`). This takes a child that catches the `STOP` of a shutdown.
* A child that goes on with a result queued before the `clean` closes its connection
  again, and with it whatever has got the file descriptor since.
* Where no session opens a connection after its top-level session has been cleaned, and
  none goes on with such a result, every socket is closed in time, and once
  (`Life.accounted_of_reachable`).
-/

namespace Mistress

open Transition

namespace Pool

variable {s s' s'' : Pool} {id c : Nat}

/-! ## What a step does to the sockets -/

instance (s : Pool) (c : Nat) : Decidable (s.Open c) := inferInstanceAs (Decidable (_ = _))

/-- The connections whose `close` an action calls, in order. -/
def closing (s : Pool) : Act → List Nat
  | .refused id =>
    match s.waiting id with
    | some (.connect c) => [c]
    | _ => []
  | .received id (.done false) | .received id .failed =>
    match s.waiting id with
    | some (.receive c) => [c]
    | _ => []
  | .reclose id =>
    match s.resumed id with
    | some (.receive c) => [c]
    | _ => []
  | .finish cs =>
    match s.current with
    | some id => if (s.session id).root = id then cs else []
    | none => []
  | _ => []

/-- The connection an action opens. -/
def opening (s : Pool) : Act → Option Nat
  | .connect _ _ => some s.nextConn
  | _ => none

/-- The connection `get_connection` puts in its cache in an action. -/
def caching (s : Pool) : Act → Option Nat
  | .connected id =>
    match s.waiting id with
    | some (.connect c) => some c
    | _ => none
  | _ => none

/-- A step closes the connections `closed`, opens the connection `opened`, and
    puts the connection `cached` in the cache. -/
structure Effect (s s' : Pool) (closed : List Nat) (opened cached : Option Nat) : Prop where
  isOpen : ∀ c, s'.Open c ↔ (s.Open c ∧ c ∉ closed) ∨ c ∈ opened
  /-- The finalizers that are left. -/
  finalizers : ∀ root c, c ∈ s'.finalizers root ↔
    (c ∈ s.finalizers root ∧ c ∉ closed) ∨ (c ∈ opened ∧ (s'.conn c).root = root)
  root : ∀ c, c ∉ opened → (s'.conn c).root = (s.conn c).root
  cached : ∀ c, (s'.conn c).cached = true ↔
    ((s.conn c).cached = true ∧ c ∉ opened) ∨ c ∈ cached
  nextConn : s'.nextConn = s.nextConn + opened.toList.length
  exited : s'.exited = s.exited

/-- The sockets are left alone. -/
structure Same (s s' : Pool) : Prop where
  fds : s'.fds = s.fds
  finalizers : s'.finalizers = s.finalizers
  nextConn : s'.nextConn = s.nextConn
  exited : s'.exited = s.exited
  fd : ∀ c, (s'.conn c).fd = (s.conn c).fd
  root : ∀ c, (s'.conn c).root = (s.conn c).root
  cached : ∀ c, (s'.conn c).cached = (s.conn c).cached

theorem Same.of_conn (hfds : s'.fds = s.fds) (hfin : s'.finalizers = s.finalizers)
    (hnext : s'.nextConn = s.nextConn) (hex : s'.exited = s.exited) (hconn : s'.conn = s.conn) :
    Same s s' := by
  refine ⟨hfds, hfin, hnext, hex, ?_, ?_, ?_⟩ <;> rw [hconn] <;> exact fun _ => rfl

theorem Same.trans (h : Same s s') (h' : Same s' s'') : Same s s'' :=
  ⟨h'.fds.trans h.fds, h'.finalizers.trans h.finalizers, h'.nextConn.trans h.nextConn,
    h'.exited.trans h.exited, fun c => (h'.fd c).trans (h.fd c),
    fun c => (h'.root c).trans (h.root c), fun c => (h'.cached c).trans (h.cached c)⟩

theorem Same.isOpen (h : Same s s') (c : Nat) : s'.Open c ↔ s.Open c := by
  rw [Open, Open, h.fds, h.fd]

theorem Same.effect (h : Same s s') : Effect s s' [] none none where
  isOpen c := by simp [h.isOpen c]
  finalizers root c := by simp [h.finalizers]
  root c _ := h.root c
  cached c := by simp [h.cached]
  nextConn := h.nextConn
  exited := h.exited

/-- What is done before to anything else does not matter. -/
theorem Effect.after {closed : List Nat} {opened cached : Option Nat}
    (he : Effect s' s'' closed opened cached) (h : Same s s') :
    Effect s s'' closed opened cached where
  isOpen c := by rw [he.isOpen, h.isOpen]
  finalizers root c := by rw [he.finalizers, h.finalizers]
  root c hc := (he.root c hc).trans (h.root c)
  cached c := by rw [he.cached, h.cached]
  nextConn := by rw [he.nextConn, h.nextConn]
  exited := he.exited.trans h.exited

theorem same_goOn (s : Pool) (id : Nat) (http : Http) : Same s (s.goOn id http) :=
  .of_conn rfl rfl rfl rfl rfl

theorem same_suspend (s : Pool) : Same s s.suspend := .of_conn rfl rfl rfl rfl rfl

theorem same_ended (s : Pool) (id : Nat) : Same s (s.ended id) := .of_conn rfl rfl rfl rfl rfl

theorem same_register (s : Pool) (root : Nat) : Same s (s.register root) :=
  .of_conn rfl rfl rfl rfl rfl

theorem same_registerChildren (s : Pool) (root n : Nat) : Same s (s.registerChildren root n) := by
  induction n generalizing s with
  | zero => exact .of_conn rfl rfl rfl rfl rfl
  | succ n ih => exact (same_register s root).trans (ih _)

theorem same_shutDown (s : Pool) (ids : List Nat) : Same s (ids.foldl flag s) := by
  induction ids generalizing s with
  | nil => exact .of_conn rfl rfl rfl rfl rfl
  | cons id ids ih =>
    have hflag : Same s (s.flag id) := .of_conn rfl rfl rfl rfl rfl
    exact hflag.trans (ih _)

theorem same_wait (s : Pool) (id : Nat) (http : Http) : Same s (s.wait id http) :=
  .of_conn rfl rfl rfl rfl rfl

theorem same_markBusy (s : Pool) (c : Nat) : Same s (s.markBusy c) :=
  .of_conn rfl rfl rfl rfl rfl

theorem same_markFree (s : Pool) (c : Nat) : Same s (s.markFree c) :=
  .of_conn rfl rfl rfl rfl rfl

/-- The numbers of requests and responses of a connection change. -/
theorem same_count (s : Pool) (c written read : Nat) : Same s (s.count c written read) := by
  have hconn (c' : Nat) : ((s.count c written read).conn c').fd = (s.conn c').fd ∧
      ((s.count c written read).conn c').root = (s.conn c').root ∧
      ((s.count c written read).conn c').cached = (s.conn c').cached := by
    simp only [count, Function.update_apply]
    split
    · subst c'
      exact ⟨rfl, rfl, rfl⟩
    · exact ⟨rfl, rfl, rfl⟩
  exact ⟨rfl, rfl, rfl, rfl, fun c => (hconn c).1, fun c => (hconn c).2.1, fun c => (hconn c).2.2⟩

theorem same_write (s : Pool) (fd : Nat) : Same s (s.write fd) := by
  unfold write
  split
  · exact same_count _ _ _ _
  · exact .of_conn rfl rfl rfl rfl rfl

theorem same_read (s : Pool) (fd : Nat) : Same s (s.read fd) := by
  unfold read
  split
  · exact same_count _ _ _ _
  · exact .of_conn rfl rfl rfl rfl rfl

/-- A connection is put in the cache. -/
theorem effect_cache (s : Pool) (c : Nat) : Effect s (s.cache c) [] none (some c) := by
  have hconn (c' : Nat) : ((s.cache c).conn c').fd = (s.conn c').fd ∧
      ((s.cache c).conn c').root = (s.conn c').root ∧
      (((s.cache c).conn c').cached = true ↔ (s.conn c').cached = true ∨ c = c') := by
    simp only [cache, Function.update_apply]
    split
    · subst c'
      simp
    · rename_i hne
      simp [Ne.symm hne]
  constructor
  case isOpen =>
    intro c'
    rw [Open, (hconn c').1]
    simp [cache, Open]
  case finalizers => simp [cache]
  case root => exact fun c' _ => (hconn c').2.1
  case cached => simp [(hconn _).2.2]
  case nextConn => rfl
  case exited => rfl

/-- What is done afterwards to anything else does not matter either. -/
theorem Effect.before {closed : List Nat} {opened cached : Option Nat}
    (he : Effect s s' closed opened cached) (h : Same s' s'') :
    Effect s s'' closed opened cached where
  isOpen c := by rw [h.isOpen, he.isOpen]
  finalizers root c := by rw [h.finalizers, he.finalizers, h.root]
  root c hc := (h.root c).trans (he.root c hc)
  cached c := by rw [h.cached, he.cached]
  nextConn := by rw [h.nextConn, he.nextConn]
  exited := h.exited.trans he.exited

/-- One thing is closed after another. -/
theorem Effect.trans {closed closed' : List Nat} (h : Effect s s' closed none none)
    (h' : Effect s' s'' closed' none none) : Effect s s'' (closed ++ closed') none none where
  isOpen c := by simp [h'.isOpen, h.isOpen, and_assoc]
  finalizers root c := by simp [h'.finalizers, h.finalizers, and_assoc]
  root c hc := (h'.root c hc).trans (h.root c hc)
  cached c := by simp [h'.cached, h.cached]
  nextConn := h'.nextConn.trans h.nextConn
  exited := h'.exited.trans h.exited

/-- The finalizers are those of the connections of the session, each once. -/
def Tidy (s : Pool) : Prop :=
  ∀ root, (∀ c ∈ s.finalizers root, (s.conn c).root = root) ∧ (s.finalizers root).Nodup

theorem Inv.tidy (hs : s.Inv) : s.Tidy := fun root =>
  ⟨fun c hc => (hs.fin root c hc).2, hs.nodup root⟩

/-- An open connection is closed. Its finalizer is removed, or has been put away. -/
theorem effect_closeConn (ht : s.Tidy) (hc : s.Open c) {leaveFin : Bool}
    (hfin : leaveFin = true → ∀ root, c ∉ s.finalizers root) :
    Effect s (s.closeConn c leaveFin) [c] none none := by
  obtain ⟨free, busy, finalizers, heq, -, -, hfins⟩ := closeConn_eq hc leaveFin
  rw [heq]
  constructor
  case isOpen =>
    intro c'
    change Function.update s.fds (s.conn c).fd none (s.conn c').fd = _ ↔ _
    rw [Function.update_apply]
    split
    · rename_i hfd
      -- Only this connection is open at the file descriptor.
      have heq : s.Open c' → c' = c := fun ho => Open.inj ho hc hfd
      simpa using heq
    · rename_i hfd
      have hne : c' ≠ c := fun h => hfd (h ▸ rfl)
      simp [hne, Open]
  case finalizers =>
    intro root c'
    simp only [hfins]
    split
    · -- No table of finalizers has been left with one of the connection.
      rename_i hleave
      have hne : c' ∈ s.finalizers root → c' ≠ c := fun h hcc => hfin hleave root (hcc ▸ h)
      simpa using hne
    · rw [Function.update_apply]
      split
      · rename_i hroot
        -- It is taken out of the table of its family, where it is once,
        rw [hroot, (ht _).2.mem_erase_iff]
        simp [and_comm]
      · rename_i hroot
        -- and the other tables have not had it.
        have hne : c' ∈ s.finalizers root → c' ≠ c := fun h hcc =>
          hroot (hcc ▸ ((ht root).1 c' h).symm)
        simpa using hne
  case root => exact fun _ _ => rfl
  case cached => simp
  case nextConn => rfl
  case exited => rfl

/-- Connections whose finalizers have been put away are closed. -/
theorem effect_closeAll {cs : List Nat} (ht : s.Tidy) (hs : ∀ c ∈ cs, s.Open c) (hnd : cs.Nodup)
    (hfin : ∀ root, ∀ c ∈ cs, c ∉ s.finalizers root) :
    Effect s (cs.foldl (fun s c => s.closeConn c true) s) cs none none := by
  induction cs generalizing s with
  | nil => exact (Same.of_conn rfl rfl rfl rfl rfl : Same s s).effect
  | cons c cs ih =>
    rw [List.nodup_cons] at hnd
    have hc := hs c List.mem_cons_self
    have he : Effect s (s.closeConn c true) [c] none none :=
      effect_closeConn ht hc fun _ root => hfin root c List.mem_cons_self
    obtain ⟨-, hconn, hfins, hopen⟩ := closeConn_open hc true
    refine he.trans (ih (fun root => ?_) (fun c' hc' => ?_) hnd.2 fun root c' hc' => ?_)
    · rw [hfins rfl, hconn]
      exact ht root
    · exact hopen c' (hs c' (List.mem_cons_of_mem _ hc')) fun h => hnd.1 (h ▸ hc')
    · rw [hfins rfl]
      exact hfin root c' (List.mem_cons_of_mem _ hc')

/-- `clean` closes the connections of the finalizers. -/
theorem effect_clean (hs : s.Inv) {root : Nat} {cs : List Nat} (hcs : cs.Perm (s.finalizers root)) :
    Effect s (s.clean root cs) cs none none := by
  have hfin r c : c ∈ Function.update s.finalizers root [] r ↔ c ∈ s.finalizers r ∧ c ∉ cs := by
    rw [Function.update_apply, hcs.mem_iff]
    split
    · subst r
      simp
    · rename_i hr
      have hne : c ∈ s.finalizers r → c ∉ s.finalizers root := fun h h' =>
        hr ((hs.fin r c h).2.symm.trans (hs.fin root c h').2)
      simpa using hne
  have ht : Tidy { s.unwatch root with finalizers := Function.update s.finalizers root [] } := by
    refine fun r => ⟨fun c hc => (hs.fin r c ((hfin r c).1 hc).1).2, ?_⟩
    simp only [Function.update_apply]
    split
    · exact List.nodup_nil
    · exact hs.nodup r
  have hopen : ∀ c ∈ cs, Open { s.unwatch root with
      finalizers := Function.update s.finalizers root [] } c :=
    fun c hc => (hs.fin root c (hcs.mem_iff.1 hc)).1
  have he := effect_closeAll ht hopen (hcs.nodup_iff.2 (hs.nodup root))
    fun r c hc h => ((hfin r c).1 h).2 hc
  refine ⟨he.isOpen, fun r c => ?_, he.root, he.cached, he.nextConn, he.exited⟩
  refine (he.finalizers r c).trans ?_
  simp only [hfin, and_assoc, and_self]
  rfl

/-- A new connection is opened. -/
theorem effect_openConn (hs : s.Inv) (id : Nat) (hkey : String) {fd : Nat} (hfd : s.fds fd = none) :
    Effect s (s.openConn id hkey fd) [] (some s.nextConn) none := by
  have hnot : ¬s.Open s.nextConn := fun ho => Nat.lt_irrefl _ (hs.sock _ _ ho).1
  constructor
  case isOpen =>
    intro c
    change Function.update s.fds fd (some (.conn s.nextConn))
      (Function.update s.conn s.nextConn ⟨_, hkey, fd, false, 0, 0⟩ c).fd = _ ↔ _
    by_cases hc : c = s.nextConn
    · subst hc
      simp
    · rw [Function.update_of_ne hc, Function.update_apply]
      split
      · -- What was open is not open at a file descriptor that is not in use.
        rename_i h
        simp [Ne.symm hc, Open, h, hfd]
      · simp [Ne.symm hc, Open]
  case finalizers =>
    intro root c
    change c ∈ Function.update s.finalizers _ _ root ↔ _ ∨ c ∈ some s.nextConn ∧
      (Function.update s.conn s.nextConn ⟨(s.session id).root, hkey, fd, false, 0, 0⟩ c).root = root
    rw [Function.update_apply]
    split
    · rename_i hroot
      subst hroot
      by_cases hc : c = s.nextConn
      · simp [hc]
      · simp [hc, Ne.symm hc]
    · rename_i hroot
      by_cases hc : c = s.nextConn
      · subst hc
        -- The finalizers of other families are about older connections.
        have hmem : s.nextConn ∉ s.finalizers root := fun h => hnot (hs.fin root _ h).1
        simp [hmem, Ne.symm hroot]
      · simp [Ne.symm hc]
  case root =>
    intro c hc
    have hne : c ≠ s.nextConn := fun h => hc (by rw [h]; rfl)
    exact congrArg Conn.root (Function.update_of_ne hne _ _)
  case cached =>
    intro c
    change (Function.update s.conn s.nextConn ⟨_, hkey, fd, false, 0, 0⟩ c).cached = true ↔ _
    by_cases hc : c = s.nextConn
    · simp [hc]
    · simp [Function.update_of_ne hc, Ne.symm hc]
  case nextConn => rfl
  case exited => rfl

/-- Another file descriptor is opened or closed. -/
theorem effect_other {fd : Nat} {sock : Option Sock} (hfd : ∀ c, s.fds fd ≠ some (.conn c))
    (hsock : ∀ c, sock ≠ some (.conn c)) :
    Effect s { s with fds := Function.update s.fds fd sock } [] none none where
  isOpen c := by
    change Function.update s.fds fd sock (s.conn c).fd = _ ↔ _
    rw [Function.update_apply]
    split
    · rename_i h
      simp [Open, h, hfd, hsock]
    · simp [Open]
  finalizers root c := by simp
  root _ _ := rfl
  cached c := by simp
  nextConn := rfl
  exited := rfl

/-- What a step does to the sockets: it closes the connections it calls `close` of,
    each of them open, and each once. -/
theorem effect_act (hs : s.Inv) {a : Act} (ht : s.Timely a) (h : s.act a = some s')
    (ha : a ≠ .exit) :
    Effect s s' (s.closing a) (s.opening a) (s.caching a) ∧ (∀ c ∈ s.closing a, s.Open c) ∧
      (s.closing a).Nodup := by
  have hsame {s' : Pool} (hsm : Same s s') : Effect s s' [] none none ∧
      (∀ c ∈ ([] : List Nat), s.Open c) ∧ ([] : List Nat).Nodup :=
    ⟨hsm.effect, nofun, List.nodup_nil⟩
  have hone {s' : Pool} {c : Nat} (ho : s.Open c) (he : Effect s s' [c] none none) :
      Effect s s' [c] none none ∧ (∀ c' ∈ [c], s.Open c') ∧ [c].Nodup :=
    ⟨he, fun c' hc => List.mem_singleton.1 hc ▸ ho, List.nodup_singleton c⟩
  cases a with
  | plan | event | start | fetch | done =>
    obtain ⟨sched, rfl, -⟩ := act_scheduling h trivial
    exact hsame (.of_conn rfl rfl rfl rfl rfl)
  | spawn =>
    obtain ⟨-, h⟩ := Option.ite_none_right_eq_some.1 h
    obtain rfl := Option.some.inj h
    exact hsame (same_register s _)
  | shutDown ids =>
    obtain ⟨-, rfl⟩ := act_shutDown h
    exact hsame (same_shutDown s ids)
  | parallel n =>
    obtain ⟨id, -, rfl⟩ := Option.map_eq_some_iff.1 h
    exact hsame ((same_registerChildren s _ n).trans (same_suspend _))
  | yield =>
    obtain ⟨id, -, rfl⟩ := Option.map_eq_some_iff.1 h
    exact hsame (same_suspend s)
  | part id =>
    obtain ⟨c, -, rfl⟩ := act_part h
    exact hsame (same_suspend s)
  | finish cs =>
    -- Only a top-level session is cleaned when its coroutine has ended.
    obtain ⟨id, hid, ⟨hroot, hcs, rfl⟩ | ⟨hroot, rfl⟩⟩ := act_finish h
    · simp only [closing, opening, caching, hid, if_pos hroot]
      exact ⟨(effect_clean (hs.ended hid) hcs).after (same_ended s id),
        fun c hc => (hs.fin id c (hcs.mem_iff.1 hc)).1, hcs.nodup_iff.2 (hs.nodup id)⟩
    · simp only [closing, opening, caching, hid, if_neg hroot]
      exact hsame (same_ended s id)
  | exit => exact absurd rfl ha
  | reuse hkey fd =>
    obtain ⟨id, c, -, -, rfl⟩ := act_reuse h
    exact hsame ((same_markBusy s c).trans (same_goOn _ _ _))
  | connect hkey fd =>
    obtain ⟨id, -, -, hfd, rfl⟩ := act_connect h
    exact ⟨effect_openConn hs id hkey hfd, nofun, List.nodup_nil⟩
  | connected id =>
    obtain ⟨c, hw, -, rfl⟩ := act_connected h
    simp only [closing, opening, caching, hw]
    -- The connection is put in the cache and then marked busy, which moves its entry.
    exact ⟨((effect_cache _ c).before ((same_markBusy _ _).trans (same_goOn _ _ _))).after
      (same_goOn s id .out), nofun, List.nodup_nil⟩
  | refused id =>
    obtain ⟨c, hw, rfl⟩ := act_refused h
    obtain ⟨-, ho, hleave, -⟩ := hs.waiting hw rfl
    simp only [closing, opening, caching, hw]
    -- A connection that is not established is closed by `connect`.
    exact hone ho ((effect_closeConn hleave.tidy ho (by simp)).after (same_goOn s id .out))
  | send out =>
    obtain ⟨id, c, -, -, ⟨-, rfl⟩ | ⟨-, -, rfl⟩ | ⟨-, -, rfl⟩⟩ := act_send h
    · exact hsame (same_goOn s id .out)
    · exact hsame (same_wait _ _ _)
    · exact hsame ((same_goOn _ _ _).trans ((same_write _ _).trans (same_wait _ _ _)))
  | sendReady id =>
    obtain ⟨c, -, rfl⟩ := act_sendReady h
    exact hsame (same_goOn _ _ _)
  | sendTimeout id =>
    obtain ⟨-, rfl⟩ := act_sendTimeout h
    exact hsame (same_goOn _ _ _)
  | reclose id => exact ht.elim
  | received id out =>
    obtain ⟨c, hw, rfl⟩ := act_received h
    obtain ⟨-, ho, hleave, -⟩ := hs.waiting hw rfl
    -- The response is read first; the connection is closed unless it is kept alive.
    obtain ⟨s₂, hread, h₂, hu, ho₂, hwr, hbusy⟩ := hs.readDone hw
    have hsm : Same s s₂ := by
      rw [← hread]
      exact (same_goOn _ _ _).trans (same_read _ _)
    cases out with
    | done keepalive =>
      have hfree := same_markFree s₂ c
      simp only [Pool.receive, hread]
      cases keepalive with
      | true => exact hsame (hsm.trans hfree)
      | false =>
        simp only [closing, opening, caching, hw, Bool.false_eq_true, if_false]
        exact hone ho ((effect_closeConn (h₂.markFree hu hwr hbusy).tidy ho₂ (by simp)).after
          (hsm.trans hfree))
    | raised =>
      simp only [Pool.receive, hread]
      exact hsame hsm
    | failed =>
      simp only [Pool.receive, closing, opening, caching, hw]
      exact hone ho ((effect_closeConn hleave.tidy ho (by simp)).after (same_goOn s id .out))
  | stop id =>
    obtain ⟨-, -, rfl⟩ := act_stop h
    exact hsame (same_goOn _ _ _)
  | «open» fd =>
    obtain ⟨hfd, h⟩ := Option.ite_none_right_eq_some.1 h
    obtain rfl := Option.some.inj h
    exact ⟨effect_other (by simp [hfd]) (by simp), fun _ hc => absurd hc List.not_mem_nil,
      List.nodup_nil⟩
  | close fd =>
    obtain ⟨hfd, h⟩ := Option.ite_none_right_eq_some.1 h
    obtain rfl := Option.some.inj h
    exact ⟨effect_other (by simp [hfd]) (by simp), fun _ hc => absurd hc List.not_mem_nil,
      List.nodup_nil⟩

/-! ## The families -/

/-- The top-level sessions are those whose top-level session is themselves. -/
def Families (s : Pool) : Prop :=
  ∀ i, (s.session i).root ≤ s.nextId ∧ (s.session (s.session i).root).root = (s.session i).root

/-- A session keeps its family, and is registered until it ends. -/
structure Kept (s s' : Pool) (ended : Option Nat) : Prop where
  nextId : s.nextId ≤ s'.nextId
  root : ∀ i ≤ s.nextId, (s'.session i).root = (s.session i).root
  registered : ∀ i ≤ s.nextId, i ∉ ended → (s'.Registered i ↔ s.Registered i)

/-- Where no session ends, those that were registered still are. -/
theorem Kept.still (hk : s.Kept s' none) {i : Nat} (hi : i ≤ s.nextId) :
    s'.Registered i ↔ s.Registered i :=
  hk.registered i hi (Option.not_mem_none i)

theorem Kept.trans {ended : Option Nat} (h : s.Kept s' none) (h' : s'.Kept s'' ended) :
    s.Kept s'' ended where
  nextId := Nat.le_trans h.nextId h'.nextId
  root i hi := (h'.root i (Nat.le_trans hi h.nextId)).trans (h.root i hi)
  registered i hi hne := (h'.registered i (Nat.le_trans hi h.nextId) hne).trans (h.still hi)

/-- The session an action ends. -/
def ending (s : Pool) : Act → Option Nat
  | .finish _ => s.current
  | _ => none

theorem families_start : start.Families := fun _ => ⟨Nat.le_refl 0, rfl⟩

/-- The sessions are the same, and stay registered. -/
structure Stays (s s' : Pool) : Prop where
  nextId : s'.nextId = s.nextId
  sessions : s'.sched.mgr.sessions = s.sched.mgr.sessions
  root : ∀ i, (s'.session i).root = (s.session i).root

theorem Stays.registered (h : Stays s s') (i : Nat) : s'.Registered i ↔ s.Registered i := by
  rw [Registered, h.sessions]
  rfl

theorem Stays.of_eq (hsess : s'.session = s.session) (hsched : s'.sched = s.sched) : Stays s s' :=
  ⟨congrArg (·.mgr.nextId) hsched, congrArg (·.mgr.sessions) hsched, fun i => by rw [hsess]⟩

theorem Stays.trans (h : Stays s s') (h' : Stays s' s'') : Stays s s'' :=
  ⟨h'.nextId.trans h.nextId, h'.sessions.trans h.sessions, fun i => (h'.root i).trans (h.root i)⟩

/-- One session moves in `http`. -/
theorem stays_update (hid : s'.nextId = s.nextId)
    (hreg : s'.sched.mgr.sessions = s.sched.mgr.sessions) {u : Client}
    (h : s'.session = Function.update s.session id u) (hroot : u.root = (s.session id).root) :
    Stays s s' := by
  refine ⟨hid, hreg, fun i => ?_⟩
  rw [h, Function.update_apply]
  split
  · subst i
    exact hroot
  · rfl

theorem stays_goOn (s : Pool) (id : Nat) (http : Http) : Stays s (s.goOn id http) :=
  stays_update rfl rfl rfl rfl

theorem stays_suspend (s : Pool) : Stays s s.suspend := ⟨rfl, rfl, fun _ => rfl⟩

theorem stays_wait (s : Pool) (id : Nat) (http : Http) : Stays s (s.wait id http) :=
  stays_update rfl rfl rfl rfl

/-- A session that is told to shut down stays registered. -/
theorem stays_shutDown (s : Pool) (ids : List Nat) : Stays s (ids.foldl flag s) := by
  induction ids generalizing s with
  | nil => exact .of_eq rfl rfl
  | cons id ids ih =>
    have hflag : Stays s (s.flag id) := by
      refine ⟨?_, ?_, fun i => (http_flag s id i).2.1⟩
      · simp [nextId, flag]
      · simp [flag]
    exact hflag.trans (ih _)

theorem stays_openConn (s : Pool) (id : Nat) (hkey : String) (fd : Nat) :
    Stays s (s.openConn id hkey fd) :=
  ⟨rfl, rfl, (stays_wait s id (.connect s.nextConn)).root⟩

theorem stays_write (s : Pool) (fd : Nat) : Stays s (s.write fd) := by
  unfold write
  split <;> exact .of_eq rfl rfl

theorem stays_read (s : Pool) (fd : Nat) : Stays s (s.read fd) := by
  unfold read
  split <;> exact .of_eq rfl rfl

theorem stays_closeConn (s : Pool) (c : Nat) (leaveFin : Bool) :
    Stays s (s.closeConn c leaveFin) := by
  have hclose (s : Pool) (fd : Nat) : Stays s (s.closeSocket fd) := by
    unfold closeSocket
    split <;> exact .of_eq rfl rfl
  have hun : Stays s (if (s.conn c).cached then s.uncache c else s) := by
    split <;> exact .of_eq rfl rfl
  have hsock := hun.trans (hclose _ (s.conn c).fd)
  cases leaveFin with
  | true => exact hsock
  | false => exact ⟨hsock.nextId, hsock.sessions, hsock.root⟩

theorem stays_clean (s : Pool) (root : Nat) (cs : List Nat) : Stays s (s.clean root cs) := by
  have hall (s : Pool) : Stays s (cs.foldl (fun s c => s.closeConn c true) s) := by
    induction cs generalizing s with
    | nil => exact .of_eq rfl rfl
    | cons c cs ih => exact (stays_closeConn s c true).trans (ih _)
  have hun : Stays s { s.unwatch root with
      finalizers := Function.update s.finalizers root [] } := by
    refine ⟨rfl, rfl, fun i => ?_⟩
    simp only [unwatch]
    split <;> rfl
  exact hun.trans (hall _)

/-- Where the sessions stay, so do the families. -/
theorem Families.stays (hs : s.Families) (h : Stays s s') (ended : Option Nat) :
    s'.Families ∧ Kept s s' ended := by
  refine ⟨fun i => ?_, Nat.le_of_eq h.nextId.symm, fun i _ => h.root i,
    fun i _ _ => h.registered i⟩
  rw [h.root i, h.root, h.nextId]
  exact hs i

theorem stays_receive (s : Pool) (id c : Nat) (out : ReceiveOutcome) :
    Stays s (s.receive id c out) := by
  have hread := (stays_goOn s id .out).trans (stays_read _ (s.conn c).fd)
  have hfree : Stays s (((s.goOn id .out).read (s.conn c).fd).markFree c) :=
    ⟨hread.nextId, hread.sessions, hread.root⟩
  cases out with
  | done keepalive =>
    cases keepalive with
    | true => exact hfree
    | false => exact hfree.trans (stays_closeConn (markFree _ _) c false)
  | raised => exact hread
  | failed => exact (stays_goOn s id .out).trans (stays_closeConn (s.goOn id .out) c false)

/-- Only three actions register sessions or end one. -/
theorem stays_act {a : Act} (h : s.act a = some s') (hspawn : a ≠ .spawn)
    (hpar : ∀ n, a ≠ .parallel n) (hfin : ∀ cs, a ≠ .finish cs) : Stays s s' := by
  cases a with
  | spawn => exact absurd rfl hspawn
  | parallel n => exact absurd rfl (hpar n)
  | finish cs => exact absurd rfl (hfin cs)
  | plan | event | start | fetch | done =>
    obtain ⟨sched, rfl, hreg, hid, -⟩ := act_scheduling h trivial
    exact ⟨hid, hreg, fun _ => rfl⟩
  | shutDown ids =>
    obtain ⟨-, rfl⟩ := act_shutDown h
    exact stays_shutDown s ids
  | yield =>
    obtain ⟨id, -, rfl⟩ := Option.map_eq_some_iff.1 h
    exact stays_suspend s
  | part id =>
    obtain ⟨c, -, rfl⟩ := act_part h
    exact stays_suspend s
  | exit =>
    obtain rfl := Option.some.inj h
    exact .of_eq rfl rfl
  | reuse hkey fd =>
    obtain ⟨id, c, -, -, rfl⟩ := act_reuse h
    exact stays_update rfl rfl rfl rfl
  | connect hkey fd =>
    obtain ⟨id, -, -, -, rfl⟩ := act_connect h
    exact stays_openConn s id hkey fd
  | connected id =>
    obtain ⟨c, -, -, rfl⟩ := act_connected h
    have hmark : Stays (s.goOn id .out) (((s.goOn id .out).cache c).markBusy c) := .of_eq rfl rfl
    exact (stays_goOn s id .out).trans (hmark.trans (stays_goOn _ id _))
  | refused id =>
    obtain ⟨c, -, rfl⟩ := act_refused h
    exact (stays_goOn s id .out).trans (stays_closeConn _ _ _)
  | send out =>
    obtain ⟨id, c, -, -, ⟨-, rfl⟩ | ⟨-, -, rfl⟩ | ⟨-, -, rfl⟩⟩ := act_send h
    · exact stays_goOn s id .out
    · exact stays_wait s id _
    · exact (stays_goOn _ _ _).trans ((stays_write _ _).trans (stays_wait _ _ _))
  | sendReady id =>
    obtain ⟨c, -, rfl⟩ := act_sendReady h
    exact stays_goOn _ _ _
  | sendTimeout id =>
    obtain ⟨-, rfl⟩ := act_sendTimeout h
    exact stays_goOn _ _ _
  | received id out =>
    obtain ⟨c, -, rfl⟩ := act_received h
    exact stays_receive s id c out
  | reclose id =>
    obtain ⟨c, -, -, rfl⟩ := act_reclose h
    exact stays_receive s id c .failed
  | stop id =>
    obtain ⟨-, -, rfl⟩ := act_stop h
    exact stays_goOn _ _ _
  | «open» fd | close fd =>
    obtain ⟨-, h⟩ := Option.ite_none_right_eq_some.1 h
    obtain rfl := Option.some.inj h
    exact .of_eq rfl rfl

/-- The coroutine of a session has ended. -/
theorem Families.ended (hs : s.Families) (id : Nat) :
    (s.ended id).Families ∧ Kept s (s.ended id) (some id) := by
  refine ⟨hs, Nat.le_refl _, fun _ _ => rfl, fun i _ hi => ?_⟩
  have hne : i ≠ id := fun h => hi (by rw [h]; rfl)
  exact AList.mem_erase.trans (and_iff_right hne)

theorem nextId_register (s : Pool) (root : Nat) : (s.register root).nextId = s.nextId + 1 := by
  simp [nextId, Pool.register, Manager.register]

theorem registered_register (s : Pool) (root : Nat) :
    (s.register root).Registered (s.nextId + 1) := by
  simp only [Registered, Pool.register, Manager.planResume_sessions]
  exact (AList.mem_insert _).2 (.inl rfl)

/-- A session is registered: a top-level one, or one of the family of another. -/
theorem Families.register (hs : s.Families) {root : Nat} (hroot : root = s.nextId + 1 ∨
    (root ≤ s.nextId ∧ (s.session root).root = root)) :
    (s.register root).Families ∧ Kept s (s.register root) none := by
  have hid := nextId_register s root
  -- The sessions there have been keep their place.
  have hold {i : Nat} (hi : i ≤ s.nextId) : (s.register root).session i = s.session i :=
    Function.update_of_ne (Nat.ne_of_lt (Nat.lt_succ_of_le hi)) _ _
  have hnew : ((s.register root).session (s.nextId + 1)).root = root := by
    simp [Pool.register]
  refine ⟨fun i => ?_, hid ▸ Nat.le_succ _, fun i hi => congrArg Client.root (hold hi),
    fun i hi _ => ?_⟩
  · rw [hid]
    by_cases hi : i = s.nextId + 1
    · subst hi
      rw [hnew]
      rcases hroot with rfl | ⟨hle, hr⟩
      · exact ⟨Nat.le_refl _, hnew⟩
      · rw [hold hle]
        exact ⟨Nat.le_succ_of_le hle, hr⟩
    · obtain ⟨hle, hr⟩ := hs i
      have heq : (s.register root).session i = s.session i := Function.update_of_ne hi _ _
      rw [heq, hold hle]
      exact ⟨Nat.le_succ_of_le hle, hr⟩
  · have hne : i ≠ s.nextId + 1 := Nat.ne_of_lt (Nat.lt_succ_of_le hi)
    simp only [Registered, Pool.register, Manager.planResume_sessions]
    exact AList.mem_insert _ |>.trans (or_iff_right hne)

theorem Families.registerChildren (hs : s.Families) {root : Nat} (hle : root ≤ s.nextId)
    (hroot : (s.session root).root = root) (n : Nat) :
    (s.registerChildren root n).Families ∧ Kept s (s.registerChildren root n) none := by
  induction n generalizing s with
  | zero => exact ⟨hs, Nat.le_refl _, fun _ _ => rfl, fun _ _ _ => Iff.rfl⟩
  | succ n ih =>
    obtain ⟨hf, hk⟩ := hs.register (.inr ⟨hle, hroot⟩)
    obtain ⟨hf', hk'⟩ := ih hf (Nat.le_trans hle hk.nextId) ((hk.root root hle).trans hroot)
    exact ⟨hf', hk.trans hk'⟩

/-- What a step does to the sessions. -/
theorem Families.act (hs : s.Families) {a : Act} (h : s.act a = some s') :
    s'.Families ∧ Kept s s' (s.ending a) := by
  cases a with
  | spawn =>
    obtain ⟨-, h⟩ := Option.ite_none_right_eq_some.1 h
    obtain rfl := Option.some.inj h
    exact hs.register (.inl rfl)
  | parallel n =>
    obtain ⟨id, -, rfl⟩ := Option.map_eq_some_iff.1 h
    -- A child belongs to the family of its parent, whose top-level session is older.
    obtain ⟨hf, hk⟩ := hs.registerChildren (hs id).1 (hs id).2 n
    obtain ⟨hf', hk'⟩ := hf.stays (stays_suspend _) none
    exact ⟨hf', hk.trans hk'⟩
  | finish cs =>
    obtain ⟨id, hid, h⟩ := act_finish h
    obtain ⟨hf, hk⟩ := hs.ended id
    simp only [ending, hid]
    rcases h with ⟨-, -, rfl⟩ | ⟨-, rfl⟩
    · -- A top-level session is cleaned, which changes no session.
      obtain ⟨hf', hk'⟩ := hf.stays (stays_clean _ id cs) none
      refine ⟨hf', ?_, fun i hi => (hk'.root i hi).trans (hk.root i hi), fun i hi hne => ?_⟩
      · exact hk'.nextId
      · exact (hk'.still hi).trans (hk.registered i hi hne)
    · exact ⟨hf, hk⟩
  | _ => exact hs.stays (stays_act h nofun nofun nofun) _

theorem mem_opening {a : Act} (h : c ∈ s.opening a) :
    c = s.nextConn ∧ ∃ hkey fd, a = .connect hkey fd := by
  cases a with
  | connect hkey fd => exact ⟨(Option.some.inj h).symm, hkey, fd, rfl⟩
  | _ => cases h

theorem root_openConn (s : Pool) (id : Nat) (hkey : String) (fd : Nat) :
    ((s.openConn id hkey fd).conn s.nextConn).root = (s.session id).root := by
  change (Function.update s.conn s.nextConn _ s.nextConn).root = _
  rw [Function.update_self]

/-- A connection belongs to the family of the session that opens it. -/
theorem root_opening {a : Act} (h : s.act a = some s') (hc : c ∈ s.opening a) :
    ∃ id, s.current = some id ∧ (s'.conn c).root = (s.session id).root := by
  obtain ⟨rfl, hkey, fd, rfl⟩ := mem_opening hc
  obtain ⟨id, hid, -, -, rfl⟩ := act_connect h
  exact ⟨id, hid, root_openConn s id hkey fd⟩

/-- A top-level session that ends closes all the connections of its finalizers. -/
theorem mem_closing {a : Act} (h : s.act a = some s') (hid : id ∈ s.ending a)
    (hroot : (s.session id).root = id) (hc : c ∈ s.finalizers id) : c ∈ s.closing a := by
  cases a with
  | finish cs =>
    have hcur : s.current = some id := hid
    obtain ⟨id', hid', ⟨-, hcs, -⟩ | ⟨hne, -⟩⟩ := act_finish h <;>
      obtain rfl := Option.some.inj (hcur.symm.trans hid')
    · simp only [closing, hcur, if_pos hroot]
      exact hcs.mem_iff.2 hc
    · exact absurd hroot hne
  | _ => cases hid

/-- A connection that `http` closes is used by no other call: no session waits for a response
    on it. -/
theorem closing_alone (hs : s.Inv) {a : Act} (ha : s.Timely a) (hfin : ∀ cs, a ≠ .finish cs)
    (hc : c ∈ s.closing a) : ∃ id, s.ctl = some id ∧
      ∀ i, (s.session i).http.conn = some c → i = id := by
  have hone {id : Nat} {http : Http} (hw : s.waiting id = some http) (hconn : http.conn = some c) :
      ∃ id, s.ctl = some id ∧ ∀ i, (s.session i).http.conn = some c → i = id := by
    obtain ⟨hctl, -, hhttp⟩ := waiting_eq_some.1 hw
    exact ⟨id, hctl, fun i hi => hs.unique i id c hi (hhttp ▸ hconn)⟩
  unfold closing at hc
  split at hc
  · split at hc
    · obtain rfl := List.mem_singleton.1 hc
      exact hone ‹_› rfl
    · cases hc
  · split at hc
    · obtain rfl := List.mem_singleton.1 hc
      exact hone ‹_› rfl
    · cases hc
  · split at hc
    · obtain rfl := List.mem_singleton.1 hc
      exact hone ‹_› rfl
    · cases hc
  · exact ha.elim
  · exact absurd rfl (hfin _)
  · cases hc

end Pool

/-! ## The record of the closes -/

/-- The pool of connections, and the connections that are not in it. -/
structure Life where
  pool : Pool
  /-- The connections opened by calls of `connect` in session code. -/
  direct : List Nat
  /-- History: the connections whose `close` has been called, in order, -/
  closes : List Nat
  /-- and those of them whose socket was not open then: the file descriptor was that of
      something else, or the process has exited. -/
  stray : List Nat

namespace Life

/-- The actions of the sessions. -/
inductive Act
  | pool (a : Pool.Act)
  /-- The running session calls `connect` itself, and the new socket is `fd`. -/
  | connect (fd : Nat)
  /-- The connection it has opened is established. -/
  | connected (id : Nat)

/-- No sessions, and no sockets. -/
def start : Life := ⟨.start, [], [], []⟩

/-- Whether `get_connection` would go on with a connection it has not opened. -/
def foreign (t : Life) : Pool.Act → Bool
  | .connected id => decide (∃ c ∈ t.direct, t.pool.waiting id = some (.connect c))
  | _ => false

/-- The step of an action of a process that has not exited. -/
def act (t : Life) : Act → Option Life
  | .pool a =>
    if t.foreign a then none
    else (t.pool.act a).map fun s =>
      { t with
        pool := s
        closes := t.closes ++ t.pool.closing a
        stray := t.stray ++ (t.pool.closing a).filter fun c => ¬t.pool.Open c }
  | .connect fd =>
    t.pool.current.bind fun id =>
      if t.pool.fds fd = none then
        some { t with
          pool := t.pool.openConn id "" fd
          direct := t.pool.nextConn :: t.direct }
      else none
  | .connected id =>
    match t.pool.waiting id with
    | some (.connect c) =>
      if c ∈ t.direct ∧ (t.pool.conn c).fd ≠ 0 then some { t with pool := t.pool.goOn id .out }
      else none
    | _ => none

/-- The pool, from the state without sessions. -/
def sys : System Life Act where
  init t := t = start
  step t a := if t.pool.exited then none else t.act a

/-- What is promised of the sockets. -/
structure Accounted (t : Life) : Prop where
  /-- No connection is closed twice. -/
  once : t.closes.Nodup
  /-- A connection that has been closed is in no table. -/
  closed : ∀ c ∈ t.closes, ¬t.pool.Open c ∧ ∀ key fd,
    (t.pool.free key).lookup fd ≠ some c ∧ (t.pool.busy key).lookup fd ≠ some c
  /-- What has been closed was the open socket of the connection. -/
  own : t.stray = []
  /-- Where the top-level session has been cleaned, its connections have been closed. -/
  cleaned : ∀ c < t.pool.nextConn,
    ¬t.pool.Registered (t.pool.conn c).root → c ∈ t.closes

/-- No session opens a connection after its top-level session has been cleaned, or goes on
    with an event that had been queued before. -/
def InTime (t : Life) : Act → Prop
  | .pool (.connect _ _) | .connect _ =>
    ∀ id ∈ t.pool.current, t.pool.Registered (t.pool.session id).root
  | .pool a => t.pool.Timely a
  | .connected _ => True

instance (t : Life) (a : Act) : Decidable (InTime t a) := by
  unfold InTime
  split <;> infer_instance

/-! ### The invariant -/

variable {t t' : Life} {a : Act}

theorem act_pool {a : Pool.Act} (h : t.act (.pool a) = some t') :
    ¬t.foreign a ∧ ∃ s', t.pool.act a = some s' ∧ t' = { t with
      pool := s'
      closes := t.closes ++ t.pool.closing a
      stray := t.stray ++ (t.pool.closing a).filter fun c => ¬t.pool.Open c } := by
  obtain ⟨hown, h⟩ := Option.ite_none_left_eq_some.1 h
  obtain ⟨s', hs', rfl⟩ := Option.map_eq_some_iff.1 h
  exact ⟨hown, s', hs', rfl⟩

theorem act_connect {fd : Nat} (h : t.act (.connect fd) = some t') :
    ∃ id, t.pool.current = some id ∧ t.pool.fds fd = none ∧
      t' = { t with
        pool := t.pool.openConn id "" fd
        direct := t.pool.nextConn :: t.direct } := by
  obtain ⟨id, hid, h⟩ := Option.bind_eq_some_iff.1 h
  obtain ⟨hfd, h⟩ := Option.ite_none_right_eq_some.1 h
  exact ⟨id, hid, hfd, (Option.some.inj h).symm⟩

theorem act_connected {id : Nat} (h : t.act (.connected id) = some t') :
    ∃ c, t.pool.waiting id = some (.connect c) ∧ c ∈ t.direct ∧ (t.pool.conn c).fd ≠ 0 ∧
      t' = { t with pool := t.pool.goOn id .out } := by
  simp only [act] at h
  split at h
  · rename_i c hw
    obtain ⟨⟨hc, hfd⟩, h⟩ := Option.ite_none_right_eq_some.1 h
    exact ⟨c, hw, hc, hfd, (Option.some.inj h).symm⟩
  · cases h

/-- What every step of a run keeps. -/
structure Inv (t : Life) : Prop where
  pool : t.pool.Inv
  families : t.pool.Families
  nodup : t.closes.Nodup
  own : t.stray = []
  /-- What has been opened is open or has been closed. -/
  closes : ∀ c, c ∈ t.closes ↔ c < t.pool.nextConn ∧ ¬t.pool.Open c
  /-- What is open has a finalizer. -/
  fin : ∀ c, t.pool.Open c → c ∈ t.pool.finalizers (t.pool.conn c).root

/-- The finalizers of the connections belong to sessions that have not been cleaned. -/
def Attended (t : Life) : Prop :=
  ∀ root c, c ∈ t.pool.finalizers root → root ≤ t.pool.nextId ∧
    (t.pool.session root).root = root ∧ t.pool.Registered root

theorem inv_start : start.Inv where
  pool := Pool.inv_start
  families := Pool.families_start
  nodup := List.nodup_nil
  own := rfl
  closes c := iff_of_false List.not_mem_nil fun h => absurd h.1 (Nat.not_lt_zero c)
  fin c h := by cases h

/-- A step that closes and opens connections. -/
theorem Inv.effect (ht : t.Inv) {s' : Pool} {closed : List Nat} {opened cached : Option Nat}
    (he : t.pool.Effect s' closed opened cached) (hs' : s'.Inv) (hf : s'.Families)
    (hc : ∀ c ∈ closed, t.pool.Open c) (hnd : closed.Nodup)
    (ho : ∀ c ∈ opened, c = t.pool.nextConn) (direct : List Nat) :
    Inv ⟨s', direct, t.closes ++ closed, t.stray ++ closed.filter fun c => ¬t.pool.Open c⟩ where
  pool := hs'
  families := hf
  own := by
    rw [ht.own, List.nil_append, List.filter_eq_nil_iff]
    intro c hmem
    simpa using hc c hmem
  nodup := ht.nodup.append hnd fun c h h' => ((ht.closes c).1 h).2 (hc c h')
  closes c := by
    have hlt : t.pool.Open c → c < t.pool.nextConn := fun h => (ht.pool.sock _ c h).1
    rw [List.mem_append, ht.closes, he.isOpen, he.nextConn]
    cases opened with
    | none =>
      have := hc c
      simp
      tauto
    | some c' =>
      obtain rfl := ho c' rfl
      have := hc c
      -- A connection with the next number has been neither open nor closed.
      have hnext : ¬t.pool.Open t.pool.nextConn := fun h =>
        Nat.lt_irrefl _ (ht.pool.sock _ _ h).1
      by_cases heq : c = t.pool.nextConn
      · subst heq
        simp
        tauto
      · have hle : c < t.pool.nextConn + 1 ↔ c < t.pool.nextConn := by omega
        simp [Ne.symm heq, hle]
        tauto
  fin c h := by
    rcases (he.isOpen c).1 h with ⟨h, hnot⟩ | hop
    · -- An open connection was open before, and keeps its finalizer, or is new and has one.
      by_cases hop : c ∈ opened
      · exact (he.finalizers _ c).2 (.inr ⟨hop, rfl⟩)
      · rw [he.root c hop]
        exact (he.finalizers _ c).2 (.inl ⟨ht.fin c h, hnot⟩)
    · exact (he.finalizers _ c).2 (.inr ⟨hop, rfl⟩)

/-- Where a session acts in time, its action is timely. -/
theorem InTime.timely {a : Pool.Act} (h : InTime t (.pool a)) : t.pool.Timely a := by
  cases a <;> first | exact trivial | exact h

/-- Every step in time keeps the invariant, and does not end the process. -/
theorem Inv.step (ht : t.Inv) (hP : ∀ b, a = .pool b → t.pool.Timely b)
    (h : sys.step t a = some t') : t'.Inv ∧ (t'.pool.exited = true → a = .pool .exit) := by
  obtain ⟨hex, h⟩ := Option.ite_none_left_eq_some.1 h
  have hex' {s' : Pool} (he : s'.exited = t.pool.exited) : s'.exited = true → a = .pool .exit :=
    fun h => absurd (he.symm.trans h) hex
  cases a with
  | pool a =>
    obtain ⟨-, s', hs', rfl⟩ := act_pool h
    have hT := hP a rfl
    by_cases ha : a = .exit
    · subst ha
      obtain rfl := Option.some.inj hs'
      simp only [Pool.closing, List.append_nil, List.filter_nil]
      exact ⟨⟨ht.pool.act hT hs', (ht.families.act hs').1, ht.nodup, ht.own, ht.closes, ht.fin⟩,
        fun _ => trivial⟩
    · obtain ⟨he, hc, hnd⟩ := Pool.effect_act ht.pool hT hs' ha
      exact ⟨ht.effect he (ht.pool.act hT hs') (ht.families.act hs').1 hc hnd
        (fun c ho => (Pool.mem_opening ho).1) _, hex' he.exited⟩
  | connect fd =>
    obtain ⟨id, hid, hfd, rfl⟩ := act_connect h
    have he := Pool.effect_openConn ht.pool id "" hfd
    have hI := ht.effect he (ht.pool.openConn hid hfd)
      (ht.families.stays (Pool.stays_openConn _ _ _ _) none).1 nofun List.nodup_nil
      (fun c ho => (Option.some.inj ho).symm) (t.pool.nextConn :: t.direct)
    rw [List.append_nil, List.filter_nil, List.append_nil] at hI
    exact ⟨hI, hex' rfl⟩
  | connected id =>
    obtain ⟨c, hw, -, -, rfl⟩ := act_connected h
    have he := (Pool.same_goOn t.pool id .out).effect
    have hI := ht.effect he (ht.pool.leave (Pool.waiting_eq_some.1 hw).1)
      (ht.families.stays (Pool.stays_goOn _ _ _) none).1 nofun List.nodup_nil nofun t.direct
    rw [List.append_nil, List.filter_nil, List.append_nil] at hI
    exact ⟨hI, hex' rfl⟩

/-- A new connection belongs to a family whose top-level session has not been cleaned. -/
theorem Inv.opened (ht : t.Inv) {id : Nat}
    (hreg : t.pool.Registered (t.pool.session id).root) {s' : Pool}
    (hk : t.pool.Kept s' none) : (t.pool.session id).root ≤ s'.nextId ∧
      (s'.session (t.pool.session id).root).root = (t.pool.session id).root ∧
      s'.Registered (t.pool.session id).root := by
  obtain ⟨hle, hroot⟩ := ht.families id
  exact ⟨Nat.le_trans hle hk.nextId, (hk.root _ hle).trans hroot, (hk.still hle).2 hreg⟩

/-- The connections of the finalizers stay attended as long as their sessions do not end. -/
theorem Attended.kept (ha : t.Attended) {s' : Pool} {ended : Option Nat}
    (hk : t.pool.Kept s' ended) {root c : Nat} (hc : c ∈ t.pool.finalizers root)
    (hne : root ∉ ended) : root ≤ s'.nextId ∧ (s'.session root).root = root ∧
      s'.Registered root := by
  obtain ⟨hle, hroot, hreg⟩ := ha root c hc
  exact ⟨Nat.le_trans hle hk.nextId, (hk.root root hle).trans hroot,
    (hk.registered root hle hne).2 hreg⟩

theorem Attended.step (ha : t.Attended) (ht : t.Inv) (hP : InTime t a)
    (h : sys.step t a = some t') : t'.Attended := by
  obtain ⟨-, h⟩ := Option.ite_none_left_eq_some.1 h
  intro root c hc
  cases a with
  | pool a =>
    obtain ⟨-, s', hs', rfl⟩ := act_pool h
    obtain ⟨-, hk⟩ := ht.families.act hs'
    by_cases hex : a = .exit
    · subst hex
      obtain rfl := Option.some.inj hs'
      exact ha root c hc
    · obtain ⟨he, -, -⟩ := Pool.effect_act ht.pool hP.timely hs' hex
      rcases (he.finalizers root c).1 hc with ⟨hold, hnot⟩ | ⟨hop, hroot⟩
      · -- If its top-level session ends in this step, the connection is closed in it.
        refine ha.kept hk hold fun hend => hnot ?_
        exact Pool.mem_closing hs' hend (ha root c hold).2.1 hold
      · -- A new connection: the session that opens it does so in time.
        obtain ⟨id, hid, hr⟩ := Pool.root_opening hs' hop
        obtain ⟨-, hkey, fd, rfl⟩ := Pool.mem_opening hop
        obtain rfl : (t.pool.session id).root = root := hr.symm.trans hroot
        exact ht.opened (hP id hid) hk
  | connect fd =>
    obtain ⟨id, hid, hfd, rfl⟩ := act_connect h
    have hk := (ht.families.stays (Pool.stays_openConn t.pool id "" fd) none).2
    have he := Pool.effect_openConn ht.pool id "" hfd
    rcases (he.finalizers root c).1 hc with ⟨hold, -⟩ | ⟨hop, hroot⟩
    · exact ha.kept hk hold nofun
    · obtain rfl := Option.some.inj hop
      obtain rfl : (t.pool.session id).root = root :=
        (Pool.root_openConn t.pool id "" fd).symm.trans hroot
      exact ht.opened (hP id hid) hk
  | connected id =>
    obtain ⟨_, -, -, -, rfl⟩ := act_connected h
    exact ha.kept (ht.families.stays (Pool.stays_goOn t.pool id .out) none).2 hc nofun

/-- Where no session opens a connection after its top-level session has been cleaned, or goes
    on with an event queued before, the sockets of a session are closed once, when it is
    cleaned at the latest. -/
theorem accounted_of_reachable (h : sys.ReachableBy InTime t) : t.Accounted := by
  obtain ⟨ht, ha⟩ : t.Inv ∧ t.Attended := by
    refine h.invariant (I := fun t => t.Inv ∧ t.Attended) ?_ fun _ ⟨ht, ha⟩ hP hs =>
      ⟨(ht.step (fun b hb => (hb ▸ hP).timely) hs).1, ha.step ht hP hs⟩
    rintro _ rfl
    exact ⟨inv_start, fun _ _ h => absurd h List.not_mem_nil⟩
  constructor
  case once => exact ht.nodup
  case closed =>
    intro c hc
    have hno := ((ht.closes c).1 hc).2
    exact ⟨hno, fun key fd => ⟨fun h => hno (ht.pool.free key fd c h).1.isOpen,
      fun h => hno (ht.pool.busy key fd c h).isOpen⟩⟩
  case own => exact ht.own
  case cleaned =>
    intro c hc hreg
    exact (ht.closes c).2 ⟨hc, fun ho => hreg (ha _ c (ht.fin c ho)).2.2⟩

/-- A session with two children, one of which opens a connection in `http`, whose
    server closes it, and the other one by calling `connect`. -/
theorem accounted_of_reachable_children : ∃ t : Life, t.closes = [0, 1] ∧
    ¬t.pool.Registered 1 ∧ t.Accounted := by
  obtain ⟨t, hrun, ht⟩ := System.exists_run_of_execBy sys InTime start
    [.pool .spawn, .pool .start, .pool .fetch, .pool (.parallel 2), .pool .fetch,
      .pool (.connect "10.0.0.1:80" 5), .pool .fetch, .connect 6, .pool .done,
      .pool (.event 2), .pool .start, .pool .fetch, .pool (.connected 2), .pool (.send .all),
      .pool .done, .pool (.event 2), .pool (.event 3), .pool .start,
      .pool .fetch, .pool (.received 2 (.done false)), .pool (.finish []),
      .pool .fetch, .connected 3, .pool (.plan 1), .pool (.finish []),
      .pool .fetch, .pool (.finish [1])]
    (fun t => decide (t.closes = [0, 1] ∧ ¬t.pool.Registered 1)) (by decide +kernel)
  obtain ⟨hcloses, hreg⟩ := of_decide_eq_true ht
  exact ⟨t, hcloses, hreg, accounted_of_reachable (.run (.init rfl) hrun)⟩

/-- A session is shut down before its child, which catches the `STOP`, opens a
    connection, and ends: the socket stays open. -/
theorem late_not_accounted : ∃ t : Life, sys.Reachable t ∧ ¬t.Accounted := by
  obtain ⟨t, hrun, ht⟩ := System.exists_run_of_exec sys start
    [.pool .spawn, .pool .start, .pool .fetch, .pool (.parallel 1), .pool .fetch,
      .pool (.connect "10.0.0.1:80" 5), .pool .done, .pool (.shutDown [1, 2]), .pool .start,
      .pool .fetch, .pool (.finish [0]), .pool .fetch, .pool (.stop 2),
      .pool (.connect "10.0.0.1:80" 5), .pool .done, .pool (.event 2), .pool .start,
      .pool .fetch, .pool (.stop 2), .pool (.finish [])]
    (fun t => decide (t.closes = [0] ∧ t.pool.nextConn = 2 ∧ (t.pool.conn 1).root = 1 ∧
      ¬t.pool.Registered 1)) (by decide +kernel)
  obtain ⟨hcloses, hnext, hroot, hreg⟩ := of_decide_eq_true ht
  refine ⟨t, .run (.init rfl) hrun, fun hacc => ?_⟩
  have hmem := hacc.cleaned 1 (by omega) (by rwa [hroot])
  simp [hcloses] at hmem

end Life

end Mistress
