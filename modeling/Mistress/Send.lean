import Mistress.Control

/-!
# Sending

`Session:send` sends a string over a socket that may be full: `lua_mistress_send` sends
what the kernel takes, and sets up a watcher for when it takes no more; the session then
yields, and calls it again with the new position. `Sender.step` says what a call does when
the kernel answers and when the session is resumed.

* `delivered_of_reachable`: what the kernel has accepted is a prefix of the string, and all of
  it when the call returns, of which no watcher is left;
* `exists_run_returned`: a call that has not ended returns once the kernel takes the rest;
* `exec_sendLoop`: `sendLoop` is what the first `lua_mistress_send` of a call does.
-/

open LuaStack

namespace Mistress

open Transition

/-- A string of LuaJIT, which is shorter than `LJ_MAX_STR`. -/
abbrev ByteString := { b : Bytes // b.length < 2147483392 }

/-- A 64-bit `size_t`. -/
def asSize (n : ℤ) : ℤ := n % 18446744073709551616

/-- A 64-bit `ssize_t`. -/
def asSsize (n : ℤ) : ℤ := n.bmod 18446744073709551616

/-- An `int` -/
def asInt (n : ℤ) : ℤ := n.bmod 4294967296

def EPIPE : ℕ := 32

namespace Sender

/-- Where a call of `Session:send` stands. -/
inductive Place
  /-- In the loop of `lua_mistress_send`, called with `pos`. -/
  | sending (pos totalSent bytesLeft : ℤ)
  /-- It has yielded. -/
  | waiting (pos sentLen : ℤ) (watcher : ℕ)
  | returned (errno : Option ℕ)
  /-- An assertion has failed, or `STOP` is raised. -/
  | raised
  /-- The process has exited. -/
  | exited
  /-- Beyond the end of the string. -/
  | fault
  deriving DecidableEq

/-- A call of `Session:send`, with the watchers created on the way. -/
structure Call where
  place : Place
  /-- History: the bytes accepted by the kernel. -/
  accepted : Bytes
  /-- The watchers that are active. -/
  active : List ℕ
  /-- The watchers in `_finalizers`. -/
  finalizers : List ℕ
  /-- The number of the watchers created so far. -/
  created : ℕ
  deriving DecidableEq

/-- What happens to a call. -/
inductive Act
  /-- `send(2)` answers. -/
  | answer (a : Answer)
  /-- The session is resumed, by `cb_send_timeout` or not, and told to shut down or not. -/
  | resume (timeout gonnaShutDown : Bool)

variable (data : ByteString) (coroutineId : ℕ)

/-- The head of the loop of `lua_mistress_send`. -/
def loop (pos totalSent bytesLeft : ℤ) : Place :=
  if asSize totalSent < data.1.length then .sending pos totalSent bytesLeft else .returned none

/-- A call of `mistress.send`. -/
def call (pos : ℤ) : Place :=
  loop data pos (asInt pos) (asSsize (data.1.length - asInt pos))

/-- The bytes of the string the kernel finds. -/
def region (totalSent : ℤ) (n : ℕ) : Option Bytes :=
  if 0 ≤ totalSent ∧ totalSent + n ≤ data.1.length then
    some ((data.1.drop totalSent.toNat).take n)
  else none

/-- `Session:send`, when it is called. -/
def start : Call := ⟨call data 0, [], [], [], 0⟩

/-- What a call of `Session:send` does. -/
def step (c : Call) : Act → Option Call
  | .answer a =>
    match c.place with
    | .sending pos totalSent bytesLeft =>
      match a with
      | .taken n =>
        if n ≤ asSize bytesLeft then
          match region data totalSent n with
          | some b => some { c with
              place := loop data pos (totalSent + n) (bytesLeft - n)
              accepted := c.accepted ++ b }
          -- The kernel would read beyond the string.
          | none => some { c with place := .fault }
        else none
      | .again =>
        if 0 < coroutineId then some { c with
          place := .waiting pos (totalSent - asInt pos) c.created
          active := c.created :: c.active
          finalizers := c.created :: c.finalizers
          created := c.created + 1 }
        -- `assert(coroutine_id > 0)`
        else some { c with place := .exited }
      | .pipe => some { c with place := .returned (some EPIPE) }
      | .error => some { c with place := .exited }
    | _ => none
  | .resume timeout gonnaShutDown =>
    match c.place with
    | .waiting pos sentLen watcher =>
      -- The assertion on the timeout, or `STOP`. The watcher is left to the finalizers.
      if timeout ∨ gonnaShutDown then some { c with place := .raised }
      else
        let pos := pos + sentLen
        some { c with
          place := if pos = data.1.length then .returned none else call data pos
          active := c.active.erase watcher
          finalizers := c.finalizers.erase watcher }
    | _ => none

/-- Calls of `Session:send` -/
def sys : System Call Act where
  init c := c = start data
  step := step data coroutineId

variable {data} {coroutineId} {c c' : Call}

/-! ## The invariant -/

/-- What holds at each place: the variables of both loops agree with what the kernel has
    accepted. -/
inductive Fits (data : ByteString) (c : Call) : Prop
  | sending (pos : ℤ) : c.place = .sending pos c.accepted.length
      (data.1.length - c.accepted.length) → 0 ≤ pos → pos ≤ c.accepted.length →
      c.accepted.length < data.1.length → c.active = [] → c.finalizers = [] → Fits data c
  | waiting (pos sentLen : ℤ) (w : ℕ) : c.place = .waiting pos sentLen w → 0 ≤ pos →
      pos + sentLen = c.accepted.length → c.accepted.length < data.1.length →
      c.active = [w] → c.finalizers = [w] → Fits data c
  | returned : c.place = .returned none → c.accepted = data.1 → c.active = [] →
      c.finalizers = [] → Fits data c
  | broken : c.place = .returned (some EPIPE) → c.active = [] → c.finalizers = [] → Fits data c
  | ended : c.place = .raised ∨ c.place = .exited → Fits data c

/-- The invariant of a call. -/
structure Inv (data : ByteString) (c : Call) : Prop where
  accepted : c.accepted <+: data.1
  fits : Fits data c

theorem asInt_of_bounds {n : ℤ} (h₀ : 0 ≤ n) (h₁ : n < 2147483648) : asInt n = n :=
  Int.bmod_eq_of_le (by omega) (by omega)

theorem asSsize_of_bounds {n : ℤ} (h₀ : 0 ≤ n) (h₁ : n < 2147483648) : asSsize n = n :=
  Int.bmod_eq_of_le (by omega) (by omega)

theorem asSize_of_bounds {n : ℤ} (h₀ : 0 ≤ n) (h₁ : n < 2147483648) : asSize n = n :=
  Int.emod_eq_of_lt h₀ (by omega)

/-- The head of the loop, after the first bytes have been accepted. -/
theorem fits_loop {pos : ℤ} {accepted : Bytes} {n : ℕ} (hacc : accepted <+: data.1) (h₀ : 0 ≤ pos)
    (hpos : pos ≤ accepted.length) : Inv data ⟨loop data pos accepted.length
      (data.1.length - accepted.length), accepted, [], [], n⟩ := by
  refine ⟨hacc, ?_⟩
  have hlen := hacc.length_le
  have hdata := data.2
  rw [loop, asSize_of_bounds (by omega) (by omega)]
  split_ifs with h
  · exact .sending pos rfl h₀ hpos (by simpa using h) rfl rfl
  · exact .returned rfl (hacc.eq_of_length (by simpa using by omega)) rfl rfl

/-- A call of `mistress.send` at the position reached. -/
theorem inv_call {accepted : Bytes} {n : ℕ} (hacc : accepted <+: data.1) :
    Inv data ⟨call data accepted.length, accepted, [], [], n⟩ := by
  have hlen := hacc.length_le
  have hdata := data.2
  rw [call, asInt_of_bounds (by omega) (by omega), asSsize_of_bounds (by omega) (by omega)]
  exact fits_loop hacc (by omega) (Int.le_refl _)

theorem inv_start : Inv data (start data) := @inv_call data [] 0 List.nil_prefix

/-! ## What a step does -/

/-- The place of a call in the loop. -/
theorem Inv.sending (h : Inv data c) {pos totalSent bytesLeft : ℤ}
    (hplace : c.place = .sending pos totalSent bytesLeft) :
    totalSent = c.accepted.length ∧ bytesLeft = data.1.length - c.accepted.length ∧ 0 ≤ pos ∧
      pos ≤ c.accepted.length ∧ c.accepted.length < data.1.length ∧ c.active = [] ∧
      c.finalizers = [] := by
  cases h.fits with
  | sending pos hp h₀ hpos hlt hactive hfin =>
    obtain ⟨rfl, rfl, rfl⟩ := Place.sending.inj (hplace.symm.trans hp)
    exact ⟨rfl, rfl, h₀, hpos, hlt, hactive, hfin⟩
  -- At the other places the call is not in the loop.
  | waiting _ _ _ hp | returned hp | broken hp => rw [hp] at hplace; cases hplace
  | ended hp => rcases hp with hp | hp <;> (rw [hp] at hplace; cases hplace)

/-- The bytes the kernel takes of those that are left. -/
def next (data : ByteString) (c : Call) (n : ℕ) : Bytes :=
  c.accepted ++ (data.1.drop c.accepted.length).take n

theorem prefix_next (hacc : c.accepted <+: data.1) (n : ℕ) : next data c n <+: data.1 := by
  obtain ⟨rest, hrest⟩ := hacc
  rw [next, ← hrest, List.drop_left, List.prefix_append_right_inj]
  exact List.take_prefix _ _

/-- The kernel takes some of the bytes that are left. -/
theorem step_taken (coroutineId : ℕ) (h : Inv data c) {pos totalSent bytesLeft : ℤ}
    (hplace : c.place = .sending pos totalSent bytesLeft) {n : ℕ} :
    step data coroutineId c (.answer (.taken n)) =
      if c.accepted.length + n ≤ data.1.length then some { c with
        place := loop data pos (next data c n).length (data.1.length - (next data c n).length)
        accepted := next data c n }
      else none := by
  obtain ⟨rfl, rfl, h₀, hpos, hlt, -, -⟩ := h.sending hplace
  have hdata := data.2
  have hleft : asSize (data.1.length - c.accepted.length) = data.1.length - c.accepted.length :=
    asSize_of_bounds (by omega) (by omega)
  simp only [step, hplace, hleft]
  by_cases hn : c.accepted.length + n ≤ data.1.length
  · -- The bytes the kernel finds are those that come next in the string.
    have hregion : region data c.accepted.length n =
        some ((data.1.drop c.accepted.length).take n) := by
      rw [region, if_pos ⟨by omega, by omega⟩, Int.toNat_natCast]
    have hlength : (next data c n).length = c.accepted.length + n := by
      rw [next, List.length_append, List.length_take, List.length_drop]
      omega
    rw [if_pos hn, if_pos (by omega), hregion, hlength, Nat.cast_add, Int.sub_sub]
    rfl
  · rw [if_neg hn, if_neg (by omega)]

theorem Inv.taken (h : Inv data c) {pos totalSent bytesLeft : ℤ}
    (hplace : c.place = .sending pos totalSent bytesLeft) {n : ℕ}
    (hs : step data coroutineId c (.answer (.taken n)) = some c') : Inv data c' := by
  obtain ⟨-, -, h₀, hpos, -, hactive, hfin⟩ := h.sending hplace
  rw [step_taken coroutineId h hplace] at hs
  split_ifs at hs
  obtain rfl := Option.some.inj hs
  simp only [hactive, hfin]
  refine fits_loop (prefix_next h.accepted n) h₀ ?_
  rw [next, List.length_append]
  omega

/-- The kernel takes no more for now. -/
theorem Inv.again (h : Inv data c) {pos totalSent bytesLeft : ℤ}
    (hplace : c.place = .sending pos totalSent bytesLeft)
    (hs : step data coroutineId c (.answer .again) = some c') : Inv data c' := by
  obtain ⟨rfl, rfl, h₀, hpos, hlt, hactive, hfin⟩ := h.sending hplace
  have hdata := data.2
  simp only [step, hplace] at hs
  split_ifs at hs
  · obtain rfl := Option.some.inj hs
    -- The position to go on from is the number of bytes that have been accepted.
    have hsent : pos + (c.accepted.length - asInt pos) = c.accepted.length := by
      rw [asInt_of_bounds h₀ (by omega)]
      omega
    exact ⟨h.accepted,
      .waiting pos _ c.created rfl h₀ hsent hlt (by simp [hactive]) (by simp [hfin])⟩
  · obtain rfl := Option.some.inj hs
    exact ⟨h.accepted, .ended (.inr rfl)⟩

/-- The peer is gone: the error number is returned. -/
theorem Inv.pipe (h : Inv data c) (hs : step data coroutineId c (.answer .pipe) = some c') :
    Inv data c' ∧ c'.place = .returned (some EPIPE) ∧ c'.accepted = c.accepted := by
  obtain ⟨hacc, hfits⟩ := h
  cases hfits with
  | sending pos hp h₀ hpos hlt hactive hfin =>
    simp only [step, hp, Option.some.injEq] at hs
    subst hs
    exact ⟨⟨hacc, .broken rfl hactive hfin⟩, rfl, rfl⟩
  | waiting _ _ _ hp | returned hp | broken hp => simp [step, hp] at hs
  | ended hp => rcases hp with hp | hp <;> simp [step, hp] at hs

/-- The session is resumed. -/
theorem Inv.resume (h : Inv data c) {timeout gonnaShutDown : Bool}
    (hs : step data coroutineId c (.resume timeout gonnaShutDown) = some c') : Inv data c' := by
  obtain ⟨hacc, hfits⟩ := h
  cases hfits with
  | waiting pos sentLen w hp h₀ hpos hlt hactive hfin =>
    simp only [step, hp] at hs
    split_ifs at hs
    · obtain rfl := Option.some.inj hs
      exact ⟨hacc, .ended (.inl rfl)⟩
    · -- The string is not complete yet, or there would have been no need to wait.
      omega
    · obtain rfl := Option.some.inj hs
      simp only [hactive, hfin, List.erase_cons_head, hpos]
      exact inv_call hacc
  | sending _ hp | returned hp | broken hp => simp [step, hp] at hs
  | ended hp => rcases hp with hp | hp <;> simp [step, hp] at hs

theorem Inv.step (h : Inv data c) {a : Act} (hs : step data coroutineId c a = some c') :
    Inv data c' := by
  cases a with
  | resume timeout gonnaShutDown => exact h.resume hs
  | answer a =>
    cases hplace : c.place with
    | sending pos totalSent bytesLeft =>
      cases a with
      | taken n => exact h.taken hplace hs
      | again => exact h.again hplace hs
      | pipe => exact (h.pipe hs).1
      | error =>
        simp only [Sender.step, hplace, Option.some.injEq] at hs
        subst hs
        exact ⟨h.accepted, .ended (.inr rfl)⟩
    | waiting | returned | raised | exited | fault => simp [Sender.step, hplace] at hs

theorem inv_of_reachable (h : (sys data coroutineId).Reachable c) : Inv data c :=
  h.invariant (fun hc => Eq.subst (Eq.symm hc) inv_start) fun _ hI _ hs => hI.step hs

/-! ## Delivery -/

/-- A call delivers the string **exactly**. -/
structure Exact (data : ByteString) (coroutineId : ℕ) (c : Call) : Prop where
  accepted : c.accepted <+: data.1
  /-- All of it is accepted when the call returns `nil`. -/
  complete : c.place = .returned none → c.accepted = data.1
  /-- No watcher is left when it returns. -/
  watchers : ∀ errno, c.place = .returned errno → c.active = [] ∧ c.finalizers = []
  /-- It returns the error number when the peer is gone. -/
  broken : ∀ c', step data coroutineId c (.answer .pipe) = some c' →
    c'.place = .returned (some EPIPE) ∧ c'.accepted = c.accepted
  /-- It returns nothing else. -/
  errno : ∀ errno, c.place = .returned errno → errno = none ∨ errno = some EPIPE
  /-- The kernel never reads beyond the string. -/
  inside : c.place ≠ .fault

theorem Inv.exact (h : Inv data c) : Exact data coroutineId c := by
  refine ⟨h.accepted, ?_, ?_, fun c' hs => (h.pipe hs).2, ?_, ?_⟩
  all_goals
    cases h.fits with
    | sending _ hp | waiting _ _ _ hp => simp [hp]
    | returned hp hacc hactive hfin => simp [hp, hacc, hactive, hfin]
    | broken hp hactive hfin => simp [hp, hactive, hfin]
    | ended hp => rcases hp with hp | hp <;> simp [hp]

/-- Whatever the kernel answers, in every state a call of `Session:send` reaches, the string
    is delivered **exactly**. -/
theorem delivered_of_reachable (data : ByteString) (coroutineId : ℕ) (c : Call)
    (h : (sys data coroutineId).Reachable c) : Exact data coroutineId c :=
  (inv_of_reachable h).exact

/-- Three bytes. -/
def abc : ByteString := ⟨[97, 98, 99], by decide⟩

/-- The socket is full after the first of them. -/
theorem delivered_of_reachable_abc : Exact abc 1 ⟨.returned none, [97, 98, 99], [], [], 1⟩ :=
  delivered_of_reachable abc 1 _ (System.reachable_of_exec
    [.answer (.taken 1), .answer .again, .resume false false, .answer (.taken 2)] rfl
    (by decide +kernel))

/-! ## Returning -/

/-- The kernel takes all of the bytes that are left. -/
theorem takes_rest (coroutineId : ℕ) (h : Inv data c) {pos totalSent bytesLeft : ℤ}
    (hplace : c.place = .sending pos totalSent bytesLeft) : ∃ c',
    (sys data coroutineId).step c (.answer (.taken (data.1.length - c.accepted.length))) =
      some c' ∧ c'.place = .returned none := by
  obtain ⟨-, -, -, -, hlt, -, -⟩ := h.sending hplace
  have hall : next data c (data.1.length - c.accepted.length) = data.1 := by
    obtain ⟨rest, hrest⟩ := h.accepted
    rw [next, ← hrest, List.drop_left, List.length_append, Nat.add_sub_cancel_left, List.take_length]
  have hloop : loop data pos data.1.length (data.1.length - data.1.length) = .returned none := by
    rw [loop, asSize_of_bounds (by omega) (by have := data.2; omega), if_neg (Int.lt_irrefl _)]
  have hs := step_taken coroutineId h hplace
    (n := data.1.length - c.accepted.length)
  rw [if_pos (by omega), hall, hloop] at hs
  exact ⟨_, hs, rfl⟩

/-- The session is resumed by a writable event. -/
theorem calls_again (coroutineId : ℕ) (h : Inv data c) {pos sentLen : ℤ} {w : ℕ}
    (hplace : c.place = .waiting pos sentLen w) : ∃ c',
    (sys data coroutineId).step c (.resume false false) = some c' ∧
      ∃ pos totalSent bytesLeft, c'.place = .sending pos totalSent bytesLeft := by
  have hdata := data.2
  cases h.fits with
  | waiting pos sentLen w hp h₀ hpos hlt hactive hfin =>
    -- Some of the string is left, so that the new call enters its loop.
    have hcall : call data c.accepted.length = .sending c.accepted.length c.accepted.length
        (data.1.length - c.accepted.length) := by
      rw [call, asInt_of_bounds (by omega) (by omega), asSsize_of_bounds (by omega) (by omega),
        loop, asSize_of_bounds (by omega) (by omega), if_pos (by omega)]
    have hmore : (c.accepted.length : ℤ) ≠ data.1.length := by omega
    simp only [sys, step, hp, hpos, Bool.false_eq_true, or_self, if_false, hmore, hcall]
    exact ⟨_, rfl, _, _, _, rfl⟩
  | sending _ hp | returned hp | broken hp => rw [hp] at hplace; cases hplace
  | ended hp => rcases hp with hp | hp <;> (rw [hp] at hplace; cases hplace)

/-- A call that has not ended can be completed: it returns once the kernel takes the rest
    of the string. -/
theorem exists_run_returned (h : (sys data coroutineId).Reachable c)
    (hplace : (∃ pos totalSent bytesLeft, c.place = .sending pos totalSent bytesLeft) ∨
      ∃ pos sentLen w, c.place = .waiting pos sentLen w) :
    ∃ as c', (sys data coroutineId).Run (fun _ _ => True) c as c' ∧ c'.place = .returned none := by
  have hinv := inv_of_reachable h
  rcases hplace with ⟨_, _, _, hp⟩ | ⟨_, _, _, hp⟩
  · obtain ⟨c', hs, hp'⟩ := takes_rest coroutineId hinv hp
    exact ⟨_, c', .single trivial hs, hp'⟩
  · obtain ⟨c₁, hs₁, _, _, _, hp₁⟩ := calls_again coroutineId hinv hp
    obtain ⟨c', hs, hp'⟩ := takes_rest coroutineId (inv_of_reachable (.step h trivial hs₁)) hp₁
    exact ⟨_, c', .cons trivial hs₁ (.single trivial hs), hp'⟩

/-! ## The first call of `lua_mistress_send` -/

/-- Where a call stands when `lua_mistress_send` has ended as given. -/
def Ends : Sending → Place → Prop
  | .done, p => p = .returned none
  | .full, p => ∃ pos sentLen w, p = .waiting pos sentLen w
  | .broken, p => p = .returned (some EPIPE)
  | .exited, p => p = .exited

/-- What the head of the loop does, in terms of what has been accepted. -/
theorem loop_accepted {pos : ℤ} (h : c.accepted <+: data.1) :
    loop data pos c.accepted.length (data.1.length - c.accepted.length) =
      if c.accepted.length < data.1.length then
        .sending pos c.accepted.length (data.1.length - c.accepted.length)
      else .returned none := by
  have hlen := h.length_le
  have hdata := data.2
  rw [loop, asSize_of_bounds (by omega) (by omega)]
  exact if_congr Int.ofNat_lt rfl rfl

/-- An answer after which `lua_mistress_send` ends. -/
theorem step_last {pos totalSent bytesLeft : ℤ} (hplace : c.place = .sending pos totalSent bytesLeft)
    {a : Answer} {r : Sending} {n : ℕ} (ha : ∀ k, a ≠ .taken k)
    (hl : sendLoop coroutineId data.1.length c.accepted.length [a] = some (r, n)) :
    n = c.accepted.length ∧ ∃ c', step data coroutineId c (.answer a) = some c' ∧
      c'.accepted = c.accepted ∧ Ends r c'.place := by
  cases a with
  | taken k => exact absurd rfl (ha k)
  | again =>
    simp only [sendLoop, step, hplace] at hl ⊢
    split_ifs at hl ⊢ with hlt hid
    all_goals
      obtain ⟨rfl, rfl⟩ := Prod.mk.inj (Option.some.inj hl)
      exact ⟨rfl, _, rfl, rfl, by simp [Ends]⟩
  | pipe | error =>
    simp only [sendLoop, step, hplace] at hl ⊢
    split_ifs at hl
    obtain ⟨rfl, rfl⟩ := Prod.mk.inj (Option.some.inj hl)
    exact ⟨rfl, _, rfl, rfl, rfl⟩

/-- The answers `sendLoop` goes through are taken by the call, with the same outcome. -/
theorem exec_sendLoop {pos : ℤ} {answers : List Answer} {r : Sending} {n : ℕ} (h : Inv data c)
    (hplace : c.place = loop data pos c.accepted.length (data.1.length - c.accepted.length))
    (hl : sendLoop coroutineId data.1.length c.accepted.length answers = some (r, n)) :
    ∃ c', (sys data coroutineId).exec c (answers.map .answer) = some c' ∧
      c'.accepted = data.1.take n ∧ Ends r c'.place := by
  induction answers generalizing c with
  | nil =>
    rw [sendLoop] at hl
    split_ifs at hl with hlt
    obtain ⟨rfl, rfl⟩ := Prod.mk.inj (Option.some.inj hl)
    rw [loop_accepted h.accepted, if_neg hlt] at hplace
    exact ⟨c, rfl, List.prefix_iff_eq_take.1 h.accepted, hplace⟩
  | cons a answers ih =>
    rw [loop_accepted h.accepted] at hplace
    by_cases ha : ∃ k, a = .taken k
    · obtain ⟨k, rfl⟩ := ha
      rw [sendLoop] at hl
      split_ifs at hl with hk
      rw [if_pos hk.1] at hplace
      -- The kernel takes some bytes, and the loop goes on.
      have hs := step_taken coroutineId h hplace (n := k)
      rw [if_pos (by omega)] at hs
      have hlength : (next data c k).length = c.accepted.length + k := by
        rw [next, List.length_append, List.length_take, List.length_drop]
        omega
      obtain ⟨c', hexec, hc'⟩ := ih (h.taken hplace hs) rfl (by rwa [hlength])
      exact ⟨c', Option.bind_eq_some_iff.2 ⟨_, hs, hexec⟩, hc'⟩
    · replace ha : ∀ k, a ≠ .taken k := fun k hk => ha ⟨k, hk⟩
      -- Any other answer is the last one.
      have hlast : c.accepted.length < data.1.length ∧ answers = [] := by
        by_contra hnot
        cases a with
        | taken k => exact ha k rfl
        | again | pipe | error => simp [sendLoop, hnot] at hl
      obtain ⟨hlt, rfl⟩ := hlast
      rw [if_pos hlt] at hplace
      obtain ⟨rfl, c', hs, hacc, hends⟩ := step_last hplace ha hl
      refine ⟨c', Option.bind_eq_some_iff.2 ⟨_, hs, rfl⟩, ?_, hends⟩
      rw [hacc]
      exact List.prefix_iff_eq_take.1 h.accepted

end Sender

end Mistress
