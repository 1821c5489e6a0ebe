import Mathlib.Logic.Function.Basic

/-!
# Operations

The operations in which the coroutine of a session gives control up, up to what
they do when the session is resumed: each looks at the flag `_gonna_shut_down`
and at the values it is resumed with, and then raises an error, goes on waiting,
or returns to the code of the session (`Reply`).

Five of the operations wait for an event, with a watcher of their own; `parallel`
waits for other sessions, and `cooperate` for the next pass.

* `reply_of_flag`: with the flag set an operation raises `STOP`, except that
  `accept` and `send` assert what they are resumed with first.
-/

namespace Mistress

/-- What a watcher waits for. A connection is named by the handle of the watcher
    it was opened with; other sockets, as those accepted, are not named. -/
inductive WatcherKind
  /-- `mistress.sleep` -/
  | sleep
  /-- `mistress.receive` -/
  | receive (conn : Option Nat)
  /-- `mistress.connect` -/
  | connect
  /-- `mistress.send`, the socket being full -/
  | send (conn : Option Nat)
  /-- `mistress.accept` -/
  | accept
  deriving DecidableEq

/-- The values a session is resumed with. -/
inductive Wake
  /-- No values: `cb_sleep`, `cb_send_ready`, and the calls of `plan_resume` in Lua. -/
  | nothing
  /-- `true`: `cb_send_timeout`. -/
  | timeout
  /-- A file descriptor and a time: `cb_connect`. -/
  | connected
  /-- `0`, and an error number if any: `cb_connect`, `cb_connect_timeout`. -/
  | refused
  /-- `false` and a message: `cb_recv`, `cb_recv_timeout`. -/
  | failed
  /-- A result with `closed`: `cb_recv`. -/
  | closed
  /-- A result with `parse_failed`: `cb_recv`. -/
  | parseFailed
  /-- A result without `is_done`: `cb_recv`. -/
  | part
  /-- A result with `is_done`: `cb_recv`. -/
  | done
  /-- That many file descriptors: `cb_accept`. -/
  | accepted (n : Nat)
  deriving DecidableEq

/-- The number of the values. -/
def Wake.count : Wake → Nat
  | .nothing => 0
  | .timeout | .closed | .parseFailed | .part | .done => 1
  | .connected | .refused | .failed => 2
  | .accepted n => n

/-- Whether the first of the values is true, in the sense of Lua. -/
def Wake.truthy : Wake → Bool
  | .nothing | .failed | .accepted 0 => false
  | _ => true

/-- The values the callbacks of a watcher pass on. -/
def WatcherKind.Passes : WatcherKind → Wake → Prop
  | .sleep, w => w = .nothing
  | .receive _, w => w = .failed ∨ w = .closed ∨ w = .parseFailed ∨ w = .part ∨ w = .done
  | .connect, w => w = .connected ∨ w = .refused
  | .send _, w => w = .nothing ∨ w = .timeout
  | .accept, w => ∃ n, w = .accepted n

instance (k : WatcherKind) (w : Wake) : Decidable (k.Passes w) :=
  match k, w with
  | .accept, .accepted n => .isTrue ⟨n, rfl⟩
  | .accept, .nothing | .accept, .timeout | .accept, .connected | .accept, .refused
  | .accept, .failed | .accept, .closed | .accept, .parseFailed | .accept, .part
  | .accept, .done => .isFalse (by rintro ⟨n, h⟩; cases h)
  | .sleep, w => inferInstanceAs (Decidable (w = _))
  | .receive _, w => inferInstanceAs (Decidable (w = _ ∨ w = _ ∨ w = _ ∨ w = _ ∨ w = _))
  | .connect, w | .send _, w => inferInstanceAs (Decidable (w = _ ∨ w = _))

/-- The operation a session is suspended in. -/
inductive Op
  /-- One that waits for an event, with a watcher. -/
  | watch (kind : WatcherKind) (handle : Nat)
  /-- `Session:parallel` -/
  | parallel (join : Nat)
  /-- `Uthread:cooperate` -/
  | cooperate
  deriving DecidableEq

/-- What an operation does when its session is resumed. -/
inductive Reply
  /-- It raises `STOP`. -/
  | stop
  /-- It raises another error. -/
  | error
  /-- It goes on waiting, with the same watcher. -/
  | wait
  /-- It returns, its watcher being destroyed and no longer a finalizer if
      `destroys`, and the connection being closed if `closes`. -/
  | ret (destroys closes : Bool)
  deriving DecidableEq

/-- `Uthread:sleep` -/
def sleepReply (gonnaShutDown : Bool) (_ : Wake) : Reply :=
  if gonnaShutDown then .stop else .ret true false

/-- `Session:receive` -/
def receiveReply (gonnaShutDown : Bool) (res : Wake) : Reply :=
  if gonnaShutDown then .stop
  else if ¬res.truthy then .ret true false
  else match res with
    -- The watcher is neither destroyed nor removed from the finalizers. What was
    -- received is dumped to a file.
    | .closed | .parseFailed => .ret false false
    | .part => .wait
    | .done => .ret true false
    -- A field of a number or of a boolean.
    | _ => .error

/-- `Session:connect` -/
def connectReply (gonnaShutDown : Bool) (fd : Wake) : Reply :=
  if gonnaShutDown then .stop else .ret true (fd = .refused)

/-- `Session:send`, up to the next call of `mistress.send` -/
def sendReply (gonnaShutDown : Bool) (timedOut : Wake) : Reply :=
  if timedOut.truthy then .error
  else if gonnaShutDown then .stop
  else .ret true false

/-- `Session:accept` -/
def acceptReply (gonnaShutDown : Bool) (fds : Wake) : Reply :=
  if ¬fds.count > 0 then .error
  else if gonnaShutDown then .stop
  else .ret true false

/-- `Session:parallel` -/
def parallelReply (gonnaShutDown : Bool) (_ : Wake) : Reply :=
  if gonnaShutDown then .stop else .ret false false

/-- `Uthread:cooperate` -/
def cooperateReply (gonnaShutDown : Bool) (_ : Wake) : Reply :=
  if gonnaShutDown then .stop else .ret false false

/-- What the operation does when its session is resumed. -/
def Op.reply : Op → Bool → Wake → Reply
  | .watch .sleep _ => sleepReply
  | .watch (.receive _) _ => receiveReply
  | .watch .connect _ => connectReply
  | .watch (.send _) _ => sendReply
  | .watch .accept _ => acceptReply
  | .parallel _ => parallelReply
  | .cooperate => cooperateReply

/-- The values the operation asserts before it looks at the flag. -/
def Op.Asserts : Op → Wake → Prop
  | .watch (.send _) _, w => w.truthy = false
  | .watch .accept _, w => 0 < w.count
  | _, _ => True

instance (op : Op) (w : Wake) : Decidable (op.Asserts w) := by
  unfold Op.Asserts
  split <;> infer_instance

/-- With the flag set an operation raises `STOP` if and only if the values meet
    what it asserts, and another error otherwise. -/
theorem reply_of_flag (op : Op) (w : Wake) :
    op.reply true w = if op.Asserts w then .stop else .error := by
  cases op with
  | parallel | cooperate => rfl
  | watch kind =>
    cases kind with
    | sleep | receive | connect => rfl
    | send =>
      simp only [Op.reply, sendReply, Op.Asserts, if_true]
      by_cases h : w.truthy = true <;> simp [h]
    | accept =>
      simp only [Op.reply, acceptReply, Op.Asserts, if_true]
      by_cases h : 0 < w.count <;> simp [h]

/-- Only a shutdown makes an operation raise `STOP`. -/
theorem reply_false_ne_stop (op : Op) (w : Wake) : op.reply false w ≠ .stop := by
  cases op with
  | parallel | cooperate => simp [Op.reply, parallelReply, cooperateReply]
  | watch kind =>
    cases kind with
    | sleep | connect => simp [Op.reply, sleepReply, connectReply]
    | receive =>
      simp only [Op.reply, receiveReply, Bool.false_eq_true, if_false]
      split
      · simp
      · split <;> simp
    | send =>
      simp only [Op.reply, sendReply]
      split <;> simp
    | accept =>
      simp only [Op.reply, acceptReply]
      split <;> simp

end Mistress
