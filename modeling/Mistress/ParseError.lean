import Mistress.ParserTrace
import Mistress.SplitInvariance

/-!
# Parse errors

What `cb_recv` passes to `plan_resume` when the first read of a response is one the
parser may reject, anywhere in it.

* `Recv.beforeCall`: the stack when `cb_recv` comes to `lua_pcall`;
* `ErrorPath`: it has the arguments of the call and nothing else, and of a rejected
  buffer `receive` makes an error;
* `errorPath_iff`: so it is unless the buffer begins with a line end, or stops or is
  rejected within the headers, which leaves arguments too many on the stack, or is
  rejected after a value of the trailer was taken for `gzip`.
-/

namespace Mistress

open LuaStack

variable {P : Parser}

/-! ## The call -/

/-- The callbacks, and what is on the stack when `cb_recv`, having received `buffer`,
    comes to `lua_pcall`, unless the process exits before. -/
def Recv.beforeCall (doFetchBody : Bool) (w : RecvWatcher P) (buffer : Bytes) (passed : Int) :
    Option Recv := do
  let stack : Stack := [.num w.coroutineId, .str "cb_recv", .fn "plan_resume"]
  let stack ← rawset 3 (.num passed :: .str "passed" :: .table [] :: stack)
  let e := P.execute w.parser buffer
  let r ← e.events.foldlM (Recv.callback doFetchBody) ⟨stack, w.headersTableIndex, false⟩
  if e.upgrade then none
  else if e.nparsed ≠ buffer.length then do
    let stack ← rawset 3 (.bool true :: .str "parse_failed" :: r.stack)
    return { r with stack := ← rawset 3 (.bytes buffer :: .str "body" :: stack) }
  else return r

/-- `cb_recv` is that, and then the call. -/
theorem cbRecv_beforeCall (doFetchBody : Bool) (w : RecvWatcher P) (buffer : Bytes) (passed : Int) :
    cbRecv doFetchBody w (.got buffer passed) = do
      let r ← Recv.beforeCall doFetchBody w buffer passed
      return (⟨w.coroutineId, (P.execute w.parser buffer).next, r.headersTableIndex⟩,
        ← callPlanResume 3 r.stack) := by
  unfold cbRecv Recv.beforeCall
  simp only [bind_assoc]
  refine congrArg _ (funext fun stack => congrArg _ (funext fun r => ?_))
  split_ifs <;> simp [Option.bind_assoc]

/-- The watcher of a `receive` that has read nothing yet. -/
def RecvWatcher.new (P : Parser) (id : Nat) : RecvWatcher P := ⟨id, P.init, 0⟩

/-- The arguments of the call, above the function. -/
def arguments (id : Nat) (res : Fields) : Stack :=
  [.table res, .num id, .str "cb_recv", .fn "plan_resume"]

/-- The parser rejects the buffer. -/
def Execution.Rejects {σ : Type} (e : Execution σ) (buffer : Bytes) : Prop :=
  e.nparsed ≠ buffer.length

instance {σ : Type} (e : Execution σ) (buffer : Bytes) : Decidable (e.Rejects buffer) :=
  inferInstanceAs (Decidable (_ ≠ _))

/-- An event that is not expected once the response is done. -/
def Event.isUnexpected (doFetchBody : Bool) : Event → Bool
  | .data .status _ _ => false
  | .data .body _ _ => doFetchBody
  | .data _ _ _ => true
  | .headersComplete _ _ _ => true
  | _ => false

/-- The process exits on purpose: another protocol follows, or another response. -/
def Execution.Exits {σ : Type} (doFetchBody : Bool) (e : Execution σ) : Prop :=
  e.upgrade = true ∨
    (e.events.dropWhile (· ≠ .messageComplete)).any (Event.isUnexpected doFetchBody)

/-- The first read of a response: `cb_recv` comes to `lua_pcall` with the arguments and
    nothing else. If the parser has rejected what was received, it comes there, unless it
    exits on purpose, with a result that says so, and `receive` returns the error. -/
def ErrorPath (id : Nat) (doFetchBody : Bool) (buffer : Bytes) (passed : Int) : Prop :=
  (∀ r, Recv.beforeCall doFetchBody (.new httpParser id) buffer passed = some r →
    ∃ res, r.stack = arguments id res) ∧
  ((httpParser.execute httpParser.init buffer).Rejects buffer →
    ¬(httpParser.execute httpParser.init buffer).Exits doFetchBody →
    ∃ r res, Recv.beforeCall doFetchBody (.new httpParser id) buffer passed = some r ∧
      r.stack = arguments id res ∧ res.get (.str "parse_failed") = .bool true ∧
      res.get (.str "body") = .bytes buffer ∧
      ∀ gunzip reads, Session.receive httpParser id doFetchBody gunzip (.got buffer passed :: reads) =
        .returned (.failed (.str "failed to parse http packet")))

/-- The buffer does not begin with a line end, the headers end if they begin, and if it
    is rejected, no value of the trailer is taken for `gzip`. -/
def WholeHead (buffer : Bytes) : Prop :=
  (∀ ch ∈ buffer.head?, ¬(ch = HttpParser.CR ∨ ch = HttpParser.LF)) ∧
  (.messageBegin ∈ (httpParser.execute httpParser.init buffer).events →
    (httpParser.execute httpParser.init buffer).events.any Event.isHeadersComplete) ∧
  ((httpParser.execute httpParser.init buffer).Rejects buffer →
    trailerGzip (httpParser.execute httpParser.init buffer).events = false)

/-! ## After the response -/

section

variable {doFetchBody : Bool}

/-- Once the response is done, the callbacks of what is expected only set `is_done`. -/
theorem foldlM_expected (es : List Event) (hes : ¬es.any (Event.isUnexpected doFetchBody))
    (t : Fields) (stack : Stack) (n : Nat) :
    ∃ t' : Fields, es.foldlM (Recv.callback doFetchBody) ⟨.table t :: stack, n, true⟩ =
        some ⟨.table t' :: stack, n, true⟩ ∧
      ∀ k, k ≠ "is_done" → t'.get (.str k) = t.get (.str k) := by
  induction es generalizing t with
  | nil => exact ⟨t, rfl, fun _ _ => rfl⟩
  | cons e es ih =>
    rw [List.any_cons, Bool.or_eq_true, not_or] at hes
    cases e with
    | messageBegin => exact ih hes.2 t
    | headersComplete => exact absurd rfl hes.1
    | messageComplete =>
      obtain ⟨t', hfold, hget⟩ := ih hes.2 (t.set (.str "is_done") (.bool true))
      exact ⟨t', hfold, fun k hk => (hget k hk).trans (by simp [Fields.get_set, hk])⟩
    | data kind ptr length =>
      cases kind with
      | status => exact ih hes.2 t
      | body =>
        obtain rfl : doFetchBody = false := by simpa [Event.isUnexpected] using hes.1
        exact ih hes.2 t
      | _ => exact absurd rfl hes.1

/-- The callback of what is not expected exits the process. -/
theorem foldlM_unexpected {es : List Event} (hes : es.any (Event.isUnexpected doFetchBody))
    (t : Fields) (stack : Stack) (n : Nat) :
    es.foldlM (Recv.callback doFetchBody) ⟨.table t :: stack, n, true⟩ = none := by
  induction es generalizing t with
  | nil => cases hes
  | cons e es ih =>
    rw [List.any_cons, Bool.or_eq_true] at hes
    cases e with
    | messageBegin => exact ih (hes.resolve_left Bool.false_ne_true) t
    | headersComplete => rfl
    | messageComplete =>
      exact ih (hes.resolve_left Bool.false_ne_true) (t.set (.str "is_done") (.bool true))
    | data kind ptr length =>
      cases kind with
      | status => exact ih (hes.resolve_left Bool.false_ne_true) t
      | body =>
        cases doFetchBody with
        | true => rfl
        | false => exact ih (hes.resolve_left Bool.false_ne_true) t
      | _ => rfl

theorem messageComplete_spec (r : Recv) : r.messageComplete = none ∨
    ∃ t stack, r.messageComplete = some ⟨.table t :: stack, r.headersTableIndex, true⟩ := by
  obtain ⟨stack, n, got⟩ := r
  match stack with
  | [] => exact .inl rfl
  | .table t :: stack => exact .inr ⟨_, stack, rfl⟩
  | .nil :: _ | .bool _ :: _ | .num _ :: _ | .str _ :: _ | .bytes _ :: _ | .fn _ :: _ => exact .inl rfl

/-- An event that is not expected comes after the response. -/
theorem foldlM_exits {es : List Event}
    (h : (es.dropWhile (· ≠ .messageComplete)).any (Event.isUnexpected doFetchBody)) (r : Recv) :
    es.foldlM (Recv.callback doFetchBody) r = none := by
  induction es generalizing r with
  | nil => cases h
  | cons e es ih =>
    rw [List.foldlM_cons]
    by_cases he : e = .messageComplete
    · subst he
      have hes : es.any (Event.isUnexpected doFetchBody) := by simpa [Event.isUnexpected] using h
      rcases messageComplete_spec r with hr | ⟨t, stack, hr⟩
      · exact Option.bind_eq_none_iff.2 fun r' hr' => nomatch hr.symm.trans hr'
      · change r.messageComplete.bind _ = none
        rw [hr]
        exact foldlM_unexpected hes t stack _
    · rw [List.dropWhile_cons_of_pos (by simpa using he)] at h
      exact Option.bind_eq_none_iff.2 fun r' _ => ih h r'

/-! ## Arguments too many -/

/-- A key and a table are left below the result. -/
def Overfull (r : Recv) : Prop :=
  ∃ (t t' : Fields) (stack : Stack), r.stack = .table t :: .str "headers" :: .table t' :: stack

theorem Overfull.ne {r : Recv} (h : Overfull r) (id : Nat) (res : Fields) :
    r.stack ≠ arguments id res := by
  obtain ⟨t, t', stack, h⟩ := h
  intro heq
  cases h.symm.trans heq

/-- The beginnings before the message: each leaves a key and a table on the stack. -/
theorem foldlM_begins (doFetchBody : Bool) (k id : Nat) (res : Fields) :
    ∃ (t' : Fields) (stack : Stack),
      (List.replicate (k + 1) .messageBegin).foldlM (Recv.callback doFetchBody) (inBody 0 res id) =
        some ⟨.table [] :: .str "headers" :: .table t' :: stack, 0, false⟩ := by
  induction k with
  | zero => exact ⟨res, _, rfl⟩
  | succ k ih =>
    obtain ⟨t', stack, hfold⟩ := ih
    refine ⟨[], .str "headers" :: .table t' :: stack, ?_⟩
    rw [List.replicate_succ', List.foldlM_append, hfold]
    rfl

/-- The body and the trailer, a key and a table having been left below the result. -/
theorem foldlM_tail_overfull (doFetchBody : Bool) {tail : List Event}
    (htail : ∀ e ∈ tail, e.IsTail) (n : Nat) (t t' : Fields) (stack : Stack) (ht : BodyField t) :
    ∃ (n' : Nat) (u u' : Fields), tail.foldlM (Recv.callback doFetchBody)
      ⟨.table t :: .str "headers" :: .table t' :: stack, n, false⟩ =
      some ⟨.table u :: .str "headers" :: .table u' :: stack, n', false⟩ := by
  induction tail generalizing n t t' with
  | nil => exact ⟨n, t, t', rfl⟩
  | cons e tail ih =>
    obtain ⟨he, htail⟩ := List.forall_mem_cons.1 htail
    have hstep : ∃ (n₁ : Nat) (u u' : Fields), BodyField u ∧
        Recv.callback doFetchBody ⟨.table t :: .str "headers" :: .table t' :: stack, n, false⟩ e =
          some ⟨.table u :: .str "headers" :: .table u' :: stack, n₁, false⟩ := by
      obtain ⟨ptr, length, rfl | rfl | rfl⟩ := he.cases
      · cases doFetchBody with
        | false => exact ⟨n, t, t', ht, rfl⟩
        | true =>
          refine ⟨n, t.set (.str "body") (addBody (t.get (.str "body")) [ptr.take length]), t',
            ?_, ?_⟩
          · rw [BodyField, Fields.get_set, if_pos rfl]
            exact addBody_field ht _
          · rcases ht with h | ⟨s, h⟩ <;>
              simp [Recv.callback, Recv.body, rawget, rawset, concat, swap, modifyTable, h, addBody]
      · refine ⟨n + 1, t.set (.int (n + 1)) (.bytes (ptr.take length)), t', ?_, ?_⟩
        · simpa [BodyField, Fields.get_set] using ht
        · simp [Recv.callback, Recv.headerField, rawseti, modifyTable]
      · refine ⟨n + 1, t.set (.int (n + 1)) (.bytes (ptr.take length)),
          if Recv.isGzip ptr then t'.set (.str "is_gzipped") (.bool true) else t', ?_, ?_⟩
        · simpa [BodyField, Fields.get_set] using ht
        · cases hg : Recv.isGzip ptr <;>
            simp [Recv.callback, Recv.headerValue, rawset, rawseti, modifyTable, hg]
    obtain ⟨n₁, u, u', hu, hstep⟩ := hstep
    rw [List.foldlM_cons, hstep]
    exact ih htail n₁ u u' hu

/-- The end of the message and what follows, a key and a table having been left below
    the result. -/
theorem foldlM_end_overfull {es : List Event} (hes : es = [] ∨ ∃ more, es = .messageComplete :: more)
    (hun : ¬(es.dropWhile (· ≠ .messageComplete)).any (Event.isUnexpected doFetchBody)) (n : Nat)
    (t t' : Fields) (stack : Stack) : ∃ r, Overfull r ∧ es.foldlM (Recv.callback doFetchBody)
      ⟨.table t :: .str "headers" :: .table t' :: stack, n, false⟩ = some r := by
  rcases hes with rfl | ⟨more, rfl⟩
  · exact ⟨_, ⟨t, t', stack, rfl⟩, rfl⟩
  · obtain ⟨u, hfold, -⟩ := foldlM_expected more (by simpa [Event.isUnexpected] using hun)
      (t.set (.str "is_done") (.bool true)) (.str "headers" :: .table t' :: stack) n
    exact ⟨_, ⟨u, t', stack, rfl⟩, hfold⟩

/-- The events of a message up to its end. -/
theorem dropWhile_message {head tail : List Event} (hhead : ∀ e ∈ head, e.IsHead)
    (htail : ∀ e ∈ tail, e.IsTail) (ptr : Bytes) (statusCode : Nat) (keepAlive : Bool)
    (es : List Event) :
    (.messageBegin :: head ++ .headersComplete ptr statusCode keepAlive :: (tail ++ es)).dropWhile
      (· ≠ .messageComplete) = es.dropWhile (· ≠ .messageComplete) := by
  have hsplit : .messageBegin :: head ++ .headersComplete ptr statusCode keepAlive :: (tail ++ es) =
      (.messageBegin :: head ++ .headersComplete ptr statusCode keepAlive :: tail) ++ es := by simp
  rw [hsplit, List.dropWhile_append_of_pos]
  intro e he
  simp only [List.cons_append, List.mem_cons, List.mem_append] at he
  rcases he with rfl | he | rfl | he
  · rfl
  · have := hhead e he
    cases e <;> simp_all [Event.IsHead]
  · rfl
  · have := htail e he
    cases e <;> simp_all [Event.IsTail]

/-- A message that begins with a key and a table too many on the stack. -/
theorem foldlM_message_overfull {es : List Event} {mode : HttpParser.Mode}
    (hrun : HttpParser.Mode.idle.run es = some mode)
    (hun : ¬(es.dropWhile (· ≠ .messageComplete)).any (Event.isUnexpected doFetchBody))
    (t' : Fields) (stack : Stack) : ∃ r, Overfull r ∧ es.foldlM (Recv.callback doFetchBody)
      ⟨.table [] :: .str "headers" :: .table t' :: stack, 0, false⟩ = some r := by
  rcases HttpParser.Mode.run_idle hrun with rfl | ⟨head, rfl, hhead⟩ |
    ⟨head, ptr, code, alive, tail, es', m, rfl, hhead, -, -, htail, hend⟩
  · exact ⟨_, ⟨[], t', stack, rfl⟩, rfl⟩
  · obtain ⟨t, hfold, -⟩ := foldlM_head doFetchBody (.str "headers" :: .table t' :: stack) hhead [] []
    exact ⟨_, ⟨_, _, _, rfl⟩, hfold⟩
  · obtain ⟨t, hfold, hget⟩ :=
      foldlM_head doFetchBody (.str "headers" :: .table t' :: stack) hhead [] []
    let u := ((t.set (.str "headers") (.table (tokenFields (tokens head)))).set
      (.str "is_keepalive") (.bool alive)).set (.str "status_code") (.num code)
    have hbody : BodyField u := .inl (by simp [u, Fields.get_set, hget])
    obtain ⟨n', u', t'', htail'⟩ :=
      foldlM_tail_overfull doFetchBody htail (tokens head).length u t' stack hbody
    rw [dropWhile_message hhead htail] at hun
    obtain ⟨r, hr, hend'⟩ := foldlM_end_overfull hend hun n' u' t'' stack
    refine ⟨r, hr, ?_⟩
    rw [List.cons_append, List.foldlM_cons]
    change List.foldlM _ (inHeaders [] _ _) _ = _
    rw [List.foldlM_append, hfold, Option.bind_eq_bind, Option.bind_some, List.foldlM_cons]
    change List.foldlM _ (Recv.mk (.table u :: _) (tokens head).length false) _ = _
    rw [List.foldlM_append, htail']
    exact hend'

/-- The callbacks of a message whose headers end leave the result on the stack. -/
theorem foldlM_balanced (id : Nat) (passed : Int) {head tail es : List Event}
    (hhead : ∀ e ∈ head, e.IsHead) (htail : ∀ e ∈ tail, e.IsTail)
    (hg : tail.any Event.isGzip = false) (ptr : Bytes) (statusCode : Nat) (keepAlive : Bool)
    (hend : es = [] ∨ ∃ more, es = .messageComplete :: more)
    (hun : ¬(es.dropWhile (· ≠ .messageComplete)).any (Event.isUnexpected doFetchBody)) :
    ∃ (res : Fields) (n : Nat) (got : Bool),
      (.messageBegin :: head ++ .headersComplete ptr statusCode keepAlive :: (tail ++ es)).foldlM
          (Recv.callback doFetchBody) (inBody 0 [(.str "passed", .num passed)] id) =
        some ⟨arguments id res, n, got⟩ ∧ res.get (.str "closed") = .nil := by
  obtain ⟨n, res, hres, -, hfold⟩ := foldlM_headers doFetchBody id passed hhead ptr statusCode
    keepAlive (tail ++ es)
  have hbody : BodyField res := .inl (by rw [hres.body]; cases doFetchBody <;> rfl)
  obtain ⟨n', res', htail', hother, -⟩ := foldlM_tail doFetchBody id htail hg n res hbody
  have hclosed : res'.get (.str "closed") = .nil := (hother _ (by decide)).trans hres.closed
  rw [hfold, List.foldlM_append, htail', Option.bind_eq_bind, Option.bind_some]
  rcases hend with rfl | ⟨more, rfl⟩
  · exact ⟨res', n', false, rfl, hclosed⟩
  · obtain ⟨t, hmore, hget⟩ := foldlM_expected more (by simpa [Event.isUnexpected] using hun)
      (res'.set (.str "is_done") (.bool true)) [.num id, .str "cb_recv", .fn "plan_resume"] n'
    exact ⟨t, n', true, hmore, by rw [hget _ (by decide), Fields.get_set, if_neg (by decide), hclosed]⟩

/-- No value that is taken for `gzip` comes after the end of the message. -/
theorem trailerGzip_ending {tail es : List Event} (htail : ∀ e ∈ tail, e.IsTail)
    (hend : es = [] ∨ ∃ more, es = .messageComplete :: more)
    (hun : ¬(es.dropWhile (· ≠ .messageComplete)).any (Event.isUnexpected doFetchBody)) :
    trailerGzip (tail ++ es) = tail.any Event.isGzip := by
  have hes : ∀ e ∈ es, e.isUnexpected doFetchBody = false := by
    rcases hend with rfl | ⟨more, rfl⟩
    · exact fun _ he => absurd he List.not_mem_nil
    · rw [List.dropWhile_cons_of_neg (by simp), Bool.not_eq_true, List.any_eq_false] at hun
      simpa using hun
  have hnone : (tail ++ es).any Event.isHeadersComplete = false := by
    have htail' : tail.any Event.isHeadersComplete = false := by
      simpa [ending] using any_headersComplete_tail htail false
    rw [List.any_append, htail', Bool.false_or]
    refine List.any_eq_false.2 fun e he => ?_
    have := hes e he
    cases e <;> simp_all [Event.isUnexpected, Event.isHeadersComplete]
  have hgzip : es.any Event.isGzip = false := List.any_eq_false.2 fun e he => by
    have := hes e he
    cases e with
    | data kind ptr length => cases kind <;> simp_all [Event.isUnexpected, Event.isGzip]
    | _ => simp [Event.isGzip]
  rw [trailerGzip_eq hnone, List.any_append, hgzip, Bool.or_false]

/-! ## The error path -/

variable {id : Nat} {buffer : Bytes} {passed : Int}

/-- The callbacks of the read, and then what the result says of it. -/
theorem beforeCall_bind : Recv.beforeCall doFetchBody (.new httpParser id) buffer passed = do
    let r ← (httpParser.execute httpParser.init buffer).events.foldlM (Recv.callback doFetchBody)
      (inBody 0 [(.str "passed", .num passed)] id)
    if (httpParser.execute httpParser.init buffer).upgrade then none
    else if (httpParser.execute httpParser.init buffer).Rejects buffer then do
      let stack ← rawset 3 (.bool true :: .str "parse_failed" :: r.stack)
      return { r with stack := ← rawset 3 (.bytes buffer :: .str "body" :: stack) }
    else return r := rfl

/-- The callbacks that come to `lua_pcall`, when the process does not exit on purpose. -/
theorem beforeCall_eq (hupgrade : (httpParser.execute httpParser.init buffer).upgrade = false) {r : Recv}
    (hfold : (httpParser.execute httpParser.init buffer).events.foldlM (Recv.callback doFetchBody)
      (inBody 0 [(.str "passed", .num passed)] id) = some r) :
    Recv.beforeCall doFetchBody (.new httpParser id) buffer passed =
      if (httpParser.execute httpParser.init buffer).Rejects buffer then do
        let stack ← rawset 3 (.bool true :: .str "parse_failed" :: r.stack)
        return { r with stack := ← rawset 3 (.bytes buffer :: .str "body" :: stack) }
      else some r := by
  rw [beforeCall_bind, hfold, hupgrade]
  rfl

/-- What is left on the stack, be the buffer rejected or not. -/
theorem beforeCall_overfull (hupgrade : (httpParser.execute httpParser.init buffer).upgrade = false)
    {r : Recv} (hr : Overfull r)
    (hfold : (httpParser.execute httpParser.init buffer).events.foldlM (Recv.callback doFetchBody)
      (inBody 0 [(.str "passed", .num passed)] id) = some r) :
    ∃ r', Overfull r' ∧ Recv.beforeCall doFetchBody (.new httpParser id) buffer passed = some r' := by
  obtain ⟨t, t', stack, hstack⟩ := hr
  rw [beforeCall_eq hupgrade hfold]
  split_ifs
  · refine ⟨{ r with stack := .table ((t.set (.str "parse_failed") (.bool true)).set (.str "body")
      (.bytes buffer)) :: .str "headers" :: .table t' :: stack }, ⟨_, t', stack, rfl⟩, ?_⟩
    rw [hstack]
    rfl
  · exact ⟨r, ⟨t, t', stack, hstack⟩, rfl⟩

/-- The result left on the stack is passed on, with the error if the buffer is rejected. -/
theorem beforeCall_balanced (hupgrade : (httpParser.execute httpParser.init buffer).upgrade = false)
    {res : Fields} {n : Nat} {got : Bool} (hclosed : res.get (.str "closed") = .nil)
    (hfold : (httpParser.execute httpParser.init buffer).events.foldlM (Recv.callback doFetchBody)
      (inBody 0 [(.str "passed", .num passed)] id) = some ⟨arguments id res, n, got⟩) :
    ErrorPath id doFetchBody buffer passed := by
  have hcall := beforeCall_eq hupgrade hfold
  refine ⟨fun r hr => ?_, fun hrej _ => ?_⟩
  · rw [hr] at hcall
    split_ifs at hcall
    · exact ⟨_, congrArg Recv.stack (Option.some.inj hcall)⟩
    · exact ⟨res, congrArg Recv.stack (Option.some.inj hcall)⟩
  · let failed : Fields := (res.set (.str "parse_failed") (.bool true)).set (.str "body") (.bytes buffer)
    have hfailed : failed.get (.str "parse_failed") = .bool true := by simp [failed, Fields.get_set]
    have hclosed' : failed.get (.str "closed") = .nil := by simp [failed, Fields.get_set, hclosed]
    rw [if_pos hrej] at hcall
    refine ⟨⟨arguments id failed, n, got⟩, failed, hcall, rfl, hfailed,
      by simp [failed, Fields.get_set], fun gunzip reads => ?_⟩
    have hrecv : cbRecv doFetchBody (RecvWatcher.new httpParser id) (.got buffer passed) =
        some (⟨id, (httpParser.execute httpParser.init buffer).next, n⟩, [.table failed]) := by
      rw [cbRecv_beforeCall, hcall]
      rfl
    rw [Session.receive]
    change Session.receiveLoop doFetchBody gunzip (RecvWatcher.new httpParser id) _ _ = _
    rw [Session.receiveLoop, hrecv]
    simp [Session.receiveStep, hclosed', hfailed, Value.truthy]

/-- The process exits before the call: there is nothing to be said. -/
theorem errorPath_of_none (hnone : Recv.beforeCall doFetchBody (.new httpParser id) buffer passed = none)
    (h : (httpParser.execute httpParser.init buffer).Rejects buffer →
      (httpParser.execute httpParser.init buffer).Exits doFetchBody) :
    ErrorPath id doFetchBody buffer passed :=
  ⟨fun _ hr => absurd (hnone.symm.trans hr) (by simp), fun hrej hexit => absurd (h hrej) hexit⟩

/-- Arguments too many are passed. -/
theorem not_errorPath (hupgrade : (httpParser.execute httpParser.init buffer).upgrade = false)
    {r : Recv} (hr : Overfull r)
    (hfold : (httpParser.execute httpParser.init buffer).events.foldlM (Recv.callback doFetchBody)
      (inBody 0 [(.str "passed", .num passed)] id) = some r) :
    ¬ErrorPath id doFetchBody buffer passed := by
  intro h
  obtain ⟨r', hr', hcall⟩ := beforeCall_overfull hupgrade hr hfold
  obtain ⟨res, hres⟩ := h.1 r' hcall
  exact hr'.ne id res hres

/-- The process exits on purpose before the call. -/
theorem beforeCall_exits (h : (httpParser.execute httpParser.init buffer).Exits doFetchBody) :
    Recv.beforeCall doFetchBody (.new httpParser id) buffer passed = none := by
  rw [beforeCall_bind]
  rcases h with h | h
  · rw [h]
    cases List.foldlM (Recv.callback doFetchBody) _ _ <;> rfl
  · rw [foldlM_exits h]
    rfl

/-- The first read is passed on as it should be, or makes an error as it should, if and only
    if the process exits on purpose or the headers are whole. -/
theorem errorPath_iff (id : Nat) (doFetchBody : Bool) (buffer : Bytes) (passed : Int) :
    ErrorPath id doFetchBody buffer passed ↔
      (httpParser.execute httpParser.init buffer).Exits doFetchBody ∨ WholeHead buffer := by
  by_cases hexit : (httpParser.execute httpParser.init buffer).Exits doFetchBody
  · exact iff_of_true (errorPath_of_none (beforeCall_exits hexit) fun _ => hexit) (.inl hexit)
  · rw [or_iff_right hexit]
    obtain ⟨hupgrade, hun⟩ := not_or.1 hexit
    rw [Bool.not_eq_true] at hupgrade
    obtain ⟨k, es, mode, hevents, hrun, hk⟩ := HttpParser.execute_events 0 buffer
    change (httpParser.execute httpParser.init buffer).events = _ at hevents
    cases k with
    | succ k =>
      -- The buffer begins with line ends: a key and a table are left for each.
      have hun' : ¬(es.dropWhile (· ≠ .messageComplete)).any (Event.isUnexpected doFetchBody) := by
        rwa [hevents, List.dropWhile_append_of_pos (by simp)] at hun
      obtain ⟨t', stack, hbegins⟩ := foldlM_begins doFetchBody k id [(.str "passed", .num passed)]
      obtain ⟨r, hr, hfold⟩ := foldlM_message_overfull hrun hun' t' stack
      refine iff_of_false (not_errorPath hupgrade hr ?_) fun h => ?_
      · rw [hevents, List.foldlM_append, hbegins]
        exact hfold
      · obtain ⟨ch, hch, hline⟩ := hk.1 k.succ_pos
        exact h.1 ch hch hline
    | zero =>
      replace hevents : (httpParser.execute httpParser.init buffer).events = es := hevents
      have hhead : ∀ ch ∈ buffer.head?, ¬(ch = HttpParser.CR ∨ ch = HttpParser.LF) :=
        fun ch hch hline => Nat.lt_irrefl 0 (hk.2 ⟨ch, hch, hline⟩)
      have hfold : ∀ r, es.foldlM (Recv.callback doFetchBody)
          (inBody 0 [(.str "passed", .num passed)] id) = some r →
          (httpParser.execute httpParser.init buffer).events.foldlM (Recv.callback doFetchBody)
            (inBody 0 [(.str "passed", .num passed)] id) = some r := fun r hr => by rwa [hevents]
      unfold WholeHead
      rw [hevents] at hun ⊢
      rcases HttpParser.Mode.run_idle hrun with rfl | ⟨head, rfl, hhead'⟩ |
        ⟨head, ptr, code, alive, tail, es', m, rfl, hhead', -, -, htail, hend⟩
      · exact iff_of_true (beforeCall_balanced hupgrade (by rfl) (hfold _ rfl))
          ⟨hhead, by simp, by simp [trailerGzip]⟩
      · -- The headers stop, or are rejected, before their end.
        obtain ⟨t, hfold', -⟩ := foldlM_head doFetchBody [.num id, .str "cb_recv", .fn "plan_resume"]
          hhead' [] [(.str "passed", .num passed)]
        refine iff_of_false (not_errorPath hupgrade ⟨_, _, _, rfl⟩ (hfold _ hfold')) fun h => ?_
        have hcomplete := h.2.1 (List.mem_cons_self ..)
        rw [List.any_cons, any_headersComplete_head hhead'] at hcomplete
        cases hcomplete
      · have hany : (Event.messageBegin :: head ++ .headersComplete ptr code alive :: (tail ++ es')).any
            Event.isHeadersComplete := by simp [Event.isHeadersComplete]
        rw [dropWhile_message hhead' htail] at hun
        have hgzip : trailerGzip (Event.messageBegin :: head ++
            .headersComplete ptr code alive :: (tail ++ es')) = tail.any Event.isGzip := by
          rw [trailerGzip_headersComplete]
          exact trailerGzip_ending htail hend hun
        rw [hgzip]
        cases hg : tail.any Event.isGzip with
        | false =>
          obtain ⟨res, n, got, hfold', hclosed⟩ := foldlM_balanced id passed hhead' htail hg ptr code
            alive hend hun
          exact iff_of_true (beforeCall_balanced hupgrade hclosed (hfold _ hfold'))
            ⟨hhead, fun _ => hany, fun _ => rfl⟩
        | true =>
          -- A value of the trailer is taken for `gzip`: the process does not come to the call.
          obtain ⟨n, res, hres, -, hfold'⟩ := foldlM_headers doFetchBody id passed hhead' ptr code alive
            (tail ++ es')
          have hbody : BodyField res := .inl (by rw [hres.body]; cases doFetchBody <;> rfl)
          have hnone : Recv.beforeCall doFetchBody (.new httpParser id) buffer passed = none := by
            rw [beforeCall_bind, hevents, hfold', foldlM_gzip doFetchBody id htail hg n res hbody]
            rfl
          constructor
          · intro h
            refine ⟨hhead, fun _ => hany, fun hrej => ?_⟩
            obtain ⟨r, res, hcall, -⟩ := h.2 hrej hexit
            cases hnone.symm.trans hcall
          · rintro ⟨-, -, h⟩
            exact errorPath_of_none hnone fun hrej => absurd (h hrej) (by simp)

end

/-- A response with a byte in the name of a header that may not be in a name. -/
def controlInName : Bytes := HttpParser.bytes "HTTP/1.1 200 OK\r\nServer" ++ [1]

/-- The byte is rejected, and the table of the headers is left on the stack. -/
theorem controlInName_not_errorPath :
    ¬∀ id doFetchBody buffer passed, ErrorPath id doFetchBody buffer passed := by
  intro h
  have hlength : (Recv.beforeCall true (.new httpParser 1) controlInName 0).map (·.stack.length) =
      some 6 := by decide +kernel
  obtain ⟨r, hr, hlen⟩ := Option.map_eq_some_iff.1 hlength
  obtain ⟨res, hres⟩ := (h 1 true controlInName 0).1 r hr
  rw [hres] at hlen
  cases hlen

end Mistress
