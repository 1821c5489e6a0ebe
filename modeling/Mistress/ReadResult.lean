import Mistress.Receive

/-!
# The result of a read

What `cb_recv` and one round of the loop of `receive` make of the events of a
read. The events of a response are those of its headers (`IsHead`) up to
`headersComplete`, and then those of its body and its trailer (`IsTail`).

* `foldlM_headers`, `foldlM_ending`: the callbacks leave a result on the stack
  (`ReadResult`), if the read has its headers up to the end;
* `foldlM_cut`: otherwise they leave an argument too many;
* `foldlM_gzip`: a value of the trailer that is taken for `gzip` is set as a field
  of a string;
* `receiveStep_eq`: what `receive` takes over from a result.
-/

namespace Mistress

open LuaStack

/-- The execution parses the whole buffer, and there is no upgrade. -/
def Execution.Accepts {σ : Type} (e : Execution σ) (buffer : Bytes) : Prop :=
  e.nparsed = buffer.length ∧ e.upgrade = false

/-! ## Events -/

namespace Event

/-- An event of the status line and the headers. -/
def IsHead : Event → Prop
  | .data kind _ _ => kind = .status ∨ kind = .headerField ∨ kind = .headerValue
  | _ => False

/-- An event of the body and the trailer. -/
def IsTail : Event → Prop
  | .data kind _ _ => kind = .body ∨ kind = .headerField ∨ kind = .headerValue
  | _ => False

/-- What an event of the headers is. -/
theorem IsHead.cases {e : Event} (he : e.IsHead) : ∃ ptr length, e = .data .status ptr length ∨
    e = .data .headerField ptr length ∨ e = .data .headerValue ptr length := by
  cases e with
  | data kind ptr length => rcases he with rfl | rfl | rfl <;> simp
  | _ => cases he

/-- What an event of the body and the trailer is. -/
theorem IsTail.cases {e : Event} (he : e.IsTail) : ∃ ptr length, e = .data .body ptr length ∨
    e = .data .headerField ptr length ∨ e = .data .headerValue ptr length := by
  cases e with
  | data kind ptr length => rcases he with rfl | rfl | rfl <;> simp
  | _ => cases he

def isHeadersComplete : Event → Bool
  | .headersComplete _ _ _ => true
  | _ => false

/-- The token a callback adds to the table of the headers. -/
def token? : Event → Option Bytes
  | .data .headerField ptr length => some (ptr.take length)
  | .data .headerValue ptr length => some (ptr.take length)
  | _ => none

def body? : Event → Option Bytes
  | .data .body ptr length => some (ptr.take length)
  | _ => none

/-- A value that is taken for `gzip`. -/
def isGzip : Event → Bool
  | .data .headerValue ptr _ => Recv.isGzip ptr
  | _ => false

end Event

/-- The tokens of the headers. -/
def tokens (es : List Event) : List Bytes := es.filterMap Event.token?

/-- The parts of the body. -/
def bodies (es : List Event) : List Bytes := es.filterMap Event.body?

/-! ## The callbacks of a read -/

/-- The table of the headers. -/
def tokenFields (ts : List Bytes) : Fields := ts.zipIdx.map fun t => (.int (t.2 + 1), .bytes t.1)

theorem set_of_fresh {t : Fields} {k : Key} {v : Value} (h : ∀ f ∈ t, f.1 ≠ k) :
    Fields.set t k v = t ++ [(k, v)] := by
  induction t with
  | nil => rfl
  | cons f t ih =>
    obtain ⟨hf, ht⟩ := List.forall_mem_cons.1 h
    rw [Fields.set, if_neg hf, ih ht, List.cons_append]

/-- The callbacks append to the table of the headers. -/
theorem set_tokenFields (ts : List Bytes) (t : Bytes) :
    Fields.set (tokenFields ts) (.int (ts.length + 1)) (.bytes t) = tokenFields (ts ++ [t]) := by
  rw [set_of_fresh]
  · simp [tokenFields, List.zipIdx_append]
  · intro f hf
    obtain ⟨⟨b, i⟩, hb, rfl⟩ := List.mem_map.1 hf
    have hlt := (List.mem_zipIdx hb).2.1
    simp only [ne_eq, Key.int.injEq]
    omega

variable {doFetchBody : Bool} {base : Stack} {n : Nat} {res : Fields}

/-- The callbacks, with the table of the headers on the stack. -/
abbrev inHeaders (ts : List Bytes) (res : Fields) (base : Stack) : Recv :=
  ⟨.table (tokenFields ts) :: .str "headers" :: .table res :: base, ts.length, false⟩

theorem callback_head {e : Event} (he : e.IsHead) (ts : List Bytes) :
    Recv.callback doFetchBody (inHeaders ts res base) e =
      some (inHeaders (ts ++ e.token?.toList)
        (if e.isGzip then res.set (.str "is_gzipped") (.bool true) else res) base) := by
  obtain ⟨ptr, length, rfl | rfl | rfl⟩ := he.cases
  · simp [Recv.callback, Event.token?, Event.isGzip]
  · simp [Recv.callback, Recv.headerField, Event.token?, Event.isGzip, rawseti, modifyTable,
      set_tokenFields]
  · cases hg : Recv.isGzip ptr <;>
      simp [Recv.callback, Recv.headerValue, Event.token?, Event.isGzip, rawset, rawseti,
        modifyTable, set_tokenFields, hg]

theorem tokens_cons (e : Event) (es : List Event) :
    tokens (e :: es) = e.token?.toList ++ tokens es := by
  cases h : e.token? <;> simp [tokens, h]

/-- What the headers leave on the stack: their tokens, and perhaps a field. -/
theorem foldlM_head (doFetchBody : Bool) (base : Stack) {head : List Event}
    (hhead : ∀ e ∈ head, e.IsHead) (ts : List Bytes) (res : Fields) : ∃ res' : Fields,
      head.foldlM (Recv.callback doFetchBody) (inHeaders ts res base) =
        some (inHeaders (ts ++ tokens head) res' base) ∧
      ∀ k, res'.get k = if k = .str "is_gzipped" ∧ head.any Event.isGzip then .bool true
        else res.get k := by
  induction head generalizing ts res with
  | nil => exact ⟨res, by simp [tokens], by simp⟩
  | cons e head ih =>
    obtain ⟨he, hhead⟩ := List.forall_mem_cons.1 hhead
    obtain ⟨res', hres', hget⟩ := ih hhead (ts ++ e.token?.toList)
      (if e.isGzip then res.set (.str "is_gzipped") (.bool true) else res)
    refine ⟨res', ?_, fun k => ?_⟩
    · rw [List.foldlM_cons, callback_head he, Option.bind_eq_bind, Option.bind_some, hres',
        tokens_cons, List.append_assoc]
    · rw [hget, List.any_cons]
      by_cases hk : k = .str "is_gzipped"
      · cases e.isGzip <;> simp [hk, Fields.get_set]
      · cases e.isGzip <;> simp [hk, Fields.get_set]

/-! ### The body and the trailer -/

/-- The callbacks, with the result on the stack. -/
abbrev inBody (n : Nat) (res : Fields) (id : Nat) : Recv :=
  ⟨[.table res, .num id, .str "cb_recv", .fn "plan_resume"], n, false⟩

/-- The field `body`, after more parts of the body. -/
def addBody : Value → List Bytes → Value
  | v, [] => v
  | .bytes s, ss => .bytes (s ++ ss.flatten)
  | _, ss => .bytes ss.flatten

/-- The field `body` is absent or a string. -/
def BodyField (res : Fields) : Prop :=
  res.get (.str "body") = .nil ∨ ∃ s, res.get (.str "body") = .bytes s

variable {id : Nat}

theorem callback_tail (doFetchBody : Bool) (n id : Nat) {e : Event} (he : e.IsTail)
    (hres : BodyField res) (hg : e.isGzip = false) :
    ∃ (n' : Nat) (res' : Fields),
      Recv.callback doFetchBody (inBody n res id) e = some (inBody n' res' id) ∧
      (∀ k, k ≠ "body" → res'.get (.str k) = res.get (.str k)) ∧
      res'.get (.str "body") =
        addBody (res.get (.str "body")) (if doFetchBody then e.body?.toList else []) := by
  obtain ⟨ptr, length, rfl | rfl | rfl⟩ := he.cases
  · cases doFetchBody with
    | false => exact ⟨n, res, rfl, fun _ _ => rfl, rfl⟩
    | true =>
      refine ⟨n, res.set (.str "body") (addBody (res.get (.str "body")) [ptr.take length]), ?_,
        fun k hk => ?_, ?_⟩
      · rcases hres with h | ⟨s, h⟩ <;>
          simp [Recv.callback, Recv.body, rawget, rawset, concat, swap, modifyTable, h, addBody]
      · simp [Fields.get_set, hk]
      · simp [Fields.get_set, Event.body?]
  · refine ⟨n + 1, res.set (.int (n + 1)) (.bytes (ptr.take length)), ?_, fun k hk => ?_, ?_⟩
    · simp [Recv.callback, Recv.headerField, rawseti, modifyTable]
    · simp [Fields.get_set]
    · cases doFetchBody <;> simp [Fields.get_set, Event.body?, addBody]
  · refine ⟨n + 1, res.set (.int (n + 1)) (.bytes (ptr.take length)), ?_, fun k hk => ?_, ?_⟩
    · replace hg : Recv.isGzip ptr = false := hg
      simp [Recv.callback, Recv.headerValue, rawseti, modifyTable, hg]
    · simp [Fields.get_set]
    · cases doFetchBody <;> simp [Fields.get_set, Event.body?, addBody]

/-- A value taken for `gzip` in the trailer is set as a field of a string. -/
theorem callback_gzip {e : Event} (hg : e.isGzip) :
    Recv.callback doFetchBody (inBody n res id) e = none := by
  cases e with
  | messageBegin => cases hg
  | headersComplete => cases hg
  | messageComplete => cases hg
  | data kind ptr length =>
    cases kind <;> try cases hg
    replace hg : Recv.isGzip ptr = true := hg
    simp [Recv.callback, Recv.headerValue, rawset, modifyTable, hg]

theorem addBody_append {v : Value} (hv : v = .nil ∨ ∃ s, v = .bytes s) (ss ss' : List Bytes) :
    addBody (addBody v ss) ss' = addBody v (ss ++ ss') := by
  rcases hv with rfl | ⟨s, rfl⟩ <;> cases ss <;> cases ss' <;> simp [addBody]

theorem addBody_field {v : Value} (hv : v = .nil ∨ ∃ s, v = .bytes s) (ss : List Bytes) :
    addBody v ss = .nil ∨ ∃ s, addBody v ss = .bytes s := by
  rcases hv with rfl | ⟨s, rfl⟩ <;> cases ss <;> simp [addBody]

theorem bodies_cons (e : Event) (es : List Event) :
    bodies (e :: es) = e.body?.toList ++ bodies es := by
  cases h : e.body? <;> simp [bodies, h]

/-- The body and the trailer only add to the field `body`. -/
theorem foldlM_tail (doFetchBody : Bool) (id : Nat) {tail : List Event} (htail : ∀ e ∈ tail, e.IsTail)
    (hg : tail.any Event.isGzip = false) (n : Nat) (res : Fields) (hres : BodyField res) :
    ∃ (n' : Nat) (res' : Fields),
      tail.foldlM (Recv.callback doFetchBody) (inBody n res id) = some (inBody n' res' id) ∧
      (∀ k, k ≠ "body" → res'.get (.str k) = res.get (.str k)) ∧
      res'.get (.str "body") =
        addBody (res.get (.str "body")) (if doFetchBody then bodies tail else []) := by
  induction tail generalizing n res with
  | nil => exact ⟨n, res, rfl, fun _ _ => rfl, by simp [bodies, addBody]⟩
  | cons e tail ih =>
    obtain ⟨he, htail⟩ := List.forall_mem_cons.1 htail
    obtain ⟨hge, hg⟩ := Bool.or_eq_false_iff.1 ((List.any_cons ..).symm.trans hg)
    obtain ⟨n₁, res₁, h₁, hother₁, hbody₁⟩ := callback_tail doFetchBody n id he hres hge
    have hres₁ : BodyField res₁ := by
      rw [BodyField, hbody₁]
      exact addBody_field hres _
    obtain ⟨n₂, res₂, h₂, hother₂, hbody₂⟩ := ih htail hg n₁ res₁ hres₁
    refine ⟨n₂, res₂, ?_, fun k hk => (hother₂ k hk).trans (hother₁ k hk), ?_⟩
    · rw [List.foldlM_cons, h₁, Option.bind_eq_bind, Option.bind_some, h₂]
    · rw [hbody₂, hbody₁, addBody_append hres, bodies_cons]
      cases doFetchBody <;> rfl

theorem foldlM_gzip (doFetchBody : Bool) (id : Nat) {tail : List Event} (htail : ∀ e ∈ tail, e.IsTail)
    (hg : tail.any Event.isGzip) (n : Nat) (res : Fields) (hres : BodyField res)
    (es : List Event) :
    (tail ++ es).foldlM (Recv.callback doFetchBody) (inBody n res id) = none := by
  induction tail generalizing n res with
  | nil => cases hg
  | cons e tail ih =>
    obtain ⟨he, htail⟩ := List.forall_mem_cons.1 htail
    rw [List.cons_append, List.foldlM_cons]
    cases hge : e.isGzip with
    | true =>
      rw [callback_gzip hge]
      rfl
    | false =>
      obtain ⟨n₁, res₁, h₁, -, hbody₁⟩ := callback_tail doFetchBody n id he hres hge
      have hres₁ : BodyField res₁ := by
        rw [BodyField, hbody₁]
        exact addBody_field hres _
      rw [h₁, Option.bind_eq_bind, Option.bind_some]
      exact ih htail (by simpa [hge] using hg) n₁ res₁ hres₁

/-! ## The reads -/

variable {P : Parser} {w : RecvWatcher P} {buffer : Bytes} {passed : Int}

/-- A read that the parser accepts: the callbacks, and then the call. -/
theorem cbRecv_got (hacc : (P.execute w.parser buffer).Accepts buffer) :
    cbRecv doFetchBody w (.got buffer passed) = do
      let r ← (P.execute w.parser buffer).events.foldlM (Recv.callback doFetchBody)
        (inBody w.headersTableIndex [(.str "passed", .num passed)] w.coroutineId)
      return (⟨w.coroutineId, (P.execute w.parser buffer).next, r.headersTableIndex⟩,
        ← callPlanResume 3 r.stack) := by
  obtain ⟨hn, hu⟩ := hacc
  simp [cbRecv, hn, hu, rawset, modifyTable, Fields.set]

/-- The events of a read of the body: the last one ends the message. -/
def ending (done : Bool) : List Event := if done then [.messageComplete] else []

/-- The parts of the body that are fetched. -/
def fetched (doFetchBody : Bool) (es : List Event) : Bytes :=
  if doFetchBody then (bodies es).flatten else []

/-- The result of a read, after the headers if it has any. -/
structure ReadResult (res : Fields) (done : Bool) (tail : List Event) (doFetchBody : Bool)
    (passed : Int) : Prop where
  closed : res.get (.str "closed") = .nil
  parseFailed : res.get (.str "parse_failed") = .nil
  url : res.get (.str "url") = .nil
  passed : res.get (.str "passed") = .num passed
  done : res.get (.str "is_done") = if done then .bool true else .nil
  body : res.get (.str "body") = addBody .nil (if doFetchBody then bodies tail else [])

/-- The callbacks of the body and the trailer, and the end of the message. -/
theorem foldlM_ending (id : Nat) {tail : List Event} (htail : ∀ e ∈ tail, e.IsTail)
    (hg : tail.any Event.isGzip = false) (done : Bool)
    (hres : ReadResult res false [] doFetchBody passed) (n : Nat) :
    ∃ (r : Recv) (res' : Fields),
      (tail ++ ending done).foldlM (Recv.callback doFetchBody) (inBody n res id) = some r ∧
      callPlanResume 3 r.stack = some [.table res'] ∧
      ReadResult res' done tail doFetchBody passed ∧
      ∀ k ∈ ["headers", "status_code", "is_keepalive", "is_gzipped"],
        res'.get (.str k) = res.get (.str k) := by
  have hnil : res.get (.str "body") = .nil := by
    rw [hres.body]
    cases doFetchBody <;> rfl
  obtain ⟨n', res', hfold, hother, hbody⟩ := foldlM_tail doFetchBody id htail hg n res (.inl hnil)
  rw [hnil] at hbody
  cases done with
  | false =>
    refine ⟨_, res', by rw [ending, if_neg Bool.false_ne_true, List.append_nil, hfold], rfl,
      ⟨?_, ?_, ?_, ?_, ?_, hbody⟩, fun k hk => hother k ?_⟩
    · rw [hother _ (by decide), hres.closed]
    · rw [hother _ (by decide), hres.parseFailed]
    · rw [hother _ (by decide), hres.url]
    · rw [hother _ (by decide), hres.passed]
    · rw [hother _ (by decide), hres.done]
    · rintro rfl
      exact absurd hk (by decide)
  | true =>
    have hdone : ∀ k, k ≠ "is_done" →
        Fields.get (res'.set (.str "is_done") (.bool true)) (.str k) = res'.get (.str k) :=
      fun k hk => by simp [Fields.get_set, hk]
    refine ⟨⟨[.table (res'.set (.str "is_done") (.bool true)), .num id, .str "cb_recv",
      .fn "plan_resume"], n', true⟩, res'.set (.str "is_done") (.bool true), ?_, rfl,
      ⟨?_, ?_, ?_, ?_, ?_, ?_⟩, fun k hk => ?_⟩
    · rw [ending, if_pos rfl, List.foldlM_append, hfold]
      rfl
    · rw [hdone _ (by decide), hother _ (by decide), hres.closed]
    · rw [hdone _ (by decide), hother _ (by decide), hres.parseFailed]
    · rw [hdone _ (by decide), hother _ (by decide), hres.url]
    · rw [hdone _ (by decide), hother _ (by decide), hres.passed]
    · rw [Fields.get_set, if_pos rfl, if_pos rfl]
    · rw [hdone _ (by decide), hbody]
    · rw [hdone _ (by rintro rfl; exact absurd hk (by decide)),
        hother _ (by rintro rfl; exact absurd hk (by decide))]

/-! ### The loop of `receive` -/

open Session

variable {v : Receiving}

theorem takeBody_eq {res : Fields} {tail : List Event}
    (h : res.get (.str "body") = addBody .nil (if doFetchBody then bodies tail else [])) :
    ∃ body : List Bytes, body.flatten = v.body.flatten ++ fetched doFetchBody tail ∧
      v.takeBody doFetchBody res = { v with body } := by
  cases doFetchBody with
  | false => exact ⟨v.body, by simp [fetched], rfl⟩
  | true =>
    cases hb : bodies tail with
    | nil => exact ⟨v.body, by simp [fetched, hb], by simp [Receiving.takeBody, h, hb, addBody]⟩
    | cons s ss =>
      exact ⟨v.body ++ [(s :: ss).flatten], by simp [fetched, hb],
        by simp [Receiving.takeBody, h, hb, addBody]⟩

/-- A round of the loop, on the result of a read. -/
theorem receiveStep_eq (gunzip : Bytes → Except LuaError Bytes) {res : Fields} {done : Bool}
    {tail : List Event} (hv : v.url = .nil) (hres : ReadResult res done tail doFetchBody passed) :
    ∃ body : List Bytes, body.flatten = v.body.flatten ++ fetched doFetchBody tail ∧
      receiveStep doFetchBody gunzip v [.table res] =
        if done then
          .inr (({ v.takeHeaders res with body } : Receiving).finish doFetchBody gunzip (.num passed))
        else .inl { v.takeHeaders res with body } := by
  have hurl : ({ v with url := if v.url.truthy then v.url else res.get (.str "url") } : Receiving) =
      v := by
    rw [hv, hres.url]
    cases v
    cases hv
    rfl
  have hbody : (v.takeHeaders res).body = v.body := by
    unfold Receiving.takeHeaders
    split <;> rfl
  obtain ⟨body, hflat, htake⟩ := takeBody_eq (v := v.takeHeaders res) hres.body
  refine ⟨body, by rw [hflat, hbody], ?_⟩
  simp only [receiveStep, hurl, htake, hres.closed, hres.parseFailed, hres.done, hres.passed]
  cases done <;> rfl

/-- The variables after the read with the headers. -/
def afterHead (v : Receiving) (head : List Event) (statusCode : Nat) (keepAlive : Bool) :
    Receiving :=
  { v with
    headers := .table (tokenFields (tokens head))
    statusCode := .num statusCode
    isKeepalive := .bool keepAlive
    isGzipped := v.isGzipped || head.any Event.isGzip }

/-- The callbacks up to the end of the headers. -/
theorem foldlM_headers (doFetchBody : Bool) (id : Nat) (passed : Int) {head : List Event}
    (hhead : ∀ e ∈ head, e.IsHead) (ptr : Bytes) (statusCode : Nat) (keepAlive : Bool)
    (es : List Event) :
    ∃ (n : Nat) (res : Fields), ReadResult res false [] doFetchBody passed ∧
      (∀ v : Receiving, v.takeHeaders res = afterHead v head statusCode keepAlive) ∧
      (.messageBegin :: head ++ .headersComplete ptr statusCode keepAlive :: es).foldlM
          (Recv.callback doFetchBody) (inBody 0 [(.str "passed", .num passed)] id) =
        es.foldlM (Recv.callback doFetchBody) (inBody n res id) := by
  obtain ⟨res', hfold, hget⟩ := foldlM_head doFetchBody [.num id, .str "cb_recv", .fn "plan_resume"]
    hhead [] [(.str "passed", .num passed)]
  let res := ((res'.set (.str "headers") (.table (tokenFields (tokens head)))).set
    (.str "is_keepalive") (.bool keepAlive)).set (.str "status_code") (.num statusCode)
  have hres : ∀ k, res.get k =
      if k = .str "status_code" then .num statusCode
      else if k = .str "is_keepalive" then .bool keepAlive
      else if k = .str "headers" then .table (tokenFields (tokens head))
      else if k = .str "is_gzipped" ∧ head.any Event.isGzip then .bool true
      else if .str "passed" = k then .num passed else .nil := fun k => by
    simp only [res, Fields.get_set, hget, Fields.get]
  refine ⟨(tokens head).length, res, ⟨?_, ?_, ?_, ?_, ?_, ?_⟩, fun v => ?_, ?_⟩
  · rw [hres]; rfl
  · rw [hres]; rfl
  · rw [hres]; rfl
  · rw [hres]; rfl
  · rw [hres]; rfl
  · rw [hres]; cases doFetchBody <;> rfl
  · have hheaders : res.get (.str "headers") = .table (tokenFields (tokens head)) := by
      rw [hres]; rfl
    have hgzip : (res.get (.str "is_gzipped")).truthy = head.any Event.isGzip := by
      rw [hres]
      cases head.any Event.isGzip <;> rfl
    have hcode : res.get (.str "status_code") = .num statusCode := by rw [hres]; rfl
    have hkeep : res.get (.str "is_keepalive") = .bool keepAlive := by rw [hres]; rfl
    rw [Receiving.takeHeaders, hheaders, hgzip, hcode, hkeep]
    rfl
  · rw [List.cons_append, List.foldlM_cons]
    change List.foldlM _ (inHeaders [] _ _) _ = _
    rw [List.foldlM_append, hfold, Option.bind_eq_bind, Option.bind_some, List.foldlM_cons]
    rfl

/-- The headers are cut off: the table of the headers is left on the stack. -/
theorem foldlM_cut (doFetchBody : Bool) (id : Nat) {head : List Event}
    (hhead : ∀ e ∈ head, e.IsHead) (res : Fields) :
    ∃ r : Recv, (.messageBegin :: head).foldlM (Recv.callback doFetchBody) (inBody 0 res id) =
      some r ∧ callPlanResume 3 r.stack = none := by
  obtain ⟨res', hfold, -⟩ := foldlM_head doFetchBody [.num id, .str "cb_recv", .fn "plan_resume"]
    hhead [] res
  exact ⟨_, hfold, rfl⟩

end Mistress
