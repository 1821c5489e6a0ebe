import Mistress.ReadResult

/-!
# Split invariance

What `receive` returns for a response should not depend on how the reads cut it
(`SplitInvariant`). The parser is not to blame: it carries on where it was
interrupted, and reports a string that is cut in two parts
(`Parser.CarriesOn`).

`splitInvariant_iff`: two cuttings of a response are received alike if and only
if each of their reads is intact (`Intact`):

* A read in which the message begins has its headers up to the end. Otherwise
  the table of the headers is left on the stack as an argument too many, and
  `cb_recv` exits the process.
* Beyond the headers, in the trailer of a chunked body, no value, nor the part
  of one a read begins with, is `gzip` as it stands before a carriage return. It
  is set as a field of the wrong value on the stack.
-/

namespace Mistress

open LuaStack

/-! ## The parser carries on -/

/-- An event in a longer buffer. -/
def Event.extend (buffer : Bytes) : Event → Event
  | .data kind ptr length => .data kind (ptr ++ buffer) length
  | .headersComplete ptr statusCode keepAlive => .headersComplete (ptr ++ buffer) statusCode keepAlive
  | .messageBegin => .messageBegin
  | .messageComplete => .messageComplete

/-- The strings reported lie in the buffer. -/
def Event.Bounded : Event → Prop
  | .data _ ptr length => length ≤ ptr.length
  | _ => True

/-- The events `es` of a buffer, those of its part before a cut and those of its
    part `buffer` after it: the cut is between two events or inside a string. -/
inductive Cut (buffer : Bytes) : List Event → List Event → List Event → Prop
  | between (es es' : List Event) : Cut buffer (es.map (Event.extend buffer) ++ es') es es'
  | inside (es : List Event) (kind : Kind) (ptr : Bytes) (length : Nat) (es' : List Event)
      (h : length ≤ buffer.length) : Cut buffer
    (es.map (Event.extend buffer) ++ .data kind (ptr ++ buffer) (ptr.length + length) :: es')
    (es ++ [.data kind ptr ptr.length]) (.data kind buffer length :: es')

/-- What is known of `http_parser`: executed on a buffer that it parses, or on its
    parts one after the other, it comes to the same. The headers end with a line
    feed, which comes after them. -/
structure Parser.CarriesOn (P : Parser) : Prop where
  split : ∀ s a b, a ≠ [] → b ≠ [] → (P.execute s (a ++ b)).Accepts (a ++ b) →
    (P.execute s a).Accepts a ∧ (P.execute (P.execute s a).next b).Accepts b ∧
      Cut b (P.execute s (a ++ b)).events (P.execute s a).events
        (P.execute (P.execute s a).next b).events
  bounded : ∀ s a, ∀ e ∈ (P.execute s a).events, e.Bounded
  headers : ∀ s a es ptr statusCode keepAlive es',
    (P.execute s a).events = es ++ .headersComplete ptr statusCode keepAlive :: es' →
      ptr.head? = some 10 ∧ ∀ kind ptr' length, .data kind ptr' length ∈ es → ptr <:+ ptr'

/-! ## Responses -/

/-- The events of a response the parser accepts: the headers, then the body, with
    a trailer or not. -/
structure Parser.Responds (P : Parser) (response : Bytes) (head : List Event) (ptr : Bytes)
    (statusCode : Nat) (keepAlive : Bool) (tail : List Event) : Prop where
  ne_nil : response ≠ []
  accepts : (P.execute P.init response).Accepts response
  events : (P.execute P.init response).events =
    .messageBegin :: head ++ .headersComplete ptr statusCode keepAlive :: tail ++ [.messageComplete]
  head : ∀ e ∈ head, e.IsHead
  tail : ∀ e ∈ tail, e.IsTail

/-- The bytes of successive reads. -/
def joined (reads : List (Bytes × Int)) : Bytes := (reads.map Prod.fst).flatten

/-- A cutting of a response into reads, with their times. -/
structure Cutting (response : Bytes) where
  reads : List (Bytes × Int)
  joined : joined reads = response
  ne_nil : ∀ r ∈ reads, r.1 ≠ []
  le_chunk : ∀ r ∈ reads, r.1.length ≤ CHUNK

/-- The events of the successive reads. -/
def Parser.readEvents (P : Parser) : P.State → List (Bytes × Int) → List (List Event)
  | _, [] => []
  | s, r :: rs => (P.execute s r.1).events :: P.readEvents (P.execute s r.1).next rs

/-- Whether a value is taken for `gzip` that no end of the headers follows. -/
def trailerGzip : List Event → Bool
  | [] => false
  | e :: es => (e.isGzip && !es.any Event.isHeadersComplete) || trailerGzip es

/-- A read is intact: if the message begins in it, so do the headers end, and no
    value of the trailer is taken for `gzip`. -/
def Intact (es : List Event) : Bool :=
  (!decide (.messageBegin ∈ es) || es.any Event.isHeadersComplete) && !trailerGzip es

/-- Every read of the cutting is intact. -/
def Cutting.Intact {response : Bytes} (c : Cutting response) (P : Parser) : Prop :=
  ∀ es ∈ P.readEvents P.init c.reads, Mistress.Intact es

instance {response : Bytes} (c : Cutting response) (P : Parser) : Decidable (c.Intact P) :=
  inferInstanceAs (Decidable (∀ es ∈ P.readEvents P.init c.reads, Mistress.Intact es = true))

/-- What `receive` returns, but for the time it took. -/
def Session.Received.untimed : Session.Received → Session.Received
  | .response headers body _ statusCode isKeepalive url =>
    .response headers body .nil statusCode isKeepalive url
  | r => r

/-- Two cuttings are received alike: `receive` returns, and it returns the same. -/
def SplitInvariant (P : Parser) {response : Bytes} (id : Nat) (doFetchBody : Bool)
    (gunzip : Bytes → Except LuaError Bytes) (c c' : Cutting response) : Prop :=
  ∃ r r',
    Session.receive P id doFetchBody gunzip (c.reads.map fun r => .got r.1 r.2) = .returned r ∧
    Session.receive P id doFetchBody gunzip (c'.reads.map fun r => .got r.1 r.2) = .returned r' ∧
    r.untimed = r'.untimed

/-! ## Cutting events -/

namespace Event

variable {buffer : Bytes} {e : Event}

theorem isHead_extend : (e.extend buffer).IsHead ↔ e.IsHead := by cases e <;> rfl

theorem isTail_extend : (e.extend buffer).IsTail ↔ e.IsTail := by cases e <;> rfl

theorem body?_extend (he : e.Bounded) : (e.extend buffer).body? = e.body? := by
  cases e with
  | data kind ptr length => cases kind <;> simp [extend, body?, List.take_append_of_le_length he]
  | _ => rfl

theorem token?_extend (he : e.Bounded) : (e.extend buffer).token? = e.token? := by
  cases e with
  | data kind ptr length => cases kind <;> simp [extend, token?, List.take_append_of_le_length he]
  | _ => rfl

theorem extend_eq_messageComplete : e.extend buffer = .messageComplete ↔ e = .messageComplete := by
  cases e <;> simp [extend]

theorem extend_eq_headersComplete {ptr : Bytes} {statusCode : Nat} {keepAlive : Bool}
    (h : e.extend buffer = .headersComplete ptr statusCode keepAlive) :
    ∃ ptr', e = .headersComplete ptr' statusCode keepAlive := by
  cases e with
  | headersComplete ptr' _ _ =>
    cases h
    exact ⟨ptr', rfl⟩
  | _ => cases h

theorem extend_eq_messageBegin : e.extend buffer = .messageBegin ↔ e = .messageBegin := by
  cases e <;> simp [extend]

end Event

variable {buffer : Bytes} {es es' tail : List Event}

theorem bodies_extend (hes : ∀ e ∈ es, e.Bounded) :
    bodies (es.map (Event.extend buffer)) = bodies es := by
  rw [bodies, List.filterMap_map]
  exact List.filterMap_congr fun e he => Event.body?_extend (hes e he)

theorem tokens_extend (hes : ∀ e ∈ es, e.Bounded) :
    tokens (es.map (Event.extend buffer)) = tokens es := by
  rw [tokens, List.filterMap_map]
  exact List.filterMap_congr fun e he => Event.token?_extend (hes e he)

theorem bodies_append (es es' : List Event) : bodies (es ++ es') = bodies es ++ bodies es' :=
  List.filterMap_append

theorem forall_isTail_map :
    (∀ e ∈ es.map (Event.extend buffer), e.IsTail) ↔ ∀ e ∈ es, e.IsTail := by
  simp [Event.isTail_extend]

theorem forall_isHead_map :
    (∀ e ∈ es.map (Event.extend buffer), e.IsHead) ↔ ∀ e ∈ es, e.IsHead := by
  simp [Event.isHead_extend]

/-- The end of the message lies before the cut or after it. -/
theorem append_tail (h : tail ++ [.messageComplete] = es.map (Event.extend buffer) ++ es') :
    (∃ t, es = t ++ [.messageComplete] ∧ es' = [] ∧ tail = t.map (Event.extend buffer)) ∨
      ∃ t', es' = t' ++ [.messageComplete] ∧ tail = es.map (Event.extend buffer) ++ t' := by
  rcases es'.eq_nil_or_concat with rfl | ⟨t', e, rfl⟩
  · rw [List.append_nil] at h
    obtain ⟨t, es₂, rfl, htail, hlast⟩ := List.map_eq_append_iff.1 h.symm
    obtain ⟨e, rfl, he⟩ := List.map_eq_singleton_iff.1 hlast
    rw [Event.extend_eq_messageComplete.1 he]
    exact .inl ⟨t, rfl, rfl, htail.symm⟩
  · rw [List.concat_eq_append, ← List.append_assoc] at h
    obtain ⟨htail, hlast⟩ := List.append_inj' h rfl
    exact .inr ⟨t', by rw [List.concat_eq_append, ← hlast], htail⟩

/-- A read of the body, by its events: it ends the message, or the next reads do. -/
theorem Cut.body (h : Cut buffer (tail ++ [.messageComplete]) es es')
    (htail : ∀ e ∈ tail, e.IsTail) (hes : ∀ e ∈ es, e.Bounded) :
    (∃ t, es = t ++ ending true ∧ es' = [] ∧ (∀ e ∈ t, e.IsTail) ∧ bodies t = bodies tail) ∨
      ∃ t t', es = t ++ ending false ∧ es' = t' ++ [.messageComplete] ∧ (∀ e ∈ t, e.IsTail) ∧
        (∀ e ∈ t', e.IsTail) ∧
        (bodies t).flatten ++ (bodies t').flatten = (bodies tail).flatten := by
  generalize hwhole : tail ++ [.messageComplete] = whole at h
  cases h with
  | between es es' =>
    rcases append_tail hwhole with ⟨t, rfl, rfl, rfl⟩ | ⟨t', rfl, rfl⟩
    · obtain ⟨ht, -⟩ := List.forall_mem_append.1 hes
      exact .inl ⟨t, rfl, rfl, forall_isTail_map.1 htail, (bodies_extend ht).symm⟩
    · obtain ⟨ht, ht'⟩ := List.forall_mem_append.1 htail
      refine .inr ⟨es, t', (List.append_nil _).symm, rfl, forall_isTail_map.1 ht, ht', ?_⟩
      rw [bodies_append, bodies_extend hes, List.flatten_append]
  | inside es kind ptr length es' hle =>
    rcases append_tail hwhole with ⟨-, -, h, -⟩ | ⟨t', h, rfl⟩
    · cases h
    · obtain ⟨hes, -⟩ := List.forall_mem_append.1 hes
      obtain ⟨ht, ht'⟩ := List.forall_mem_append.1 htail
      cases t' with
      | nil => cases h
      | cons e t' =>
        obtain ⟨rfl, rfl⟩ := List.cons_eq_cons.1 h
        obtain ⟨he, ht'⟩ := List.forall_mem_cons.1 ht'
        refine .inr ⟨es ++ [.data kind ptr ptr.length], .data kind buffer length :: t',
          (List.append_nil _).symm, rfl, ?_, List.forall_mem_cons.2 ⟨he, ht'⟩, ?_⟩
        · exact List.forall_mem_append.2 ⟨forall_isTail_map.1 ht, List.forall_mem_singleton.2 he⟩
        · rw [bodies_append, bodies_append, bodies_extend hes, bodies_cons, bodies_cons, bodies_cons]
          cases kind <;> simp [Event.body?, bodies, List.take_length_add_append]

/-- The read in which the message begins, by its events: the headers end in it, or
    they do not. -/
theorem append_message {head : List Event} {ptr : Bytes} {statusCode : Nat} {keepAlive : Bool}
    (h : .messageBegin :: head ++ .headersComplete ptr statusCode keepAlive :: tail =
      es.map (Event.extend buffer) ++ es') :
    es = [] ∨
      (∃ h₁ h₂, es = .messageBegin :: h₁ ∧ head = h₁.map (Event.extend buffer) ++ h₂ ∧
        es' = h₂ ++ .headersComplete ptr statusCode keepAlive :: tail) ∨
      ∃ h₁ ptr' t, es = .messageBegin :: h₁ ++ .headersComplete ptr' statusCode keepAlive :: t ∧
        head = h₁.map (Event.extend buffer) ∧ tail = t.map (Event.extend buffer) ++ es' := by
  cases es with
  | nil => exact .inl rfl
  | cons e es =>
    rw [List.cons_append, List.map_cons, List.cons_append, List.cons_eq_cons] at h
    obtain ⟨he, h⟩ := h
    rw [Event.extend_eq_messageBegin.1 he.symm]
    rcases List.append_eq_append_iff.1 h with ⟨c, hes, hc⟩ | ⟨c, hhead, hc⟩
    · -- The cut comes after the headers, or at their end.
      obtain ⟨h₁, es₂, rfl, rfl, rfl⟩ := List.map_eq_append_iff.1 hes
      cases es₂ with
      | nil => exact .inr (.inl ⟨h₁, [], by simp, by simp, by simpa using hc.symm⟩)
      | cons e es₂ =>
        obtain ⟨he', htail⟩ := List.cons_eq_cons.1 hc
        obtain ⟨ptr', rfl⟩ := Event.extend_eq_headersComplete he'.symm
        exact .inr (.inr ⟨h₁, ptr', es₂, rfl, rfl, htail⟩)
    · exact .inr (.inl ⟨es, c, rfl, hhead, hc⟩)

theorem Cut.message {head : List Event} {ptr : Bytes} {statusCode : Nat} {keepAlive : Bool}
    (h : Cut buffer (.messageBegin :: head ++ .headersComplete ptr statusCode keepAlive :: tail)
      es es') (hhead : ∀ e ∈ head, e.IsHead) :
    (es = [] ∧
      es' = .messageBegin :: head ++ .headersComplete ptr statusCode keepAlive :: tail) ∨
    (∃ h₁, es = .messageBegin :: h₁ ∧ ∀ e ∈ h₁, e.IsHead) ∨
      ∃ h₁ ptr' t, es = .messageBegin :: h₁ ++ .headersComplete ptr' statusCode keepAlive :: t ∧
        head = h₁.map (Event.extend buffer) ∧ Cut buffer tail t es' := by
  generalize hwhole : .messageBegin :: head ++ .headersComplete ptr statusCode keepAlive :: tail =
    whole at h
  cases h with
  | between es es' =>
    rcases append_message hwhole with rfl | ⟨h₁, h₂, rfl, rfl, -⟩ | ⟨h₁, ptr', t, rfl, hh, rfl⟩
    · exact .inl ⟨rfl, rfl⟩
    · exact .inr (.inl ⟨h₁, rfl, forall_isHead_map.1 (List.forall_mem_append.1 hhead).1⟩)
    · exact .inr (.inr ⟨h₁, ptr', t, rfl, hh, .between t es'⟩)
  | inside es kind ptr₀ length es' hle =>
    rcases append_message hwhole with rfl | ⟨h₁, h₂, rfl, rfl, hes'⟩ | ⟨h₁, ptr', t, rfl, hh, rfl⟩
    · cases hwhole
    · refine .inr (.inl ⟨h₁ ++ [.data kind ptr₀ ptr₀.length], rfl, ?_⟩)
      obtain ⟨hh₁, hh₂⟩ := List.forall_mem_append.1 hhead
      refine List.forall_mem_append.2 ⟨forall_isHead_map.1 hh₁, List.forall_mem_singleton.2 ?_⟩
      -- The string cut is one of the headers.
      cases h₂ with
      | nil => cases hes'
      | cons e h₂ =>
        obtain ⟨rfl, -⟩ := List.cons_eq_cons.1 hes'
        exact (List.forall_mem_cons.1 hh₂).1
    · refine .inr (.inr ⟨h₁, ptr', t ++ [.data kind ptr₀ ptr₀.length], by simp, hh,
        .inside t kind ptr₀ length es' hle⟩)

/-! ## Intact reads -/

theorem any_headersComplete_tail {t : List Event} (ht : ∀ e ∈ t, e.IsTail) (done : Bool) :
    (t ++ ending done).any Event.isHeadersComplete = false := by
  refine List.any_eq_false.2 fun e he => ?_
  rcases List.mem_append.1 he with he | he
  · have := ht e he
    cases e <;> simp_all [Event.isHeadersComplete, Event.IsTail]
  · cases done <;> simp_all [ending, Event.isHeadersComplete]

/-- Where no end of the headers follows, every value belongs to a trailer. -/
theorem trailerGzip_eq {es : List Event} (h : es.any Event.isHeadersComplete = false) :
    trailerGzip es = es.any Event.isGzip := by
  induction es with
  | nil => rfl
  | cons e es ih =>
    obtain ⟨-, hes⟩ := Bool.or_eq_false_iff.1 ((List.any_cons ..).symm.trans h)
    rw [trailerGzip, hes, ih hes, List.any_cons]
    simp

theorem trailerGzip_tail {t : List Event} (ht : ∀ e ∈ t, e.IsTail) (done : Bool) :
    trailerGzip (t ++ ending done) = t.any Event.isGzip := by
  rw [trailerGzip_eq (any_headersComplete_tail ht done), List.any_append]
  cases done <;> simp [ending, Event.isGzip]

/-- Up to the end of the headers, no value belongs to a trailer. -/
theorem trailerGzip_headersComplete (h t : List Event) (ptr : Bytes) (statusCode : Nat)
    (keepAlive : Bool) :
    trailerGzip (h ++ .headersComplete ptr statusCode keepAlive :: t) = trailerGzip t := by
  induction h with
  | nil => rfl
  | cons e h ih =>
    rw [List.cons_append, trailerGzip, ih]
    simp [Event.isHeadersComplete]

theorem intact_tail {t : List Event} (ht : ∀ e ∈ t, e.IsTail) (done : Bool) :
    Intact (t ++ ending done) = !t.any Event.isGzip := by
  have hbegin : .messageBegin ∉ t ++ ending done := fun h => by
    rcases List.mem_append.1 h with h | h
    · exact ht _ h
    · cases done <;> simp [ending] at h
  simp [Intact, hbegin, trailerGzip_tail ht]

theorem intact_message {h t : List Event} (ht : ∀ e ∈ t, e.IsTail) (done : Bool) (ptr : Bytes)
    (statusCode : Nat) (keepAlive : Bool) :
    Intact (.messageBegin :: h ++ .headersComplete ptr statusCode keepAlive :: (t ++ ending done)) =
      !t.any Event.isGzip := by
  rw [Intact, trailerGzip_headersComplete, trailerGzip_tail ht]
  simp [Event.isHeadersComplete]

theorem any_headersComplete_head {h : List Event} (hh : ∀ e ∈ h, e.IsHead) :
    h.any Event.isHeadersComplete = false := by
  refine List.any_eq_false.2 fun e he => ?_
  have := hh e he
  cases e <;> simp_all [Event.isHeadersComplete, Event.IsHead]

/-- A read whose headers are cut off is not intact. -/
theorem intact_cut {h : List Event} (hh : ∀ e ∈ h, e.IsHead) :
    Intact (.messageBegin :: h) = false := by
  simp [Intact, any_headersComplete_head hh, Event.isHeadersComplete]

/-! ## A read in the loop of `receive` -/

open Session

variable {P : Parser} {w : RecvWatcher P} {v : Receiving} {doFetchBody : Bool}
  {gunzip : Bytes → Except LuaError Bytes} {passed : Int} {rest : List Read}

theorem readResult_passed (doFetchBody : Bool) (passed : Int) :
    ReadResult [(.str "passed", .num passed)] false [] doFetchBody passed :=
  ⟨rfl, rfl, rfl, rfl, rfl, by cases doFetchBody <;> rfl⟩

theorem takeHeaders_passed (v : Receiving) {res : Fields}
    (h : res.get (.str "headers") = .nil) : v.takeHeaders res = v := by
  simp [Receiving.takeHeaders, h, Value.truthy]

/-- The state of the loop after a read. -/
def Continues (o : Outcome) (rest : List Read) (s : P.State) (doFetchBody : Bool)
    (gunzip : Bytes → Except LuaError Bytes) (v : Receiving) (passed : Int) (done : Bool) : Prop :=
  ∃ w : RecvWatcher P, w.parser = s ∧
    o = if done then .returned (v.finish doFetchBody gunzip (.num passed))
      else receiveLoop doFetchBody gunzip w v rest

/-- A read of the body, or before the message. -/
theorem loop_tail {t : List Event} {done : Bool}
    (hacc : (P.execute w.parser buffer).Accepts buffer)
    (hes : (P.execute w.parser buffer).events = t ++ ending done) (ht : ∀ e ∈ t, e.IsTail)
    (hg : t.any Event.isGzip = false) (hv : v.url = .nil) :
    ∃ body : List Bytes, body.flatten = v.body.flatten ++ fetched doFetchBody t ∧
      Continues (receiveLoop doFetchBody gunzip w v (.got buffer passed :: rest)) rest
        (P.execute w.parser buffer).next doFetchBody gunzip { v with body } passed done := by
  obtain ⟨r, res, hfold, hcall, hres, hsame⟩ := foldlM_ending w.coroutineId ht hg done
    (readResult_passed doFetchBody passed) w.headersTableIndex
  obtain ⟨body, hflat, hstep⟩ := receiveStep_eq gunzip hv hres
  rw [takeHeaders_passed v (hsame "headers" (by decide))] at hstep
  refine ⟨body, hflat, ⟨w.coroutineId, (P.execute w.parser buffer).next, r.headersTableIndex⟩,
    rfl, ?_⟩
  have hrecv : cbRecv doFetchBody w (.got buffer passed) = some
      (⟨w.coroutineId, (P.execute w.parser buffer).next, r.headersTableIndex⟩, [.table res]) := by
    rw [cbRecv_got hacc, hes, hfold]
    simp [hcall]
  rw [receiveLoop, hrecv]
  simp only [hstep]
  cases done <;> rfl

/-- The read with the headers. -/
theorem loop_message {h t : List Event} {ptr : Bytes} {statusCode : Nat} {keepAlive done : Bool}
    (hacc : (P.execute w.parser buffer).Accepts buffer)
    (hes : (P.execute w.parser buffer).events = .messageBegin :: h ++
      .headersComplete ptr statusCode keepAlive :: (t ++ ending done))
    (hh : ∀ e ∈ h, e.IsHead) (ht : ∀ e ∈ t, e.IsTail) (hg : t.any Event.isGzip = false)
    (hw : w.headersTableIndex = 0) (hv : v.url = .nil) :
    ∃ body : List Bytes, body.flatten = v.body.flatten ++ fetched doFetchBody t ∧
      Continues (receiveLoop doFetchBody gunzip w v (.got buffer passed :: rest)) rest
        (P.execute w.parser buffer).next doFetchBody gunzip
        { afterHead v h statusCode keepAlive with body } passed done := by
  obtain ⟨n, res₀, hres₀, htake, hfold₀⟩ := foldlM_headers doFetchBody w.coroutineId passed hh ptr
    statusCode keepAlive (t ++ ending done)
  obtain ⟨r, res, hfold, hcall, hres, hsame⟩ := foldlM_ending w.coroutineId ht hg done hres₀ n
  obtain ⟨body, hflat, hstep⟩ := receiveStep_eq gunzip hv hres
  have htake' : v.takeHeaders res = afterHead v h statusCode keepAlive := by
    rw [← htake v, Receiving.takeHeaders, Receiving.takeHeaders, hsame "headers" (by decide),
      hsame "status_code" (by decide), hsame "is_keepalive" (by decide),
      hsame "is_gzipped" (by decide)]
  rw [htake'] at hstep
  refine ⟨body, hflat, ⟨w.coroutineId, (P.execute w.parser buffer).next, r.headersTableIndex⟩,
    rfl, ?_⟩
  have hrecv : cbRecv doFetchBody w (.got buffer passed) = some
      (⟨w.coroutineId, (P.execute w.parser buffer).next, r.headersTableIndex⟩, [.table res]) := by
    rw [cbRecv_got hacc, hes, hw, hfold₀, hfold]
    simp [hcall]
  rw [receiveLoop, hrecv]
  simp only [hstep]
  cases done <;> rfl

/-- The process exits when the headers are cut off. -/
theorem loop_cut {h : List Event} (hacc : (P.execute w.parser buffer).Accepts buffer)
    (hes : (P.execute w.parser buffer).events = .messageBegin :: h) (hh : ∀ e ∈ h, e.IsHead)
    (hw : w.headersTableIndex = 0) :
    receiveLoop doFetchBody gunzip w v (.got buffer passed :: rest) = .exited := by
  obtain ⟨r, hfold, hcall⟩ := foldlM_cut doFetchBody w.coroutineId hh
    [(.str "passed", .num passed)]
  rw [receiveLoop, cbRecv_got hacc, hes, hw, hfold]
  simp [hcall]

/-- The process exits when a value of the trailer is taken for `gzip`, whether or
    not the headers are in the same read. -/
theorem loop_gzip {t : List Event} {done : Bool}
    (hacc : (P.execute w.parser buffer).Accepts buffer)
    (hes : (P.execute w.parser buffer).events = t ++ ending done) (ht : ∀ e ∈ t, e.IsTail)
    (hg : t.any Event.isGzip) :
    receiveLoop doFetchBody gunzip w v (.got buffer passed :: rest) = .exited := by
  rw [receiveLoop, cbRecv_got hacc, hes, foldlM_gzip doFetchBody w.coroutineId ht hg _ _ (.inl rfl)]
  rfl

theorem loop_message_gzip {h t : List Event} {ptr : Bytes} {statusCode : Nat}
    {keepAlive done : Bool} (hacc : (P.execute w.parser buffer).Accepts buffer)
    (hes : (P.execute w.parser buffer).events = .messageBegin :: h ++
      .headersComplete ptr statusCode keepAlive :: (t ++ ending done))
    (hh : ∀ e ∈ h, e.IsHead) (ht : ∀ e ∈ t, e.IsTail) (hg : t.any Event.isGzip)
    (hw : w.headersTableIndex = 0) :
    receiveLoop doFetchBody gunzip w v (.got buffer passed :: rest) = .exited := by
  obtain ⟨n, res, hres, -, hfold⟩ := foldlM_headers doFetchBody w.coroutineId passed hh ptr
    statusCode keepAlive (t ++ ending done)
  have hbody : BodyField res := .inl (by rw [hres.body]; cases doFetchBody <;> rfl)
  rw [receiveLoop, cbRecv_got hacc, hes, hw, hfold,
    foldlM_gzip doFetchBody w.coroutineId ht hg _ _ hbody]
  rfl

/-- A read without events. -/
theorem loop_none (hacc : (P.execute w.parser buffer).Accepts buffer)
    (hes : (P.execute w.parser buffer).events = []) (hv : v.url = .nil) :
    receiveLoop doFetchBody gunzip w v (.got buffer passed :: rest) = receiveLoop doFetchBody gunzip
      ⟨w.coroutineId, (P.execute w.parser buffer).next, w.headersTableIndex⟩ v rest := by
  have hv' : ({ v with url := Value.nil } : Receiving) = v := by
    rw [← hv]
  rw [receiveLoop, cbRecv_got hacc, hes]
  cases doFetchBody <;>
    simp [callPlanResume, pcall, receiveStep, Fields.get, Value.truthy, Receiving.takeHeaders,
      Receiving.takeBody, hv, hv']

/-! ## All reads -/

/-- `receive` returns `r` if the reads are intact, and the process exits if they
    are not. -/
def Ends (o : Outcome) (intact : Prop) (r : Value → Received) : Prop :=
  (intact → ∃ passed, o = .returned (r (.num passed))) ∧ (¬intact → o = .exited)

/-- Only the whole of the body counts. -/
theorem finish_congr {body body' : List Bytes} (h : body.flatten = body'.flatten) :
    ({ v with body } : Receiving).finish doFetchBody gunzip =
      ({ v with body := body' } : Receiving).finish doFetchBody gunzip := by
  funext p
  simp [Receiving.finish, h]

/-- The first read exits the process if it is not intact. -/
theorem Ends.step {o : Outcome} {first : Bool} {intact : Prop} {r : Value → Received}
    (hexit : first = false → o = .exited) (hgo : first = true → Ends o intact r) :
    Ends o (first = true ∧ intact) r := by
  cases first with
  | false => exact ⟨fun h => absurd h.1 Bool.false_ne_true, fun _ => hexit rfl⟩
  | true =>
    obtain ⟨h₁, h₂⟩ := hgo rfl
    exact ⟨fun h => h₁ h.2, fun h => h₂ fun hi => h ⟨rfl, hi⟩⟩

/-- The read that ends the message. -/
theorem Continues.ends {o : Outcome} {s : P.State} {body : List Bytes} {b : Bytes} {intact : Prop}
    (h : Continues o rest s doFetchBody gunzip { v with body } passed true) (hb : body.flatten = b)
    (hi : intact) : Ends o intact (({ v with body := [b] } : Receiving).finish doFetchBody gunzip) := by
  obtain ⟨-, -, rfl⟩ := h
  refine ⟨fun _ => ⟨passed, ?_⟩, fun h => absurd hi h⟩
  have hone : body.flatten = [b].flatten := by simpa using hb
  rw [if_pos rfl, finish_congr hone]

theorem fetched_append {t t' : List Event}
    (h : (bodies t).flatten ++ (bodies t').flatten = (bodies tail).flatten) :
    fetched doFetchBody t ++ fetched doFetchBody t' = fetched doFetchBody tail := by
  cases doFetchBody <;> simp [fetched, h]

theorem joined_ne_nil {reads : List (Bytes × Int)} (hne : ∀ r ∈ reads, r.1 ≠ [])
    (h : reads ≠ []) : joined reads ≠ [] := by
  obtain ⟨r, rest, rfl⟩ := List.exists_cons_of_ne_nil h
  simp [joined, hne r List.mem_cons_self]

/-- The first read of several: it is the only one, or the next ones carry on. -/
theorem first_read (hP : P.CarriesOn) {r : Bytes × Int} {rest : List (Bytes × Int)}
    (hne : ∀ r' ∈ r :: rest, r'.1 ≠ []) {s : P.State}
    (hacc : (P.execute s (joined (r :: rest))).Accepts (joined (r :: rest))) :
    (P.execute s r.1).Accepts r.1 ∧
      ((rest = [] ∧ joined (r :: rest) = r.1) ∨
        (rest ≠ [] ∧ (P.execute (P.execute s r.1).next (joined rest)).Accepts (joined rest) ∧
          Cut (joined rest) (P.execute s (joined (r :: rest))).events (P.execute s r.1).events
            (P.execute (P.execute s r.1).next (joined rest)).events)) := by
  obtain ⟨hr, hrest⟩ := List.forall_mem_cons.1 hne
  by_cases h : rest = []
  · subst h
    have hone : joined [r] = r.1 := by simp [joined]
    rw [hone] at hacc
    exact ⟨hacc, .inl ⟨rfl, hone⟩⟩
  · have hcons : joined (r :: rest) = r.1 ++ joined rest := by simp [joined]
    rw [hcons] at hacc ⊢
    obtain ⟨h₁, h₂, hcut⟩ := hP.split s r.1 (joined rest) hr (joined_ne_nil hrest h) hacc
    exact ⟨h₁, .inr ⟨h, h₂, hcut⟩⟩

/-- After the message, there are no events. -/
theorem readEvents_nil (hP : P.CarriesOn) {reads : List (Bytes × Int)}
    (hne : ∀ r ∈ reads, r.1 ≠ []) {s : P.State}
    (hacc : (P.execute s (joined reads)).Accepts (joined reads))
    (hes : (P.execute s (joined reads)).events = []) : ∀ es ∈ P.readEvents s reads, es = [] := by
  induction reads generalizing s with
  | nil => simp [Parser.readEvents]
  | cons r rest ih =>
    obtain ⟨-, ⟨rfl, hone⟩ | ⟨-, hacc', hcut⟩⟩ := first_read hP hne hacc
    · rw [hone] at hes
      simp [Parser.readEvents, hes]
    · generalize hwhole : (P.execute s (joined (r :: rest))).events = whole at hcut
      generalize hes₁ : (P.execute s r.1).events = es₁ at hcut
      generalize hes₂ : (P.execute (P.execute s r.1).next (joined rest)).events = es₂ at hcut
      cases hcut with
      | between =>
        obtain ⟨h₁, rfl⟩ := List.append_eq_nil_iff.1 (hwhole.symm.trans hes)
        rw [List.map_eq_nil_iff] at h₁
        rw [Parser.readEvents, hes₁, h₁]
        exact List.forall_mem_cons.2
          ⟨rfl, ih (List.forall_mem_cons.1 hne).2 hacc' hes₂⟩
      | inside => simp [hes] at hwhole

/-- The reads of the body, which end the message. -/
theorem ends_body (doFetchBody : Bool) (gunzip : Bytes → Except LuaError Bytes)
    (hP : P.CarriesOn) {reads : List (Bytes × Int)} (hreads : reads ≠ [])
    (hne : ∀ r ∈ reads, r.1 ≠ []) {w : RecvWatcher P} {v : Receiving} {tail : List Event}
    (hacc : (P.execute w.parser (joined reads)).Accepts (joined reads))
    (hes : (P.execute w.parser (joined reads)).events = tail ++ [.messageComplete])
    (htail : ∀ e ∈ tail, e.IsTail) (hv : v.url = .nil) :
    Ends (receiveLoop doFetchBody gunzip w v (reads.map fun r => .got r.1 r.2))
      (∀ es ∈ P.readEvents w.parser reads, Intact es)
      (({ v with body := [v.body.flatten ++ fetched doFetchBody tail] } : Receiving).finish
        doFetchBody gunzip) := by
  induction reads generalizing w v tail with
  | nil => exact absurd rfl hreads
  | cons r rest ih =>
    rw [Parser.readEvents, List.forall_mem_cons, List.map_cons]
    obtain ⟨hacc₁, ⟨rfl, hone⟩ | ⟨hrest, hacc₂, hcut⟩⟩ := first_read hP hne hacc
    · rw [hone] at hes
      change _ = tail ++ ending true at hes
      rw [hes, intact_tail htail true]
      refine Ends.step (fun h => ?_) (fun h => ?_)
      · exact loop_gzip hacc₁ hes htail (by simpa using h)
      · obtain ⟨body, hbody, hcont⟩ := loop_tail hacc₁ hes htail (by simpa using h) hv
        exact hcont.ends hbody (by simp [Parser.readEvents])
    · rw [hes] at hcut
      rcases hcut.body htail (hP.bounded _ _) with
        ⟨t, hes₁, hes₂, ht, hbodies⟩ | ⟨t, t', hes₁, hes₂, ht, ht', hbodies⟩
      · -- The message ends in this read.
        rw [hes₁, intact_tail ht true]
        refine Ends.step (fun h => ?_) (fun h => ?_)
        · exact loop_gzip hacc₁ hes₁ ht (by simpa using h)
        · obtain ⟨body, hbody, hcont⟩ := loop_tail hacc₁ hes₁ ht (by simpa using h) hv
          rw [fetched, hbodies] at hbody
          refine hcont.ends hbody fun es hes => ?_
          rw [readEvents_nil hP (List.forall_mem_cons.1 hne).2 hacc₂ hes₂ es hes]
          rfl
      · rw [hes₁, intact_tail ht false]
        refine Ends.step (fun h => ?_) (fun h => ?_)
        · exact loop_gzip hacc₁ hes₁ ht (by simpa using h)
        · obtain ⟨body, hbody, w', hw', hcont⟩ := loop_tail hacc₁ hes₁ ht (by simpa using h) hv
          rw [hcont, if_neg Bool.false_ne_true, ← hw']
          rw [← hw'] at hacc₂ hes₂
          have hrest' := ih hrest (List.forall_mem_cons.1 hne).2 hacc₂ hes₂ ht'
            (v := { v with body }) hv
          have hflat : [body.flatten ++ fetched doFetchBody t'].flatten =
              [v.body.flatten ++ fetched doFetchBody tail].flatten := by
            simp only [List.flatten_singleton, hbody, List.append_assoc, fetched_append hbodies]
          rwa [finish_congr hflat] at hrest'

/-- Whether a value before a line feed is taken for `gzip` does not depend on what
    follows. -/
theorem isGzip_append {ptr ptr' : Bytes} (hptr : ptr.head? = some 10) (h : ptr <:+ ptr')
    (buffer : Bytes) : Recv.isGzip (ptr' ++ buffer) = Recv.isGzip ptr' := by
  obtain ⟨z, rfl⟩ := List.head?_eq_some_iff.1 hptr
  obtain ⟨q, rfl⟩ := h
  rcases q with _ | ⟨a, _ | ⟨b, _ | ⟨c, _ | ⟨d, _ | ⟨e, q⟩⟩⟩⟩⟩ <;> simp [Recv.isGzip]

/-- The headers of a read do not depend on what follows. -/
theorem afterHead_extend (hP : P.CarriesOn) {s : P.State} {h es : List Event} {ptr : Bytes}
    {statusCode : Nat} {keepAlive : Bool} (hes : (P.execute s buffer).events =
      .messageBegin :: h ++ .headersComplete ptr statusCode keepAlive :: es) (buffer' : Bytes) :
    afterHead v (h.map (Event.extend buffer')) statusCode keepAlive =
      afterHead v h statusCode keepAlive := by
  have hbounded : ∀ e ∈ h, e.Bounded := fun e he => hP.bounded s buffer e (by simp [hes, he])
  obtain ⟨hptr, hsuffix⟩ := hP.headers s buffer (.messageBegin :: h) ptr statusCode keepAlive es hes
  have hgzip : (h.map (Event.extend buffer')).any Event.isGzip = h.any Event.isGzip := by
    rw [Bool.eq_iff_iff, List.any_map, List.any_eq_true, List.any_eq_true]
    refine exists_congr fun e => and_congr_right fun he => ?_
    cases e with
    | data kind ptr' length =>
      have hgzip := isGzip_append hptr (hsuffix kind ptr' length (List.mem_cons_of_mem _ he)) buffer'
      cases kind <;> simp [Event.isGzip, Event.extend, hgzip]
    | _ => rfl
  rw [afterHead, afterHead, tokens_extend hbounded, hgzip]

/-- The reads of a message. -/
theorem ends_message (hP : P.CarriesOn) {reads : List (Bytes × Int)} (hreads : reads ≠ [])
    (hne : ∀ r ∈ reads, r.1 ≠ []) {w : RecvWatcher P} {v : Receiving} {head tail : List Event}
    {ptr : Bytes} {statusCode : Nat} {keepAlive : Bool}
    (hacc : (P.execute w.parser (joined reads)).Accepts (joined reads))
    (hes : (P.execute w.parser (joined reads)).events = .messageBegin :: head ++
      .headersComplete ptr statusCode keepAlive :: (tail ++ [.messageComplete]))
    (hhead : ∀ e ∈ head, e.IsHead) (htail : ∀ e ∈ tail, e.IsTail) (hw : w.headersTableIndex = 0)
    (hv : v.url = .nil) :
    Ends (receiveLoop doFetchBody gunzip w v (reads.map fun r => .got r.1 r.2))
      (∀ es ∈ P.readEvents w.parser reads, Intact es)
      (({ afterHead v head statusCode keepAlive with
        body := [v.body.flatten ++ fetched doFetchBody tail] } : Receiving).finish
          doFetchBody gunzip) := by
  induction reads generalizing w v with
  | nil => exact absurd rfl hreads
  | cons r rest ih =>
    rw [Parser.readEvents, List.forall_mem_cons, List.map_cons]
    obtain ⟨hacc₁, ⟨rfl, hone⟩ | ⟨hrest, hacc₂, hcut⟩⟩ := first_read hP hne hacc
    · rw [hone] at hes
      change _ = _ ++ _ :: (tail ++ ending true) at hes
      rw [hes, intact_message htail true]
      refine Ends.step (fun h => ?_) (fun h => ?_)
      · exact loop_message_gzip hacc₁ hes hhead htail (by simpa using h) hw
      · obtain ⟨body, hbody, hcont⟩ :=
          loop_message hacc₁ hes hhead htail (by simpa using h) hw hv
        exact hcont.ends hbody (by simp [Parser.readEvents])
    · rw [hes] at hcut
      rcases hcut.message hhead with ⟨hes₁, hes₂⟩ | ⟨h₁, hes₁, hh₁⟩ | ⟨h₁, ptr', es₁, hes₁, rfl, hcut'⟩
      · -- The message has not begun.
        rw [hes₁]
        refine Ends.step (fun h => absurd h (by decide)) fun _ => ?_
        rw [loop_none hacc₁ hes₁ hv]
        exact ih hrest (List.forall_mem_cons.1 hne).2 hacc₂ hes₂ hw hv
      · rw [hes₁, intact_cut hh₁]
        exact Ends.step (fun _ => loop_cut hacc₁ hes₁ hh₁ hw) fun h => absurd h Bool.false_ne_true
      · have hh₁ := forall_isHead_map.1 hhead
        rw [afterHead_extend hP hes₁]
        rcases hcut'.body htail (fun e he => hP.bounded w.parser r.1 e (by simp [hes₁, he])) with
          ⟨t, rfl, hes₂, ht, hbodies⟩ | ⟨t, t', rfl, hes₂, ht, ht', hbodies⟩
        · rw [hes₁, intact_message ht true]
          refine Ends.step (fun h => ?_) (fun h => ?_)
          · exact loop_message_gzip hacc₁ hes₁ hh₁ ht (by simpa using h) hw
          · obtain ⟨body, hbody, hcont⟩ :=
              loop_message hacc₁ hes₁ hh₁ ht (by simpa using h) hw hv
            rw [fetched, hbodies] at hbody
            refine hcont.ends hbody fun es hes => ?_
            rw [readEvents_nil hP (List.forall_mem_cons.1 hne).2 hacc₂ hes₂ es hes]
            rfl
        · rw [hes₁, intact_message ht false]
          refine Ends.step (fun h => ?_) (fun h => ?_)
          · exact loop_message_gzip hacc₁ hes₁ hh₁ ht (by simpa using h) hw
          · obtain ⟨body, hbody, w', hw', hcont⟩ :=
              loop_message hacc₁ hes₁ hh₁ ht (by simpa using h) hw hv
            rw [hcont, if_neg Bool.false_ne_true, ← hw']
            rw [← hw'] at hacc₂ hes₂
            have hrest' := ends_body doFetchBody gunzip hP hrest
              (List.forall_mem_cons.1 hne).2 hacc₂ hes₂ ht'
              (v := { afterHead v h₁ statusCode keepAlive with body }) hv
            have hflat : [body.flatten ++ fetched doFetchBody t'].flatten =
                [v.body.flatten ++ fetched doFetchBody tail].flatten := by
              simp only [List.flatten_singleton, hbody, List.append_assoc, fetched_append hbodies]
            rwa [finish_congr hflat] at hrest'

/-- Two values of a cutting of a response differ in the time they took only. -/
theorem untimed_finish (p p' : Value) : (v.finish doFetchBody gunzip p).untimed =
    (v.finish doFetchBody gunzip p').untimed := by
  unfold Receiving.finish
  split
  · split <;> rfl
  · rfl

/-- What a cutting of a response comes to. -/
theorem Cutting.ends (doFetchBody : Bool) (gunzip : Bytes → Except LuaError Bytes)
    (hP : P.CarriesOn) {response : Bytes} {head tail : List Event} {ptr : Bytes}
    {statusCode : Nat} {keepAlive : Bool}
    (hresp : P.Responds response head ptr statusCode keepAlive tail) (c : Cutting response)
    (id : Nat) : Ends (receive P id doFetchBody gunzip (c.reads.map fun r => .got r.1 r.2))
      (c.Intact P) (({ afterHead .init head statusCode keepAlive with
        body := [[] ++ fetched doFetchBody tail] } : Receiving).finish doFetchBody gunzip) := by
  have hne := hresp.ne_nil
  have hacc := hresp.accepts
  have hes := hresp.events
  rw [← c.joined] at hne hacc hes
  rw [List.append_assoc, List.cons_append] at hes
  have hreads : c.reads ≠ [] := fun h => hne (by rw [h]; rfl)
  exact ends_message hP hreads c.ne_nil hacc hes hresp.head hresp.tail rfl rfl

/-- Two cuttings of a response are received alike if and only if all of their reads
    are intact. -/
theorem splitInvariant_iff (hP : P.CarriesOn) {response : Bytes} {head tail : List Event}
    {ptr : Bytes} {statusCode : Nat} {keepAlive : Bool}
    (hresp : P.Responds response head ptr statusCode keepAlive tail) (c c' : Cutting response)
    (id : Nat) : SplitInvariant P id doFetchBody gunzip c c' ↔ c.Intact P ∧ c'.Intact P := by
  obtain ⟨hret, hexit⟩ := c.ends doFetchBody gunzip hP hresp id
  obtain ⟨hret', hexit'⟩ := c'.ends doFetchBody gunzip hP hresp id
  constructor
  · rintro ⟨r, r', hr, hr', -⟩
    constructor
    · by_contra h
      rw [hexit h] at hr
      cases hr
    · by_contra h
      rw [hexit' h] at hr'
      cases hr'
  · rintro ⟨h, h'⟩
    obtain ⟨p, hp⟩ := hret h
    obtain ⟨p', hp'⟩ := hret' h'
    exact ⟨_, _, hp, hp', untimed_finish _ _⟩

/-! ## A response without a body -/

namespace NoContent

/-- The response `HTTP/1.1 204`, with no headers. -/
def response : Bytes := [72, 84, 84, 80, 47, 49, 46, 49, 32, 50, 48, 52, 13, 10, 13, 10]

/-- The callbacks for the `n`-th byte, which is at `ptr`. -/
def events (n : Nat) (ptr : Bytes) : List Event :=
  if n = 0 then [.messageBegin]
  else if n = 15 then [.headersComplete ptr 204 true, .messageComplete] else []

/-- What the parser does from the `n`-th byte on, which stops at a byte that does
    not belong to the response. -/
def execute (n : Nat) : Bytes → Execution Nat
  | [] => ⟨[], 0, n, false⟩
  | b :: bs =>
    if response[n]? = some b then
      let e := execute (n + 1) bs
      ⟨events n (b :: bs) ++ e.events, e.nparsed + 1, e.next, false⟩
    else ⟨[], 0, n, false⟩

/-- The parser of the response. -/
def parser : Parser := ⟨Nat, 0, execute⟩

theorem events_append (n : Nat) (ptr b : Bytes) :
    events n (ptr ++ b) = (events n ptr).map (Event.extend b) := by
  unfold events
  split_ifs <;> rfl

theorem upgrade_eq (n : Nat) (a : Bytes) : (execute n a).upgrade = false := by
  cases a with
  | nil => rfl
  | cons x a =>
    rw [execute]
    split <;> rfl

theorem execute_append {n : Nat} {a b : Bytes} (h : (execute n (a ++ b)).Accepts (a ++ b)) :
    (execute n a).Accepts a ∧ (execute (execute n a).next b).Accepts b ∧
      (execute n (a ++ b)).events =
        (execute n a).events.map (Event.extend b) ++ (execute (execute n a).next b).events := by
  induction a generalizing n with
  | nil => exact ⟨⟨rfl, rfl⟩, h, rfl⟩
  | cons x a ih =>
    by_cases hx : response[n]? = some x
    · simp only [List.cons_append, execute, hx, if_true] at h ⊢
      obtain ⟨h₁, h₂, h₃⟩ := ih ⟨Nat.succ.inj h.1, upgrade_eq _ _⟩
      refine ⟨⟨by rw [h₁.1]; rfl, rfl⟩, h₂, ?_⟩
      rw [h₃, ← List.cons_append, events_append, List.map_append, List.append_assoc]
    · simp [execute, hx, Execution.Accepts] at h

/-- No string is reported, and the headers end at the line feed. -/
theorem mem_events {n : Nat} {a : Bytes} {e : Event} (h : e ∈ (execute n a).events) :
    e = .messageBegin ∨ e = .messageComplete ∨ ∃ z, e = .headersComplete (10 :: z) 204 true := by
  induction a generalizing n with
  | nil => cases h
  | cons x a ih =>
    rw [execute] at h
    split at h
    · rename_i hx
      rcases List.mem_append.1 h with he | he
      · unfold events at he
        split_ifs at he with h₀ h₁
        · exact .inl (List.mem_singleton.1 he)
        · subst h₁
          cases hx
          rcases List.mem_pair.1 he with rfl | rfl
          · exact .inr (.inr ⟨a, rfl⟩)
          · exact .inr (.inl rfl)
        · cases he
      · exact ih he
    · cases h

theorem carriesOn : parser.CarriesOn where
  split s a b _ _ h := by
    obtain ⟨h₁, h₂, h₃⟩ := execute_append h
    refine ⟨h₁, h₂, ?_⟩
    change Cut b (execute s (a ++ b)).events _ _
    rw [h₃]
    exact .between _ _
  bounded s a e he := by
    rcases mem_events he with rfl | rfl | ⟨z, rfl⟩ <;> trivial
  headers s a es ptr statusCode keepAlive es' h := by
    have hmem : ∀ e ∈ es ++ .headersComplete ptr statusCode keepAlive :: es',
        e ∈ (execute s a).events := fun e he => h ▸ he
    constructor
    · rcases mem_events (hmem (.headersComplete ptr statusCode keepAlive) (by simp)) with
        h | h | ⟨z, h⟩ <;> cases h
      rfl
    · intro kind ptr' length hdata
      rcases mem_events (hmem _ (List.mem_append_left _ hdata)) with h | h | ⟨z, h⟩ <;> cases h

theorem responds : parser.Responds response [] [10] 204 true [] where
  ne_nil := List.cons_ne_nil _ _
  accepts := ⟨rfl, rfl⟩
  events := rfl
  head _ h := nomatch h
  tail _ h := nomatch h

/-- The response in one read. -/
def whole : Cutting response := ⟨[(response, 0)], rfl, by decide, by decide⟩

/-- The response in two reads, the first of which is its first byte. -/
def halves : Cutting response :=
  ⟨[(response.take 1, 0), (response.drop 1, 1)], rfl, by decide, by decide⟩

end NoContent

/-- A response cut within its first line makes the process exit. -/
theorem halves_not_splitInvariant :
    ¬∀ (P : Parser), P.CarriesOn → ∀ (response : Bytes) head ptr statusCode keepAlive tail,
      P.Responds response head ptr statusCode keepAlive tail → ∀ (c c' : Cutting response) id
        doFetchBody gunzip, SplitInvariant P id doFetchBody gunzip c c' := by
  intro h
  obtain ⟨r, r', -, hr', -⟩ := h _ NoContent.carriesOn _ _ _ _ _ _ NoContent.responds
    NoContent.whole NoContent.halves 1 true .ok
  cases hr'

end Mistress
