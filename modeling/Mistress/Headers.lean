import Mistress.ParseError
import Mistress.Table

/-!
# The headers of a response

The callbacks of the parser write the names and the values of the headers into one
list of tokens, and `parse_headers` takes the tokens two by two: a name and its value.

* `parseHeaders`: the table it makes, with a string for a name that occurs once and
  a list of strings for one that occurs more often;
* `headerFields`: the headers of a response, each with the values the parser reports
  for it: one for each line it is folded over, none if it has no colon;
* `reconstructs_iff`: the table is that of the headers if and only if the parser reports
  one value for each.
-/

namespace Mistress

open LuaStack

/-! ## `parse_headers` -/

/-- A value of the table of the headers. -/
inductive HeaderValue
  | one (s : Bytes)
  | many (ss : List Bytes)
  deriving DecidableEq

/-- `#t`: the length of the part of the table without `nil`. -/
def border (t : Fields) : Nat :=
  ((List.range t.length).takeWhile fun i =>
    match t.get (.int (i + 1)) with
    | .nil => false
    | _ => true).length

/-- `parse_headers`: a name and its value. -/
def addHeader (headers : Table Bytes HeaderValue) (key : Bytes) (value : Option Bytes) :
    Table Bytes HeaderValue :=
  match headers.lookup key with
  | some (.many ss) => headers.assign key (some (.many (ss ++ value.toList)))
  | some (.one s) => headers.assign key (some (.many (s :: value.toList)))
  | none => headers.assign key (value.map .one)

/-- A token, unless it is `nil`. -/
def token (headersTokens : Fields) (i : Nat) : Option Bytes :=
  match headersTokens.get (.int i) with
  | .bytes s => some s
  | _ => none

/-- `parse_headers`. -/
def parseHeaders (headersTokens : Fields) : Except LuaError (Table Bytes HeaderValue) :=
  (List.range' 1 ((border headersTokens + 1) / 2) 2).foldlM
    (fun headers i =>
      match token headersTokens i with
      | none => .error (.message "key == nil".toList)
      | some key => .ok (addHeader headers key (token headersTokens (i + 1))))
    ∅

/-! ## The headers -/

/-- The values that are reported next. -/
def values : List Event → List Bytes
  | .data .headerValue ptr length :: es => ptr.take length :: values es
  | _ => []

/-- The headers that are reported, each with its values. -/
def headerFields : List Event → List (Bytes × List Bytes)
  | [] => []
  | .data .headerField ptr length :: es => (ptr.take length, values es) :: headerFields es
  | _ :: es => headerFields es

/-- The headers, each with its value: the parts of it that are reported, one after the other. -/
def fieldValues (es : List Event) : List (Bytes × Bytes) :=
  (headerFields es).map fun f => (f.1, f.2.flatten)

/-- What the table of the headers has for a name, by the values of its occurrences. -/
def group : List Bytes → Option HeaderValue
  | [] => none
  | [s] => some (.one s)
  | ss => some (.many ss)

/-- The table has, for each name, the values of its occurrences in order, and nothing else. -/
def Groups (headers : Table Bytes HeaderValue) (fields : List (Bytes × Bytes)) : Prop :=
  ∀ name, headers.lookup name = group ((fields.filter (·.1 = name)).map Prod.snd)

/-- The events of the status line and the headers. -/
def headEvents (es : List Event) : List Event := es.takeWhile (!·.isHeadersComplete)

/-- The tokens of the headers, as `hp_headers_complete_cb` finds them on the stack. -/
def Recv.headersTokens (doFetchBody : Bool) (id : Nat) (passed : Int) (es : List Event) :
    Option Fields := do
  let r ← (headEvents es).foldlM (Recv.callback doFetchBody)
    (inBody 0 [(.str "passed", .num passed)] id)
  match r.stack with
  | .table t :: _ => some t
  | _ => none

/-- The headers that the first read of a response comes with are in the table
    `parse_headers` makes of their tokens. -/
def Reconstructs (id : Nat) (doFetchBody : Bool) (buffer : Bytes) (passed : Int) : Prop :=
  ∃ t headers,
    Recv.headersTokens doFetchBody id passed (httpParser.execute httpParser.init buffer).events =
      some t ∧
    parseHeaders t = .ok headers ∧
    Groups headers (fieldValues (headEvents (httpParser.execute httpParser.init buffer).events))

/-! ## Pairs of tokens -/

/-- The tokens, two by two. -/
def pairs : List Bytes → List (Bytes × Option Bytes)
  | [] => []
  | [key] => [(key, none)]
  | key :: value :: ts => (key, some value) :: pairs ts

theorem get_zipIdx (ts : List Bytes) (n i : Nat) :
    Fields.get ((ts.zipIdx n).map fun t => (.int (t.2 + 1), .bytes t.1)) (.int (n + i + 1)) =
      (ts[i]?.map Value.bytes).getD .nil := by
  induction ts generalizing n i with
  | nil => rfl
  | cons t ts ih =>
    cases i with
    | zero => simp [Fields.get]
    | succ i =>
      have hi : n + (i + 1) + 1 = n + 1 + i + 1 := by omega
      rw [hi, List.zipIdx_cons, List.map_cons, Fields.get, if_neg (by simp; omega), ih (n + 1) i]
      rfl

theorem token_tokenFields (ts : List Bytes) (i : Nat) : token (tokenFields ts) (1 + i) = ts[i]? := by
  have hget := get_zipIdx ts 0 i
  rw [Nat.zero_add, Nat.add_comm] at hget
  unfold token tokenFields
  rw [hget]
  cases ts[i]? <;> rfl

theorem border_tokenFields (ts : List Bytes) : border (tokenFields ts) = ts.length := by
  have hlength : (tokenFields ts).length = ts.length := by simp [tokenFields]
  unfold border
  rw [hlength, List.takeWhile_eq_self_iff.2, List.length_range]
  intro i hi
  have hget := get_zipIdx ts 0 i
  rw [Nat.zero_add, List.getElem?_eq_getElem (List.mem_range.1 hi)] at hget
  unfold tokenFields
  rw [hget]
  rfl

/-- The loop over the tokens, from the `s`-th on. -/
theorem foldlM_pairs (get : Nat → Option Bytes) (ts : List Bytes) (s : Nat)
    (hget : ∀ i, get (s + i) = ts[i]?) (headers : Table Bytes HeaderValue) :
    (List.range' s ((ts.length + 1) / 2) 2).foldlM
      (fun headers i =>
        match get i with
        | none => .error (.message "key == nil".toList)
        | some key => .ok (addHeader headers key (get (i + 1)))) headers =
      (.ok ((pairs ts).foldl (fun headers p => addHeader headers p.1 p.2) headers) :
        Except LuaError (Table Bytes HeaderValue)) := by
  induction ts using pairs.induct generalizing s headers with
  | case1 => rfl
  | case2 key =>
    have h₀ : get s = some key := hget 0
    have h₁ : get (s + 1) = none := hget 1
    simp [h₀, h₁, pairs]
  | case3 key value ts ih =>
    have h₀ : get s = some key := hget 0
    have h₁ : get (s + 1) = some value := hget 1
    have hlength : ((key :: value :: ts).length + 1) / 2 = (ts.length + 1) / 2 + 1 := by
      simp only [List.length_cons]
      omega
    rw [hlength, List.range'_succ, List.foldlM_cons, h₀, h₁]
    exact ih (s + 2) (fun i => by rw [Nat.add_assoc, Nat.add_comm 2 i]; exact hget (i + 2)) _

theorem parseHeaders_tokenFields (ts : List Bytes) :
    parseHeaders (tokenFields ts) =
      .ok ((pairs ts).foldl (fun headers p => addHeader headers p.1 p.2) ∅) := by
  unfold parseHeaders
  rw [border_tokenFields]
  exact foldlM_pairs (token (tokenFields ts)) ts 1 (token_tokenFields ts) ∅

/-! ## Grouping -/

/-- The values of an entry. -/
def entryValues : Option HeaderValue → List Bytes
  | none => []
  | some (.one s) => [s]
  | some (.many ss) => ss

@[simp] theorem entryValues_group (vs : List Bytes) : entryValues (group vs) = vs := by
  match vs with
  | [] => rfl
  | [_] => rfl
  | _ :: _ :: _ => rfl

/-- The values among the pairs of a name. -/
def valuesAt (name : Bytes) (ps : List (Bytes × Option Bytes)) : List Bytes :=
  (ps.filter (·.1 = name)).filterMap Prod.snd

theorem valuesAt_cons (name : Bytes) (p : Bytes × Option Bytes) (ps : List (Bytes × Option Bytes)) :
    valuesAt name (p :: ps) = (if p.1 = name then p.2.toList else []) ++ valuesAt name ps := by
  obtain ⟨key, value⟩ := p
  by_cases hk : key = name <;> cases value <;> simp [valuesAt, hk]

/-- A pair adds its value, if it has one, to those of its name. -/
theorem entryValues_addHeader (headers : Table Bytes HeaderValue) (p : Bytes × Option Bytes)
    (name : Bytes) : entryValues ((addHeader headers p.1 p.2).lookup name) =
      entryValues (headers.lookup name) ++ if p.1 = name then p.2.toList else [] := by
  obtain ⟨key, value⟩ := p
  unfold addHeader
  by_cases hk : key = name
  · subst hk
    rcases hl : headers.lookup key with _ | ⟨s⟩ | ⟨ss⟩ <;>
      cases value <;> simp [Table.lookup_assign, entryValues]
  · rcases hl : headers.lookup key with _ | ⟨s⟩ | ⟨ss⟩ <;>
      simp [Table.lookup_assign, Ne.symm hk, hk]

theorem entryValues_foldl (ps : List (Bytes × Option Bytes)) (headers : Table Bytes HeaderValue)
    (name : Bytes) :
    entryValues ((ps.foldl (fun headers p => addHeader headers p.1 p.2) headers).lookup name) =
      entryValues (headers.lookup name) ++ valuesAt name ps := by
  induction ps generalizing headers with
  | nil => simp [valuesAt]
  | cons p ps ih => rw [List.foldl_cons, ih, entryValues_addHeader, valuesAt_cons, List.append_assoc]

/-- Where every pair has a value, they are grouped. -/
theorem group_addHeader {headers : Table Bytes HeaderValue} {vs : List Bytes} {name : Bytes}
    (h : headers.lookup name = group vs) (key value : Bytes) :
    (addHeader headers key (some value)).lookup name =
      group (vs ++ if key = name then [value] else []) := by
  unfold addHeader
  by_cases hk : key = name
  · subst hk
    rw [h, if_pos rfl]
    match vs with
    | [] => simp [group, Table.lookup_assign]
    | [_] => simp [group, Table.lookup_assign]
    | _ :: _ :: _ => simp [group, Table.lookup_assign]
  · rw [if_neg hk, List.append_nil, ← h]
    rcases hl : headers.lookup key with _ | ⟨s⟩ | ⟨ss⟩ <;>
      simp [Table.lookup_assign, Ne.symm hk]

theorem group_foldl (fields : List (Bytes × Bytes)) {headers : Table Bytes HeaderValue}
    {vs : List Bytes} {name : Bytes} (h : headers.lookup name = group vs) :
    ((fields.map fun f => (f.1, some f.2)).foldl (fun headers p => addHeader headers p.1 p.2)
      headers).lookup name = group (vs ++ (fields.filter (·.1 = name)).map Prod.snd) := by
  induction fields generalizing headers vs with
  | nil => simpa using h
  | cons f fields ih =>
    rw [List.map_cons, List.foldl_cons, ih (group_addHeader h f.1 f.2), List.append_assoc]
    by_cases hk : f.1 = name <;> simp [hk]

/-! ## The tokens of the headers -/

/-- The tokens of headers: for each its name and then its values. -/
def fieldTokens (fields : List (Bytes × List Bytes)) : List Bytes := fields.flatMap fun f => f.1 :: f.2

/-- No name is empty, and of the values of a header none but the first. -/
def Spelled (fields : List (Bytes × List Bytes)) : Prop :=
  ∀ f ∈ fields, f.1 ≠ [] ∧ ∀ v ∈ f.2.tail, v ≠ []

open HttpParser in
/-- What the parser reports of the headers, from a mode on. -/
theorem run_headers {es : List Event} (hes : ∀ e ∈ es, e.IsHead) {mode mode' : Mode}
    (hmode : mode.inHead) (hrun : mode.run es = some mode') :
    tokens es = values es ++ fieldTokens (headerFields es) ∧ (mode = .line → values es = []) ∧
      (mode = .valued → ∀ v ∈ values es, v ≠ []) ∧ (∀ v ∈ (values es).tail, v ≠ []) ∧
      Spelled (headerFields es) := by
  induction es generalizing mode with
  | nil => exact ⟨rfl, fun _ => rfl, by simp [values], by simp [values], by simp [headerFields, Spelled]⟩
  | cons e es ih =>
    have hnone := List.any_eq_false.1 (any_headersComplete_head hes) e (List.mem_cons_self ..)
    obtain ⟨he, hes⟩ := List.forall_mem_cons.1 hes
    obtain ⟨m, hnext, hrun⟩ := Option.bind_eq_some_iff.1
      (show (mode.next e).bind (·.run es) = _ from hrun)
    have hm : m.inHead := by
      rcases Mode.next_head hmode hnext with ⟨-, hm⟩ | ⟨hcomplete, -⟩
      · exact hm
      · exact absurd hcomplete hnone
    obtain ⟨htokens, hline, hvalued, htail, hspelled⟩ := ih hes hm hrun
    rw [tokens_cons, htokens]
    obtain ⟨ptr, length, rfl | rfl | rfl⟩ := he.cases
    · -- The status line is before the headers.
      obtain ⟨rfl, rfl⟩ := Mode.next_status hmode hnext
      rw [hline rfl]
      exact ⟨rfl, fun _ => rfl, by simp, by simp [values], hspelled⟩
    · obtain ⟨hne, rfl⟩ := Mode.next_headerField hmode hnext
      refine ⟨rfl, fun _ => rfl, fun _ => by simp [values], by simp [values], ?_⟩
      exact List.forall_mem_cons.2 ⟨⟨hne, htail⟩, hspelled⟩
    · obtain ⟨hne, hfirst, rfl⟩ := Mode.next_headerValue hmode hnext
      exact ⟨rfl, fun h => absurd h hfirst, fun h => List.forall_mem_cons.2 ⟨hne h, hvalued rfl⟩,
        hvalued rfl, hspelled⟩

/-- The tokens of headers with one value each are taken as they are. -/
theorem pairs_fieldTokens {fields : List (Bytes × List Bytes)} (h : ∀ f ∈ fields, f.2.length = 1) :
    pairs (fieldTokens fields) = fields.map fun f => (f.1, some f.2.flatten) := by
  induction fields with
  | nil => rfl
  | cons f fields ih =>
    obtain ⟨hf, hfields⟩ := List.forall_mem_cons.1 h
    obtain ⟨name, vs⟩ := f
    obtain ⟨v, rfl⟩ := List.length_eq_one_iff.1 hf
    change pairs (name :: v :: fieldTokens fields) = _
    rw [pairs, ih hfields]
    simp

/-- At the first header with no value, or with more than one, the values of its name differ. -/
theorem valuesAt_ne {fields : List (Bytes × List Bytes)} (hspelled : Spelled fields)
    (h : ∃ f ∈ fields, f.2.length ≠ 1) : ∃ name, valuesAt name (pairs (fieldTokens fields)) ≠
      (fields.filter (·.1 = name)).map fun f => f.2.flatten := by
  induction fields with
  | nil => simp at h
  | cons f fields ih =>
    obtain ⟨hf, hfields⟩ := List.forall_mem_cons.1 hspelled
    obtain ⟨name, vs⟩ := f
    match vs, hf with
    | [], _ =>
      refine ⟨name, ?_⟩
      cases fields with
      | nil => simp [fieldTokens, pairs, valuesAt]
      | cons g fields =>
        have hg : g.1 ≠ [] := (hfields g (List.mem_cons_self ..)).1
        change valuesAt name (pairs (name :: g.1 :: _)) ≠ _
        rw [pairs, valuesAt_cons]
        simp [hg]
    | [v], _ =>
      have h' : ∃ f ∈ fields, f.2.length ≠ 1 := by simpa using h
      obtain ⟨name', hne⟩ := ih hfields h'
      refine ⟨name', fun heq => hne ?_⟩
      change valuesAt name' (pairs (name :: v :: fieldTokens fields)) = _ at heq
      rw [pairs, valuesAt_cons] at heq
      by_cases hk : name = name' <;> simpa [hk] using heq
    | v :: v' :: vs, hf =>
      have hv' : v' ≠ [] := hf.2 v' (List.mem_cons_self ..)
      refine ⟨name, ?_⟩
      change valuesAt name (pairs (name :: v :: _)) ≠ _
      rw [pairs, valuesAt_cons]
      simp [hv']

/-- The table made of the tokens is that of the headers. -/
theorem groups_iff {fields : List (Bytes × List Bytes)} (hspelled : Spelled fields) :
    Groups ((pairs (fieldTokens fields)).foldl (fun headers p => addHeader headers p.1 p.2) ∅)
        (fields.map fun f => (f.1, f.2.flatten)) ↔
      ∀ f ∈ fields, f.2.length = 1 := by
  constructor
  · intro h
    by_contra hne
    obtain ⟨name, hname⟩ := valuesAt_ne hspelled (by simpa using hne)
    have hvalues := congrArg entryValues (h name)
    rw [entryValues_foldl, entryValues_group, AList.lookup_empty] at hvalues
    refine hname (hvalues.trans ?_)
    rw [List.filter_map, List.map_map]
    rfl
  · intro h name
    have hpairs := pairs_fieldTokens h
    have hempty : (∅ : Table Bytes HeaderValue).lookup name = group [] := AList.lookup_empty _
    have hgroup := group_foldl (fields.map fun f => (f.1, f.2.flatten)) hempty
    rw [List.map_map] at hgroup
    rw [hpairs]
    exact hgroup

/-! ## The first read -/

theorem headEvents_message {head : List Event} (hhead : ∀ e ∈ head, e.IsHead) (ptr : Bytes)
    (statusCode : Nat) (keepAlive : Bool) (es : List Event) :
    headEvents (.messageBegin :: head ++ .headersComplete ptr statusCode keepAlive :: es) =
      .messageBegin :: head := by
  have hpos : ∀ e ∈ Event.messageBegin :: head, (!e.isHeadersComplete) = true := by
    have hnone := List.any_eq_false.1 (any_headersComplete_head hhead)
    exact List.forall_mem_cons.2 ⟨rfl, fun e he => by simpa using hnone e he⟩
  unfold headEvents
  rw [List.takeWhile_append_of_pos hpos, List.takeWhile_cons_of_neg (by simp [Event.isHeadersComplete]),
    List.append_nil]

/-- The events up to the end of the headers: the beginning of the message, perhaps more
    than once, and the headers. -/
theorem headEvents_execute {buffer : Bytes}
    (h : (httpParser.execute httpParser.init buffer).events.any Event.isHeadersComplete) :
    ∃ k head mode, headEvents (httpParser.execute httpParser.init buffer).events =
        List.replicate k .messageBegin ++ .messageBegin :: head ∧
      (∀ e ∈ head, e.IsHead) ∧ HttpParser.Mode.line.run head = some mode := by
  obtain ⟨k, es, mode, hevents, hrun, -⟩ := HttpParser.execute_events 0 buffer
  change (httpParser.execute httpParser.init buffer).events = _ at hevents
  rw [hevents] at h ⊢
  unfold headEvents
  rw [List.takeWhile_append_of_pos (by simp [Event.isHeadersComplete])]
  rw [List.any_append, Bool.or_eq_true] at h
  replace h := h.resolve_left (by simp [Event.isHeadersComplete])
  rcases HttpParser.Mode.run_idle hrun with rfl | ⟨head, rfl, hhead⟩ |
    ⟨head, ptr, code, alive, tail, es', m, rfl, hhead, hline, -, -, -⟩
  · cases h
  · rw [List.any_cons, any_headersComplete_head hhead] at h
    cases h
  · exact ⟨k, head, m, congrArg _ (headEvents_message hhead ptr code alive _), hhead, hline⟩

theorem headerFields_begins (k : Nat) (head : List Event) :
    headerFields (List.replicate k .messageBegin ++ .messageBegin :: head) = headerFields head := by
  induction k with
  | zero => rfl
  | succ k ih => exact ih

/-- The callbacks put the tokens of the headers into one list. -/
theorem headersTokens_eq {id k : Nat} {doFetchBody : Bool} {passed : Int} {es head : List Event}
    (hes : headEvents es = List.replicate k .messageBegin ++ .messageBegin :: head)
    (hhead : ∀ e ∈ head, e.IsHead) :
    Recv.headersTokens doFetchBody id passed es = some (tokenFields (tokens head)) := by
  have hsplit : List.replicate k Event.messageBegin ++ .messageBegin :: head =
      List.replicate (k + 1) .messageBegin ++ head := by
    rw [List.replicate_succ', List.append_assoc]
    rfl
  have hbegins : ∃ (t : Fields) (base : Stack),
      (List.replicate (k + 1) .messageBegin).foldlM (Recv.callback doFetchBody)
        (inBody 0 [(.str "passed", .num passed)] id) = some (inHeaders [] t base) := by
    cases k with
    | zero => exact ⟨_, _, rfl⟩
    | succ k =>
      obtain ⟨t', stack, hfold⟩ := foldlM_begins doFetchBody (k + 1) id [(.str "passed", .num passed)]
      exact ⟨t', stack, hfold⟩
  obtain ⟨t, base, hbegins⟩ := hbegins
  obtain ⟨t', hfold, -⟩ := foldlM_head doFetchBody base hhead [] t
  have hall : (List.replicate (k + 1) Event.messageBegin ++ head).foldlM (Recv.callback doFetchBody)
      (inBody 0 [(.str "passed", .num passed)] id) = some (inHeaders (tokens head) t' base) := by
    rw [List.foldlM_append, hbegins]
    exact hfold
  unfold Recv.headersTokens
  rw [hes, hsplit, hall]
  rfl

/-- The headers a first read comes with are reconstructed if and only if the parser
    reports one value for each: it has a colon, and no line is folded onto a value. -/
theorem reconstructs_iff (id : Nat) (doFetchBody : Bool) (buffer : Bytes) (passed : Int)
    (h : (httpParser.execute httpParser.init buffer).events.any Event.isHeadersComplete) :
    Reconstructs id doFetchBody buffer passed ↔
      ∀ f ∈ headerFields (headEvents (httpParser.execute httpParser.init buffer).events),
        f.2.length = 1 := by
  obtain ⟨k, head, mode, hevents, hhead, hrun⟩ := headEvents_execute h
  have hline : HttpParser.Mode.line.inHead := trivial
  obtain ⟨htokens, hvalues, -, -, hspelled⟩ := run_headers hhead hline hrun
  rw [hvalues rfl, List.nil_append] at htokens
  have hfields : headerFields (headEvents (httpParser.execute httpParser.init buffer).events) =
      headerFields head := by
    rw [hevents]
    exact headerFields_begins k head
  have htable : Recv.headersTokens doFetchBody id passed
      (httpParser.execute httpParser.init buffer).events =
      some (tokenFields (fieldTokens (headerFields head))) := by
    rw [← htokens]
    exact headersTokens_eq hevents hhead
  unfold Reconstructs fieldValues
  rw [htable, hfields, ← groups_iff hspelled]
  constructor
  · rintro ⟨t, headers, ht, hparse, hgroups⟩
    obtain rfl := Option.some.inj ht
    rw [parseHeaders_tokenFields] at hparse
    obtain rfl := Except.ok.inj hparse
    exact hgroups
  · exact fun hgroups => ⟨_, _, rfl, parseHeaders_tokenFields _, hgroups⟩

/-- A response with a header that is there three times, among others. -/
def repeatedHeader : Bytes :=
  HttpParser.bytes ("HTTP/1.1 200 OK\r\nSet-Cookie: a=1\r\nServer: x\r\nSet-Cookie: b=2\r\n" ++
    "Content-Length: 0\r\nSet-Cookie: c=3\r\n\r\n")

theorem reconstructs_iff_repeated : Reconstructs 1 true repeatedHeader 0 :=
  (reconstructs_iff 1 true repeatedHeader 0 (by decide +kernel)).2 (by decide +kernel)

/-- A response with a header that is folded over two lines. -/
def foldedHeader : Bytes := HttpParser.bytes "HTTP/1.1 200 OK\r\nA: 1\r\n 2\r\nB: 3\r\n\r\n"

/-- The second line of the value is taken for a name. -/
theorem foldedHeader_not_reconstructs :
    ¬∀ (id : Nat) (doFetchBody : Bool) (buffer : Bytes) (passed : Int),
    (httpParser.execute httpParser.init buffer).events.any Event.isHeadersComplete →
      Reconstructs id doFetchBody buffer passed := by
  intro h
  obtain ⟨t, headers, ht, hparse, hgroups⟩ := h 1 true foldedHeader 0 (by decide +kernel)
  have hspec : group (((fieldValues (headEvents (httpParser.execute httpParser.init
      foldedHeader).events)).filter (·.1 = HttpParser.bytes "A")).map Prod.snd) =
      some (.one (HttpParser.bytes "1 2")) := by decide +kernel
  have hlookup : (Recv.headersTokens true 1 0
      (httpParser.execute httpParser.init foldedHeader).events).map
        (fun t => (parseHeaders t).toOption.map (·.lookup (HttpParser.bytes "A"))) =
      some (some (some (.one (HttpParser.bytes "1")))) := by decide +kernel
  rw [ht, Option.map_some, hparse] at hlookup
  change some (some (headers.lookup _)) = _ at hlookup
  rw [hgroups, hspec] at hlookup
  exact absurd hlookup (by decide)

end Mistress
