import Mistress.Request
import Mistress.Completion

/-!
# Serving

The requests `build_req` writes are requests the parser takes (`ok_built`), and it reports the
path and the body they were written with (`message_built`).

So nothing is left open of the parser in the protocol of the manager and the workers: with
the parser of the program the protocol is kept to (`complete_of_sendable`), as long as the test
can be put into requests (`Test.Sendable`).
-/

open LuaStack

namespace Mistress

open HttpParser Transition

/-! ## URLs -/

/-- A path is a URL. -/
theorem HttpParser.isUrl_path (path : Bytes) (h : ∀ ch ∈ path, isUrlChar ch = true) :
    isUrl (byte '/' :: path) = true := by
  have hchar (ch : UInt8) (hch : isUrlChar ch = true) :
      parseUrlChar .reqPath ch = some .reqPath := by
    have hge : (byte '!').toNat ≤ ch.toNat := by
      simp only [isUrlChar, Bool.and_eq_true, decide_eq_true_eq] at hch
      exact UInt8.le_iff_toNat_le.1 hch.1.1.1
    have hne {c : UInt8} (hc : c.toNat < (byte '!').toNat) : ch ≠ c := fun h =>
      absurd hge (h ▸ Nat.not_le.2 hc)
    unfold parseUrlChar
    simp [hne (c := SP) (by decide), hne (c := CR) (by decide), hne (c := LF) (by decide),
      hne (c := HT) (by decide), hne (c := 12) (by decide), hch]
  have hfold : path.foldlM parseUrlChar .reqPath = some .reqPath := by
    induction path with
    | nil => rfl
    | cons ch path ih =>
      obtain ⟨hch, hpath⟩ := List.forall_mem_cons.1 h
      rw [List.foldlM_cons, hchar ch hch]
      exact ih hpath
  have hfirst : parseUrlChar .reqSpacesBeforeUrl (byte '/') = some .reqPath := by decide +kernel
  rw [isUrl, List.foldlM_cons, hfirst]
  change (path.foldlM parseUrlChar .reqPath).any UrlState.ends = true
  rw [hfold]
  rfl

/-! ## The headers -/

theorem Field.text_spaced {name value : Bytes} (h : isHeader name value = true) :
    (Field.spaced name value h).text = name ++ bytes ": " ++ value ++ crlf := by
  have hsep : bytes ": " = [byte ':', SP] := rfl
  have hcrlf : crlf = [CR, LF] := rfl
  simp [Field.text, Field.spaced, hsep, hcrlf]

/-- Lines, with their ends. -/
theorem intercalate_append_sep {α : Type*} (sep l : List α) (ls : List (List α)) :
    sep.intercalate (l :: ls) ++ sep = (l :: ls).flatMap (· ++ sep) := by
  induction ls generalizing l with
  | nil => simp
  | cons l' ls ih =>
    rw [List.intercalate_cons_cons, List.append_assoc, ih, List.flatMap_cons (x := l)]

namespace Request

/-- The headers of a request without a body. -/
def plainFields (host : Bytes) (hhost : isHeader (bytes "Host") host = true) : List Field := [
  .spaced (bytes "Connection") (bytes "Keep-Alive") (by decide +kernel),
  .spaced (bytes "Accept-Encoding") (bytes "gzip, deflate") (by decide +kernel),
  .spaced (bytes "User-Agent") (bytes "Mistress/0.1") (by decide +kernel),
  .spaced (bytes "Accept-Language") (bytes "en-us,en;q=0.5") (by decide +kernel),
  .spaced (bytes "Accept") (bytes "*/*") (by decide +kernel),
  .spaced (bytes "Host") host hhost]

theorem isHeader_length (n : Nat) :
    isHeader (bytes "Content-Length") (bytes (toString n)) = true := by
  have hvalue : ∀ ch, isNum ch = true → ch ≠ CR ∧ ch ≠ LF ∧ isBlank ch = false := by
    intro ch hch
    have hge : (byte '0').toNat ≤ ch.toNat := by
      simp only [isNum, Bool.and_eq_true, decide_eq_true_eq] at hch
      exact UInt8.le_iff_toNat_le.1 hch.1
    have hne {c : UInt8} (hc : c.toNat < (byte '0').toNat) : ch ≠ c := fun h =>
      absurd hge (h ▸ Nat.not_le.2 hc)
    exact ⟨hne (by decide), hne (by decide), by
      simp [isBlank, hne (c := SP) (by decide), hne (c := HT) (by decide)]⟩
  have hnum := (decimal_toString n).2
  have hname : (bytes "Content-Length" ≠ [] &&
      (bytes "Content-Length").all fun ch => (HttpParser.token ch).isSome) = true := by
    decide +kernel
  rw [isHeader, hname, Bool.true_and, Bool.and_eq_true, List.all_eq_true, Option.all_eq_true]
  refine ⟨fun ch hch => ?_, fun ch hch => ?_⟩
  · obtain ⟨hcr, hlf, -⟩ := hvalue ch (hnum ch hch)
    simp [hcr, hlf]
  · obtain ⟨-, -, hblank⟩ := hvalue ch (hnum ch (List.mem_of_mem_head? hch))
    simp [hblank]

/-- The request `build_req` writes. -/
def built (method : Method) (path host body : Bytes)
    (hhost : isHeader (bytes "Host") host = true) : Request where
  method := method
  url := path
  major := Response.one
  minor := Response.one
  fields := plainFields host hhost ++ if body = [] then []
    else [.spaced (bytes "Content-Length") (bytes (toString body.length)) (isHeader_length _)]
  body := body

theorem head_built {method : Method} {name : String} (hname : bytes name = method.text)
    (path host body : Bytes) (hhost : isHeader (bytes "Host") host = true) :
    (built method path host body hhost).head = requestHead name path host body := by
  have hline : (built method path host body hhost).line =
      bytes name ++ bytes " " ++ path ++ bytes " HTTP/1.1" ++ crlf := by
    have hversion : bytes " HTTP/1.1" ++ crlf =
        [SP] ++ (built method path host body hhost).version := rfl
    rw [List.append_assoc _ _ crlf, hversion, hname]
    simp only [line, built, List.append_assoc]
    rfl
  have hfields : fieldsText (built method path host body hhost).fields = ([
      bytes "Connection: Keep-Alive",
      bytes "Accept-Encoding: gzip, deflate",
      bytes "User-Agent: Mistress/0.1",
      bytes "Accept-Language: en-us,en;q=0.5",
      bytes "Accept: */*",
      bytes "Host: " ++ host] ++
      if body = [] then [] else [bytes "Content-Length: " ++ bytes (toString body.length)]).flatMap
        (· ++ crlf) := by
    have hhost' : bytes "Host: " = bytes "Host" ++ bytes ": " := rfl
    have hlength : bytes "Content-Length: " = bytes "Content-Length" ++ bytes ": " := rfl
    rw [hhost', hlength, List.flatMap_append, built, fieldsText, List.flatMap_append, plainFields]
    refine congrArg₂ (· ++ ·) ?_ ?_
    · simp only [List.flatMap_cons, List.flatMap_nil, Field.text_spaced]
      rfl
    · split
      · rfl
      · simp only [List.flatMap_cons, List.flatMap_nil, Field.text_spaced]
  have hjoin := intercalate_append_sep crlf (bytes name ++ bytes " " ++ path ++ bytes " HTTP/1.1")
    ([bytes "Connection: Keep-Alive",
      bytes "Accept-Encoding: gzip, deflate",
      bytes "User-Agent: Mistress/0.1",
      bytes "Accept-Language: en-us,en;q=0.5",
      bytes "Accept: */*",
      bytes "Host: " ++ host] ++
      if body = [] then [] else [bytes "Content-Length: " ++ bytes (toString body.length)])
  rw [List.flatMap_cons, ← hline, ← hfields] at hjoin
  rw [requestHead, List.cons_append, hjoin, head, List.append_assoc]
  rfl

/-- What the headers but for the length say. -/
def keepAlive : Flags := { Flags.zero with connectionKeepAlive := true }

theorem fieldsApply_built (method : Method) (path host body : Bytes)
    (hhost : isHeader (bytes "Host") host = true) :
    fieldsApply (built method path host body hhost).fields (.zero, ULLONG_MAX) =
      (keepAlive,
        if body = [] then ULLONG_MAX else body.length) := by
  have hother : (Field.spaced (bytes "Host") host hhost).apply
      (keepAlive, ULLONG_MAX) =
        (keepAlive, ULLONG_MAX) := by
    have hkind : (Field.spaced (bytes "Host") host hhost).kind = .other := by
      rw [Field.kind_spaced]
      decide +kernel
    rw [Field.apply, hkind, FieldKind.apply]
    split <;> rfl
  have hplain : fieldsApply (plainFields host hhost) (.zero, ULLONG_MAX) =
      (keepAlive, ULLONG_MAX) := by
    refine Eq.trans ?_ hother
    rw [plainFields, fieldsApply]
    simp only [List.foldl_cons, List.foldl_nil]
    refine congrArg _ ?_
    decide +kernel
  rw [built, fieldsApply, List.foldl_append]
  rw [fieldsApply] at hplain
  rw [hplain]
  by_cases hbody : body = []
  · rw [if_pos hbody, if_pos hbody]
    rfl
  · rw [if_neg hbody, if_neg hbody, List.foldl_cons, List.foldl_nil, Field.apply]
    have hkind : (Field.spaced (bytes "Content-Length") (bytes (toString body.length))
        (isHeader_length _)).kind = .contentLength := by
      rw [Field.kind_spaced]
      decide +kernel
    have hne : bytes (toString body.length) ≠ [] := by
      rw [bytes, Nat.toString_eq_ofList_toDigits, String.toList_ofList]
      simp
    rw [hkind, FieldKind.apply]
    exact (if_neg hne).trans (congrArg _ (decimal_toString body.length).1)

theorem ok_fields (method : Method) {path host body : Bytes}
    {hhost : isHeader (bytes "Host") host = true} (hbody : body.length + 10 ≤ ULLONG_MAX) :
    ∀ f ∈ (built method path host body hhost).fields, f.Ok := by
  refine List.forall_mem_append.2 ⟨?_, ?_⟩
  · have hkind : ∀ f ∈ plainFields host hhost, f.kind ≠ .contentLength := by
      simp only [plainFields, List.forall_mem_cons]
      refine ⟨?_, ?_, ?_, ?_, ?_, ?_, by simp⟩
      all_goals
        rw [Field.kind_spaced]
        decide +kernel
    exact fun f hf h => absurd h (hkind f hf)
  · split
    · simp
    · refine List.forall_mem_singleton.2 fun _ => ⟨fun ch hch => ?_, ?_⟩
      · exact .inl ((decimal_toString body.length).2 ch hch)
      · change decimal (bytes (toString body.length)) / 10 ≤ _
        rw [(decimal_toString body.length).1]
        exact Nat.div_le_div_right (Nat.le_sub_of_add_le hbody)

/-- It is one the parser takes. -/
theorem ok_built {method : Method} {name : String} (hname : bytes name = method.text)
    (hmethod : method ≠ .connect) {path host body : Bytes} (hpath : isUrl path = true)
    (hhost : isHeader (bytes "Host") host = true)
    (hhead : (requestHead name path host body).length ≤ HTTP_MAX_HEADER_SIZE)
    (hbody : body.length + 10 ≤ ULLONG_MAX) : (built method path host body hhost).Ok := by
  have hsaid := fieldsApply_built method path host body hhost
  have hflags : (built method path host body hhost).parsed.flags = keepAlive :=
    congrArg Prod.fst hsaid
  have hlength : (built method path host body hhost).parsed.contentLength =
      if body = [] then ULLONG_MAX else body.length := congrArg Prod.snd hsaid
  refine ⟨hmethod, hpath, show (1 : Fin 10) ≠ 0 by decide, ok_fields method hbody,
    by rw [hflags]; rfl, by rw [hflags]; rfl, ?_, ?_, ?_⟩
  · rwa [head_built hname]
  · by_cases h : body = []
    · exact .inr ⟨h, by rw [hlength, if_pos h]⟩
    · exact .inl (by rw [hlength, if_neg h]; rfl)
  · change body.length < ULLONG_MAX
    omega

theorem message_built {method : Method} {name : String} (hname : bytes name = method.text)
    (path host body : Bytes) (hhost : isHeader (bytes "Host") host = true) :
    (built method path host body hhost).message =
      ⟨requestHead name path host body, body, some path, 0, true⟩ := by
  have hkeep : (built method path host body hhost).parsed.requestShouldKeepAlive = true := by
    have hflags : (built method path host body hhost).parsed.flags = keepAlive :=
      congrArg Prod.fst (fieldsApply_built method path host body hhost)
    unfold HttpParser.requestShouldKeepAlive
    rw [hflags]
    rfl
  rw [message, head_built hname, hkeep]
  rfl

theorem gzip_built (method : Method) {path host body : Bytes} (hgzip : host ≠ bytes "gzip")
    (hhost : isHeader (bytes "Host") host = true) :
    ((built method path host body hhost).fields.any fun f => f.value = bytes "gzip") = false := by
  have hdigits : bytes (toString body.length) ≠ bytes "gzip" := fun h => by
    have hnum := (decimal_toString body.length).2
    rw [h] at hnum
    exact absurd hnum (by decide +kernel)
  have hvalue : ∀ f ∈ (built method path host body hhost).fields, f.value ≠ bytes "gzip" := by
    refine List.forall_mem_append.2 ⟨?_, ?_⟩
    · simp only [plainFields, List.forall_mem_cons, Field.value_spaced]
      exact ⟨by decide +kernel, by decide +kernel, by decide +kernel, by decide +kernel,
        by decide +kernel, hgzip, by simp⟩
    · split
      · simp
      · exact List.forall_mem_singleton.2 hdigits
  exact List.any_eq_false.2 fun f hf h => hvalue f hf (of_decide_eq_true h)

/-- What `build_req` writes, `receive` returns, however the reads cut the body. -/
theorem received_built {method : Method} {name : String} (hname : bytes name = method.text)
    (hmethod : method ≠ .connect) {path host body : Bytes} (hpath : isUrl path = true)
    (hhost : isHeader (bytes "Host") host = true) (hgzip : host ≠ bytes "gzip")
    (hhead : (requestHead name path host body).length ≤ HTTP_MAX_HEADER_SIZE)
    (hbody : body.length + 10 ≤ ULLONG_MAX) (c : Cutting (buildReq name path host body))
    (hfirst : ∀ read ∈ c.reads.head?, (requestHead name path host body).length ≤ read.1.length)
    (id : Nat) (gunzip : Bytes → Except LuaError Bytes) :
    ∃ o, Session.receive requestParser id true gunzip (c.reads.map fun r => .got r.1 r.2) =
      .returned o ∧ (Message.mk (requestHead name path host body) body (some path) 0 true).Is o := by
  have hok := ok_built hname hmethod hpath hhost hhead hbody
  have hreads := reads hok (gzip_built method hgzip hhost)
  have hpos := (built method path host body hhost).text_pos
  rw [message_built hname] at hreads hpos
  exact Reading.receiveLoop gunzip hreads c.ne_nil (.start id) hpos c.joined fun _ => hfirst

/-- Statistics as they are sent, in two reads. -/
def statistics : Cutting (buildReq "POST" (bytes "/add_stats/7") (bytes "stat") [120, 156, 0, 255]) :=
  ⟨[(requestHead "POST" (bytes "/add_stats/7") (bytes "stat") [120, 156, 0, 255] ++ [120], 3),
    ([156, 0, 255], 5)], rfl, by decide +kernel, by decide +kernel⟩

theorem received_built_statistics : ∃ o, Session.receive requestParser 1 true .ok
    (statistics.reads.map fun r => .got r.1 r.2) = .returned o ∧
      (Message.mk (requestHead "POST" (bytes "/add_stats/7") (bytes "stat") [120, 156, 0, 255])
        [120, 156, 0, 255] (some (bytes "/add_stats/7")) 0 true).Is o :=
  have hname : bytes "POST" = Method.post.text := by decide +kernel
  received_built hname (by decide) (by decide +kernel) (by decide +kernel) (by decide +kernel)
    (by decide +kernel) (by decide +kernel) statistics (by decide +kernel) 1 .ok

end Request

/-! ## The protocol -/

/-- The requests that start the test are ones the parser takes. -/
structure Test.Sendable (test : Test) : Prop where
  startUrl : ∀ testId ∈ test.testId, ∀ ch ∈ testId ++ test.delayedStartTime, isUrlChar ch = true
  host : ∀ host ∈ test.hosts, isHeader (bytes "Host") host = true ∧ host ≠ bytes "gzip"
  head_le : ∀ testId ∈ test.testId, ∀ host ∈ test.hosts,
    (test.request testId host).head.length ≤ HTTP_MAX_HEADER_SIZE
  script_le : test.script.length + 10 ≤ ULLONG_MAX

variable {test : Test}

theorem Test.Sendable.reads (h : test.Sendable) {testId host : Bytes} (hid : testId ∈ test.testId)
    (hhost : host ∈ test.hosts) :
    ∃ after, requestParser.Reads (test.request testId host) after := by
  obtain ⟨hheader, hgzip⟩ := h.host host hhost
  have hname : bytes "GET" = Method.get.text := by decide +kernel
  have hurl : isUrl (test.startUrl testId) = true := by
    have hchars := List.forall_mem_append.1 (h.startUrl testId hid)
    refine isUrl_path (bytes "start/" ++ testId ++ bytes "/" ++ test.delayedStartTime) ?_
    simp only [List.forall_mem_append]
    exact ⟨⟨⟨by decide +kernel, hchars.1⟩, by decide +kernel⟩, hchars.2⟩
  have hok := Request.ok_built hname (by decide) hurl hheader (h.head_le testId hid host hhost)
    h.script_le
  have hreads := Request.reads hok (Request.gzip_built .get hgzip hheader)
  rw [Request.message_built hname] at hreads
  exact ⟨_, hreads⟩

namespace Control

variable {gunzip : Bytes → Except LuaError Bytes} {pathParts : Bytes → List Bytes}
  {tonumber : Bytes → Option ℚ} {load : Bytes → Option (TestOptions × ℕ)}

/-- With the parser of the program, the protocol is kept to in every run of the steps that do not
    get it wrong, for a test id and a start time that are numbers. -/
theorem complete_of_sendable (hsend : test.Sendable)
    (hparts : ∀ testId ∈ test.testId, pathParts (test.startUrl testId) =
      [bytes "start", testId, test.delayedStartTime])
    (hnumber : ∀ testId ∈ test.testId, (tonumber testId).isSome ∧
      (tonumber test.delayedStartTime).isSome)
    (hload : load test.script = some (test.opts, test.hosts.length)) {s : Control requestParser}
    (h : (sys ⟨requestParser, gunzip, pathParts, tonumber, load⟩ test).ReachableBy
      (Smooth test) s) : Complete s := by
  have hserves : Env.Serves ⟨requestParser, gunzip, pathParts, tonumber, load⟩ test :=
    ⟨fun _ hid _ hhost => hsend.reads hid hhost, hparts, hnumber, hload⟩
  exact (inv_of_reachable hserves h).complete

theorem sendable_worker : OneWorker.test.Sendable where
  startUrl testId hid := by
    obtain rfl : bytes "7" = testId := Option.some.inj hid
    decide +kernel
  host := by decide +kernel
  head_le testId hid := by
    obtain rfl : bytes "7" = testId := Option.some.inj hid
    decide +kernel
  script_le := by decide

/-- The replies are read one by one. -/
theorem complete_of_sendable_worker : ∃ s : Control requestParser, s.stops = 1 ∧ Complete s := by
  let env : Env := { OneWorker.env with requestParser := requestParser }
  obtain ⟨s, hrun, hs⟩ := System.exists_run_of_execBy (sys env OneWorker.test)
    (Smooth OneWorker.test) (start requestParser OneWorker.test)
    (OneWorker.run ++ [.read 0 (.got okReply.text 0), .read 0 (.got finishedReply.text 0)])
    (fun s => s.stops = 1) (by decide +kernel)
  exact ⟨s, by simpa using hs, complete_of_sendable sendable_worker
    (fun testId hid => OneWorker.serves.parts testId hid)
    (fun testId hid => OneWorker.serves.number testId hid) rfl (.run (.init rfl) hrun)⟩

end Control

end Mistress
