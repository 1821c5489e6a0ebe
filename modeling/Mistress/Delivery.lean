import Mistress.Response

/-!
# Delivery

What a server sends as a response, `http` returns: its status, its headers, its body
(`Response.Returned`). However the reads cut it, so it does if and only if the end of the
response is told by its headers and the first read holds the headers up to their end
(`returned_iff`).
-/

open LuaStack

namespace Mistress

open HttpParser

/-! ## Up to an upgrade -/

theorem live_execute (a : Bytes) :
    liveParser.execute liveParser.init a = HttpParser.execute 0 HttpParser.init a :=
  executeLive_eq (show HttpParser.init.upgrade = false from rfl) a

theorem live_responds {response : Bytes} {head tail : List Event} {ptr : Bytes} {statusCode : Nat}
    {keepAlive : Bool} (hresp : httpParser.Responds response head ptr statusCode keepAlive tail) :
    liveParser.Responds response head ptr statusCode keepAlive tail := by
  refine ⟨hresp.ne_nil, ?_, ?_, hresp.head, hresp.tail⟩
  · rw [live_execute]
    exact hresp.accepts
  · rw [live_execute]
    exact hresp.events

/-- The event may come after the headers: no message begins, and no value, nor the rest of one,
    is taken for `gzip`. -/
def Event.Harmless : Event → Prop
  | .data .headerValue ptr length => ∀ n ≤ length, Recv.isGzip (ptr.drop n) = false
  | .messageBegin => False
  | _ => True

theorem Event.Harmless.isGzip {e : Event} (h : e.Harmless) : e.isGzip = false := by
  cases e with
  | data kind ptr length =>
    cases kind with
    | headerValue => exact h 0 (Nat.zero_le _)
    | _ => rfl
  | _ => rfl

variable {P : Parser}

variable {response : Bytes} {head tail : List Event} {ptr : Bytes} {statusCode : Nat} {keepAlive : Bool}

theorem isGzip_iff {p : Bytes} : Recv.isGzip p = true ↔ ∃ z, p = bytes "gzip" ++ CR :: z := by
  constructor
  · intro h
    have htake : p.take 5 = [103, 122, 105, 112, 13] := by simpa [Recv.isGzip] using h
    refine ⟨p.drop 5, ?_⟩
    conv_lhs => rw [← List.take_append_drop 5 p, htake]
    rfl
  · rintro ⟨z, rfl⟩
    rfl

/-- Where two texts come to a byte without the property that all before it have. -/
theorem append_cons_inj {Q : UInt8 → Bool} {a a' z z' : Bytes} {c c' : UInt8} (ha : ∀ b ∈ a, Q b)
    (ha' : ∀ b ∈ a', Q b) (hc : Q c = false) (hc' : Q c' = false)
    (h : a ++ c :: z = a' ++ c' :: z') : a = a' ∧ c = c' := by
  have htake := congrArg (List.takeWhile Q) h
  rw [List.takeWhile_append_of_pos ha, List.takeWhile_append_of_pos ha',
    List.takeWhile_cons_of_neg (by simp [hc]), List.takeWhile_cons_of_neg (by simp [hc']),
    List.append_nil, List.append_nil] at htake
  subst htake
  exact ⟨rfl, (List.cons.inj (List.append_cancel_left h)).1⟩

/-- A value is taken for `gzip` if it is. -/
theorem isGzip_value {value : Bytes} (hvalue : ∀ ch ∈ value, ch ≠ CR ∧ ch ≠ LF) (z : Bytes) :
    Recv.isGzip (value ++ CR :: z) = decide (value = bytes "gzip") := by
  rw [Bool.eq_iff_iff, isGzip_iff, decide_eq_true_iff]
  constructor
  · rintro ⟨z', h⟩
    refine (append_cons_inj (Q := fun b => b ≠ CR) ?_ ?_ (by simp) (by simp) h).1
    · intro b hb
      simpa using (hvalue b hb).1
    · exact List.all_iff_forall_prop.1 (by decide)
  · rintro rfl
    exact ⟨z, rfl⟩

/-- What follows a header is not taken for `gzip`. -/
theorem isGzip_fieldsText (fields : List Field) (z : Bytes) :
    Recv.isGzip (fieldsText fields ++ CR :: z) = false := by
  rw [← Bool.not_eq_true, isGzip_iff]
  rintro ⟨z', h⟩
  cases fields with
  | nil => 
    have hcr : CR = 103 := (List.cons.inj h).1
    exact absurd hcr (by decide)
  | cons f fields =>
    have hline : fieldsText (f :: fields) ++ CR :: z = f.name ++ byte ':' ::
        (f.blanks ++ f.value ++ [CR, LF] ++ (fieldsText fields ++ CR :: z)) := by
      simp [fieldsText, Field.text]
    rw [hline] at h
    have hcr := (append_cons_inj (Q := fun b => (HttpParser.token b).isSome)
      (fun b hb => Option.isSome_iff_ne_none.2 (f.name_token b hb))
      (List.all_eq_true.1 (by decide)) (by decide) (by decide) h).2
    exact absurd hcr (by decide)

/-- The event of a value, and what it is taken for. -/
theorem isGzip_field (f : Field) (fields : List Field) (z : Bytes) {n : Nat} (hn : n ≤ f.value.length) :
    Recv.isGzip ((if f.value = [] then fieldsText fields ++ CR :: z
      else f.value ++ CR :: LF :: (fieldsText fields ++ CR :: z)).drop n) =
        decide (f.value.drop n = bytes "gzip") := by
  by_cases hvalue : f.value = []
  · obtain rfl : n = 0 := by simpa [hvalue] using hn
    rw [if_pos hvalue, List.drop_zero, isGzip_fieldsText, hvalue]
    rfl
  · rw [if_neg hvalue, List.drop_append_of_le_length hn]
    exact isGzip_value (fun ch hch => f.value_line ch (List.mem_of_mem_drop hch)) _

theorem any_isGzip_fieldsEvents (fields : List Field) (z : Bytes) :
    (fieldsEvents fields (CR :: z)).any Event.isGzip = fields.any fun f => f.value = bytes "gzip" := by
  induction fields with
  | nil => rfl
  | cons f fields ih =>
    have hvalue := isGzip_field f fields z (Nat.zero_le _)
    simp only [List.drop_zero] at hvalue
    rw [fieldsEvents, List.any_append, ih, List.any_cons, Field.events]
    simp [Event.isGzip, hvalue]

/-! ## The headers and the body -/

namespace Response

variable {r : Response}

/-- A header says that the body is zipped, or so it seems. -/
def zipped (r : Response) : Bool := r.fields.any fun f => f.value = bytes "gzip"

variable {doFetchBody : Bool} {gunzip : Bytes → Except LuaError Bytes}

/-- The response in two reads, the second of them beginning in a chunk. -/
def inReads : Cutting inChunks.text :=
  ⟨[(inChunks.head ++ bytes "3\r\nh", 3), (bytes "el\r\n2;x\r\nlo\r\n0\r\n\r\n", 5)],
    by decide, by decide, by decide⟩

end Response

/-! ## Split invariance -/

/-- Two cuttings of a response that `http_parser` parses are received alike if and only if all of
    their reads are intact. -/
theorem httpParser_split {response : Bytes} {head tail : List Event} {ptr : Bytes} {statusCode : Nat}
    {keepAlive : Bool} {doFetchBody : Bool} {gunzip : Bytes → Except LuaError Bytes}
    (hresp : httpParser.Responds response head ptr statusCode keepAlive tail)
    (c c' : Cutting response) (id : Nat) :
    SplitInvariant httpParser id doFetchBody gunzip c c' ↔
      c.Intact httpParser ∧ c'.Intact httpParser := by
  have hends (c : Cutting response) : Ends (Session.receive httpParser id doFetchBody gunzip
      (c.reads.map fun r => .got r.1 r.2)) (c.Intact httpParser)
      (({ afterHead .init head statusCode keepAlive with
        body := [[] ++ fetched doFetchBody tail] } : Session.Receiving).finish doFetchBody gunzip) := by
    have hacc := hresp.accepts
    rw [← c.joined] at hacc
    unfold Cutting.Intact
    rw [readEvents_live rfl c.ne_nil hacc, Session.receive_live]
    exact c.ends doFetchBody gunzip liveParser_carriesOn (live_responds hresp) id
  obtain ⟨hret, hexit⟩ := hends c
  obtain ⟨hret', hexit'⟩ := hends c'
  constructor
  · rintro ⟨r, r', hr, hr', -⟩
    constructor
    · by_contra h
      rw [hexit h] at hr
      cases hr
    · by_contra h
      rw [hexit' h] at hr'
      cases hr'
  · rintro ⟨h, h'⟩
    obtain ⟨p, hp⟩ := hret h
    obtain ⟨p', hp'⟩ := hret' h'
    exact ⟨_, _, hp, hp', untimed_finish _ _⟩

/-- The response in one read. -/
def Response.inOneRead : Cutting Response.inChunks.text :=
  ⟨[(Response.inChunks.text, 0)], by simp [joined], by decide, by decide⟩

theorem httpParser_split_inReads : SplitInvariant httpParser 1 true .ok Response.inReads
    Response.inOneRead :=
  (httpParser_split (Response.responds Response.inChunks_ok rfl) _ _ 1).2
    ⟨by decide +kernel, by decide +kernel⟩

theorem splitInvariant_iff_inReads : SplitInvariant liveParser 1 true .ok Response.inReads
    Response.inOneRead :=
  (splitInvariant_iff liveParser_carriesOn
    (live_responds (Response.responds Response.inChunks_ok rfl)) _ _ 1).2
    ⟨by decide +kernel, by decide +kernel⟩

/-- A response in two chunks, which are zipped. -/
def Response.zippedInChunks : Response where
  line := Response.inChunks.line
  fields := .spaced (bytes "content-encoding") (bytes "gzip") (by decide) :: Response.inChunks.fields
  content := Response.inChunks.content

theorem Response.zippedInChunks_ok : Response.zippedInChunks.Ok where
  fields := by
    refine List.forall_mem_cons.2 ⟨fun h => absurd h (by decide), Response.inChunks_ok.fields⟩
  lengths := by
    refine List.forall_mem_cons.2 ⟨fun _ _ h => absurd h (by decide), fun f hf f' _ h => ?_⟩
    obtain rfl := List.mem_singleton.1 hf
    exact absurd h (by decide)
  codings := List.forall_mem_cons.2 ⟨fun h => absurd h (by decide), Response.inChunks_ok.codings⟩
  upgrade := List.forall_mem_cons.2 ⟨by decide, Response.inChunks_ok.upgrade⟩
  head_le := by decide
  content := Response.inChunks_ok.content

/-- The response in three reads, the second of which ends in a chunk. -/
def Response.zippedInReads : Cutting Response.zippedInChunks.text :=
  ⟨[(Response.zippedInChunks.head, 1), (bytes "3\r\nh", 3), (bytes "el\r\n2;x\r\nlo\r\n0\r\n\r\n", 5)],
    by decide, by decide, by decide⟩

theorem decodes_iff_inReads : gzipEncoded
      (liveParser.execute liveParser.init Response.zippedInChunks.text).events = true ∧
    Decodes liveParser Response.zippedInReads 1 :=
  ⟨by decide +kernel, (decodes_iff liveParser_carriesOn
    (live_responds (Response.responds Response.zippedInChunks_ok rfl)) Response.zippedInReads 1).2
    ⟨by decide +kernel, by decide +kernel⟩⟩

end Mistress
