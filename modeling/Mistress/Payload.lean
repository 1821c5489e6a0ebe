import Mistress.Launcher
import Mistress.JsonRegular

/-!
# The statistics as they are sent

`send_stats` makes a table of the statistics and encodes it. Whoever decodes the text and reads
the table (`Payload.read`) has the statistics, with numbers of fourteen digits
(`Payload.read_sent`), if it takes the numbers for what the text gives.

The table has the node, the step and an array of records, and a record is a type and a value: a
number, a text, or what there is to say of a connection that failed or of an error. The tables
have no metatable, so `json.encode` sees from their keys which of them are arrays; and `pairs`
goes through the fields of a table in an order that nobody knows (`FieldOrder`).

* `encode_fields`, `field_record`: a table whose names differ, and are not all `n`, is encoded as
  an object, and its fields are found in it again under their names.
* `readValue_decoded`, `readRecord_decoded`: so a value and a record are read as they were. Which
  kind of value it is, is told by the fields it has.
-/

open LuaStack

namespace Mistress

open HttpParser (bytes)

namespace Json

/-! ## Tables without a metatable -/

namespace Val

/-- A table with fields, in the order of `pairs`. -/
def record (fields : List (Bytes × Val)) : Val := .table none (fields.map fun f => (.str f.1, f.2))

/-- A table with elements. -/
def sequence (vs : List Val) : Val := .table none (elementsFrom 0 vs)

/-- A field of a table. -/
def field (name : Bytes) : Val → Option Val
  | .table _ entries => Entries.get entries (.str name)
  | _ => none

end Val

section

variable {round : ℚ → Number}

/-- A table with elements comes back as an array, even if there are none, -/
theorem decoded_sequence {vs vs' : List Val} (h : vs.map (decoded round) = vs'.map some) :
    decoded round (.sequence vs) = some (.array vs') :=
  decoded_elementsFrom (by decide) h

/-- and is encoded where they are. -/
theorem encode_sequence {vs : List Val} (h : ∀ v ∈ vs, ∃ x, encode v = .ok x) :
    ∃ text, encode (.sequence vs) = .ok text :=
  encode_elementsFrom (by decide) h

/-- A table with fields comes back as an object, -/
theorem decoded_record {fields fields' : List (Bytes × Val)} (hnodup : (fields.map (·.1)).Nodup)
    (hlength : ∃ f ∈ fields, f.2.notLength f.1)
    (h : fields.map (fun f => (f.1, decoded round f.2)) = fields'.map fun f => (f.1, some f.2)) :
    decoded round (.record fields) = some (.object fields') :=
  decoded_objectFields (.inr (isarray_object hlength)) hnodup h

/-- and is encoded where they are. -/
theorem encode_record {fields : List (Bytes × Val)} (hlength : ∃ f ∈ fields, f.2.notLength f.1)
    (h : ∀ f ∈ fields, ∃ x, encode f.2 = .ok x) : ∃ text, encode (.record fields) = .ok text :=
  encode_objectFields (.inr (isarray_object hlength)) h

end

/-- A field is found under its name. -/
theorem field_object {fields : List (Bytes × Val)} (hnodup : (fields.map (·.1)).Nodup)
    {name : Bytes} {v : Val} (h : (name, v) ∈ fields) : (Val.object fields).field name = some v := by
  rw [Val.object, Val.field]
  induction fields with
  | nil => cases h
  | cons f fields ih =>
    rw [List.map_cons, List.nodup_cons] at hnodup
    rw [List.map_cons, Entries.get_cons, Val.sameKey]
    rcases List.mem_cons.1 h with rfl | h
    · rw [if_pos (by simp)]
    · have hne : f.1 ≠ name := fun heq => hnodup.1 (heq ▸ List.mem_map_of_mem h)
      rw [if_neg (by simpa using hne)]
      exact ih hnodup.2 h

end Json

open Json

/-! ## The table of the statistics -/

/-- The codes of the types, `stypes`. -/
def SType.code : SType → ℕ
  | concurUsersNumMax => 2
  | startSession => 3
  | responseTime => 4
  | responseStatus => 5
  | requestSent => 6
  | connectTime => 7
  | concurUsersNumMin => 8
  | connectError => 9
  | responseError => 10
  | concurConnsNumMin => 11
  | concurConnsNumMax => 12
  | finishTest => 13

/-- The order in which `pairs` goes through the fields of a table. -/
def FieldOrder : Type :=
  { order : List (Bytes × Val) → List (Bytes × Val) // ∀ fields, (order fields).Perm fields }

variable (order : FieldOrder)

/-- The value of a record, as it is passed to `Stat:add`. -/
def StatValue.val : StatValue → Val
  | .num n => .num (.finite n)
  | .group groupName x => .sequence [.str groupName, .num (.finite x)]
  | .connectError msg ip time => .record (order.1 [(bytes "msg", .str msg),
      (bytes "ip", .str ip), (bytes "time", .num (.finite time))])
  | .text msg => .str msg

/-- A record, as `Stat:add` stores it. -/
def StatRecord.val (r : StatRecord) : Val :=
  .record (order.1 [(bytes "type", .num (.finite r.type.code)),
    (bytes "value", r.value.val order)])

namespace Payload

/-- `node_id`: what the command line gives, or 1. -/
def nodeVal : Option Bytes → Val
  | some node => .str node
  | none => .num (.finite 1)

/-- The table `send_stats` encodes. -/
def val (node : Option Bytes) (p : Payload) : Val :=
  .record (order.1 [(bytes "node", nodeVal node), (bytes "step", .num (.finite p.step)),
    (bytes "data", .sequence (p.data.map (StatRecord.val order)))])

end Payload

/-! ## Reading it -/

/-- A number, as it comes. -/
def StatValue.shown : StatValue → StatValue
  | .num n => .num ⌊Json.shown n⌋
  | .group groupName x => .group groupName (Json.shown x)
  | .connectError msg ip time => .connectError msg ip (Json.shown time)
  | .text msg => .text msg

namespace Payload

/-- The statistics with the numbers of fourteen digits that are written. -/
def shown (p : Payload) : Payload :=
  ⟨⌊Json.shown p.step⌋₊, p.data.map fun r => ⟨r.type, r.value.shown⟩⟩

/-- A text. -/
def readText : Val → Option Bytes
  | .str s => some s
  | _ => none

/-- A number. -/
def readNum : Val → Option ℚ
  | .num (.finite q) => some q
  | _ => none

/-- The elements of an array. -/
def readItems : Val → Option (List Val)
  | .table (some .array) entries => some (entries.map (·.2))
  | _ => none

/-- The type with a code. -/
def readType (q : ℚ) : Option SType :=
  [SType.concurUsersNumMax, .startSession, .responseTime, .responseStatus, .requestSent,
    .connectTime, .concurUsersNumMin, .connectError, .responseError, .concurConnsNumMin,
    .concurConnsNumMax, .finishTest].find? fun type => (type.code : ℚ) = q

/-- The value of a record: the kind of it is told by what it is, and by the fields it has. -/
def readValue : Val → Option StatValue
  | .num (.finite q) => some (.num ⌊q⌋)
  | .str s => some (.text s)
  | .table (some .array) entries => do
    match entries.map (·.2) with
    | [groupName, x] => return .group (← readText groupName) (← readNum x)
    | _ => none
  | v => do
    return .connectError (← (v.field (bytes "msg")).bind readText)
      (← (v.field (bytes "ip")).bind readText) (← (v.field (bytes "time")).bind readNum)

/-- A record. -/
def readRecord (v : Val) : Option StatRecord := do
  return ⟨← ((v.field (bytes "type")).bind readNum).bind readType,
    ← (v.field (bytes "value")).bind readValue⟩

/-- The node, and its statistics. -/
def read (v : Val) : Option (Val × Payload) := do
  let node ← v.field (bytes "node")
  let step ← (v.field (bytes "step")).bind readNum
  let items ← (v.field (bytes "data")).bind readItems
  return (node, ⟨⌊step⌋₊, ← items.mapM readRecord⟩)

/-- The names are those of the fields of an object. -/
def Names (names : List Bytes) : Prop := names.Nodup ∧ ∃ name ∈ names, name ≠ [110]

variable {order} {fields : List (Bytes × Val)}

theorem Names.notLength (h : Names (fields.map (·.1))) :
    ∃ f ∈ order.1 fields, f.2.notLength f.1 := by
  obtain ⟨name, hmem, hne⟩ := h.2
  obtain ⟨f, hf, rfl⟩ := List.mem_map.1 hmem
  exact ⟨f, (order.2 fields).mem_iff.2 hf, .inl hne⟩

/-- A table whose names differ comes back as an object, and a field that is written is read, in
    whatever order they are written. -/
theorem field_record (order : FieldOrder) {round : ℚ → Number}
    (hback : ∀ f ∈ fields, ∃ v, decoded round f.2 = some v) (hnames : Names (fields.map (·.1))) :
    ∃ fields', decoded round (.record (order.1 fields)) = some (.object fields') ∧
      ∀ {name v v'}, (name, v) ∈ fields → decoded round v = some v' →
        (Val.object fields').field name = some v' := by
  have hperm := order.2 fields
  have hnodup : ((order.1 fields).map (·.1)).Nodup := (hperm.map _).nodup_iff.2 hnames.1
  let fields' := (order.1 fields).map fun f => (f.1, (decoded round f.2).getD .null)
  have hdecoded : (order.1 fields).map (fun f => (f.1, decoded round f.2)) =
      fields'.map fun f => (f.1, some f.2) := by
    rw [List.map_map]
    refine List.map_congr_left fun f hf => ?_
    obtain ⟨v, hv⟩ := hback f (hperm.mem_iff.1 hf)
    simp only [hv, Function.comp_apply, Option.getD_some]
  have hnodup' : (fields'.map (·.1)).Nodup := by rwa [List.map_map]
  refine ⟨fields', decoded_record hnodup hnames.notLength hdecoded, fun {name v v'} hmem hv => ?_⟩
  refine field_object hnodup' (List.mem_map.2 ⟨(name, v), hperm.mem_iff.2 hmem, ?_⟩)
  simp only [hv, Option.getD_some]

/-- It is encoded where its fields are. -/
theorem encode_fields (hnames : Names (fields.map (·.1)))
    (hok : ∀ f ∈ fields, ∃ x, encode f.2 = .ok x) :
    ∃ text, encode (.record (order.1 fields)) = .ok text :=
  encode_record hnames.notLength fun f hf => hok f ((order.2 fields).mem_iff.1 hf)

/-! ### Values -/

theorem names_connectError : Names [bytes "msg", bytes "ip", bytes "time"] :=
  ⟨by decide +kernel, _, List.mem_cons_self, by decide +kernel⟩

theorem names_record : Names [bytes "type", bytes "value"] :=
  ⟨by decide +kernel, _, List.mem_cons_self, by decide +kernel⟩

theorem names_payload : Names [bytes "node", bytes "step", bytes "data"] :=
  ⟨by decide +kernel, _, List.mem_cons_self, by decide +kernel⟩

/-- Every value is encoded: there is nothing in it that JSON lacks, -/
theorem encode_val (value : StatValue) : ∃ text, encode (value.val order) = .ok text := by
  cases value with
  | num n => exact ⟨_, rfl⟩
  | text msg => exact ⟨_, rfl⟩
  | group groupName x =>
    refine encode_sequence ?_
    simp only [List.forall_mem_cons]
    exact ⟨⟨_, rfl⟩, ⟨_, rfl⟩, List.forall_mem_nil _⟩
  | connectError msg ip time =>
    refine encode_fields names_connectError ?_
    simp only [List.forall_mem_cons]
    exact ⟨⟨_, rfl⟩, ⟨_, rfl⟩, ⟨_, rfl⟩, List.forall_mem_nil _⟩

/-- An object is no number, no text and no array. -/
theorem readValue_object (fields : List (Bytes × Val)) : readValue (.object fields) = do
    return .connectError (← ((Val.object fields).field (bytes "msg")).bind readText)
      (← ((Val.object fields).field (bytes "ip")).bind readText)
      (← ((Val.object fields).field (bytes "time")).bind readNum) := rfl

/-- and is read as it was, but for the digits. -/
theorem readValue_decoded (order : FieldOrder) (value : StatValue) :
    ∃ v, decoded .finite (value.val order) = some v ∧ readValue v = some value.shown := by
  cases value with
  | num n => exact ⟨_, rfl, rfl⟩
  | text msg => exact ⟨_, rfl, rfl⟩
  | group groupName x =>
    have hback : [Val.str groupName, .num (.finite x)].map (decoded .finite) =
        [Val.str groupName, .num (.finite (Json.shown x))].map some := rfl
    exact ⟨_, decoded_sequence hback, rfl⟩
  | connectError msg ip time =>
    let fields : List (Bytes × Val) := [(bytes "msg", .str msg), (bytes "ip", .str ip),
      (bytes "time", .num (.finite time))]
    have hnames : Names (fields.map (·.1)) := names_connectError
    have hback : ∀ f ∈ fields, ∃ v, decoded .finite f.2 = some v := by
      simp only [fields, List.forall_mem_cons]
      exact ⟨⟨_, rfl⟩, ⟨_, rfl⟩, ⟨_, rfl⟩, List.forall_mem_nil _⟩
    obtain ⟨fields', hobject, hfield⟩ := field_record order hback hnames
    have hmsg := hfield List.mem_cons_self rfl
    have hip := hfield (List.mem_cons_of_mem _ List.mem_cons_self) rfl
    have htime := hfield (List.mem_cons_of_mem _ (List.mem_cons_of_mem _ List.mem_cons_self)) rfl
    refine ⟨_, hobject, ?_⟩
    rw [readValue_object, hmsg, hip, htime]
    rfl

/-! ### Records -/

/-- The code of a type has few digits, and is read as it was. -/
theorem readType_code (type : SType) : readType (Json.shown type.code) = some type := by
  have hshown : Json.shown type.code = type.code :=
    shown_eq_iff.2 ⟨type.code, 0, by cases type <;> decide, by simp⟩
  rw [hshown]
  cases type <;> rfl

theorem encode_statRecord (r : StatRecord) : ∃ text, encode (r.val order) = .ok text := by
  refine encode_fields names_record ?_
  simp only [List.forall_mem_cons]
  exact ⟨⟨_, rfl⟩, encode_val r.value, List.forall_mem_nil _⟩

/-- A record is read as it was. -/
theorem readRecord_decoded (order : FieldOrder) (r : StatRecord) :
    ∃ v, decoded .finite (r.val order) = some v ∧
      readRecord v = some ⟨r.type, r.value.shown⟩ := by
  obtain ⟨value, hdecoded, hvalue⟩ := readValue_decoded order r.value
  have hback : ∀ f ∈ [(bytes "type", Val.num (.finite r.type.code)),
      (bytes "value", r.value.val order)], ∃ v, decoded .finite f.2 = some v := by
    simp only [List.forall_mem_cons]
    exact ⟨⟨_, rfl⟩, ⟨_, hdecoded⟩, List.forall_mem_nil _⟩
  obtain ⟨fields', hobject, hfield⟩ := field_record order hback names_record
  have htype := hfield List.mem_cons_self rfl
  have hval := hfield (List.mem_cons_of_mem _ List.mem_cons_self) hdecoded
  refine ⟨_, hobject, ?_⟩
  rw [readRecord, htype, hval]
  change (readType (Json.shown r.type.code)).bind (fun type =>
    (readValue value).bind fun value => some (StatRecord.mk type value)) = _
  rw [readType_code, hvalue]
  rfl

/-! ### The statistics -/

/-- The table of the statistics is encoded, whatever they are. -/
theorem encode_payload (node : Option Bytes) (p : Payload) :
    ∃ text, encode (p.val order node) = .ok text := by
  refine encode_fields names_payload ?_
  simp only [List.forall_mem_cons]
  refine ⟨?_, ⟨_, rfl⟩, encode_sequence fun v hv => ?_, List.forall_mem_nil _⟩
  · cases node <;> exact ⟨_, rfl⟩
  · obtain ⟨r, -, rfl⟩ := List.mem_map.1 hv
    exact encode_statRecord r

/-- The records are read as they were, in their order. -/
theorem mapM_readRecord (order : FieldOrder) (rs : List StatRecord) :
    ∃ vs : List Val, (rs.map (StatRecord.val order)).map (decoded .finite) = vs.map some ∧
      vs.mapM readRecord = some (rs.map fun r => ⟨r.type, r.value.shown⟩) := by
  induction rs with
  | nil => exact ⟨[], rfl, rfl⟩
  | cons r rs ih =>
    obtain ⟨vs, hdecoded, hread⟩ := ih
    obtain ⟨v, hv, hrecord⟩ := readRecord_decoded order r
    refine ⟨v :: vs, ?_, ?_⟩
    · rw [List.map_cons, List.map_cons, hv, hdecoded, List.map_cons]
    · rw [List.mapM_cons, hrecord, hread]
      rfl

theorem items_elementsFrom (vs : List Val) (i : ℕ) : (elementsFrom i vs).map (·.2) = vs := by
  induction vs generalizing i with
  | nil => rfl
  | cons v vs ih => rw [elementsFrom, List.map_cons, ih]

/-- The node is text, or a number of one digit. -/
theorem decoded_nodeVal (node : Option Bytes) :
    decoded .finite (nodeVal node) = some (nodeVal node) := by
  cases node with
  | some s => rfl
  | none =>
    have hshown : Json.shown 1 = 1 := shown_eq_iff.2 ⟨1, 0, by decide, by simp⟩
    rw [nodeVal, decoded, hshown]

/-- Whoever decodes what `send_stats` encodes has the node, the step and all the records, in
    their order, in whatever order `pairs` goes through the fields of the tables. -/
theorem read_sent (order : FieldOrder) (node : Option Bytes) (p : Payload) :
    ∃ text v, encode (p.val order node) = .ok text ∧
      decode .finite text = pure (some v, text.length + 1) ∧
        read v = some (nodeVal node, p.shown) := by
  obtain ⟨text, htext⟩ : ∃ text, encode (p.val order node) = .ok text := encode_payload node p
  obtain ⟨vs, hvs, hread⟩ := mapM_readRecord order p.data
  have hsequence : decoded .finite (.sequence (p.data.map (StatRecord.val order))) =
      some (.array vs) := decoded_sequence hvs
  have hback : ∀ f ∈ [(bytes "node", nodeVal node), (bytes "step", Val.num (.finite p.step)),
      (bytes "data", .sequence (p.data.map (StatRecord.val order)))],
        ∃ v, decoded .finite f.2 = some v := by
    simp only [List.forall_mem_cons]
    exact ⟨⟨_, decoded_nodeVal node⟩, ⟨_, rfl⟩, ⟨_, hsequence⟩, List.forall_mem_nil _⟩
  obtain ⟨fields', hobject, hfield⟩ := field_record order hback names_payload
  have hnode := hfield List.mem_cons_self (decoded_nodeVal node)
  have hstep := hfield (List.mem_cons_of_mem _ List.mem_cons_self) rfl
  have hdata := hfield (List.mem_cons_of_mem _ (List.mem_cons_of_mem _ List.mem_cons_self))
    hsequence
  have hdecode : decode .finite text = _ := Decodes.decode (decodes (p.val order node)) htext
  refine ⟨text, .object fields', htext, hdecode.trans (congrArg _ ?_), ?_⟩
  · rw [val, hobject]
  have hitems : readItems (.array vs) = some vs := by
    rw [Val.array, readItems, items_elementsFrom]
  rw [read, hnode, hstep, hdata]
  change ((readItems (.array vs)).bind fun items => (items.mapM readRecord).bind fun rs =>
    some (nodeVal node, (⟨⌊Json.shown p.step⌋₊, rs⟩ : Payload))) = _
  rw [hitems, Option.bind_some, hread]
  rfl

end Payload

end Mistress
