import Mistress.JsonNumber
import Mistress.JsonString

/-!
# Encoding and decoding

What `json.encode` writes, `json.decode` reads: the value it reads is the one that has been
written, up to what the text does not tell (`decoded`, `decode_encode`). Numbers have fourteen
digits, and are rounded as `tonumber` does; the infinities, NaN and `json.null` come back as `nil`,
and are missing from their table; the keys of an object are strings, a table is an array or an
object, and of an array only the elements up to its length are there.

A value is scanned where it stands in a longer text, as a part of another value (`Decodes`). The
induction is on the value: a table is scanned element by element (`scantable_elements`) or pair by
pair (`scantable_pairs`), and the text of an element is the text of a value.

What follows a value matters for numbers and names, which end where another kind of byte comes
(`Stops`); and what it begins with tells the scanner which kind of value it is (`Begins`).
-/

open LuaStack

namespace Mistress.Json

open HttpParser (byte bytes)

/-- Induction over a value and the values of its entries. -/
theorem Val.induction {motive : Val → Prop} (bool : ∀ b, motive (.bool b))
    (num : ∀ n, motive (.num n)) (str : ∀ s, motive (.str s)) (null : motive .null)
    (table : ∀ jsontype entries, (∀ e ∈ entries, motive e.2) → motive (.table jsontype entries)) :
    ∀ v, motive v
  | .bool b => bool b
  | .num n => num n
  | .str s => str s
  | .null => null
  | .table jsontype entries => table jsontype entries fun e _ =>
    Val.induction bool num str null table e.2
termination_by v => sizeOf v
decreasing_by
  have h₁ := List.sizeOf_lt_of_mem ‹e ∈ entries›
  have h₂ : sizeOf e.2 < sizeOf e := by
    cases e
    simp
  simp
  omega

/-- The entries of a table are encoded one by one. -/
theorem encodeEntries_eq (entries : Entries) :
    encodeEntries entries = entries.map fun e => (e.1, encode e.2) := by
  induction entries with
  | nil => rfl
  | cons e entries ih => rw [encodeEntries, ih]; rfl

/-! ## What is decoded -/

/-- The value of a key, in entries some of whose values have come back as `nil`. -/
def valueAt (tbl : List (Val × Option Val)) (k : Val) : Option Val :=
  (tbl.find? fun e => e.1.sameKey k).bind (·.2)

/-- The entries of an object, in the order they are written, after `t`. -/
def object (tbl : List (Val × Option Val)) (t : Entries) : Entries :=
  tbl.foldl (fun (t : Entries) e => t.set (.str (keyText e.1)) e.2) t

/-- The elements of an array with these indices, after `t`. -/
def array (tbl : List (Val × Option Val)) (t : Entries) (is : List ℕ) : Entries :=
  is.foldl (fun (t : Entries) (i : ℕ) => t.set (.num i) (valueAt tbl (.num i))) t

section

variable (round : ℚ → Number)

mutual

/-- A value after it has been encoded and decoded. -/
def decoded : Val → Option Val
  | .bool b => some (.bool b)
  | .num (.finite n) => some (.num (round (shown n)))
  | .num _ => none
  | .str s => some (.str s)
  | .null => none
  | .table jsontype entries =>
    let tbl := decodedEntries entries
    if isObject jsontype entries then some (.table (some .object) (object tbl []))
    else match isarray entries with
      | some (.finite n) => some (.table (some .array) (array tbl [] (List.range' 1 ⌊n⌋₊)))
      | _ => none

/-- The entries of a table, with their values encoded and decoded. -/
def decodedEntries : Entries → List (Val × Option Val)
  | [] => []
  | (k, v) :: entries => (k, decoded v) :: decodedEntries entries

end

theorem decodedEntries_eq (entries : Entries) :
    decodedEntries round entries = entries.map fun e => (e.1, decoded round e.2) := by
  induction entries with
  | nil => rfl
  | cons e entries ih => rw [decodedEntries, ih]; rfl

end

/-! ## The first byte -/

/-- A byte a value may begin with. -/
def isFirst (ch : UInt8) : Bool :=
  !isSpace ch && ch ≠ 239 && ch ≠ byte ']' && ch ≠ byte '\x7d' && ch ≠ byte ','

/-- The text begins with such a byte. -/
def Begins (text : Bytes) : Prop := ∃ ch s, text = ch :: s ∧ isFirst ch = true

/-- No white space, byte order mark or comment is skipped before a value. -/
theorem scanwhite_of_ne {ch : UInt8} (hspace : isSpace ch = false) (hbom : ch ≠ 239) (s : Bytes) :
    scanwhite (ch :: s) = ch :: s := by
  unfold scanwhite
  rw [if_neg (by simp [hspace])]
  split
  · rw [if_neg fun h => hbom h.1]
  · rfl

theorem isFirst_iff {ch : UInt8} : isFirst ch = true ↔ isSpace ch = false ∧ ch ≠ 239 ∧
    ch ≠ byte ']' ∧ ch ≠ byte '\x7d' ∧ ch ≠ byte ',' := by
  simp [isFirst, and_assoc]

theorem begins_tostring (q : ℚ) : ∃ ch s, tostring q = ch :: s ∧
    (isDigit ch = true ∨ ch = byte '-') := by
  obtain ⟨n, ⟨htext, -⟩ | ⟨htext, -⟩⟩ := exists_tostring q
  · obtain ⟨ch, s, hs⟩ := List.exists_cons_of_ne_nil n.int_ne
    refine ⟨ch, s ++ (n.pointBytes ++ n.expBytes), ?_, .inl ?_⟩
    · rw [htext, n.map_text, hs, List.cons_append]
    · exact n.int_isDigit ch (by rw [hs]; exact List.mem_cons_self)
  · exact ⟨_, _, htext, .inr rfl⟩

theorem isDigit_le {ch : UInt8} (h : isDigit ch = true) : 48 ≤ ch.toNat ∧ ch.toNat ≤ 57 := by
  have h0 : (byte '0').toNat = 48 := rfl
  have h9 : (byte '9').toNat = 57 := rfl
  simpa [isDigit, HttpParser.isNum, UInt8.le_iff_toNat_le, h0, h9] using h

theorem isFirst_of_digit {ch : UInt8} (h : isDigit ch = true ∨ ch = byte '-') :
    isFirst ch = true := by
  rcases h with h | rfl
  · obtain ⟨hl, hu⟩ := isDigit_le h
    have hne {c : UInt8} (hc : c.toNat < 48 ∨ 57 < c.toNat) : ch ≠ c := fun heq => by
      rw [heq] at hl hu
      omega
    rw [isFirst_iff]
    refine ⟨?_, hne (by decide), hne (by decide), hne (by decide), hne (by decide)⟩
    have h13 : ¬ch ≤ 13 := by
      rw [UInt8.le_iff_toNat_le]
      have : (13 : UInt8).toNat = 13 := rfl
      omega
    simp [isSpace, range, h13, hne (c := 32) (by decide)]
  · decide

/-- The text of a table. -/
theorem encode_table {jsontype : Option JsonType} {entries : Entries} {text : Bytes}
    (h : encode (.table jsontype entries) = .ok text) :
    (isObject jsontype entries ∧ ∃ t, pairs false (encodeEntries entries) = .ok t ∧
        text = byte '\x7b' :: t ++ [byte '\x7d']) ∨
      (¬isObject jsontype entries ∧ ∃ n, isarray entries = some (.finite n) ∧
        ∃ t, elements (encodeEntries entries) n (List.range' 1 ⌊n⌋₊) = .ok t ∧
          text = byte '[' :: t ++ [byte ']']) := by
  rw [encode] at h
  by_cases hobject : isObject jsontype entries
  · left
    rw [if_pos hobject] at h
    cases hpairs : pairs false (encodeEntries entries) with
    | error e =>
      rw [hpairs] at h
      cases h
    | ok t =>
      rw [hpairs] at h
      exact ⟨hobject, t, rfl, (Except.ok.inj h).symm⟩
  · right
    rw [if_neg hobject] at h
    split at h
    · rename_i n hn
      cases helements : elements (encodeEntries entries) n (List.range' 1 ⌊n⌋₊) with
      | error e =>
        rw [helements] at h
        cases h
      | ok t =>
        rw [helements] at h
        exact ⟨hobject, n, hn, t, helements, (Except.ok.inj h).symm⟩
    · cases helements : elements (encodeEntries entries) (lastIndex entries)
          (List.range' 1 (lastIndex entries)) with
      | error e =>
        rw [helements] at h
        cases h
      | ok t =>
        rw [helements] at h
        cases h

theorem begins_null : Begins (bytes "null") := ⟨_, _, rfl, by decide⟩

/-- Whatever is written begins with such a byte. -/
theorem begins_encode {v : Val} {text : Bytes} (h : encode v = .ok text) : Begins text := by
  cases v with
  | bool b =>
    obtain rfl := Except.ok.inj h
    cases b
    · exact ⟨_, _, rfl, by decide⟩
    · exact ⟨_, _, rfl, by decide⟩
  | num n =>
    cases n with
    | finite n =>
      obtain rfl := Except.ok.inj h
      obtain ⟨ch, s, hs, hch⟩ := begins_tostring n
      exact ⟨ch, s, hs, isFirst_of_digit hch⟩
    | huge | nan =>
      obtain rfl := Except.ok.inj h
      exact begins_null
  | str s =>
    obtain rfl := Except.ok.inj h
    obtain ⟨text, htext, -⟩ := scanstring_quotestring s []
    exact ⟨_, _, htext, by decide⟩
  | null =>
    obtain rfl := Except.ok.inj h
    exact begins_null
  | table jsontype entries =>
    obtain ⟨-, t, -, rfl⟩ | ⟨-, -, -, t, -, rfl⟩ := encode_table h
    · exact ⟨_, _, rfl, by decide⟩
    · exact ⟨_, _, rfl, by decide⟩

/-! ## Simple values -/

variable {round : ℚ → Number}

/-- A name is not taken for a number. -/
theorem scannumber_none {ch : UInt8} (h : ch ≠ byte '-') (h' : isMantissa ch = false) (s : Bytes) :
    scannumber (ch :: s) = none := by
  have hoptional : optional (· = byte '-') (ch :: s) = ([], ch :: s) := by
    rw [optional, if_neg (by simpa using h)]
  unfold scannumber
  rw [hoptional]
  simp [h']

/-- A name is read up to its end. -/
theorem scanname_append {ch : UInt8} {name rest : Bytes} (hch : isAlpha ch = true)
    (hname : ∀ c ∈ ch :: name, isAlpha c = true) (hrest : Stops rest) :
    scanname (ch :: name ++ rest) = some (ch :: name, rest) := by
  have hword : ∀ c ∈ ch :: name, (isAlpha c || isDigit c) = true := fun c hc => by
    simp [hname c hc]
  have hspan := span_append rest hword fun c hc => by
    have := hrest c hc
    simp only [isWord, Bool.or_eq_false_iff] at this
    simp [this.1.1.1]
  rw [List.cons_append, scanname, if_pos hch, ← List.cons_append, hspan.1, hspan.2]

/-- What a value begins with tells which kind it is. -/
theorem scanvalue_of_begins {str : Bytes} {fuel : ℕ} {ch : UInt8} {s : Bytes}
    (h : isFirst ch = true) : scanvalue round str (fuel + 1) (ch :: s) =
      if ch = byte '\x7b' then scantable round str .object (position str (ch :: s)) fuel [] 0 s
      else if ch = byte '[' then scantable round str .array (position str (ch :: s)) fuel [] 0 s
      else if ch = byte '"' then
        match scanstring 0 s with
        | some (value, rest) => pure (some (.str value), rest)
        | none => unterminated str "string" (position str (ch :: s))
      else scanatom round str (ch :: s) := by
  obtain ⟨hspace, hbom, -⟩ := isFirst_iff.1 h
  have heq := scanvalue.eq_2 round str (ch :: s) fuel
  rw [scanwhite_of_ne hspace hbom] at heq
  exact heq

/-- `true`, `false` and `null`. -/
theorem scanvalue_name {str : Bytes} {fuel : ℕ} {name rest : Bytes} (hrest : Stops rest)
    (hname : name = bytes "true" ∨ name = bytes "false" ∨ name = bytes "null") :
    scanvalue round str (fuel + 1) (name ++ rest) =
      pure (if name = bytes "true" then some (.bool true)
        else if name = bytes "false" then some (.bool false) else none, rest) := by
  have hscan {ch : UInt8} {s : Bytes} (hs : name = ch :: s) (hfirst : isFirst ch = true)
      (hne : ch ≠ byte '\x7b' ∧ ch ≠ byte '[' ∧ ch ≠ byte '"' ∧ ch ≠ byte '-' ∧
        isMantissa ch = false) (halpha : (ch :: s).all isAlpha = true) :
      scanvalue round str (fuel + 1) (name ++ rest) =
        pure (if name = bytes "true" then some (.bool true)
          else if name = bytes "false" then some (.bool false) else none, rest) := by
    obtain ⟨h₁, h₂, h₃, h₄, h₅⟩ := hne
    have halpha := List.all_eq_true.1 halpha
    rw [hs, List.cons_append, scanvalue_of_begins hfirst, if_neg h₁, if_neg h₂, if_neg h₃, scanatom,
      scannumber_none h₄ h₅, Option.bind_none, ← List.cons_append,
      scanname_append (halpha ch List.mem_cons_self) halpha hrest, ← hs]
    dsimp only
    rcases hname with rfl | rfl | rfl <;> rfl
  rcases hname with rfl | rfl | rfl
  · exact hscan rfl (by decide) (by decide) (by decide)
  · exact hscan rfl (by decide) (by decide) (by decide)
  · exact hscan rfl (by decide) (by decide) (by decide)

/-- What is no value is read as `nil`. -/
theorem scanvalue_null {str : Bytes} {fuel : ℕ} {rest : Bytes} (hrest : Stops rest)
    (hfuel : 2 * (bytes "null").length + 1 ≤ fuel) :
    scanvalue round str fuel (bytes "null" ++ rest) = pure (none, rest) := by
  obtain ⟨fuel, rfl⟩ := Nat.exists_eq_add_of_le' (Nat.le_of_add_left_le hfuel)
  exact scanvalue_name hrest (.inr (.inr rfl))

/-- A number, as it is written. -/
theorem scanvalue_tostring {str : Bytes} {fuel : ℕ} {rest : Bytes} (hrest : Stops rest) (q : ℚ) :
    scanvalue round str (fuel + 1) (tostring q ++ rest) =
      pure (some (.num (round (shown q))), rest) := by
  obtain ⟨ch, s, hs, hch⟩ := begins_tostring q
  have hne : ch ≠ byte '\x7b' ∧ ch ≠ byte '[' ∧ ch ≠ byte '"' := by
    rcases hch with hch | rfl
    · have hle := isDigit_le hch
      refine ⟨?_, ?_, ?_⟩ <;> rintro rfl <;> exact absurd hle (by decide)
    · decide
  rw [hs, List.cons_append, scanvalue_of_begins (isFirst_of_digit hch), if_neg hne.1, if_neg hne.2.1,
    if_neg hne.2.2, scanatom, ← List.cons_append, ← hs, scannumber_tostring q hrest, Option.bind_some,
    tonumber_tostring]
  rfl

/-- A string, as it is written. -/
theorem scanvalue_quotestring {str : Bytes} {fuel : ℕ} (rest s : Bytes) :
    scanvalue round str (fuel + 1) (quotestring s ++ rest) = pure (some (.str s), rest) := by
  obtain ⟨text, htext, hscan⟩ := scanstring_quotestring s rest
  have hobject : byte '"' ≠ byte '\x7b' := by decide
  have harray : byte '"' ≠ byte '[' := by decide
  rw [htext, List.cons_append, scanvalue_of_begins (by decide), if_neg hobject, if_neg harray,
    if_pos rfl, hscan]

/-! ## Tables -/

/-- The value is decoded as it should be. -/
def Decodes (round : ℚ → Number) (v : Val) : Prop :=
  ∀ {text : Bytes}, encode v = .ok text → ∀ {str rest : Bytes} {fuel : ℕ}, Stops rest →
    2 * text.length + 1 ≤ fuel →
      scanvalue round str fuel (text ++ rest) = pure (decoded round v, rest)

theorem stops_cons {ch : UInt8} (h : isWord ch = false) (s : Bytes) : Stops (ch :: s) := by
  rintro c hc
  obtain rfl : ch = c := by simpa using hc
  exact h

variable {str : Bytes} {startpos fuel n : ℕ} {t : Entries}

/-- The table ends. -/
theorem scantable_close (what : JsonType) {rest : Bytes} :
    scantable round str what startpos (fuel + 1) t n (what.closechar :: rest) =
      pure (some (.table (some what) t), rest) := by
  have hwhite : scanwhite (what.closechar :: rest) = what.closechar :: rest := by
    cases what
    · exact scanwhite_of_ne (by decide) (by decide) rest
    · exact scanwhite_of_ne (by decide) (by decide) rest
  rw [scantable, hwhite]
  dsimp only
  rw [if_pos rfl]

/-- An element of an array is scanned. -/
theorem scantable_element {text rest : Bytes} {ch : UInt8} {v : Option Val} (hbegins : Begins text)
    (hscan : scanvalue round str fuel (text ++ ch :: rest) = pure (v, ch :: rest))
    (hch : ch = byte ',' ∨ ch = byte ']') :
    scantable round str .array startpos (fuel + 1) t n (text ++ ch :: rest) =
      scantable round str .array startpos fuel (t.set (.num (n + 1 : ℕ)) v) (n + 1)
        (comma (ch :: rest)) := by
  obtain ⟨c, s, rfl, hc⟩ := hbegins
  obtain ⟨hspace, hbom, hclose, -⟩ := isFirst_iff.1 hc
  have hwhite : scanwhite (ch :: rest) = ch :: rest := by
    rcases hch with rfl | rfl
    · exact scanwhite_of_ne (by decide) (by decide) rest
    · exact scanwhite_of_ne (by decide) (by decide) rest
  have hclose' : c ≠ JsonType.array.closechar := hclose
  have hcolon : ch ≠ byte ':' := by
    rcases hch with rfl | rfl <;> decide
  rw [List.cons_append] at hscan ⊢
  rw [scantable, scanwhite_of_ne hspace hbom]
  dsimp only
  rw [if_neg hclose', hscan, pure_bind]
  dsimp only
  rw [hwhite]
  dsimp only
  rw [if_neg hcolon]

theorem find_encodeEntries (entries : Entries) (k : Val) :
    ((encodeEntries entries).find? fun e => e.1.sameKey k) =
      (entries.find? fun e => e.1.sameKey k).map fun e => (e.1, encode e.2) := by
  rw [encodeEntries_eq, List.find?_map]
  rfl

theorem valueAt_decodedEntries (entries : Entries) (k : Val) :
    valueAt (decodedEntries round entries) k =
      (entries.find? fun e => e.1.sameKey k).bind fun e => decoded round e.2 := by
  rw [decodedEntries_eq, valueAt, List.find?_map, Option.bind_map]
  rfl

/-- The text of an element is scanned, `null` if it is missing. -/
theorem scanvalue_element (str : Bytes) {entries : Entries} (ih : ∀ e ∈ entries, Decodes round e.2)
    {k : Val} {x : Bytes}
    (h : (((encodeEntries entries).find? fun e => e.1.sameKey k).map (·.2)).getD
      (.ok (bytes "null")) = .ok x) : Begins x ∧ ∀ {rest : Bytes} {fuel : ℕ}, Stops rest →
        2 * x.length + 1 ≤ fuel →
          scanvalue round str fuel (x ++ rest) =
            pure (valueAt (decodedEntries round entries) k, rest) := by
  rw [find_encodeEntries, Option.map_map] at h
  rw [valueAt_decodedEntries]
  cases hfind : entries.find? fun e => e.1.sameKey k with
  | none =>
    rw [hfind] at h
    obtain rfl := Except.ok.inj h
    exact ⟨begins_null, scanvalue_null⟩
  | some e =>
    rw [hfind] at h
    exact ⟨begins_encode h, ih e (List.mem_of_find?_eq_some hfind) h⟩

/-- The elements of an array are scanned, those that are missing as `null`. -/
theorem scantable_elements {entries : Entries} (ih : ∀ e ∈ entries, Decodes round e.2)
    {m : ℚ} {rest : Bytes} :
    ∀ {len k fuel : ℕ} {t : Entries} {text : Bytes},
      elements (encodeEntries entries) m (List.range' (k + 1) len) = .ok text →
        (0 < len → ((k + len : ℕ) : ℚ) ≤ m) → 2 * (text.length + 1) ≤ fuel →
          scantable round str .array startpos fuel t k (text ++ byte ']' :: rest) =
            pure (some (.table (some .array)
              (array (decodedEntries round entries) t (List.range' (k + 1) len))), rest) := by
  intro len
  induction len with
  | zero =>
    intro k fuel t text htext _ hfuel
    obtain rfl := Except.ok.inj htext
    obtain ⟨fuel, rfl⟩ : ∃ f, fuel = f + 1 := ⟨fuel - 1, by omega⟩
    exact scantable_close .array
  | succ len ihlen =>
    intro k fuel t text htext hm hfuel
    rw [List.range'_succ, elements] at htext
    cases hx : (((encodeEntries entries).find? fun e => e.1.sameKey (.num (k + 1 : ℕ))).map (·.2)).getD
        (.ok (bytes "null")) with
    | error e =>
      rw [hx] at htext
      cases htext
    | ok x =>
      rw [hx] at htext
      cases ht : elements (encodeEntries entries) m (List.range' (k + 1 + 1) len) with
      | error e =>
        rw [ht] at htext
        cases htext
      | ok t' =>
        rw [ht] at htext
        obtain rfl := Except.ok.inj htext
        obtain ⟨hbegins, hscan⟩ := scanvalue_element str ih hx
        have hpos : 0 < x.length := by
          obtain ⟨ch, s, rfl, -⟩ := hbegins
          exact Nat.succ_pos _
        rw [List.length_append, List.length_append] at hfuel
        obtain ⟨fuel, rfl⟩ : ∃ f, fuel = f + 1 := ⟨fuel - 1, by omega⟩
        have hm' : ((k + 1 + len : ℕ) : ℚ) ≤ m := by
          have := hm (Nat.succ_pos len)
          rwa [Nat.add_assoc, Nat.add_comm 1]
        -- A comma follows, unless the element is the last one.
        obtain ⟨ch, s, hs, hch, hcomma⟩ : ∃ ch s, (if ((k + 1 : ℕ) : ℚ) < m then [byte ','] else []) ++
            (t' ++ byte ']' :: rest) = ch :: s ∧ (ch = byte ',' ∨ ch = byte ']') ∧
              comma (ch :: s) = t' ++ byte ']' :: rest := by
          by_cases hlt : ((k + 1 : ℕ) : ℚ) < m
          · exact ⟨_, _, by rw [if_pos hlt]; rfl, .inl rfl, by rw [comma, if_pos rfl]; rfl⟩
          · have hlen : len = 0 := by
              have hle : ((k + 1 + len : ℕ) : ℚ) ≤ (k + 1 : ℕ) := hm'.trans (not_lt.1 hlt)
              have : k + 1 + len ≤ k + 1 := by exact_mod_cast hle
              omega
            subst hlen
            obtain rfl := Except.ok.inj ht
            have hne : byte ']' ≠ byte ',' := by decide
            exact ⟨_, _, by rw [if_neg hlt]; rfl, .inr rfl, by rw [comma, if_neg hne]; rfl⟩
        have hstops : Stops (ch :: s) := by
          rcases hch with rfl | rfl <;> exact stops_cons (by decide) s
        rw [List.append_assoc, List.append_assoc, hs,
          scantable_element hbegins (hscan hstops (by omega)) hch, hcomma,
          ihlen ht (fun _ => hm') (by omega)]
        rfl

/-- What follows a pair begins with a comma, or ends the object. -/
theorem pairs_true {tbl : List (Val × Encoded)} {text : Bytes} (h : pairs true tbl = .ok text) :
    text = [] ∨ ∃ s, text = byte ',' :: s := by
  cases tbl with
  | nil => exact .inl (Except.ok.inj h).symm
  | cons e tbl =>
    right
    obtain ⟨k, value⟩ := e
    rw [pairs] at h
    cases hkey : encodeKey k with
    | error e =>
      rw [hkey] at h
      cases h
    | ok key =>
      rw [hkey] at h
      cases hv : value with
      | error e =>
        rw [hv] at h
        cases h
      | ok value =>
        rw [hv] at h
        cases ht : pairs true tbl with
        | error e =>
          rw [ht] at h
          cases h
        | ok t' =>
          rw [ht] at h
          exact ⟨_, (Except.ok.inj h).symm⟩

/-- A key is written as a string. -/
theorem encodeKey_ok {k : Val} {key : Bytes} (h : encodeKey k = .ok key) :
    key = quotestring (keyText k) := by
  cases k with
  | str s => exact (Except.ok.inj h).symm
  | num n => exact (Except.ok.inj h).symm
  | bool | null | table => cases h

/-- The text of a pair, and of the pairs after it. -/
theorem pairs_cons {prev : Bool} {k v : Val} {entries : Entries} {text : Bytes}
    (h : pairs prev (encodeEntries ((k, v) :: entries)) = .ok text) : ∃ value texts,
      encode v = .ok value ∧ pairs true (encodeEntries entries) = .ok texts ∧
        text = (if prev then [byte ','] else []) ++ (quotestring (keyText k) ++
          byte ':' :: (value ++ texts)) := by
  rw [encodeEntries, pairs] at h
  cases hkey : encodeKey k with
  | error e =>
    rw [hkey] at h
    cases h
  | ok key =>
    rw [hkey] at h
    cases hv : encode v with
    | error e =>
      rw [hv] at h
      cases h
    | ok value =>
      rw [hv] at h
      cases ht : pairs true (encodeEntries entries) with
      | error e =>
        rw [ht] at h
        cases h
      | ok texts =>
        rw [ht] at h
        refine ⟨value, texts, rfl, rfl, ?_⟩
        rw [← encodeKey_ok hkey, ← Except.ok.inj h]
        simp only [List.append_assoc, List.cons_append]

/-- The pairs of an object are scanned. -/
theorem scantable_pairs {rest : Bytes} : ∀ {entries : Entries} {prev : Bool} {fuel : ℕ}
    {t : Entries} {text : Bytes}, (∀ e ∈ entries, Decodes round e.2) →
      pairs prev (encodeEntries entries) = .ok text →
      2 * (text.length + 1) ≤ fuel →
        scantable round str .object startpos fuel t n (comma (text ++ byte '\x7d' :: rest)) =
          pure (some (.table (some .object) (object (decodedEntries round entries) t)), rest) := by
  intro entries
  induction entries with
  | nil =>
    intro prev fuel t text _ htext hfuel
    obtain rfl := Except.ok.inj htext
    obtain ⟨fuel, rfl⟩ : ∃ f, fuel = f + 1 := ⟨fuel - 1, by omega⟩
    exact scantable_close .object
  | cons e entries ihentries =>
    intro prev fuel t text ih htext hfuel
    obtain ⟨k, v⟩ := e
    obtain ⟨hv, ih⟩ := List.forall_mem_cons.1 ih
    obtain ⟨value, texts, hvalue, htexts, rfl⟩ := pairs_cons htext
    obtain ⟨fuel, rfl⟩ : ∃ f, fuel = f + 1 := ⟨fuel - 1, by omega⟩
    simp only [List.length_append, List.length_cons] at hfuel
    obtain ⟨body, hquote, -⟩ := scanstring_quotestring (keyText k) []
    obtain ⟨ch, s, hs, hfirst⟩ := begins_encode hvalue
    obtain ⟨hspace, hbom, -⟩ := isFirst_iff.1 hfirst
    -- What follows the pair is a comma, or the end of the object.
    obtain ⟨c, r, hc, hcs⟩ : ∃ c r, texts ++ byte '\x7d' :: rest = c :: r ∧
        (c = byte ',' ∨ c = byte '\x7d') := by
      rcases pairs_true htexts with rfl | ⟨r, rfl⟩
      · exact ⟨_, _, rfl, .inr rfl⟩
      · exact ⟨_, _, rfl, .inl rfl⟩
    have hstops : Stops (c :: r) := by
      rcases hcs with rfl | rfl <;> exact stops_cons (by decide) r
    have hwhite : scanwhite (c :: r) = c :: r := by
      rcases hcs with rfl | rfl
      · exact scanwhite_of_ne (by decide) (by decide) r
      · exact scanwhite_of_ne (by decide) (by decide) r
    have hcolon : scanwhite (byte ':' :: (value ++ c :: r)) = byte ':' :: (value ++ c :: r) :=
      scanwhite_of_ne (by decide) (by decide) _
    have hkey : scanvalue round str (fuel - 1 + 1) (quotestring (keyText k) ++
        byte ':' :: (value ++ c :: r)) =
          pure (some (.str (keyText k)), byte ':' :: (value ++ c :: r)) :=
      scanvalue_quotestring _ (keyText k)
    have hval : scanvalue round str fuel (value ++ c :: r) = pure (decoded round v, c :: r) :=
      hv hvalue hstops (by omega)
    have hnext : scantable round str .object startpos fuel
        (t.set (.str (keyText k)) (decoded round v)) n (comma (texts ++ byte '\x7d' :: rest)) =
          pure (some (.table (some .object) (object (decodedEntries round entries)
            (t.set (.str (keyText k)) (decoded round v)))), rest) :=
      ihentries ih htexts (by omega)
    have hcomma : comma ((if prev then [byte ','] else []) ++ (quotestring (keyText k) ++
        byte ':' :: (value ++ texts)) ++ byte '\x7d' :: rest) =
        quotestring (keyText k) ++ byte ':' :: (value ++ c :: r) := by
      have htext : (if prev then [byte ','] else []) ++ (quotestring (keyText k) ++
          byte ':' :: (value ++ texts)) ++ byte '\x7d' :: rest =
          (if prev then [byte ','] else []) ++ (quotestring (keyText k) ++
            byte ':' :: (value ++ c :: r)) := by
        rw [← hc]
        simp only [List.append_assoc, List.cons_append]
      have hne : byte '"' ≠ byte ',' := by decide
      rw [htext]
      cases prev
      · rw [if_neg Bool.false_ne_true, List.nil_append, hquote, List.cons_append, comma, if_neg hne]
      · rw [if_pos rfl, List.singleton_append, comma, if_pos rfl]
    have hlen : 0 < (quotestring (keyText k)).length := by
      rw [hquote]
      exact Nat.succ_pos _
    have hfuel' : fuel - 1 + 1 = fuel := by omega
    have hopen : byte '"' ≠ JsonType.object.closechar := by decide
    rw [hfuel'] at hkey
    rw [hcomma, scantable, hquote, List.cons_append,
      scanwhite_of_ne (by decide) (by decide)]
    dsimp only
    rw [if_neg hopen, ← List.cons_append, ← hquote, hkey, pure_bind]
    dsimp only
    rw [hcolon]
    dsimp only
    rw [if_pos rfl, hs, List.cons_append, scanwhite_of_ne hspace hbom]
    dsimp only
    rw [← List.cons_append, ← hs, hval, pure_bind]
    dsimp only
    rw [hwhite]
    dsimp only
    rw [← hc, hnext]
    rfl

/-- The first pair has no comma before it. -/
theorem comma_pairs {entries : Entries} {text rest : Bytes}
    (h : pairs false (encodeEntries entries) = .ok text) :
    comma (text ++ byte '\x7d' :: rest) = text ++ byte '\x7d' :: rest := by
  have hclose : byte '\x7d' ≠ byte ',' := by decide
  have hquote : byte '"' ≠ byte ',' := by decide
  cases entries with
  | nil =>
    obtain rfl := Except.ok.inj h
    rw [List.nil_append, comma, if_neg hclose]
  | cons e entries =>
    obtain ⟨value, texts, -, -, rfl⟩ := pairs_cons h
    obtain ⟨body, hbody, -⟩ := scanstring_quotestring (keyText e.1) []
    rw [if_neg Bool.false_ne_true, List.nil_append, hbody]
    simp only [List.cons_append]
    rw [comma, if_neg hquote]

/-! ## Round trip -/

/-- Whatever is encoded is decoded. -/
theorem decodes (v : Val) : Decodes round v := by
  induction v using Val.induction with
  | bool b =>
    intro text htext str rest fuel hrest hfuel
    obtain rfl := Except.ok.inj htext
    obtain ⟨fuel, rfl⟩ := Nat.exists_eq_add_of_le' (Nat.le_of_add_left_le hfuel)
    cases b
    · exact scanvalue_name hrest (.inr (.inl rfl))
    · exact scanvalue_name hrest (.inl rfl)
  | num n =>
    intro text htext str rest fuel hrest hfuel
    cases n with
    | finite n =>
      obtain rfl := Except.ok.inj htext
      obtain ⟨fuel, rfl⟩ := Nat.exists_eq_add_of_le' (Nat.le_of_add_left_le hfuel)
      exact scanvalue_tostring hrest n
    | huge | nan =>
      obtain rfl := Except.ok.inj htext
      exact scanvalue_null hrest hfuel
  | null =>
    intro text htext str rest fuel hrest hfuel
    obtain rfl := Except.ok.inj htext
    exact scanvalue_null hrest hfuel
  | str s =>
    intro text htext str rest fuel hrest hfuel
    obtain rfl := Except.ok.inj htext
    obtain ⟨fuel, rfl⟩ := Nat.exists_eq_add_of_le' (Nat.le_of_add_left_le hfuel)
    exact scanvalue_quotestring rest s
  | table jsontype entries ih =>
    intro text htext str rest fuel hrest hfuel
    obtain ⟨fuel, rfl⟩ := Nat.exists_eq_add_of_le' (Nat.le_of_add_left_le hfuel)
    rw [decoded]
    obtain ⟨hobject, t, ht, rfl⟩ | ⟨hobject, n, hn, t, ht, rfl⟩ := encode_table htext
    · simp only [List.length_append, List.length_cons, List.length_nil] at hfuel
      have hpairs : scantable round str .object
          (position str (byte '\x7b' :: (t ++ byte '\x7d' :: rest))) fuel [] 0 (comma (t ++ byte '\x7d' :: rest)) =
            pure (some (.table (some .object) (object (decodedEntries round entries) [])), rest) :=
        scantable_pairs ih ht (by omega)
      rw [comma_pairs ht] at hpairs
      rw [if_pos hobject, ← hpairs, List.append_assoc, List.cons_append,
        scanvalue_of_begins (by decide), if_pos rfl]
      rfl
    · simp only [List.length_append, List.length_cons, List.length_nil] at hfuel
      have hne : byte '[' ≠ byte '\x7b' := by decide
      have hle : 0 < ⌊n⌋₊ → ((0 + ⌊n⌋₊ : ℕ) : ℚ) ≤ n := fun hpos => by
        rw [Nat.zero_add]
        exact Nat.floor_le (Nat.pos_of_floor_pos hpos).le
      have helements : scantable round str .array
          (position str (byte '[' :: (t ++ byte ']' :: rest))) fuel [] 0 (t ++ byte ']' :: rest) =
            pure (some (.table (some .array) (array (decodedEntries round entries) []
              (List.range' 1 ⌊n⌋₊))), rest) :=
        scantable_elements ih ht hle (by omega)
      rw [if_neg hobject, hn]
      dsimp only
      rw [← helements, List.append_assoc, List.cons_append,
        scanvalue_of_begins (by decide), if_neg hne, if_pos rfl]
      rfl

/-- The whole text is read. -/
theorem Decodes.decode {v : Val} {text : Bytes} (hv : Decodes round v) (h : encode v = .ok text) :
    decode round text = pure (decoded round v, text.length + 1) := by
  have hstops : Stops [] := by simp [Stops]
  have hscan : scanvalue round text (2 * text.length + 2) (text ++ []) =
      pure (decoded round v, []) :=
    hv h hstops (by omega)
  rw [List.append_nil] at hscan
  rw [Json.decode, hscan, pure_bind]
  rfl

/-- What `json.encode` writes, `json.decode` reads, however it rounds the numbers. -/
theorem decode_encode (round : ℚ → Number) {v : Option Val} {text : Bytes}
    (h : encodeValue v = .ok text) :
    decode round text = pure (v.bind (decoded round), text.length + 1) := by
  cases v with
  | none =>
    obtain rfl := Except.ok.inj h
    exact Decodes.decode (decodes .null) rfl
  | some v => exact Decodes.decode (decodes v) h

/-- An array with a hole and one that `json.null` makes, in an object with an infinity. -/
def holed : Val :=
  .table none [(.str (bytes "a\"b"), .table none [(.num (1 : ℕ), .bool true), (.num (3 : ℕ), .null),
    (.num (4 : ℕ), .str [10])]), (.num (.huge false), .num (.huge true))]

theorem decode_encode_holed :
    let text := bytes "\x7b\"a\\\"b\":[true,null,null,\"\\n\"],\"inf\":null\x7d"
    decode .finite text = pure (decoded .finite holed, text.length + 1) :=
  have h : encodeValue holed =
      .ok (bytes "\x7b\"a\\\"b\":[true,null,null,\"\\n\"],\"inf\":null\x7d") := by
    decide +kernel
  decode_encode .finite h

end Mistress.Json
