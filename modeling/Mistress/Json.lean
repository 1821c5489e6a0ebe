import Mistress.Chunks
import Mathlib.Data.Int.Log
import Mathlib.Data.Rat.Floor

/-!
# JSON

The module `dkjson`, with which the launcher writes its statistics: `json.encode` of a value
without options, and `json.decode`, without `lpeg`.

A position in the text is what is left of the text from there on.

A finite number is a rational, and is written with fourteen significant digits (`tostring`); the
infinities and NaN are written as `null`, as is `nil` (`encodeValue`). Which number of Lua
`tonumber` makes of the one a text gives, is left to a function `round` that the scanners take: the
nearest one, or an infinity where that is too great. The zero with a sign is the one without.

Metatables tell arrays from objects. The only one with a `__tojson` is that of `json.null`, and
none has a `__jsonorder`.
-/

open LuaStack

namespace Mistress

open HttpParser (byte bytes)

namespace Json

/-! ## Values -/

/-- A number: a finite one, an infinity, which may be negative, or NaN. -/
inductive Number
  | finite (q : ℚ)
  | huge (neg : Bool)
  | nan
  deriving DecidableEq

namespace Number

instance : Coe ℚ Number := ⟨.finite⟩

instance : NatCast Number := ⟨fun n => .finite n⟩

/-- `==`: NaN is not even equal to itself. -/
def eq (x y : Number) : Bool := x = y && x ≠ .nan

/-- `<` -/
def lt : Number → Number → Bool
  | .finite p, .finite q => p < q
  | .finite _, .huge neg => !neg
  | .huge neg, .finite _ => neg
  | .huge neg, .huge neg' => neg && !neg'
  | _, _ => false

/-- `floor` -/
def floor : Number → Number
  | .finite q => .finite ⌊q⌋
  | x => x

end Number

/-- `__jsontype` -/
inductive JsonType
  | array
  | object
  deriving DecidableEq

/-- A value; `nil` is none. A table has the type its metatable gives, and its entries in the order
    of `pairs`. `json.null` is a table as well, whose metatable has a `__tojson`. -/
inductive Val
  | bool (b : Bool)
  | num (n : Number)
  | str (s : Bytes)
  | null
  | table (jsontype : Option JsonType) (entries : List (Val × Val))

/-- The entries of a table. -/
abbrev Entries : Type := List (Val × Val)

namespace Val

/-- `type` -/
def typeName : Val → String
  | .bool _ => "boolean"
  | .num _ => "number"
  | .str _ => "string"
  | .null => "table"
  | .table _ _ => "table"

/-- Whether two keys are equal. A table that is made anew is no other one. -/
def sameKey : Val → Val → Bool
  | .bool b, .bool b' => b = b'
  | .num n, .num n' => n.eq n'
  | .str s, .str s' => s = s'
  | .null, .null => true
  | _, _ => false

end Val

namespace Entries

/-- `tbl[k]` -/
def get (tbl : Entries) (k : Val) : Option Val := (tbl.find? fun e => e.1.sameKey k).map (·.2)

/-- `tbl[k] = v` -/
def set (tbl : Entries) (k : Val) : Option Val → Entries
  | some v =>
    if tbl.any fun e => e.1.sameKey k then tbl.map fun e => if e.1.sameKey k then (e.1, v) else e
    else tbl ++ [(k, v)]
  | none => tbl.filter fun e => !e.1.sameKey k

end Entries

/-! ## Numbers -/

/-- The nearest integer, the even one of two. -/
def roundEven (q : ℚ) : ℕ :=
  let n := ⌊q⌋₊
  if q - n < 1 / 2 then n else if 1 / 2 < q - n then n + 1 else if n % 2 = 0 then n else n + 1

/-- The fourteen significant digits of a number, and the exponent of the first. -/
def significant (q : ℚ) : ℕ × ℤ :=
  let x := Int.log 10 |q|
  let m := roundEven (|q| / 10 ^ (x - 13))
  if m = 10 ^ 14 then (10 ^ 13, x + 1) else (m, x)

/-- Digits without the zeros at the end. -/
def strip (ds : List Char) : List Char := ds.rdropWhile (· = '0')

/-- The digits after the point, if any are left. -/
def fraction (ds : List Char) : List Char := if strip ds = [] then [] else '.' :: strip ds

/-- `%.14g` of a number that is not negative. -/
def formatG (m : ℕ) (x : ℤ) : List Char :=
  let ds := Nat.toDigits 10 m
  if x < -4 ∨ 14 ≤ x then
    let exponent := Nat.toDigits 10 x.natAbs
    ds.take 1 ++ fraction (ds.drop 1) ++ 'e' :: (if x < 0 then '-' else '+') ::
      (if exponent.length < 2 then '0' :: exponent else exponent)
  else if 0 ≤ x then ds.take (x.toNat + 1) ++ fraction (ds.drop (x.toNat + 1))
  else '0' :: '.' :: (List.replicate ((-x).toNat - 1) '0' ++ strip ds)

/-- `tostring`, of a finite number: `%.14g`. -/
def tostring (q : ℚ) : Bytes :=
  if q = 0 then bytes "0"
  else
    let (m, x) := significant q
    ((if q < 0 then ['-'] else []) ++ formatG m x).map byte

/-- A digit. -/
def isDigit (ch : UInt8) : Bool := HttpParser.isNum ch

/-- The number after the `e`. -/
def exponent : Bytes → Option ℤ
  | [] => some 0
  | e :: s =>
    if e = byte 'e' ∨ e = byte 'E' then
      let (sign, ds) : ℤ × Bytes := match s with
        | ch :: t => if ch = byte '-' then (-1, t) else if ch = byte '+' then (1, t) else (1, s)
        | [] => (1, s)
      if ds ≠ [] ∧ ds.all isDigit then some (sign * HttpParser.decimal ds) else none
    else none

/-- A sign, and what follows it. -/
def sign : Bytes → ℚ × Bytes
  | [] => (1, [])
  | ch :: s => if ch = byte '-' then (-1, s) else (1, ch :: s)

/-- What follows a point, if there is one. -/
def point : Bytes → Option Bytes
  | [] => none
  | ch :: s => if ch = byte '.' then some s else none

/-- The number that a text of digits, points, signs and an `e` gives. -/
def decimalValue (s : Bytes) : Option ℚ :=
  let (sign, s) := sign s
  let int := s.takeWhile isDigit
  let s := s.dropWhile isDigit
  let frac := (point s).elim [] (List.takeWhile isDigit)
  let s := (point s).elim s (List.dropWhile isDigit)
  if int = [] ∧ frac = [] then none
  else (exponent s).map fun e =>
    sign * HttpParser.decimal (int ++ frac) * (10 : ℚ) ^ (e - (frac.length : ℤ))

/-- `tonumber`, of such a text. -/
def tonumber (round : ℚ → Number) (s : Bytes) : Option Number := (decimalValue s).map round

/-! ## Strings -/

/-- `escapecodes` -/
def escapecodes : Bytes → Option Bytes
  | [34] => some (bytes "\\\"")
  | [92] => some (bytes "\\\\")
  | [8] => some (bytes "\\b")
  | [12] => some (bytes "\\f")
  | [10] => some (bytes "\\n")
  | [13] => some (bytes "\\r")
  | [9] => some (bytes "\\t")
  | _ => none

/-- `%.4x` -/
def hex4 (n : ℕ) : Bytes :=
  let ds := Nat.toDigits 16 n
  (List.replicate (4 - ds.length) '0' ++ ds).map byte

/-- `escapeutf8` -/
def escapeutf8 (uchar : Bytes) : Bytes :=
  match escapecodes uchar with
  | some value => value
  | none =>
    let a := (uchar.getD 0 0).toNat
    let b := (uchar.getD 1 0).toNat
    let c := (uchar.getD 2 0).toNat
    let d := (uchar.getD 3 0).toNat
    let value : Option ℕ :=
      if a ≤ 0x7f then some a
      else if 0xc0 ≤ a ∧ a ≤ 0xdf ∧ 0x80 ≤ b then some ((a - 0xc0) * 0x40 + b - 0x80)
      else if 0xe0 ≤ a ∧ a ≤ 0xef ∧ 0x80 ≤ b ∧ 0x80 ≤ c then
        some (((a - 0xe0) * 0x40 + b - 0x80) * 0x40 + c - 0x80)
      else if 0xf0 ≤ a ∧ a ≤ 0xf7 ∧ 0x80 ≤ b ∧ 0x80 ≤ c ∧ 0x80 ≤ d then
        some ((((a - 0xf0) * 0x40 + b - 0x80) * 0x40 + c - 0x80) * 0x40 + d - 0x80)
      else none
    match value with
    | none => []
    | some value =>
      if value ≤ 0xffff then bytes "\\u" ++ hex4 value
      else if value ≤ 0x10ffff then
        let value := value - 0x10000
        bytes "\\u" ++ hex4 (0xD800 + value / 0x400) ++ bytes "\\u" ++
          hex4 (0xDC00 + value % 0x400)
      else []

/-- A pattern of single bytes. -/
abbrev BytePattern : Type := List (UInt8 → Bool)

/-- The pattern matches at the beginning. -/
def begins : BytePattern → Bytes → Bool
  | [], _ => true
  | _ :: _, [] => false
  | p :: pat, ch :: s => p ch && begins pat s

/-- `gsub`, at most `skip` bytes of a match still to be passed over. -/
def gsub (pat : BytePattern) (repl : Bytes → Bytes) : ℕ → Bytes → Bytes
  | _, [] => []
  | skip + 1, _ :: s => gsub pat repl skip s
  | 0, ch :: s =>
    if begins pat (ch :: s) then
      repl ((ch :: s).take pat.length) ++ gsub pat repl (pat.length - 1) s
    else ch :: gsub pat repl 0 s

/-- `strfind` -/
def find (pat : BytePattern) (s : Bytes) : Bool := s.tails.any (begins pat)

/-- `fsub` -/
def fsub (str : Bytes) (pat : BytePattern) (repl : Bytes → Bytes) : Bytes :=
  if find pat str then gsub pat repl 0 str else str

/-- The bytes from `a` to `b`. -/
def range (a b : UInt8) (ch : UInt8) : Bool := a ≤ ch && ch ≤ b

/-- `[%z\1-\31\"\\\127]` -/
def control : UInt8 → Bool := fun ch => ch = 0 || range 1 31 ch || ch = 34 || ch = 92 || ch = 127

/-- The characters of more than one byte that are escaped. -/
def unsafes : List BytePattern := [
  [(· = 194), fun ch => range 128 159 ch || ch = 173],
  [(· = 216), range 128 132],
  [(· = 220), (· = 143)],
  [(· = 225), (· = 158), fun ch => ch = 180 || ch = 181],
  [(· = 226), (· = 128), fun ch => range 140 143 ch || ch = 168 || ch = 175],
  [(· = 226), (· = 129), range 160 175],
  [(· = 239), (· = 187), (· = 191)],
  [(· = 239), (· = 191), fun ch => ch = 176 || ch = 191]]

/-- `quotestring` -/
def quotestring (value : Bytes) : Bytes :=
  let value := fsub value [control] escapeutf8
  let value :=
    if value.any fun ch => ch ∈ [194, 216, 220, 225, 226, 239] then
      unsafes.foldl (fun value pat => fsub value pat escapeutf8) value
    else value
  byte '"' :: value ++ [byte '"']

/-! ## Encoding -/

/-- An entry in the loop of `isarray`, of the maximum, the number of elements and the length. -/
def isarrayStep : Number × ℕ × Number → Val × Val → Option (Number × ℕ × Number)
  | (max, n, _), (.str [110], .num v) => some (if max.lt v then v else max, n, v)
  | (max, n, arraylen), (.num k, _) =>
    if k.lt (.finite 1) ∨ k.floor.eq k = false then none
    else some (if max.lt k then k else max, n + 1, arraylen)
  | _, _ => none

/-- `isarray`: the number of elements, if the table is an array. -/
def isarray (tbl : Entries) : Option Number :=
  (tbl.foldlM isarrayStep (.finite 0, 0, .finite 0)).bind fun (max, n, arraylen) =>
    if Number.lt (.finite 10) max ∧ arraylen.lt max ∧ Number.lt (.finite (n * 2)) max then none
    else some max

/-- A text, or the message of an error. -/
abbrev Encoded : Type := Except String Bytes

/-- The texts of the elements with these indices, of an array of `n` elements. -/
def elements (tbl : List (Val × Encoded)) (n : ℚ) : List ℕ → Encoded
  | [] => .ok []
  | i :: is => do
    let value ← ((tbl.find? fun e => e.1.sameKey (.num i)).map (·.2)).getD (.ok (bytes "null"))
    return value ++ (if i < n then [byte ','] else []) ++ (← elements tbl n is)

/-- A key as a text: a number that is a key is no NaN. -/
def keyText : Val → Bytes
  | .str s => s
  | .num (.finite n) => tostring n
  | .num (.huge neg) => bytes (if neg then "-inf" else "inf")
  | _ => []

/-- The key in `addpair`. -/
def encodeKey : Val → Encoded
  | .str s => .ok (quotestring (keyText (.str s)))
  | .num n => .ok (quotestring (keyText (.num n)))
  | key => .error ("type '" ++ key.typeName ++ "' is not supported as a key by JSON.")

/-- The texts of the pairs of an object, a comma before the first if `prev`. -/
def pairs (prev : Bool) : List (Val × Encoded) → Encoded
  | [] => .ok []
  | (k, value) :: tbl => do
    let key ← encodeKey k
    return (if prev then [byte ','] else []) ++ key ++ byte ':' :: (← value) ++ (← pairs true tbl)

/-- The greatest of the finite indices. -/
def lastIndex : Entries → ℕ
  | [] => 0
  | (.num (.finite k), _) :: tbl => max ⌊k⌋₊ (lastIndex tbl)
  | _ :: tbl => lastIndex tbl

/-- A table is written as an object. -/
abbrev isObject (jsontype : Option JsonType) (entries : Entries) : Prop :=
  isarray entries = some (.finite 0) ∧ jsontype = some .object ∨ isarray entries = none

mutual

/-- `encode2` -/
def encode : Val → Encoded
  | .bool b => .ok (bytes (if b then "true" else "false"))
  | .num (.finite n) => .ok (tostring n)
  | .num _ => .ok (bytes "null")
  | .str s => .ok (quotestring s)
  | .null => .ok (bytes "null")
  | .table jsontype entries => do
    let tbl := encodeEntries entries
    if isObject jsontype entries then return byte '\x7b' :: (← pairs false tbl) ++ [byte '\x7d']
    else match isarray entries with
      | some (.finite n) =>
        return byte '[' :: (← elements tbl n (List.range' 1 ⌊n⌋₊)) ++ [byte ']']
      -- An infinity, under `n` or as a key: after the last element the loop goes on until there
      -- is no memory left.
      | _ => do
        let _ ← elements tbl (lastIndex entries) (List.range' 1 (lastIndex entries))
        throw "not enough memory"

/-- The entries of a table, with the texts of their values. -/
def encodeEntries : Entries → List (Val × Encoded)
  | [] => []
  | (k, v) :: entries => (k, encode v) :: encodeEntries entries

end

/-- `json.encode`, of a value or of `nil`. -/
def encodeValue : Option Val → Encoded
  | none => .ok (bytes "null")
  | some v => encode v

/-! ## Decoding -/

/-- The position after `str` where `rest` is left. -/
def position (str rest : Bytes) : ℕ := str.length + 1 - rest.length

/-- `loc` -/
def loc (str : Bytes) (pos : ℕ) : String :=
  let before := str.take (pos - 1)
  let column := (before.rtakeWhile (· ≠ 10)).length + 1
  "line " ++ toString (before.count 10 + 1) ++ ", column " ++ toString column

/-- What scans a text: it may fail, with a position and a message, or not come to its end. -/
abbrev Scan (α : Type) : Type := ExceptT (ℕ × String) Option α

/-- `unterminated` -/
def unterminated {α : Type} (str : Bytes) (what : String) (pos : ℕ) : Scan α :=
  throw (str.length + 1, "unterminated " ++ what ++ " at " ++ loc str pos)

/-- `%s` -/
def isSpace (ch : UInt8) : Bool := ch = 32 || range 9 13 ch

/-- `scanwhite` -/
def scanwhite : Bytes → Bytes
  | [] => []
  | ch :: s =>
    if isSpace ch then scanwhite s
    else match s with
      | b :: c :: t => if ch = 239 ∧ b = 187 ∧ c = 191 then scanwhite t else ch :: s
      | _ => ch :: s

/-- A hexadecimal digit. -/
def isHex (ch : UInt8) : Bool := (HttpParser.hexDigit ch).isSome

/-- `tonumber (s, 16)`, which is `strtoul`. -/
def strtoul (s : Bytes) : Option ℕ :=
  let s := (s.takeWhile (· ≠ 0)).dropWhile isSpace
  let (neg, s) : Bool × Bytes := match s with
    | ch :: t =>
      if ch = byte '-' then (true, t) else if ch = byte '+' then (false, t) else (false, s)
    | [] => (false, s)
  let s := match s with
    | 48 :: x :: d :: t => if (x = byte 'x' ∨ x = byte 'X') ∧ isHex d then d :: t else s
    | _ => s
  let ds := s.takeWhile isHex
  if ds = [] ∨ (s.dropWhile isHex).dropWhile isSpace ≠ [] then none
  else
    let n := hexadecimal ds
    some (if neg ∧ n ≠ 0 then 2 ^ 64 - n else n)

/-- `unichar` -/
def unichar (value : ℕ) : Option Bytes :=
  if value ≤ 0x7f then some [value.toUInt8]
  else if value ≤ 0x7ff then some [(0xc0 + value / 0x40).toUInt8, (0x80 + value % 0x40).toUInt8]
  else if value ≤ 0xffff then
    some [(0xe0 + value / 0x1000).toUInt8, (0x80 + value / 0x40 % 0x40).toUInt8,
      (0x80 + value % 0x40).toUInt8]
  else if value ≤ 0x10ffff then
    some [(0xf0 + value / 0x40000).toUInt8, (0x80 + value / 0x1000 % 0x40).toUInt8,
      (0x80 + value / 0x40 % 0x40).toUInt8, (0x80 + value % 0x40).toUInt8]
  else none

/-- `escapechars` -/
def escapechars (escchar : Bytes) : Bytes :=
  match escchar with
  | [ch] =>
    if ch = byte 'b' then [8]
    else if ch = byte 'f' then [12]
    else if ch = byte 'n' then [10]
    else if ch = byte 'r' then [13]
    else if ch = byte 't' then [9]
    else escchar
  | _ => escchar

/-- The low surrogate that follows a high one. -/
def lowSurrogate (s : Bytes) : Option ℕ :=
  if s.take 2 = bytes "\\u" then
    (strtoul ((s.drop 2).take 4)).filter fun value => 0xDC00 ≤ value ∧ value ≤ 0xDFFF
  else none

/-- What an escape after a backslash stands for, and its length. -/
def unescape (s : Bytes) : Bytes × ℕ :=
  let plain := (escapechars (s.take 1), 1)
  if s.take 1 = bytes "u" then
    match strtoul ((s.drop 1).take 4) with
    | none => plain
    | some value =>
      let low := if 0xD800 ≤ value ∧ value ≤ 0xDBff then lowSurrogate (s.drop 5) else none
      match low with
      | some low => ((unichar ((value - 0xD800) * 0x400 + (low - 0xDC00) + 0x10000)).getD [], 11)
      | none => (unichar value).elim plain fun value => (value, 5)
  else plain

/-- `scanstring`, after the first quote, `skip` bytes of an escape still to be passed over. -/
def scanstring : ℕ → Bytes → Option (Bytes × Bytes)
  | _, [] => none
  | skip + 1, _ :: s => scanstring skip s
  | 0, ch :: s =>
    if ch = byte '"' then some ([], s)
    else if ch = byte '\\' then
      (scanstring (unescape s).2 s).map fun r => ((unescape s).1 ++ r.1, r.2)
    else (scanstring 0 s).map fun r => (ch :: r.1, r.2)

/-- A byte that may be missing. -/
def optional (p : UInt8 → Bool) : Bytes → Bytes × Bytes
  | [] => ([], [])
  | ch :: s => if p ch then ([ch], s) else ([], ch :: s)

/-- `[%d%.]` -/
def isMantissa (ch : UInt8) : Bool := isDigit ch || ch = byte '.'

/-- `[eE]` -/
def isE (ch : UInt8) : Bool := ch = byte 'e' || ch = byte 'E'

/-- `[%+%-]` -/
def isPlus (ch : UInt8) : Bool := ch = byte '+' || ch = byte '-'

/-- `^%-?[%d%.]+[eE]?[%+%-]?%d*`: what matches, and what is left. -/
def scannumber (s : Bytes) : Option (Bytes × Bytes) :=
  let (minus, s) := optional (· = byte '-') s
  let mantissa := s.takeWhile isMantissa
  let (e, s) := optional isE (s.dropWhile isMantissa)
  let (plus, s) := optional isPlus s
  if mantissa = [] then none
  else some (minus ++ mantissa ++ e ++ plus ++ s.takeWhile isDigit, s.dropWhile isDigit)

/-- A letter. -/
def isAlpha (ch : UInt8) : Bool := range 65 90 ch || range 97 122 ch

/-- `^%a%w*`: what matches, and what is left. -/
def scanname (s : Bytes) : Option (Bytes × Bytes) :=
  match s with
  | [] => none
  | ch :: _ =>
    if isAlpha ch then
      some (s.takeWhile fun ch => isAlpha ch || isDigit ch,
        s.dropWhile fun ch => isAlpha ch || isDigit ch)
    else none

variable (round : ℚ → Number)

/-- A number or a name. -/
def scanatom (str s : Bytes) : Scan (Option Val × Bytes) :=
  match (scannumber s).bind fun r => (tonumber round r.1).map fun n => (n, r.2) with
  | some (n, rest) => pure (some (.num n), rest)
  | none =>
    let bad : Scan (Option Val × Bytes) := throw (position str s,
      "no valid JSON value at " ++ loc str (position str s))
    match scanname s with
    | none => bad
    | some (name, rest) =>
      if name = bytes "true" then pure (some (.bool true), rest)
      else if name = bytes "false" then pure (some (.bool false), rest)
      else if name = bytes "null" then pure (none, rest)
      else bad

/-- The comma after a value, if there is one. -/
def comma : Bytes → Bytes
  | [] => []
  | ch :: s => if ch = byte ',' then s else ch :: s

/-- The name of a type. -/
def JsonType.what : JsonType → String
  | .array => "array"
  | .object => "object"

/-- The end of a table. -/
def JsonType.closechar : JsonType → UInt8
  | .array => byte ']'
  | .object => byte '\x7d'

mutual

/-- `scanvalue`, within so many calls. -/
def scanvalue (str : Bytes) : ℕ → Bytes → Scan (Option Val × Bytes)
  | 0, _ => ExceptT.mk none
  | fuel + 1, rest =>
    match scanwhite rest with
    | [] => throw (str.length + 1, "no valid JSON value (reached the end)")
    | ch :: s =>
      let pos := position str (ch :: s)
      if ch = byte '\x7b' then scantable str .object pos fuel [] 0 s
      else if ch = byte '[' then scantable str .array pos fuel [] 0 s
      else if ch = byte '"' then
        match scanstring 0 s with
        | some (value, rest) => pure (some (.str value), rest)
        | none => unterminated str "string" pos
      else scanatom round str (ch :: s)

/-- The loop of `scantable`, with `n` elements of an array in the table. -/
def scantable (str : Bytes) (what : JsonType) (startpos : ℕ) :
    ℕ → Entries → ℕ → Bytes → Scan (Option Val × Bytes)
  | 0, _, _, _ => ExceptT.mk none
  | fuel + 1, tbl, n, rest =>
    match scanwhite rest with
    | [] => unterminated str what.what startpos
    | ch :: s =>
      if ch = what.closechar then pure (some (.table (some what) tbl), s)
      else do
        let (val1, rest) ← scanvalue str fuel (ch :: s)
        match scanwhite rest with
        | [] => unterminated str what.what startpos
        | ch :: s =>
          if ch = byte ':' then
            match val1 with
            | none => throw (position str (ch :: s),
                "cannot use nil as table index (at " ++ loc str (position str (ch :: s)) ++ ")")
            | some val1 =>
              match scanwhite s with
              | [] => unterminated str what.what startpos
              | ch :: s => do
                let (val2, rest) ← scanvalue str fuel (ch :: s)
                match scanwhite rest with
                | [] => unterminated str what.what startpos
                | ch :: s =>
                  scantable str what startpos fuel (tbl.set val1 val2) n (comma (ch :: s))
          else
            scantable str what startpos fuel (tbl.set (.num (n + 1 : ℕ)) val1) (n + 1)
              (comma (ch :: s))

end

/-- `json.decode`: the value, and the position after it. -/
def decode (str : Bytes) : Scan (Option Val × ℕ) := do
  let (value, rest) ← scanvalue round str (2 * str.length + 2) str
  return (value, position str rest)

end Json

end Mistress
