import Mistress.Json

/-!
# Numbers in JSON

What `tostring` writes, `tonumber` reads: the number that fourteen significant digits are rounded
to (`tonumber_tostring`), however the text goes on that follows it (`scannumber_tostring`).
-/

open LuaStack

namespace Mistress.Json

open HttpParser (byte bytes decimal decimal_digits)

/-! ## Fourteen digits -/

theorem roundEven_le {q : ℚ} (hq : 0 ≤ q) {n : ℕ} (h : q ≤ n) : roundEven q ≤ n := by
  have hfloor : ⌊q⌋₊ ≤ n := Nat.floor_le_of_le h
  have hle : (⌊q⌋₊ : ℚ) ≤ q := Nat.floor_le hq
  have hlt (hne : (⌊q⌋₊ : ℚ) < q) : ⌊q⌋₊ + 1 ≤ n := by
    have : (⌊q⌋₊ : ℚ) < n := hne.trans_le h
    exact_mod_cast this
  unfold roundEven
  dsimp only
  split_ifs
  · exact hfloor
  · exact hlt (by linarith)
  · exact hfloor
  · exact hlt (by linarith)

theorem le_roundEven {q : ℚ} {n : ℕ} (h : n ≤ q) : n ≤ roundEven q := by
  have hfloor : n ≤ ⌊q⌋₊ := Nat.le_floor h
  unfold roundEven
  dsimp only
  split_ifs <;> omega

/-- The digits are fourteen. -/
theorem significant_bounds {q : ℚ} (hq : q ≠ 0) :
    10 ^ 13 ≤ (significant q).1 ∧ (significant q).1 < 10 ^ 14 := by
  have hpos : 0 < |q| := abs_pos.2 hq
  have hpow (n : ℕ) (k : ℤ) : (10 : ℚ) ^ (k + n - 13) = 10 ^ (k - 13) * 10 ^ n := by
    rw [← zpow_natCast, ← zpow_add₀ (by norm_num)]
    congr 1
    omega
  let x := Int.log 10 |q|
  have hx : (0 : ℚ) < 10 ^ (x - 13) := zpow_pos (by norm_num) _
  have hle : (10 : ℚ) ^ 13 ≤ |q| / 10 ^ (x - 13) := by
    rw [le_div_iff₀ hx, mul_comm, ← hpow]
    simpa using Int.zpow_log_le_self (b := 10) (by norm_num) hpos
  have hlt : |q| / 10 ^ (x - 13) ≤ 10 ^ 14 := by
    rw [div_le_iff₀ hx, mul_comm, ← hpow]
    have h := Int.lt_zpow_succ_log_self (b := 10) (by norm_num) |q|
    have hexp : x + (14 : ℕ) - 13 = Int.log 10 |q| + 1 := by
      simp only [x]
      omega
    rw [hexp]
    exact_mod_cast h.le
  have hm : 10 ^ 13 ≤ roundEven (|q| / 10 ^ (x - 13)) := le_roundEven (by exact_mod_cast hle)
  have hm' : roundEven (|q| / 10 ^ (x - 13)) ≤ 10 ^ 14 :=
    roundEven_le (div_nonneg (abs_nonneg q) hx.le) (by exact_mod_cast hlt)
  unfold significant
  dsimp only
  split
  · norm_num
  · exact ⟨hm, lt_of_le_of_ne hm' ‹_›⟩

/-- A number, with fourteen significant digits. -/
def shown (q : ℚ) : ℚ :=
  if q = 0 then 0
  else (if q < 0 then -1 else 1) * (significant q).1 * (10 : ℚ) ^ ((significant q).2 - 13)

/-- The digits, as characters. -/
theorem length_digits {m : ℕ} (h : 10 ^ 13 ≤ m) (h' : m < 10 ^ 14) :
    (Nat.toDigits 10 m).length = 14 := by
  have hle := (Nat.length_toDigits_le_iff (n := m) (k := 14) (by norm_num) (by norm_num)).2 h'
  have hnot := mt (Nat.length_toDigits_le_iff (n := m) (k := 13) (by norm_num) (by norm_num)).1
    (Nat.not_lt.2 h)
  omega

/-! ## Digits without the zeros at the end -/

theorem strip_append (ds : List Char) :
    ∃ k, ds = strip ds ++ List.replicate k '0' ∧ ds.length = (strip ds).length + k := by
  have hzeros : ∀ c ∈ ds.rtakeWhile (· = '0'), c = '0' := fun c hc => by
    simpa using List.mem_rtakeWhile_imp hc
  refine ⟨(ds.rtakeWhile (· = '0')).length, ?_, ?_⟩
  · rw [← List.eq_replicate_of_mem hzeros]
    exact List.rdropWhile_append_rtakeWhile.symm
  · rw [strip, ← List.length_append, List.rdropWhile_append_rtakeWhile]

/-- What the digits make, with the power of ten the zeros stand for. -/
theorem ofDigitChars_strip (ds fs : List Char) :
    (Nat.ofDigitChars 10 (ds ++ strip fs) 0 : ℚ) * 10 ^ (-(strip fs).length : ℤ) =
      Nat.ofDigitChars 10 (ds ++ fs) 0 * 10 ^ (-fs.length : ℤ) := by
  obtain ⟨k, hk, hlen⟩ := strip_append fs
  conv_rhs => rw [hk, ← List.append_assoc, Nat.ofDigitChars_append, Nat.ofDigitChars_replicate_zero]
  rw [← hk, hlen]
  push_cast
  rw [neg_add, zpow_add₀ (by norm_num), zpow_neg (10 : ℚ) (k : ℤ), zpow_natCast]
  field_simp

/-! ## The text of a number -/

/-- The text of a number that is not negative: its digits before and after the point, and the
    exponent. -/
structure Numeral where
  int : List Char
  frac : List Char
  exp : List Char
  e : ℤ
  int_ne_nil : int ≠ []
  int_digits : ∀ c ∈ int, c.isDigit = true
  frac_digits : ∀ c ∈ frac, c.isDigit = true
  exponent_eq : exponent (exp.map byte) = some e

namespace Numeral

def text (n : Numeral) : List Char :=
  n.int ++ (if n.frac = [] then [] else '.' :: n.frac) ++ n.exp

def value (n : Numeral) : ℚ :=
  Nat.ofDigitChars 10 (n.int ++ n.frac) 0 * 10 ^ (n.e - n.frac.length)

end Numeral

theorem digits_toDigits (m : ℕ) : ∀ c ∈ Nat.toDigits 10 m, c.isDigit = true := fun _ hc =>
  Nat.isDigit_of_mem_toDigits (by decide) (by decide) hc

theorem strip_digits {ds : List Char} (h : ∀ c ∈ ds, c.isDigit = true) :
    ∀ c ∈ strip ds, c.isDigit = true := fun c hc =>
  h c ((List.rdropWhile_prefix _ ds).subset hc)

/-- The exponent, as it is written. -/
theorem exponent_text (x : ℤ) : exponent (('e' :: (if x < 0 then '-' else '+') ::
    (if (Nat.toDigits 10 x.natAbs).length < 2 then '0' :: Nat.toDigits 10 x.natAbs
      else Nat.toDigits 10 x.natAbs)).map byte) = some x := by
  let ds := if (Nat.toDigits 10 x.natAbs).length < 2 then '0' :: Nat.toDigits 10 x.natAbs
    else Nat.toDigits 10 x.natAbs
  have hds : (∀ c ∈ ds, c.isDigit = true) ∧ Nat.ofDigitChars 10 ds 0 = x.natAbs ∧ ds ≠ [] := by
    have hdigits := digits_toDigits x.natAbs
    simp only [ds]
    split
    · refine ⟨List.forall_mem_cons.2 ⟨rfl, hdigits⟩, ?_, by simp⟩
      rw [Nat.ofDigitChars_cons]
      exact Nat.ofDigitChars_ten_toDigits
    · exact ⟨hdigits, Nat.ofDigitChars_ten_toDigits, Nat.toDigits_ne_nil⟩
  obtain ⟨hdigits, hvalue, hne⟩ := hds
  obtain ⟨hnum, hdecimal⟩ := decimal_digits ds hdigits
  have hall : (ds.map byte ≠ [] ∧ (ds.map byte).all isDigit = true) :=
    ⟨by simpa using hne, List.all_eq_true.2 hnum⟩
  change exponent (byte 'e' :: byte (if x < 0 then '-' else '+') :: ds.map byte) = some x
  by_cases hx : x < 0
  · have hplus : byte '-' ≠ byte '+' := by decide
    rw [exponent, if_pos (.inl rfl), if_pos hx]
    dsimp only
    rw [if_pos rfl, if_pos hall, hdecimal, hvalue]
    exact congrArg some (by omega)
  · have hminus : byte '+' ≠ byte '-' := by decide
    rw [exponent, if_pos (.inl rfl), if_neg hx]
    dsimp only
    rw [if_neg hminus, if_pos rfl, if_pos hall, hdecimal, hvalue]
    exact congrArg some (by omega)

section Digits

variable {m : ℕ} (h : 10 ^ 13 ≤ m) (h' : m < 10 ^ 14)
include h h'

/-- The digits, with a point after the first `k`. -/
theorem value_split {k : ℕ} (hk : k ≤ 14) :
    (Nat.ofDigitChars 10 ((Nat.toDigits 10 m).take k ++ strip ((Nat.toDigits 10 m).drop k)) 0 : ℚ) *
      10 ^ (-(strip ((Nat.toDigits 10 m).drop k)).length : ℤ) = m * 10 ^ (k - 14 : ℤ) := by
  rw [ofDigitChars_strip, List.take_append_drop, Nat.ofDigitChars_ten_toDigits, List.length_drop,
    length_digits h h']
  push_cast [Nat.cast_sub hk]
  rw [neg_sub]

/-- A numeral whose first `k` digits stand before the point. -/
theorem exists_split {k : ℕ} (hpos : 0 < k) (hk : k ≤ 14) {exp : List Char} {e : ℤ}
    (hexp : exponent (exp.map byte) = some e) : ∃ n : Numeral,
      n.text = (Nat.toDigits 10 m).take k ++ fraction ((Nat.toDigits 10 m).drop k) ++ exp ∧
        n.value = m * 10 ^ (e + k - 14) := by
  have hne : (Nat.toDigits 10 m).take k ≠ [] := by
    have hlen := length_digits h h'
    refine List.ne_nil_of_length_pos ?_
    rw [List.length_take]
    omega
  refine ⟨⟨(Nat.toDigits 10 m).take k, strip ((Nat.toDigits 10 m).drop k), exp, e, hne,
    fun c hc => digits_toDigits m c (List.mem_of_mem_take hc),
    strip_digits fun c hc => digits_toDigits m c (List.mem_of_mem_drop hc), hexp⟩, rfl, ?_⟩
  rw [Numeral.value, sub_eq_add_neg, zpow_add₀ (by norm_num), mul_left_comm, value_split h h' hk,
    mul_left_comm, ← zpow_add₀ (by norm_num)]
  refine congrArg (fun y : ℤ => (m : ℚ) * 10 ^ y) ?_
  dsimp only
  omega

/-- `%.14g` writes the digits, as many as there are. -/
theorem exists_numeral (x : ℤ) :
    ∃ n : Numeral, n.text = formatG m x ∧ n.value = m * 10 ^ (x - 13) := by
  have hnil : exponent (([] : List Char).map byte) = some 0 := rfl
  have hpow {y : ℤ} (hy : y = x - 13) : (m : ℚ) * 10 ^ y = m * 10 ^ (x - 13) := by rw [hy]
  unfold formatG
  dsimp only
  by_cases hexp : x < -4 ∨ 14 ≤ x
  · rw [if_pos hexp]
    obtain ⟨n, htext, hvalue⟩ := exists_split h h' one_pos (by norm_num) (exponent_text x)
    exact ⟨n, htext, hvalue.trans (hpow (by omega))⟩
  rw [if_neg hexp]
  by_cases hpos : 0 ≤ x
  · rw [if_pos hpos]
    obtain ⟨n, htext, hvalue⟩ := exists_split h h' (Nat.succ_pos x.toNat) (by omega) hnil
    exact ⟨n, htext.trans (List.append_nil _), hvalue.trans (hpow (by omega))⟩
  · rw [if_neg hpos]
    have hvalue := ofDigitChars_strip [] (Nat.toDigits 10 m)
    rw [List.nil_append, List.nil_append, Nat.ofDigitChars_ten_toDigits, length_digits h h'] at hvalue
    have hne : strip (Nat.toDigits 10 m) ≠ [] := fun hnil => by
      rw [hnil] at hvalue
      have hm : (m : ℚ) * 10 ^ (-(14 : ℕ) : ℤ) = 0 := by simpa using hvalue.symm
      have hm' : (m : ℚ) = 0 := (mul_eq_zero.1 hm).resolve_right (by positivity)
      have : m = 0 := by exact_mod_cast hm'
      omega
    let zeros := List.replicate ((-x).toNat - 1) '0'
    refine ⟨⟨['0'], zeros ++ strip (Nat.toDigits 10 m), [], 0, by simp, by simp, ?_, hnil⟩, ?_, ?_⟩
    · refine List.forall_mem_append.2 ⟨fun c hc => ?_, strip_digits (digits_toDigits m)⟩
      rw [List.eq_of_mem_replicate hc]
      rfl
    · simp [Numeral.text, zeros, hne]
    · have hzeros : Nat.ofDigitChars 10 (['0'] ++ (zeros ++ strip (Nat.toDigits 10 m))) 0 =
          Nat.ofDigitChars 10 (strip (Nat.toDigits 10 m)) 0 := by
        have hzero : Nat.ofDigitChars 10 ['0'] 0 = 0 := rfl
        rw [Nat.ofDigitChars_append, hzero, Nat.ofDigitChars_append, Nat.ofDigitChars_replicate_zero,
          Nat.mul_zero]
      simp only [Numeral.value, hzeros]
      have hlen : ((0 : ℤ) - (zeros ++ strip (Nat.toDigits 10 m)).length) =
          -(strip (Nat.toDigits 10 m)).length + (x + 1) := by
        simp only [zeros, List.length_append, List.length_replicate]
        push_cast
        omega
      rw [hlen, zpow_add₀ (by norm_num), ← mul_assoc, hvalue, mul_assoc, ← zpow_add₀ (by norm_num)]
      exact hpow (by push_cast; omega)

end Digits

/-! ## Reading a number -/

/-- What has the property, up to what has not. -/
theorem span_append {α : Type} {p : α → Bool} {xs : List α} (rest : List α)
    (hxs : ∀ x ∈ xs, p x = true) (hrest : ∀ x ∈ rest.head?, p x = false) :
    (xs ++ rest).takeWhile p = xs ∧ (xs ++ rest).dropWhile p = rest := by
  rw [List.takeWhile_append_of_pos hxs, List.dropWhile_append_of_pos hxs]
  cases rest with
  | nil => simp
  | cons x rest => simp [hrest x rfl]

/-- The text of an exponent. -/
theorem exponent_cases {s : Bytes} {e : ℤ} (h : exponent s = some e) :
    s = [] ∨ ∃ (ch : UInt8) (plus ds : Bytes), s = ch :: (plus ++ ds) ∧
      (ch = byte 'e' ∨ ch = byte 'E') ∧ (plus = [] ∨ plus = [byte '-'] ∨ plus = [byte '+']) ∧
        ds ≠ [] ∧ ∀ d ∈ ds, isDigit d = true := by
  cases s with
  | nil => exact .inl rfl
  | cons ch s =>
    right
    unfold exponent at h
    dsimp only at h
    by_cases hch : ch = byte 'e' ∨ ch = byte 'E'
    · rw [if_pos hch] at h
      cases s with
      | nil => simp at h
      | cons c t =>
        dsimp only at h
        split_ifs at h with hminus hds hplus hds hds
        · exact ⟨ch, [byte '-'], t, by rw [hminus]; rfl, hch, .inr (.inl rfl), hds.1,
            List.all_eq_true.1 hds.2⟩
        · exact ⟨ch, [byte '+'], t, by rw [hplus]; rfl, hch, .inr (.inr rfl), hds.1,
            List.all_eq_true.1 hds.2⟩
        · exact ⟨ch, [], c :: t, rfl, hch, .inl rfl, hds.1, List.all_eq_true.1 hds.2⟩
    · rw [if_neg hch] at h
      cases h

/-- It is no digit and no point. -/
theorem exponent_head {s : Bytes} {e : ℤ} (h : exponent s = some e) :
    ∀ ch ∈ s.head?, isDigit ch = false ∧ ch ≠ byte '.' := by
  rcases exponent_cases h with rfl | ⟨ch, plus, ds, rfl, hch, -⟩
  · simp
  · rintro ch' hch'
    obtain rfl : ch = ch' := by simpa using hch'
    rcases hch with rfl | rfl <;> decide

namespace Numeral

variable (n : Numeral)

/-- The digits before the point, in bytes. -/
def intBytes : Bytes := n.int.map byte

def fracBytes : Bytes := n.frac.map byte

def expBytes : Bytes := n.exp.map byte

/-- The point and the digits after it, if there are any. -/
def pointBytes : Bytes := if n.fracBytes = [] then [] else byte '.' :: n.fracBytes

theorem map_text : n.text.map byte = n.intBytes ++ (n.pointBytes ++ n.expBytes) := by
  have hpoint : (if n.frac = [] then [] else '.' :: n.frac).map byte = n.pointBytes := by
    unfold pointBytes fracBytes
    by_cases h : n.frac = [] <;> simp [h]
  rw [text, List.map_append, List.map_append, hpoint, List.append_assoc]
  rfl

theorem int_isDigit : ∀ ch ∈ n.intBytes, isDigit ch = true := (decimal_digits n.int n.int_digits).1

theorem frac_isDigit : ∀ ch ∈ n.fracBytes, isDigit ch = true :=
  (decimal_digits n.frac n.frac_digits).1

theorem int_ne : n.intBytes ≠ [] := by
  simpa [intBytes] using n.int_ne_nil

/-- The parts of the text. -/
theorem parts : (n.text.map byte).takeWhile isDigit = n.intBytes ∧
    (n.text.map byte).dropWhile isDigit = n.pointBytes ++ n.expBytes ∧
    (point (n.pointBytes ++ n.expBytes)).elim [] (List.takeWhile isDigit) = n.fracBytes ∧
    (point (n.pointBytes ++ n.expBytes)).elim (n.pointBytes ++ n.expBytes) (List.dropWhile isDigit) =
      n.expBytes := by
  have hexp := exponent_head n.exponent_eq
  by_cases h : n.fracBytes = []
  · have hpoint : n.pointBytes = [] := if_pos h
    have hnone : point n.expBytes = none := by
      unfold expBytes
      cases hs : n.exp.map byte with
      | nil => rfl
      | cons ch s => exact if_neg (hexp ch (by rw [hs]; rfl)).2
    have hspan := span_append n.expBytes n.int_isDigit fun ch hch => (hexp ch hch).1
    rw [map_text, hpoint, List.nil_append, hspan.1, hspan.2, hnone, h]
    exact ⟨rfl, rfl, rfl, rfl⟩
  · have hpoint : n.pointBytes = byte '.' :: n.fracBytes := if_neg h
    have hspan := span_append (byte '.' :: (n.fracBytes ++ n.expBytes)) n.int_isDigit
      (by simpa using (by decide : isDigit (byte '.') = false))
    have hspan' := span_append n.expBytes n.frac_isDigit fun ch hch => (hexp ch hch).1
    have hsome : point (byte '.' :: (n.fracBytes ++ n.expBytes)) =
        some (n.fracBytes ++ n.expBytes) := by
      rw [point, if_pos rfl]
    rw [map_text, hpoint, List.cons_append, hspan.1, hspan.2, hsome]
    exact ⟨rfl, rfl, hspan'.1, hspan'.2⟩

/-- The digits, the exponent and the sign make the number. -/
theorem decimalValue_text : decimalValue (n.text.map byte) = some n.value ∧
    decimalValue (byte '-' :: n.text.map byte) = some (-n.value) := by
  obtain ⟨hint, hdrop, hfrac, hexp⟩ := n.parts
  have hunsigned (s : ℚ) : (if n.intBytes = [] ∧ n.fracBytes = [] then none
      else (exponent n.expBytes).map fun e =>
        s * decimal (n.intBytes ++ n.fracBytes) * (10 : ℚ) ^ (e - (n.fracBytes.length : ℤ))) =
      some (s * n.value) := by
    have hdecimal := (decimal_digits (n.int ++ n.frac)
      (List.forall_mem_append.2 ⟨n.int_digits, n.frac_digits⟩)).2
    rw [List.map_append] at hdecimal
    rw [if_neg fun h => n.int_ne h.1, expBytes, n.exponent_eq, Option.map_some, value, ← mul_assoc]
    simp only [intBytes, fracBytes, hdecimal, List.length_map]
  have hsign : sign (n.text.map byte) = (1, n.text.map byte) := by
    obtain ⟨ch, s, hs⟩ := List.exists_cons_of_ne_nil n.int_ne
    have hdigit := n.int_isDigit ch (by rw [hs]; exact List.mem_cons_self)
    have hne : ch ≠ byte '-' := fun h => by
      rw [h] at hdigit
      exact absurd hdigit (by decide)
    rw [map_text, hs, List.cons_append, sign, if_neg hne]
  constructor
  · rw [decimalValue, hsign]
    dsimp only
    rw [hint, hdrop, hfrac, hexp, hunsigned, one_mul]
  · have hminus : sign (byte '-' :: n.text.map byte) = (-1, n.text.map byte) := by
      rw [sign, if_pos rfl]
    rw [decimalValue, hminus]
    dsimp only
    rw [hint, hdrop, hfrac, hexp, hunsigned, neg_one_mul]

end Numeral

/-- A byte a number or a name may go on with. -/
def isWord (ch : UInt8) : Bool :=
  isAlpha ch || isDigit ch || ch = byte '.' || ch = byte '+' || ch = byte '-'

/-- What follows does not go on with a number or a name. -/
def Stops (rest : Bytes) : Prop := ∀ ch ∈ rest.head?, isWord ch = false

theorem Stops.ne {s : Bytes} {ch : UInt8} (h : Stops (ch :: s)) {c : UInt8}
    (hc : isWord c = true) : ch ≠ c := fun heq => by
  have := h ch rfl
  rw [heq, hc] at this
  cases this

theorem Stops.isDigit {s : Bytes} (h : Stops s) : ∀ ch ∈ s.head?, isDigit ch = false := fun ch hch => by
  have hword := h ch hch
  simp only [isWord, Bool.or_eq_false_iff] at hword
  exact hword.1.1.1.2

namespace Numeral

variable (n : Numeral)

theorem pointBytes_mantissa : ∀ ch ∈ n.intBytes ++ n.pointBytes, isMantissa ch = true := by
  refine List.forall_mem_append.2 ⟨fun ch hch => ?_, fun ch hch => ?_⟩
  · simp [isMantissa, n.int_isDigit ch hch]
  · unfold pointBytes at hch
    split at hch
    · cases hch
    · rcases List.mem_cons.1 hch with rfl | hch
      · simp [isMantissa]
      · simp [isMantissa, n.frac_isDigit ch hch]

end Numeral

theorem optional_stops {p : UInt8 → Bool} {rest : Bytes} (hp : ∀ ch, p ch = true → isWord ch = true)
    (hrest : Stops rest) : optional p rest = ([], rest) := by
  cases rest with
  | nil => rfl
  | cons ch s =>
    have hnot : ¬p ch = true := fun h => by
      have := hrest ch rfl
      rw [hp ch h] at this
      cases this
    rw [optional, if_neg hnot]

/-- The exponent of a number is found, up to what does not go on with it. -/
theorem scan_exponent {s rest : Bytes} {e : ℤ} (h : exponent s = some e) (hrest : Stops rest) :
    ∃ ch plus ds t : Bytes, optional isE (s ++ rest) = (ch, t) ∧
      optional isPlus t = (plus, ds ++ rest) ∧ (ds ++ rest).takeWhile isDigit = ds ∧
        (ds ++ rest).dropWhile isDigit = rest ∧ s = ch ++ plus ++ ds := by
  have hE {ch : UInt8} (hch : isE ch = true) : isWord ch = true := by
    rcases Bool.or_eq_true_iff.1 hch with hch | hch <;> rw [of_decide_eq_true hch] <;> decide
  have hplus {ch : UInt8} (hch : isPlus ch = true) : isWord ch = true := by
    rcases Bool.or_eq_true_iff.1 hch with hch | hch <;> rw [of_decide_eq_true hch] <;> decide
  rcases exponent_cases h with rfl | ⟨ch, plus, ds, rfl, hch, hpl, hne, hds⟩
  · have hspan := span_append rest (List.forall_mem_nil (isDigit · = true)) hrest.isDigit
    exact ⟨[], [], [], rest, optional_stops (fun _ => hE) hrest,
      optional_stops (fun _ => hplus) hrest, hspan.1, hspan.2, rfl⟩
  · have hspan := span_append rest hds hrest.isDigit
    refine ⟨[ch], plus, ds, plus ++ (ds ++ rest), ?_, ?_, hspan.1, hspan.2, rfl⟩
    · rw [List.cons_append, optional, if_pos (by simpa [isE] using hch), List.append_assoc]
    · rcases hpl with rfl | rfl | rfl
      · obtain ⟨d, ds, rfl⟩ := List.exists_cons_of_ne_nil hne
        have hdigit := hds d List.mem_cons_self
        have hnot : ¬isPlus d = true := fun hd => by
          rcases Bool.or_eq_true_iff.1 hd with hd | hd <;>
            rw [of_decide_eq_true hd] at hdigit <;> exact absurd hdigit (by decide)
        rw [List.nil_append, List.cons_append, optional, if_neg hnot]
      · rfl
      · rfl

namespace Numeral

variable (n : Numeral)

/-- A number is found, up to what does not go on with it. -/
theorem scannumber_text {rest : Bytes} (hrest : Stops rest) :
    scannumber (n.text.map byte ++ rest) = some (n.text.map byte, rest) ∧
      scannumber (byte '-' :: n.text.map byte ++ rest) = some (byte '-' :: n.text.map byte, rest) := by
  have hE := exponent_head n.exponent_eq
  have hmantissa := span_append (n.expBytes ++ rest) n.pointBytes_mantissa (by
    intro ch hch
    have hhead : ch ∈ n.expBytes.head? ∨ ch ∈ rest.head? := by
      cases hexp : n.expBytes with
      | nil => exact .inr (by simpa [hexp] using hch)
      | cons c s => exact .inl (by simpa [hexp] using hch)
    rcases hhead with hhead | hhead
    · obtain ⟨hdigit, hpoint⟩ := hE ch hhead
      simp [isMantissa, hdigit, hpoint]
    · have hword := hrest ch hhead
      simp only [isWord, Bool.or_eq_false_iff] at hword
      simp only [isMantissa, hword.1.1.1.2, hword.1.1.2, Bool.or_self])
  have hne : n.intBytes ++ n.pointBytes ≠ [] := List.append_ne_nil_of_left_ne_nil n.int_ne _
  obtain ⟨ch, plus, ds, t, hch, hplus, htake, hdrop, hexp⟩ := scan_exponent n.exponent_eq hrest
  have htext : n.text.map byte ++ rest = n.intBytes ++ n.pointBytes ++ (n.expBytes ++ rest) := by
    rw [map_text]
    simp only [List.append_assoc]
  have hscan (s minus : Bytes) (hs : optional (· = byte '-') s = (minus, n.text.map byte ++ rest)) :
      scannumber s = some (minus ++ n.text.map byte, rest) := by
    unfold scannumber
    rw [hs]
    dsimp only
    rw [htext, hmantissa.1, hmantissa.2, expBytes, hch]
    dsimp only
    rw [hplus]
    dsimp only
    rw [if_neg hne, htake, hdrop, map_text, expBytes, hexp]
    simp only [List.append_assoc]
  constructor
  · refine hscan _ [] ?_
    obtain ⟨c, s, hs⟩ := List.exists_cons_of_ne_nil n.int_ne
    have hdigit := n.int_isDigit c (by rw [hs]; exact List.mem_cons_self)
    have hne : ¬decide (c = byte '-') = true := fun h => by
      rw [of_decide_eq_true h] at hdigit
      exact absurd hdigit (by decide)
    rw [map_text, hs, List.cons_append, List.cons_append, optional, if_neg hne]
  · exact hscan _ [byte '-'] rfl

end Numeral

/-! ## `tostring` -/

/-- What `tostring` writes of a number is a numeral, after a sign. -/
theorem exists_tostring (q : ℚ) : ∃ n : Numeral,
    tostring q = n.text.map byte ∧ n.value = shown q ∨
      tostring q = byte '-' :: n.text.map byte ∧ -n.value = shown q := by
  by_cases hq : q = 0
  · refine ⟨⟨['0'], [], [], 0, by simp, by simp, by simp, rfl⟩, .inl ⟨?_, ?_⟩⟩
    · rw [tostring, if_pos hq]
      rfl
    · rw [shown, if_pos hq]
      simp [Numeral.value, Nat.ofDigitChars_cons]
  · obtain ⟨h, h'⟩ := significant_bounds hq
    obtain ⟨n, htext, hvalue⟩ := exists_numeral h h' (significant q).2
    refine ⟨n, ?_⟩
    rw [tostring, if_neg hq, shown, if_neg hq]
    by_cases hneg : q < 0
    · right
      rw [if_pos hneg, if_pos hneg, htext, hvalue]
      exact ⟨rfl, by ring⟩
    · left
      rw [if_neg hneg, if_neg hneg, htext, hvalue]
      exact ⟨rfl, by ring⟩

/-- What `tostring` writes, `tonumber` reads. -/
theorem tonumber_tostring (round : ℚ → Number) (q : ℚ) :
    tonumber round (tostring q) = some (round (shown q)) := by
  obtain ⟨n, ⟨htext, hvalue⟩ | ⟨htext, hvalue⟩⟩ := exists_tostring q
  · rw [htext, tonumber, n.decimalValue_text.1, hvalue, Option.map_some]
  · rw [htext, tonumber, n.decimalValue_text.2, hvalue, Option.map_some]

/-- It is found in a text that does not go on with it. -/
theorem scannumber_tostring (q : ℚ) {rest : Bytes} (hrest : Stops rest) :
    scannumber (tostring q ++ rest) = some (tostring q, rest) := by
  obtain ⟨n, ⟨htext, -⟩ | ⟨htext, -⟩⟩ := exists_tostring q
  · rw [htext]
    exact (n.scannumber_text hrest).1
  · rw [htext]
    exact (n.scannumber_text hrest).2

/-! ## Short numbers -/

theorem roundEven_natCast (k : ℕ) : roundEven (k : ℚ) = k := by
  rw [roundEven, Nat.floor_natCast, sub_self, if_pos (by norm_num)]

/-- Exactly the numbers of at most fourteen significant digits are shown as they are. -/
theorem shown_eq_iff {q : ℚ} : shown q = q ↔ ∃ m e : ℤ, |m| < 10 ^ 14 ∧ q = m * 10 ^ e := by
  constructor
  · intro h
    by_cases hq : q = 0
    · exact ⟨0, 0, by norm_num, by rw [hq]; norm_num⟩
    · obtain ⟨-, hlt⟩ := significant_bounds hq
      have habs : |((significant q).1 : ℤ)| < 10 ^ 14 := by
        rw [Nat.abs_cast]
        exact_mod_cast hlt
      rw [shown, if_neg hq] at h
      by_cases hneg : q < 0
      · rw [if_pos hneg] at h
        refine ⟨-(significant q).1, (significant q).2 - 13, by rwa [abs_neg], h.symm.trans ?_⟩
        push_cast
        rw [neg_one_mul]
      · rw [if_neg hneg] at h
        refine ⟨(significant q).1, (significant q).2 - 13, habs, h.symm.trans ?_⟩
        push_cast
        rw [one_mul]
  · rintro ⟨m, e, hm, hq⟩
    by_cases hzero : q = 0
    · rw [shown, if_pos hzero, hzero]
    have hpos : 0 < |q| := abs_pos.2 hzero
    have habs : |q| = m.natAbs * 10 ^ e := by
      rw [hq, abs_mul, abs_of_pos (zpow_pos (by norm_num) e : (0 : ℚ) < 10 ^ e), Nat.cast_natAbs,
        Int.cast_abs]
    have hle := Int.zpow_log_le_self (b := 10) (by norm_num) hpos
    have hlt := Int.lt_zpow_succ_log_self (b := 10) (by norm_num) |q|
    push_cast at hle hlt
    generalize hx : Int.log 10 |q| = x at hle hlt
    -- The exponent of the last digit is not below that of `m`.
    have hexp : x < 14 + e := by
      have hbound : |q| < 10 ^ (14 + e) := by
        rw [habs, zpow_add₀ (by norm_num)]
        refine mul_lt_mul_of_pos_right ?_ (zpow_pos (by norm_num) e)
        have : (m.natAbs : ℤ) < 10 ^ 14 := by rwa [Int.natCast_natAbs]
        exact_mod_cast this
      exact (zpow_lt_zpow_iff_right₀ (by norm_num)).1 (hle.trans_lt hbound)
    obtain ⟨d, hd⟩ : ∃ d : ℕ, (d : ℤ) = e - x + 13 := ⟨(e - x + 13).toNat, by omega⟩
    have hk : |q| / 10 ^ (x - 13) = (m.natAbs * 10 ^ d : ℕ) := by
      rw [habs, mul_div_assoc, ← zpow_sub₀ (by norm_num)]
      push_cast
      rw [← zpow_natCast, hd]
      congr 2
      omega
    have hround : roundEven (|q| / 10 ^ (x - 13)) = m.natAbs * 10 ^ d := by
      rw [hk, roundEven_natCast]
    have hne : m.natAbs * 10 ^ d ≠ 10 ^ 14 := fun h => by
      have hx' : x + 1 = ((14 : ℕ) : ℤ) + (x - 13) := by
        push_cast
        omega
      rw [h, div_eq_iff (zpow_ne_zero _ (by norm_num))] at hk
      rw [hk, hx', zpow_add₀ (by norm_num), zpow_natCast] at hlt
      push_cast at hlt
      exact lt_irrefl _ hlt
    have hsig : significant q = (m.natAbs * 10 ^ d, x) := by
      rw [significant, hx, hround, if_neg hne]
    rw [shown, if_neg hzero, hsig]
    dsimp only
    rw [← hk, mul_assoc, div_mul_cancel₀ _ (zpow_ne_zero _ (by norm_num))]
    split_ifs with hneg
    · rw [abs_of_neg hneg]
      ring
    · rw [abs_of_nonneg (not_lt.1 hneg), one_mul]

end Mistress.Json
