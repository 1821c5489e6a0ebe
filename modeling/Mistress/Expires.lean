import Mistress.Utils

/-!
# Expiry dates

`expires_to_timestamp` reads the date of the `Expires` attribute of a cookie,
with the Lua pattern `CEFMT`. The calendar is the one of `os.time` and `os.date`
in UTC, which the source relies on the environment for: days are counted from
the first of March of the year 0, in eras of 400 years.

A date written as an RFC 1123 date (`HttpDate`) is read as it is
(`expiresToTimestamp_text`).
-/

namespace Mistress

open LuaPattern

/-! ## The calendar -/

/-- The number of days from the epoch to a date; months and days out of range
    count on. -/
def daysFromCivil (year month day : Int) : Int :=
  let y := if month ≤ 2 then year - 1 else year
  let era := y / 400
  let yoe := y - era * 400
  let doy := (153 * ((month + 9) % 12) + 2) / 5 + day - 1
  era * 146097 + (yoe * 365 + yoe / 4 - yoe / 100 + doy) - 719468

/-- The year of a time, `os.date('%Y')`. -/
def osDateYear (now : Int) : Int :=
  let days := now / 86400 + 719468
  let era := days / 146097
  let doe := days - era * 146097
  let yoe := (doe - doe / 1460 + doe / 36524 - doe / 146096) / 365
  let doy := doe - (365 * yoe + yoe / 4 - yoe / 100)
  -- The days from the first of January on belong to the next year.
  yoe + era * 400 + if 306 ≤ doy then 1 else 0

/-- `os.time`: `mktime` says `-1` when it fails, so that the second before the
    epoch counts as a failure. -/
def osTime (year month day hour min sec : Int) : Option Int :=
  let t := ((daysFromCivil year month day * 24 + hour) * 60 + min) * 60 + sec
  if t = -1 then none else some t

example : osTime 2000 2 29 12 30 15 = some 951827415 := by decide
example : osDateYear 951827415 = 2000 := by decide

/-! ## Reading a date -/

/-- `tonumber`, of a string of digits. -/
def tonumber (s : LuaString) : Int := s.foldl (fun n c => 10 * n + (c.toNat - 48)) 0

/-- `MON`, the months by name, from January. -/
def MON : List LuaString :=
  ["Jan".toList, "Feb".toList, "Mar".toList, "Apr".toList, "May".toList, "Jun".toList,
    "Jul".toList, "Aug".toList, "Sep".toList, "Oct".toList, "Nov".toList, "Dec".toList]

/-- `(%d+)`. -/
def digits : List Item := [.opn, .plus .digit, .cls]

/-- `CEFMT`, the pattern `%a+, (%d+)[ -](%a+)[ -](%d+) (%d+):(%d+):(%d+) GMT`. -/
def CEFMT : List Item :=
  [.plus .alpha, .one (.char ','), .one (.char ' ')] ++ digits ++
  [.one (.set [' ', '-']), .opn, .plus .alpha, .cls, .one (.set [' ', '-'])] ++ digits ++
  [.one (.char ' ')] ++ digits ++ [.one (.char ':')] ++ digits ++ [.one (.char ':')] ++ digits ++
  [.one (.char ' '), .one (.char 'G'), .one (.char 'M'), .one (.char 'T')]

/-- `expires_to_timestamp`, at the time `now`. -/
def expiresToTimestamp (raw : LuaString) (now : Int) : Except LuaError (Option Int) :=
  match strMatch CEFMT raw with
  | some [day, month, year, hour, min, sec] =>
    let year := tonumber year
    -- Two digits are a year of the present century.
    let year := if year < 100 then osDateYear now / 100 * 100 + year else year
    if month ∈ MON then
      .ok (osTime year (MON.idxOf month + 1) (tonumber day) (tonumber hour) (tonumber min)
        (tonumber sec))
    else .error .assertion
  | _ => .error .assertion

/-! ## RFC 1123 dates -/

/-- The names of the days of the week. -/
def weekdays : List LuaString :=
  ["Mon".toList, "Tue".toList, "Wed".toList, "Thu".toList, "Fri".toList, "Sat".toList,
    "Sun".toList]

/-- A date to be written as an RFC 1123 date. -/
structure HttpDate where
  weekday : Fin 7
  day : Nat
  month : Fin 12
  year : Nat
  hour : Nat
  min : Nat
  sec : Nat
  day_le : day ≤ 31
  year_ge : 1000 ≤ year
  year_lt : year < 10000
  hour_lt : hour < 24
  min_lt : min < 60
  sec_lt : sec < 61

namespace HttpDate

/-- The last digit of a number. -/
def digit (n : Nat) : Char := Char.ofNat (48 + n % 10)

/-- A number with two digits. -/
def two (n : Nat) : LuaString := [digit (n / 10), digit n]

/-- A number with four digits. -/
def four (n : Nat) : LuaString := [digit (n / 1000), digit (n / 100), digit (n / 10), digit n]

/-- The date as a text, e.g., `Sun, 06 Nov 1994 08:49:37 GMT`. -/
def text (d : HttpDate) : LuaString :=
  weekdays.getD d.weekday [] ++ ',' :: ' ' :: (two d.day ++ ' ' :: (MON.getD d.month [] ++ ' ' ::
    (four d.year ++ ' ' :: (two d.hour ++ ':' :: (two d.min ++ ':' :: (two d.sec ++
      [' ', 'G', 'M', 'T']))))))

/-- The time of the date. -/
def time (d : HttpDate) : Option Int :=
  osTime d.year (d.month + 1) d.day d.hour d.min d.sec

theorem digit_eq (n : Nat) : (digit n).isDigit = true ∧ ((digit n).toNat : Int) = 48 + n % 10 := by
  have h : ∀ m < 10, (Char.ofNat (48 + m)).isDigit = true ∧ (Char.ofNat (48 + m)).toNat = 48 + m := by
    decide
  obtain ⟨h₁, h₂⟩ := h (n % 10) (Nat.mod_lt _ (by decide))
  exact ⟨h₁, by rw [digit, h₂]; norm_cast⟩

theorem tonumber_two {n : Nat} (hn : n < 100) : tonumber (two n) = n := by
  simp only [tonumber, two, List.foldl_cons, List.foldl_nil, (digit_eq _).2]
  omega

theorem tonumber_four {n : Nat} (hn : n < 10000) : tonumber (four n) = n := by
  simp only [tonumber, four, List.foldl_cons, List.foldl_nil, (digit_eq _).2]
  omega

theorem month_alpha (m : Fin 12) : MON.getD m [] ≠ [] ∧ ∀ x ∈ MON.getD m [], Cls.alpha.test x := by
  rw [← List.all_eq_true]
  decide +revert

theorem weekday_alpha (w : Fin 7) :
    weekdays.getD w [] ≠ [] ∧ ∀ x ∈ weekdays.getD w [], Cls.alpha.test x := by
  rw [← List.all_eq_true]
  decide +revert

theorem two_digits (n : Nat) : two n ≠ [] ∧ ∀ x ∈ two n, Cls.digit.test x := by
  simp [two, Cls.test, (digit_eq _).1]

theorem four_digits (n : Nat) : four n ≠ [] ∧ ∀ x ∈ four n, Cls.digit.test x := by
  simp [four, Cls.test, (digit_eq _).1]

/-- The pattern captures the fields of a date, separated by blanks or by dashes. -/
theorem strMatch_CEFMT {week day month year hour min sec : LuaString} {sep : Char}
    (hsep : sep = ' ' ∨ sep = '-') (hweek : week ≠ [] ∧ ∀ x ∈ week, Cls.alpha.test x)
    (hday : day ≠ [] ∧ ∀ x ∈ day, Cls.digit.test x)
    (hmonth : month ≠ [] ∧ ∀ x ∈ month, Cls.alpha.test x)
    (hyear : year ≠ [] ∧ ∀ x ∈ year, Cls.digit.test x)
    (hhour : hour ≠ [] ∧ ∀ x ∈ hour, Cls.digit.test x)
    (hmin : min ≠ [] ∧ ∀ x ∈ min, Cls.digit.test x)
    (hsec : sec ≠ [] ∧ ∀ x ∈ sec, Cls.digit.test x) :
    strMatch CEFMT (week ++ ',' :: ' ' :: (day ++ sep :: (month ++ sep :: (year ++ ' ' ::
      (hour ++ ':' :: (min ++ ':' :: (sec ++ [' ', 'G', 'M', 'T']))))))) =
      some [day, month, year, hour, min, sec] := by
  have hset : (Cls.set [' ', '-']).test sep ∧ Cls.digit.test sep = false ∧
      Cls.alpha.test sep = false := by
    rcases hsep with rfl | rfl <;> exact ⟨rfl, rfl, rfl⟩
  obtain ⟨hset, hdigit, halpha⟩ := hset
  have hgo : go CEFMT [] (week ++ ',' :: ' ' :: (day ++ sep :: (month ++ sep :: (year ++ ' ' ::
      (hour ++ ':' :: (min ++ ':' :: (sec ++ [' ', 'G', 'M', 'T']))))))) =
      some ([.closed sec, .closed min, .closed hour, .closed year, .closed month, .closed day],
        []) := by
    rw [CEFMT]
    refine go_plus hweek.1 hweek.2 (head_test rfl) ?_
    refine go_one rfl (go_one rfl ?_)
    refine go_capture hday.1 hday.2 (head_test hdigit) (go_one hset ?_)
    refine go_capture hmonth.1 hmonth.2 (head_test halpha) (go_one hset ?_)
    refine go_capture hyear.1 hyear.2 (head_test rfl) (go_one rfl ?_)
    refine go_capture hhour.1 hhour.2 (head_test rfl) (go_one rfl ?_)
    refine go_capture hmin.1 hmin.2 (head_test rfl) (go_one rfl ?_)
    refine go_capture hsec.1 hsec.2 (head_test rfl) ?_
    exact go_one rfl (go_one rfl (go_one rfl (go_one rfl rfl)))
  rw [strMatch_of_go hgo]
  rfl

theorem strMatch_text (d : HttpDate) : strMatch CEFMT d.text =
    some [two d.day, MON.getD d.month [], four d.year, two d.hour, two d.min, two d.sec] :=
  strMatch_CEFMT (.inl rfl) (weekday_alpha _) (two_digits _) (month_alpha _) (four_digits _)
    (two_digits _) (two_digits _) (two_digits _)

theorem idxOf_month (m : Fin 12) : MON.getD m [] ∈ MON ∧ MON.idxOf (MON.getD m []) = m := by
  decide +kernel +revert

/-- An RFC 1123 date is read as it is, whatever the time. -/
theorem expiresToTimestamp_text (d : HttpDate) (now : Int) :
    expiresToTimestamp d.text now = .ok d.time := by
  obtain ⟨hmem, hidx⟩ := idxOf_month d.month
  have hyear := d.year_ge
  have hday := d.day_le
  have hhour := d.hour_lt
  have hmin := d.min_lt
  have hsec := d.sec_lt
  rw [expiresToTimestamp, strMatch_text]
  simp only [tonumber_four d.year_lt, if_pos hmem, hidx]
  rw [if_neg (by omega), tonumber_two (by omega), tonumber_two (by omega), tonumber_two (by omega),
    tonumber_two (by omega), time]

/-- A date is made of letters, digits and three other characters. -/
theorem text_chars (d : HttpDate) :
    ∀ x ∈ d.text, x.isAlpha ∨ x.isDigit ∨ x = ',' ∨ x = ' ' ∨ x = ':' := by
  have hweek : ∀ x ∈ weekdays.getD d.weekday [], x.isAlpha := (weekday_alpha d.weekday).2
  have hmonth : ∀ x ∈ MON.getD d.month [], x.isAlpha := (month_alpha d.month).2
  have hdigit : ∀ n, (digit n).isDigit := fun n => (digit_eq n).1
  simp only [text, two, four, List.forall_mem_append, List.forall_mem_cons]
  refine ⟨fun x hx => .inl (hweek x hx), ?_⟩
  simp only [hdigit, true_or, or_true, true_and, List.not_mem_nil]
  have hmonth' := fun x hx => Or.inl (b := x.isDigit ∨ x = ',' ∨ x = ' ' ∨ x = ':') (hmonth x hx)
  simpa using hmonth'

end HttpDate

end Mistress
