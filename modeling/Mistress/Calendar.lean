import Mistress.Expires

/-!
# The calendar

What day a time falls on (`UtcDate.ofTime`), the inverse of `os.time`
(`osTime_ofTime`), and the two formats of HTTP dates made of it: RFC 1123 dates, and
RFC 850 dates, with dashes and the last two digits of the year.

`expires_to_timestamp` takes two digits for a year of the present century, whether
that is fifty years ahead or not, so that an RFC 850 date is read as the time it was
made of only if that time falls into the present century (`roundTrips_iff`).
-/

namespace Mistress

open LuaPattern

/-! ## Days -/

/-- The parts of a day of an era: the century, the years of four years of it, the year
    among these, and the day of the year, all from zero and beginning in March. The last
    century has one day more, and so has the last year of four. -/
theorem exists_parts {doe : Int} (h₀ : 0 ≤ doe) (h₁ : doe < 146097) : ∃ c q y d : Int,
    (0 ≤ c ∧ c ≤ 3) ∧ (0 ≤ q ∧ q ≤ 24) ∧ (0 ≤ y ∧ y ≤ 3) ∧ (0 ≤ d ∧ d ≤ 365) ∧
      doe = 36524 * c + 1461 * q + 365 * y + d ∧
      (1461 * q + 365 * y + d < 36524 ∨ c = 3) ∧ (d = 365 → y = 3) := by
  have hcentury : ∃ c doc : Int, (0 ≤ c ∧ c ≤ 3) ∧ (0 ≤ doc ∧ doc ≤ 36524) ∧
      doe = 36524 * c + doc ∧ (doc < 36524 ∨ c = 3) := by
    by_cases h : doe = 146096
    · exact ⟨3, 36524, by omega⟩
    · exact ⟨doe / 36524, doe % 36524, by omega⟩
  obtain ⟨c, doc, hc, hdoc, rfl, hlast⟩ := hcentury
  have hyear : ∃ y d : Int, (0 ≤ y ∧ y ≤ 3) ∧ (0 ≤ d ∧ d ≤ 365) ∧ doc % 1461 = 365 * y + d ∧
      (d = 365 → y = 3) := by
    by_cases h : doc % 1461 = 1460
    · exact ⟨3, 365, by omega⟩
    · exact ⟨doc % 1461 / 365, doc % 1461 % 365, by omega⟩
  obtain ⟨y, d, hy, hd, hrem, hd'⟩ := hyear
  exact ⟨c, doc / 1461, y, d, by omega⟩

/-- The year of an era, as `osDateYear` computes it, in terms of the parts. -/
theorem yoe_eq {doe c q y d : Int} (hc : 0 ≤ c ∧ c ≤ 3) (hq : 0 ≤ q ∧ q ≤ 24) (hy : 0 ≤ y ∧ y ≤ 3)
    (hd : 0 ≤ d ∧ d ≤ 365) (hdoe : doe = 36524 * c + 1461 * q + 365 * y + d)
    (hlast : 1461 * q + 365 * y + d < 36524 ∨ c = 3) (hd' : d = 365 → y = 3) :
    (doe - doe / 1460 + doe / 36524 - doe / 146096) / 365 = 100 * c + 4 * q + y := by
  have hcentury : doe / 36524 - doe / 146096 = c := by
    have hc' : c = 0 ∨ c = 1 ∨ c = 2 ∨ c = 3 := by omega
    rcases hc' with rfl | rfl | rfl | rfl <;> omega
  -- Every four years have a day more than `1460`, which add up to at most another one.
  by_cases hcarry : 24 * c + q + 365 * y + d < 1460
  · have he : doe / 1460 = 25 * c + q := by omega
    omega
  · have he : doe / 1460 = 25 * c + q + 1 := by omega
    omega

/-- The day of the era of a time, from the first of March of its first year. -/
def dayOfEra (t : Int) : Int := (t / 86400 + 719468) % 146097

/-- The year of the era, beginning in March. -/
def yearOfEra (t : Int) : Int :=
  let doe := dayOfEra t
  (doe - doe / 1460 + doe / 36524 - doe / 146096) / 365

/-- The day of the year, from the first of March. -/
def dayOfYear (t : Int) : Int :=
  dayOfEra t - (365 * yearOfEra t + yearOfEra t / 4 - yearOfEra t / 100)

/-- The month, from March. -/
def monthOfYear (t : Int) : Int := (5 * dayOfYear t + 2) / 153

theorem era_bounds (t : Int) : (0 ≤ yearOfEra t ∧ yearOfEra t < 400) ∧
    (0 ≤ dayOfYear t ∧ dayOfYear t < 366) := by
  obtain ⟨c, q, y, d, hc, hq, hy, hd, hdoe, hlast, hd'⟩ :=
    exists_parts (show 0 ≤ dayOfEra t from Int.emod_nonneg _ (by decide))
      (Int.emod_lt_of_pos _ (by decide))
  have hyear : yearOfEra t = 100 * c + 4 * q + y := yoe_eq hc hq hy hd hdoe hlast hd'
  rw [dayOfYear, hyear, hdoe]
  omega

theorem osDateYear_eq (t : Int) : osDateYear t =
    yearOfEra t + (t / 86400 + 719468) / 146097 * 400 + if 10 ≤ monthOfYear t then 1 else 0 := by
  have hdoe : t / 86400 + 719468 - (t / 86400 + 719468) / 146097 * 146097 = dayOfEra t := by
    rw [dayOfEra]
    omega
  have hmonth : 306 ≤ dayOfYear t ↔ 10 ≤ monthOfYear t := by
    rw [monthOfYear]
    omega
  rw [← if_congr hmonth rfl rfl, osDateYear, hdoe]
  rfl

/-- A later year begins later. -/
theorem daysFromCivil_lt {year year' month day : Int} (h : year < year') :
    daysFromCivil year month day < daysFromCivil year' month day := by
  simp only [daysFromCivil]
  split_ifs <;> omega

/-- A day is counted as it was made of. -/
theorem daysFromCivil_eq (t : Int) :
    daysFromCivil (osDateYear t) (if monthOfYear t < 10 then monthOfYear t + 3 else monthOfYear t - 9)
      (dayOfYear t - (153 * monthOfYear t + 2) / 5 + 1) = t / 86400 := by
  obtain ⟨hyear, hday⟩ := era_bounds t
  have hmonth : 0 ≤ monthOfYear t ∧ monthOfYear t < 12 := by
    rw [monthOfYear]
    omega
  have hdoe : (t / 86400 + 719468) / 146097 * 146097 + dayOfEra t = t / 86400 + 719468 := by
    rw [dayOfEra]
    omega
  have hdoy : yearOfEra t * 365 + yearOfEra t / 4 - yearOfEra t / 100 + dayOfYear t = dayOfEra t := by
    rw [dayOfYear]
    omega
  rw [osDateYear_eq]
  generalize (t / 86400 + 719468) / 146097 = era at *
  generalize yearOfEra t = yoe at *
  generalize dayOfEra t = doe at *
  generalize dayOfYear t = doy at *
  generalize monthOfYear t = mp at *
  have hera : (yoe + era * 400) / 400 = era := by omega
  by_cases hmp : mp < 10
  · have hmod : (mp + 3 + 9) % 12 = mp := by omega
    rw [if_pos hmp, if_neg (by omega), Int.add_zero, daysFromCivil, if_neg (by omega), hera, hmod]
    omega
  · have hmod : (mp - 9 + 9) % 12 = mp := by omega
    rw [if_neg hmp, if_pos (by omega), daysFromCivil, if_pos (by omega), Int.add_sub_cancel, hera,
      hmod]
    omega

/-! ## Dates -/

/-- The names of the days of the week in RFC 850 dates. -/
def weekdayNames : List LuaString :=
  ["Monday".toList, "Tuesday".toList, "Wednesday".toList, "Thursday".toList, "Friday".toList,
    "Saturday".toList, "Sunday".toList]

/-- A time in UTC, broken down. -/
structure UtcDate where
  weekday : Fin 7
  day : Nat
  month : Fin 12
  year : Nat
  hour : Nat
  min : Nat
  sec : Nat
  day_le : day ≤ 31
  hour_lt : hour < 24
  min_lt : min < 60
  sec_lt : sec < 60

namespace UtcDate

/-- `os.date('!*t')`, of a time that is not negative. -/
def ofTime (t : Nat) : UtcDate where
  weekday := Fin.ofNat 7 (t / 86400 + 3)
  day := (dayOfYear t - (153 * monthOfYear t + 2) / 5 + 1).toNat
  month := Fin.ofNat 12 ((monthOfYear t).toNat + 2)
  year := (osDateYear t).toNat
  hour := t / 3600 % 24
  min := t / 60 % 60
  sec := t % 60
  day_le := by
    have := era_bounds t
    rw [monthOfYear]
    omega
  hour_lt := Nat.mod_lt _ (by decide)
  min_lt := Nat.mod_lt _ (by decide)
  sec_lt := Nat.mod_lt _ (by decide)

/-- `os.time`, with another year. -/
def timeIn (d : UtcDate) (year : Int) : Option Int :=
  osTime year (d.month + 1) d.day d.hour d.min d.sec

/-- The date as an RFC 850 date, e.g., `Sunday, 06-Nov-94 08:49:37 GMT`. -/
def rfc850 (d : UtcDate) : LuaString :=
  weekdayNames.getD d.weekday [] ++ ',' :: ' ' :: (HttpDate.two d.day ++ '-' ::
    (MON.getD d.month [] ++ '-' :: (HttpDate.two d.year ++ ' ' :: (HttpDate.two d.hour ++ ':' ::
      (HttpDate.two d.min ++ ':' :: (HttpDate.two d.sec ++ [' ', 'G', 'M', 'T']))))))

/-- The date as an RFC 1123 date, if its year has four digits. -/
def httpDate (d : UtcDate) (h₁ : 1000 ≤ d.year) (h₂ : d.year < 10000) : HttpDate where
  weekday := d.weekday
  day := d.day
  month := d.month
  year := d.year
  hour := d.hour
  min := d.min
  sec := d.sec
  day_le := d.day_le
  year_ge := h₁
  year_lt := h₂
  hour_lt := d.hour_lt
  min_lt := d.min_lt
  sec_lt := Nat.lt_succ_of_lt d.sec_lt

/-- The epoch is the beginning of the year 1970. -/
theorem le_osDateYear {t : Int} (ht : 0 ≤ t) : 1970 ≤ osDateYear t := by
  by_contra hlt
  obtain ⟨-, hday⟩ := era_bounds t
  have hmonth : 0 ≤ monthOfYear t ∧ monthOfYear t < 12 := by
    rw [monthOfYear]
    omega
  have hday' : dayOfYear t - (153 * monthOfYear t + 2) / 5 + 1 ≤ 31 := by
    rw [monthOfYear]
    omega
  have hdays := daysFromCivil_eq t
  generalize dayOfYear t - (153 * monthOfYear t + 2) / 5 + 1 = day at *
  have hbefore : daysFromCivil (osDateYear t)
      (if monthOfYear t < 10 then monthOfYear t + 3 else monthOfYear t - 9) day ≤
      daysFromCivil 1969 (if monthOfYear t < 10 then monthOfYear t + 3 else monthOfYear t - 9)
        day := by
    by_cases heq : osDateYear t = 1969
    · exact Int.le_of_eq (by rw [heq])
    · exact Int.le_of_lt (daysFromCivil_lt (by omega))
  have hneg : daysFromCivil 1969
      (if monthOfYear t < 10 then monthOfYear t + 3 else monthOfYear t - 9) day < 0 := by
    simp only [daysFromCivil]
    split_ifs <;> omega
  omega

theorem year_ofTime (t : Nat) : ((ofTime t).year : Int) = osDateYear t :=
  Int.toNat_of_nonneg (by
    have := le_osDateYear (t := t) (Int.natCast_nonneg t)
    omega)

theorem osTime_eq_some_iff {year month day hour min sec t : Int} (ht : t ≠ -1) :
    osTime year month day hour min sec = some t ↔
      ((daysFromCivil year month day * 24 + hour) * 60 + min) * 60 + sec = t := by
  rw [osTime]
  split_ifs with h
  · exact iff_of_false id fun heq => ht (heq.symm.trans h)
  · exact Option.some_inj

/-- Breaking down a time is inverse to `os.time`. -/
theorem timeIn_ofTime (t : Nat) : (ofTime t).timeIn (ofTime t).year = some (t : Int) := by
  obtain ⟨-, hdoy⟩ := era_bounds t
  have hmonth : 0 ≤ monthOfYear t ∧ monthOfYear t < 12 := by
    rw [monthOfYear]
    omega
  have hday : ((ofTime t).day : Int) = dayOfYear t - (153 * monthOfYear t + 2) / 5 + 1 := by
    refine Int.toNat_of_nonneg ?_
    rw [monthOfYear]
    omega
  have hmonth' : (((ofTime t).month : Nat) + 1 : Int) =
      if monthOfYear t < 10 then monthOfYear t + 3 else monthOfYear t - 9 := by
    simp only [ofTime, Fin.val_ofNat]
    split_ifs <;> omega
  have hclock : (ofTime t).hour = t / 3600 % 24 ∧ (ofTime t).min = t / 60 % 60 ∧
      (ofTime t).sec = t % 60 := ⟨rfl, rfl, rfl⟩
  rw [timeIn, osTime_eq_some_iff (by omega), year_ofTime, hmonth', hday, daysFromCivil_eq]
  omega

/-- In another year, a date is another time. -/
theorem timeIn_eq_iff {t : Nat} {year : Int} :
    (ofTime t).timeIn year = some (t : Int) ↔ year = (ofTime t).year := by
  constructor
  · intro h
    have h' := timeIn_ofTime t
    rw [timeIn, osTime_eq_some_iff (by omega)] at h h'
    by_contra hne
    have hdays : daysFromCivil year ((ofTime t).month + 1) (ofTime t).day =
        daysFromCivil (ofTime t).year ((ofTime t).month + 1) (ofTime t).day := by omega
    rcases Int.lt_or_gt_of_ne hne with hlt | hlt
    · exact Int.ne_of_lt (daysFromCivil_lt hlt) hdays
    · exact Int.ne_of_gt (daysFromCivil_lt hlt) hdays
  · rintro rfl
    exact timeIn_ofTime t

/-! ## Reading a date back -/

theorem weekdayName_alpha (w : Fin 7) :
    weekdayNames.getD w [] ≠ [] ∧ ∀ x ∈ weekdayNames.getD w [], Cls.alpha.test x := by
  rw [← List.all_eq_true]
  decide +revert

/-- Two digits are the last two digits. -/
theorem tonumber_two (n : Nat) : tonumber (HttpDate.two n) = (n % 100 : Nat) := by
  simp only [tonumber, HttpDate.two, List.foldl_cons, List.foldl_nil, (HttpDate.digit_eq _).2]
  omega

/-- An RFC 850 date is read as if it were of the present century. -/
theorem expiresToTimestamp_rfc850 (d : UtcDate) (now : Int) :
    expiresToTimestamp d.rfc850 now =
      .ok (d.timeIn (osDateYear now / 100 * 100 + (d.year % 100 : Nat))) := by
  obtain ⟨hmem, hidx⟩ := HttpDate.idxOf_month d.month
  have hday := d.day_le
  have hhour := d.hour_lt
  have hmin := d.min_lt
  have hsec := d.sec_lt
  have hmatch : strMatch CEFMT d.rfc850 = some [HttpDate.two d.day, MON.getD d.month [],
      HttpDate.two d.year, HttpDate.two d.hour, HttpDate.two d.min, HttpDate.two d.sec] :=
    HttpDate.strMatch_CEFMT (.inr rfl) (weekdayName_alpha _) (HttpDate.two_digits _)
      (HttpDate.month_alpha _) (HttpDate.two_digits _) (HttpDate.two_digits _)
      (HttpDate.two_digits _) (HttpDate.two_digits _)
  rw [expiresToTimestamp, hmatch]
  simp only [tonumber_two, if_pos hmem, hidx]
  rw [if_pos (by omega), Nat.mod_eq_of_lt (by omega : d.day < 100),
    Nat.mod_eq_of_lt (by omega : d.hour < 100), Nat.mod_eq_of_lt (by omega : d.min < 100),
    Nat.mod_eq_of_lt (by omega : d.sec < 100), timeIn]

/-- An RFC 1123 date is read as it is. -/
theorem expiresToTimestamp_httpDate (d : UtcDate) (h₁ : 1000 ≤ d.year) (h₂ : d.year < 10000)
    (now : Int) : expiresToTimestamp (d.httpDate h₁ h₂).text now = .ok (d.timeIn d.year) :=
  HttpDate.expiresToTimestamp_text _ now

end UtcDate

open UtcDate

/-- The two formats of a time are read as that time, at the time `now`; the years of
    RFC 1123 dates have four digits. -/
structure RoundTrips (now : Int) (t : Nat) : Prop where
  rfc1123 : ∀ h₁ h₂, expiresToTimestamp ((ofTime t).httpDate h₁ h₂).text now = .ok (some (t : Int))
  rfc850 : expiresToTimestamp (ofTime t).rfc850 now = .ok (some (t : Int))

/-- A time **round trips** if and only if it is of the same century as the present. -/
theorem roundTrips_iff (now : Int) (t : Nat) :
    RoundTrips now t ↔ osDateYear now / 100 = osDateYear t / 100 := by
  have hyear := year_ofTime t
  have hcentury : osDateYear now / 100 * 100 + ((ofTime t).year % 100 : Nat) = (ofTime t).year ↔
      osDateYear now / 100 = osDateYear t / 100 := by omega
  rw [← hcentury, ← timeIn_eq_iff]
  constructor
  · intro h
    have hread := h.rfc850
    rw [expiresToTimestamp_rfc850] at hread
    exact Except.ok.inj hread
  · intro h
    constructor
    · intro h₁ h₂
      rw [expiresToTimestamp_httpDate, timeIn_ofTime]
    · rw [expiresToTimestamp_rfc850, h]

/-- A time is within 49 years of the present. -/
def Near (now : Int) (t : Nat) : Prop := (t - now).natAbs ≤ 49 * 365 * 86400

/-- On the first day of the year 2000, the last second of the year before is read as a
    time a hundred years ahead. -/
theorem lastCentury_not_roundTrips : ¬ ∀ now t, Near now t → RoundTrips now t := by
  intro hall
  have h := (roundTrips_iff _ _).1 (hall 946684800 946684799 (by unfold Near; decide))
  exact absurd h (by decide)

end Mistress
