import Siralos.Calendar
import Siralos.Text

/-!
# The time of an excerpt

Milliseconds of the epoch are shown as a date and a time of the day. The text is that of the one
instant they count, and the texts of four-digit years are in the order of their instants.
-/

set_option autoImplicit false

namespace Siralos.EpochTime

open Text Calendar

/-- Nothing negative is divided by anything but `div_euclid`. -/
def civilFromDays (daysSinceEpoch : ℤ) : ℤ × ℕ × ℕ :=
  let z := daysSinceEpoch + 719468
  let era := z / 146097
  let doe := z % 146097
  let yoe := (doe - doe / 1460 + doe / 36524 - doe / 146096) / 365
  let year := yoe + era * 400
  let doy := doe - (365 * yoe + yoe / 4 - yoe / 100)
  let mp := (5 * doy + 2) / 153
  let day := (doy - (153 * mp + 2) / 5 + 1).toNat
  let month := (if mp < 10 then mp + 3 else mp - 9).toNat
  (if month ≤ 2 then year + 1 else year, month, day)

/-- `{:0width}` of a signed integer. -/
def padded (width : ℕ) (n : ℤ) : Text :=
  if n < 0 then '-' :: List.leftpad (width - 1) '0' (ofNat n.natAbs)
  else List.leftpad width '0' (ofNat n.toNat)

def isoText (year month day hour minute second millisecond : ℤ) : Text :=
  padded 4 year ++ '-' :: (padded 2 month ++ '-' :: (padded 2 day ++ 'T' :: (padded 2 hour ++
    ':' :: (padded 2 minute ++ ':' :: (padded 2 second ++ '.' :: (padded 3 millisecond ++ ['Z']))))))

def iso8601FromEpochMs (epochMs : ℤ) : Text :=
  let days := epochMs / 86400000
  let msOfDay := epochMs % 86400000
  let date := civilFromDays days
  isoText date.1 date.2.1 date.2.2 (msOfDay / 3600000) (msOfDay % 3600000 / 60000)
    (msOfDay % 60000 / 1000) (msOfDay % 1000)

structure Instant where
  date : Date
  hour : ℕ
  minute : ℕ
  second : ℕ
  millisecond : ℕ
  hour_lt : hour < 24
  minute_lt : minute < 60
  second_lt : second < 60
  millisecond_lt : millisecond < 1000

namespace Instant

def epochMs (t : Instant) : ℤ :=
  (((t.date.number * 24 + t.hour) * 60 + t.minute) * 60 + t.second) * 1000 + t.millisecond

def render (t : Instant) : Text :=
  isoText t.date.year t.date.month t.date.day t.hour t.minute t.second t.millisecond

end Instant

theorem year_of_era {doe yoe : ℤ} (hpos : 0 ≤ doe) (hlt : doe < 146097)
    (h : yoe = (doe - doe / 1460 + doe / 36524 - doe / 146096) / 365) :
    0 ≤ yoe ∧ yoe < 400 ∧ 365 * yoe + yoe / 4 - yoe / 100 ≤ doe ∧
      doe < 365 * (yoe + 1) + (yoe + 1) / 4 - (yoe + 1) / 100 + (yoe + 1) / 400 := by
  by_cases hlast : doe = 146096
  · subst hlast
    have hyoe : yoe = 399 := by omega
    subst hyoe
    decide
  · have hera : doe / 146096 = 0 := by omega
    rw [hera] at h
    generalize hcentury : doe / 36524 = century at h
    generalize hfour : doe / 1460 = four at h
    have hwithin : yoe / 100 = century := by omega
    refine ⟨by omega, by omega, ?_, ?_⟩
    · rw [hwithin]
      omega
    · by_cases hend : yoe + 1 = 100 * (century + 1)
      · rw [hend]
        omega
      · have hnext : (yoe + 1) / 100 = century := by omega
        have hsum : 0 ≤ (yoe + 1) / 400 := by omega
        have hleap : (yoe + 1) / 4 = four ∨ (yoe + 1) / 4 = four + 1 := by omega
        rw [hnext]
        rcases hleap with hleap | hleap
        · omega
        · omega

theorem march_months (year : ℤ) {m : ℕ} (h : m < 10) :
    (daysBefore year (m + 3) : ℤ) + 306 = yearLength year + (153 * (m : ℤ) + 2) / 5 ∧
      (153 * (m : ℤ) + 2) / 5 + monthLength year (m + 3) = (153 * ((m : ℤ) + 1) + 2) / 5 := by
  rw [yearLength]
  cases hleap : isLeap year
  all_goals
    interval_cases m
    all_goals simp [daysBefore, monthLength, hleap]

theorem winter_months (year : ℤ) {m : ℕ} (hten : 10 ≤ m) (h : m < 12) {doy : ℤ}
    (hdoy : doy < (153 * ((m : ℤ) + 1) + 2) / 5) (hlong : doy < yearLength year) :
    (daysBefore year (m - 9) : ℤ) + 306 = (153 * (m : ℤ) + 2) / 5 ∧
      doy - (153 * (m : ℤ) + 2) / 5 + 1 ≤ monthLength year (m - 9) := by
  rw [year_length] at hlong
  cases hleap : isLeap year
  all_goals
    rw [hleap] at hlong
    interval_cases m
    all_goals
      simp [daysBefore, monthLength, hleap] at hlong ⊢
      omega

theorem month_of_day {doy : ℤ} {m : ℕ} (hm : m < 12) (h : (5 * doy + 2) / 153 = m) :
    (153 * (m : ℤ) + 2) / 5 ≤ doy ∧ doy < (153 * (m + 1) + 2) / 5 := by
  interval_cases m
  all_goals omega

theorem march_year (era : ℤ) {yoe : ℤ} (hpos : 0 ≤ yoe) (hlt : yoe < 400) :
    yearStart (yoe + era * 400 + 1) = 146097 * era + (365 * yoe + yoe / 4 - yoe / 100) - 719162 ∧
      yearStart (yoe + era * 400 + 1) + yearLength (yoe + era * 400 + 1) =
        146097 * era + (365 * (yoe + 1) + (yoe + 1) / 4 - (yoe + 1) / 100 + (yoe + 1) / 400) -
          719162 := by
  have hfour : (yoe + era * 400) / 4 = yoe / 4 + era * 100 := by omega
  have hcentury : (yoe + era * 400) / 100 = yoe / 100 + era * 4 := by omega
  have hera : (yoe + era * 400) / 400 = era := by omega
  have hfour' : (yoe + era * 400 + 1) / 4 = (yoe + 1) / 4 + era * 100 := by omega
  have hcentury' : (yoe + era * 400 + 1) / 100 = (yoe + 1) / 100 + era * 4 := by omega
  have hera' : (yoe + era * 400 + 1) / 400 = (yoe + 1) / 400 + era := by omega
  rw [← year_start_succ]
  simp only [yearStart, leapsBefore, Int.add_sub_cancel]
  rw [hfour, hcentury, hera, hfour', hcentury', hera']
  omega

/-- The date of a day of the year that begins in March of a given one. -/
def fromMarch (year doy : ℤ) : ℤ × ℕ × ℕ :=
  let mp := (5 * doy + 2) / 153
  let day := (doy - (153 * mp + 2) / 5 + 1).toNat
  let month := (if mp < 10 then mp + 3 else mp - 9).toNat
  (if month ≤ 2 then year + 1 else year, month, day)

theorem spring_date {year doy : ℤ} {m : ℕ} (hm : (5 * doy + 2) / 153 = m) (hspring : m < 10) :
    ∃ d : Date, d.number = yearStart year + yearLength year - 306 + doy ∧
      fromMarch year doy = (d.year, d.month, d.day) := by
  obtain ⟨hfirst, hlast⟩ := month_of_day (by omega) hm
  obtain ⟨hdays, hmonth⟩ := march_months year hspring
  have hten : (m : ℤ) < 10 := by omega
  have hnumber : ((m : ℤ) + 3).toNat = m + 3 := by omega
  have hlater : ¬ m + 3 ≤ 2 := by omega
  obtain ⟨day, hday⟩ := Int.eq_ofNat_of_zero_le (Int.sub_nonneg.mpr hfirst)
  have hnext : (doy - (153 * (m : ℤ) + 2) / 5 + 1).toNat = day + 1 := by omega
  refine ⟨⟨year, m + 3, day + 1, by omega, by omega, by omega, by omega⟩, ?_, ?_⟩
  · rw [Date.number]
    simp only
    omega
  · simp only [fromMarch, hm, hnext]
    rw [if_pos hten, hnumber, if_neg hlater]

theorem winter_date {year doy : ℤ} {m : ℕ} (hm : (5 * doy + 2) / 153 = m) (hten : 10 ≤ m)
    (htwelve : m < 12) (hlong : doy < yearLength (year + 1)) :
    ∃ d : Date, d.number = yearStart (year + 1) - 306 + doy ∧
      fromMarch year doy = (d.year, d.month, d.day) := by
  obtain ⟨hfirst, hlast⟩ := month_of_day htwelve hm
  obtain ⟨hdays, hmonth⟩ := winter_months (year + 1) hten htwelve hlast hlong
  have hspring : ¬ (m : ℤ) < 10 := by omega
  have hnumber : ((m : ℤ) - 9).toNat = m - 9 := by omega
  have hearly : m - 9 ≤ 2 := by omega
  obtain ⟨day, hday⟩ := Int.eq_ofNat_of_zero_le (Int.sub_nonneg.mpr hfirst)
  have hnext : (doy - (153 * (m : ℤ) + 2) / 5 + 1).toNat = day + 1 := by omega
  refine ⟨⟨year + 1, m - 9, day + 1, by omega, by omega, by omega, by omega⟩, ?_, ?_⟩
  · rw [Date.number]
    simp only
    omega
  · simp only [fromMarch, hm, hnext]
    rw [if_neg hspring, hnumber, if_pos hearly]

theorem march_date {year doy : ℤ} (hpos : 0 ≤ doy) (hlong : doy < yearLength (year + 1)) :
    ∃ d : Date, d.number = yearStart (year + 1) - 306 + doy ∧
      fromMarch year doy = (d.year, d.month, d.day) := by
  have hsize : yearLength (year + 1) ≤ 366 := by
    rw [year_length]
    split <;> omega
  obtain ⟨m, hm⟩ := Int.eq_ofNat_of_zero_le (show 0 ≤ (5 * doy + 2) / 153 by omega)
  by_cases hspring : m < 10
  · rw [year_start_succ]
    exact spring_date hm hspring
  · exact winter_date hm (Nat.le_of_not_lt hspring) (by omega) hlong

theorem civil_date (days : ℤ) :
    ∃ d : Date, d.number = days ∧ civilFromDays days = (d.year, d.month, d.day) := by
  have hz := Int.emod_add_mul_ediv (days + 719468) 146097
  have hpos := Int.emod_nonneg (days + 719468) (by decide : (146097 : ℤ) ≠ 0)
  have hlt := Int.emod_lt_of_pos (days + 719468) (by decide : (0 : ℤ) < 146097)
  rw [civilFromDays]
  generalize (days + 719468) / 146097 = era at hz ⊢
  generalize (days + 719468) % 146097 = doe at hz hpos hlt ⊢
  generalize hyoe : (doe - doe / 1460 + doe / 36524 - doe / 146096) / 365 = yoe
  obtain ⟨hleast, hmost, hstart, hend⟩ := year_of_era hpos hlt hyoe.symm
  obtain ⟨hjanuary, hlength⟩ := march_year era hleast hmost
  clear hyoe
  obtain ⟨d, hnumber, hdate⟩ := @march_date (yoe + era * 400)
    (doe - (365 * yoe + yoe / 4 - yoe / 100)) (by omega) (by omega)
  refine ⟨d, ?_, hdate⟩
  rw [hnumber, hjanuary]
  omega

theorem lt_append {s t : Text} (u v : Text) (hlength : s.length = t.length) (h : s < t) :
    s ++ u < t ++ v := by
  induction s generalizing t with
  | nil =>
    rw [List.eq_nil_of_length_eq_zero hlength.symm] at h
    exact absurd h (List.lt_irrefl _)
  | cons c s ih =>
    cases t with
    | nil => cases hlength
    | cons d t =>
      rw [List.cons_lt_cons_iff] at h
      rw [List.cons_append, List.cons_append, List.cons_lt_cons_iff]
      rcases h with hless | ⟨rfl, hrest⟩
      · exact .inl hless
      · exact .inr ⟨rfl, ih (Nat.succ.inj hlength) hrest⟩

def pad (width n : ℕ) : Text := List.leftpad width '0' (ofNat n)

theorem pad_length {width n : ℕ} (hwidth : 0 < width) (h : n < 10 ^ width) :
    (pad width n).length = width := by
  rw [pad, List.length_leftpad]
  exact max_eq_left ((Nat.length_toDigits_le_iff (by decide) hwidth).mpr h)

theorem pad_succ {width : ℕ} (hwidth : 0 < width) (n : ℕ) :
    pad (width + 1) n = pad width (n / 10) ++ [Nat.digitChar (n % 10)] := by
  rw [pad, pad, ofNat, ofNat, Nat.toDigits_eq_if (by decide)]
  by_cases hsmall : n < 10
  · obtain ⟨k, rfl⟩ : ∃ k, width = k + 1 := ⟨width - 1, by omega⟩
    rw [if_pos hsmall, Nat.div_eq_of_lt hsmall, Nat.mod_eq_of_lt hsmall, Nat.toDigits_zero]
    simp only [List.leftpad, List.length_singleton, Nat.add_sub_cancel]
    rw [List.replicate_succ']
  · rw [if_neg hsmall]
    simp only [List.leftpad, List.length_append, List.length_singleton, Nat.add_sub_add_right,
      List.append_assoc]

theorem digit_char_lt {m n : ℕ} (h : m < n) (hn : n < 10) : Nat.digitChar m < Nat.digitChar n := by
  interval_cases n
  all_goals
    interval_cases m
    all_goals decide

theorem pad_lt {width m n : ℕ} (hwidth : 0 < width) (h : m < n) (hn : n < 10 ^ width) :
    pad width m < pad width n := by
  induction width, hwidth using Nat.le_induction generalizing m n with
  | base =>
    have hdigit : ∀ k < 10, pad 1 k = [Nat.digitChar k] := by
      intro k hk
      rw [pad, ofNat, Nat.toDigits_of_lt_base hk]
      rfl
    rw [hdigit m (by omega), hdigit n hn, List.cons_lt_cons_iff]
    exact .inl (digit_char_lt h hn)
  | succ width hwidth ih =>
    rw [pad_succ hwidth, pad_succ hwidth]
    rw [Nat.pow_succ] at hn
    by_cases hsame : m / 10 = n / 10
    · rw [hsame]
      apply List.append_left_lt
      rw [List.cons_lt_cons_iff]
      exact .inl (digit_char_lt (by omega) (Nat.mod_lt _ (by decide)))
    · have htens : n / 10 < 10 ^ width := by omega
      apply lt_append
      · rw [pad_length hwidth htens, pad_length hwidth (by omega)]
      · exact ih (by omega) htens

theorem padded_nat (width n : ℕ) : padded width n = pad width n :=
  if_neg (by omega)

theorem field_lt {width m n : ℕ} {c : Char} {u v : Text} (hwidth : 0 < width) (hm : m < 10 ^ width)
    (hn : n < 10 ^ width) (h : m < n ∨ m = n ∧ u < v) :
    padded width m ++ c :: u < padded width n ++ c :: v := by
  rw [padded_nat, padded_nat]
  rcases h with hless | ⟨rfl, hrest⟩
  · apply lt_append _ _ _ (pad_lt hwidth hless hn)
    rw [pad_length hwidth hm, pad_length hwidth hn]
  · apply List.append_left_lt
    rw [List.cons_lt_cons_iff]
    exact .inr ⟨rfl, hrest⟩

namespace Instant

variable {s t : Instant}

theorem before_of_lt (h : s.epochMs < t.epochMs) : Before s.date t.date ∨ s.date = t.date ∧
    (s.hour < t.hour ∨ s.hour = t.hour ∧ (s.minute < t.minute ∨ s.minute = t.minute ∧
      (s.second < t.second ∨ s.second = t.second ∧ s.millisecond < t.millisecond))) := by
  obtain ⟨first, hour, minute, second, millisecond, _, _, _, _⟩ := s
  obtain ⟨later, hour', minute', second', millisecond', _, _, _, _⟩ := t
  simp only [epochMs] at h ⊢
  rcases date_trichotomy first later with hbefore | hsame | hafter
  · exact .inl hbefore
  · rw [hsame] at h
    right
    exact ⟨hsame, by omega⟩
  · have hnumber := number_lt hafter
    omega

theorem epoch_inj (h : s.epochMs = t.epochMs) : s = t := by
  obtain ⟨first, hour, minute, second, millisecond, _, _, _, _⟩ := s
  obtain ⟨later, hour', minute', second', millisecond', _, _, _, _⟩ := t
  simp only [epochMs] at h
  have hdate : first.number = later.number := by omega
  rw [number_inj hdate] at h ⊢
  rw [mk.injEq]
  exact ⟨rfl, by omega⟩

theorem epoch_day (t : Instant) : t.epochMs / 86400000 = t.date.number := by
  have hhour := t.hour_lt
  have hminute := t.minute_lt
  have hsecond := t.second_lt
  have hmillisecond := t.millisecond_lt
  rw [epochMs]
  omega

theorem day_lt (t : Instant) : t.date.day < 10 ^ 2 := by
  have hday := t.date.day_le
  have hlength := month_length_le t.date.year t.date.month
  omega

theorem render_lt (hs : 0 ≤ s.date.year ∧ s.date.year < 10000)
    (ht : 0 ≤ t.date.year ∧ t.date.year < 10000) (h : s.epochMs < t.epochMs) :
    s.render < t.render := by
  obtain ⟨m, hm⟩ := Int.eq_ofNat_of_zero_le hs.1
  obtain ⟨n, hn⟩ := Int.eq_ofNat_of_zero_le ht.1
  have hlex : m < n ∨ m = n ∧ (s.date.month < t.date.month ∨ s.date.month = t.date.month ∧
      (s.date.day < t.date.day ∨ s.date.day = t.date.day ∧ (s.hour < t.hour ∨ s.hour = t.hour ∧
        (s.minute < t.minute ∨ s.minute = t.minute ∧ (s.second < t.second ∨
          s.second = t.second ∧ s.millisecond < t.millisecond))))) := by
    rcases before_of_lt h with hbefore | ⟨hsame, htime⟩
    · rw [Before, hm, hn] at hbefore
      omega
    · rw [hsame] at hm ⊢
      omega
  rw [render, render, hm, hn, isoText, isoText]
  apply field_lt (by decide) (by omega) (by omega)
  apply hlex.imp_right
  apply And.imp_right
  intro hmonth
  have hs' := s.date.month_le
  have ht' := t.date.month_le
  apply field_lt (by decide) (by omega) (by omega)
  apply hmonth.imp_right
  apply And.imp_right
  intro hday
  apply field_lt (by decide) s.day_lt t.day_lt
  apply hday.imp_right
  apply And.imp_right
  intro hhour
  have hs'' := s.hour_lt
  have ht'' := t.hour_lt
  apply field_lt (by decide) (by omega) (by omega)
  apply hhour.imp_right
  apply And.imp_right
  intro hminute
  have hs''' := s.minute_lt
  have ht''' := t.minute_lt
  apply field_lt (by decide) (by omega) (by omega)
  apply hminute.imp_right
  apply And.imp_right
  intro hsecond
  have hs4 := s.second_lt
  have ht4 := t.second_lt
  apply field_lt (by decide) (by omega) (by omega)
  apply hsecond.imp_right
  apply And.imp_right
  intro hmillisecond
  exact field_lt (by decide) s.millisecond_lt t.millisecond_lt (.inl hmillisecond)

end Instant

theorem time_of_day {ms : ℤ} (hpos : 0 ≤ ms) (hlt : ms < 86400000) :
    ∃ hour minute second millisecond : ℕ, hour < 24 ∧ minute < 60 ∧ second < 60 ∧
      millisecond < 1000 ∧ ms / 3600000 = hour ∧ ms % 3600000 / 60000 = minute ∧
        ms % 60000 / 1000 = second ∧ ms % 1000 = millisecond ∧
          ((hour * 60 + minute) * 60 + second) * 1000 + millisecond = ms := by
  obtain ⟨n, rfl⟩ := Int.eq_ofNat_of_zero_le hpos
  have hday : n < 86400000 := by omega
  refine ⟨n / 3600000, n % 3600000 / 60000, n % 60000 / 1000, n % 1000, by omega, by omega,
    by omega, by omega, rfl, rfl, rfl, rfl, ?_⟩
  have hminutes : n / 60000 = n / 3600000 * 60 + n % 3600000 / 60000 := by omega
  have hseconds : n / 1000 = n / 60000 * 60 + n % 60000 / 1000 := by omega
  have hwhole := Nat.div_add_mod n 1000
  push_cast
  omega

theorem iso_instant (ms : ℤ) : ∃ t : Instant, t.epochMs = ms ∧ iso8601FromEpochMs ms = t.render := by
  obtain ⟨date, hnumber, hcivil⟩ := civil_date (ms / 86400000)
  obtain ⟨hour, minute, second, millisecond, hhour, hminute, hsecond, hmillisecond, h1, h2, h3, h4,
    hwhole⟩ := time_of_day (Int.emod_nonneg ms (by decide)) (Int.emod_lt_of_pos ms (by decide))
  refine ⟨⟨date, hour, minute, second, millisecond, hhour, hminute, hsecond, hmillisecond⟩, ?_, ?_⟩
  · have hms := Int.emod_add_mul_ediv ms 86400000
    rw [Instant.epochMs]
    simp only [hnumber]
    omega
  · rw [iso8601FromEpochMs, Instant.render]
    simp only [hcivil, h1, h2, h3, h4]

/-- The instant lies in one of the years 0 to 9999. -/
def InYears (ms : ℤ) : Prop :=
  yearStart 0 * 86400000 ≤ ms ∧ ms < yearStart 10000 * 86400000

theorem instant_years {t : Instant} (h : InYears t.epochMs) :
    0 ≤ t.date.year ∧ t.date.year < 10000 := by
  obtain ⟨hleast, hmost⟩ := h
  obtain ⟨hstart, hend⟩ := number_year t.date
  have hfirst : yearStart 0 ≤ t.date.number := by
    rw [← t.epoch_day]
    omega
  have hlast : t.date.number < yearStart 10000 := by
    rw [← t.epoch_day]
    omega
  constructor
  · by_contra hnegative
    have hbefore := year_start_le (show t.date.year + 1 ≤ 0 by omega)
    omega
  · by_contra hlate
    have hafter := year_start_le (Int.not_lt.mp hlate)
    omega

/-- The text is that of the one instant, and stands before the texts of all later ones. -/
theorem iso8601_from_epoch (ms : ℤ) (h : InYears ms) : ∃ t : Instant, t.epochMs = ms ∧
    t.date.number = ms / 86400000 ∧ (∀ u : Instant, u.epochMs = ms → u = t) ∧
      iso8601FromEpochMs ms = t.render ∧ ∀ later, InYears later → ms < later →
        iso8601FromEpochMs ms < iso8601FromEpochMs later := by
  obtain ⟨t, rfl, hrender⟩ := iso_instant ms
  refine ⟨t, rfl, t.epoch_day.symm, fun u hu => Instant.epoch_inj hu, hrender, ?_⟩
  intro later hlater hless
  obtain ⟨u, rfl, hother⟩ := iso_instant later
  rw [hrender, hother]
  exact Instant.render_lt (instant_years h) (instant_years hlater) hless

/-- The last day of February in a leap year that is a century. -/
theorem iso8601_leap_day : ∃ t : Instant, t.epochMs = 951782400000 ∧
    t.date.number = 951782400000 / 86400000 ∧
      (∀ u : Instant, u.epochMs = 951782400000 → u = t) ∧
        iso8601FromEpochMs 951782400000 = t.render ∧ ∀ later, InYears later →
          951782400000 < later → iso8601FromEpochMs 951782400000 < iso8601FromEpochMs later :=
  iso8601_from_epoch 951782400000 (by unfold InYears; decide)

example : iso8601FromEpochMs 951782400000 = "2000-02-29T00:00:00.000Z".toList := by decide

example : iso8601FromEpochMs (-1) = "1969-12-31T23:59:59.999Z".toList := by decide

end Siralos.EpochTime
