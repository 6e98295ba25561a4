import Mathlib.Algebra.Ring.Nat
import Vigil.Proofs.Text.Runs
import Vigil.Report.Instant

/-!
# Reading a point in time back

The text of a point in time loses nothing. `Date.days` is the way back from a date to its day, and the parts of
the text have fixed places, but for the year, which stands in front.
-/

namespace Vigil.Report

-- ---------------------------------------------------------------------------
-- Dates
-- ---------------------------------------------------------------------------

/-- Every fourth year has a leap day, but for those at the end of a century. -/
theorem yearOfEra_spec {n : Nat} (hn : n < daysPerEra) :
    let y := (n - n / 1460 + n / 36524 - n / 146096) / 365
    y < 400 ∧ 365 * y + y / 4 - y / 100 ≤ n ∧ n - (365 * y + y / 4 - y / 100) ≤ 365 := by
  intro y
  by_cases hlast : n = 146096
  · subst hlast
    decide
  unfold daysPerEra at hn
  -- centuries, leap cycles and years passed, each counted in days
  obtain ⟨c, q, s, hsum, hc, hq, hs, hcentury⟩ : ∃ c q s, n = 36524 * c + 1461 * q + s ∧
      c ≤ 3 ∧ q ≤ 24 ∧ s ≤ 1460 ∧ 1461 * q + s ≤ 36523 :=
    ⟨n / 36524, n % 36524 / 1461, n % 36524 % 1461, by omega, by omega, by omega, by omega, by omega⟩
  have h1460 : n / 1460 = 25 * c + q + (24 * c + q + s) / 1460 := by omega
  have h36524 : n / 36524 = c := by omega
  have h146096 : n / 146096 = 0 := by omega
  obtain ⟨k, hk, hy, hfirst, hrest⟩ : ∃ k ≤ 3, y = 100 * c + 4 * q + k ∧ 365 * k ≤ s ∧ s - 365 * k ≤ 365 := by
    refine ⟨(s - (24 * c + q + s) / 1460) / 365, ?_⟩
    simp only [y, h1460, h36524, h146096]
    omega
  have h4 : y / 4 = 25 * c + q := by omega
  have h100 : y / 100 = c := by omega
  rw [h4, h100]
  omega

def Date.days (d : Date) : Int :=
  let month : Nat := if d.month ≤ 2 then d.month + 9 else d.month - 3
  let year : Int := if d.month ≤ 2 then d.year - 1 else d.year
  365 * year + year / 4 - year / 100 + year / 400 + ((153 * month + 2) / 5 + d.day - 1 : Nat) - daysToEpoch

def Date.ofYear (era : Int) (year day : Nat) : Date :=
  let month := (5 * day + 2) / 153
  { year := if month < 10 then era * 400 + year else era * 400 + year + 1
    month := if month < 10 then month + 3 else month - 9
    day := day - (153 * month + 2) / 5 + 1 }

/-- Months from March on are thirty and thirty-one days long by turns, but for the last. -/
theorem monthOfYear_spec {day : Nat} (hday : day ≤ 365) :
    (5 * day + 2) / 153 ≤ 11 ∧ (153 * ((5 * day + 2) / 153) + 2) / 5 ≤ day ∧
      day - (153 * ((5 * day + 2) / 153) + 2) / 5 ≤ 30 := by
  omega

theorem Date.days_ofYear {era : Int} {year day : Nat} (hyear : year < 400) (hday : day ≤ 365) :
    (ofYear era year day).days =
      146097 * era + (365 * year + year / 4 - year / 100 : Nat) + day - daysToEpoch := by
  obtain ⟨hmonth, hbegun, -⟩ := monthOfYear_spec hday
  unfold ofYear days
  generalize (5 * day + 2) / 153 = month at *
  by_cases hwinter : month < 10
  · have hlate : ¬ month + 3 ≤ 2 := by omega
    simp only [hwinter, hlate, if_true, if_false]
    omega
  · have hearly : month - 9 ≤ 2 := by omega
    simp only [hwinter, hearly, if_true, if_false]
    omega

theorem Date.ofDays_eq (n : Int) : ∃ era year day, ofDays n = ofYear era year day ∧ year < 400 ∧ day ≤ 365 ∧
    n = 146097 * era + (365 * year + year / 4 - year / 100 : Nat) + day - daysToEpoch := by
  have hpos : (0 : Int) < daysPerEra := by decide
  have hnonneg := Int.fmod_nonneg_of_pos (n + daysToEpoch) hpos
  have hlt := Int.fmod_lt_of_pos (n + daysToEpoch) hpos
  have hsum := Int.mul_fdiv_add_fmod (n + daysToEpoch) daysPerEra
  obtain ⟨hyear, hbegun, hrest⟩ := yearOfEra_spec (n := (Int.fmod (n + daysToEpoch) daysPerEra).toNat) (by omega)
  refine ⟨_, _, _, rfl, hyear, hrest, ?_⟩
  unfold daysPerEra at *
  omega

theorem Date.days_ofDays (n : Int) : (ofDays n).days = n := by
  obtain ⟨era, year, day, hdate, hyear, hday, hn⟩ := ofDays_eq n
  rw [hdate, days_ofYear hyear hday, hn]

theorem Date.ofDays_inj {n k : Int} (h : ofDays n = ofDays k) : n = k := by
  rw [← days_ofDays n, h, days_ofDays]

theorem Date.ofDays_bounds (n : Int) : (ofDays n).month ≤ 12 ∧ (ofDays n).day ≤ 31 := by
  obtain ⟨era, year, day, hdate, -, hday, -⟩ := ofDays_eq n
  obtain ⟨hmonth, -, hlast⟩ := monthOfYear_spec hday
  rw [hdate]
  unfold ofYear
  constructor
  · simp only
    split <;> omega
  · simp only
    omega

-- ---------------------------------------------------------------------------
-- Digits
-- ---------------------------------------------------------------------------

theorem isDigit_of_mem_padded {width n : Nat} {c : Char} (h : c ∈ Decimal.padded width n) : c.isDigit := by
  rcases List.mem_append.mp h with h | h
  · rw [List.eq_of_mem_replicate h]
    decide
  · exact Nat.isDigit_of_mem_toDigits (by decide) (by decide) h

theorem not_mem_padded {width n : Nat} {c : Char} (hc : ¬ c.isDigit) : c ∉ Decimal.padded width n :=
  fun h => hc (isDigit_of_mem_padded h)

/-- The zeros in front do not count. -/
theorem padded_inj {width width' n k : Nat} (h : Decimal.padded width n = Decimal.padded width' k) : n = k := by
  have hvalue (width n : Nat) : Nat.ofDigitChars 10 (Decimal.padded width n) 0 = n := by
    rw [Decimal.padded, Nat.ofDigitChars_append, Nat.ofDigitChars_replicate_zero, Nat.mul_zero]
    exact Nat.ofDigitChars_ten_toDigits
  rw [← hvalue width n, h, hvalue]

theorem length_padded {width n : Nat} (hwidth : 0 < width) (hn : n < 10 ^ width) :
    (Decimal.padded width n).length = width := by
  have hlength := (Nat.length_toDigits_le_iff (by decide) hwidth).mpr hn
  rw [Decimal.padded, List.length_append, List.length_replicate]
  exact Nat.sub_add_cancel hlength

theorem padded_head (width n : Nat) : ∃ c cs, Decimal.padded width n = c :: cs ∧ c.isDigit := by
  have hne : Decimal.padded width n ≠ [] := List.append_ne_nil_of_right_ne_nil _ Nat.toDigits_ne_nil
  obtain ⟨c, cs, hcs⟩ := List.exists_cons_of_ne_nil hne
  have hc : c ∈ Decimal.padded width n := hcs ▸ List.mem_cons_self
  exact ⟨c, cs, hcs, isDigit_of_mem_padded hc⟩

@[simp] theorem toList_twoDigits (n : Nat) : (twoDigits n).toList = Decimal.padded 2 n := String.toList_ofList

-- ---------------------------------------------------------------------------
-- Texts
-- ---------------------------------------------------------------------------

theorem toList_yearText (year : Int) : (yearText year).toList =
    if year < 0 then '-' :: Decimal.padded 4 year.natAbs
    else if 9999 < year then '+' :: Decimal.padded 4 year.natAbs
    else Decimal.padded 4 year.natAbs := by
  unfold yearText
  by_cases hneg : year < 0
  · have hout : ¬ (0 ≤ year ∧ year ≤ 9999) := by omega
    simp [hout, hneg]
  · by_cases hlate : 9999 < year
    · have hout : ¬ (0 ≤ year ∧ year ≤ 9999) := by omega
      simp [hout, hneg, hlate]
    · have hin : 0 ≤ year ∧ year ≤ 9999 := by omega
      simp [hin, hneg, hlate]

theorem head_yearText (year : Int) : (yearText year).toList.head? = some '-' ↔ year < 0 := by
  rw [toList_yearText]
  split
  · simp [*]
  · split
    · simp [*]
    · obtain ⟨c, cs, hcs, hc⟩ := padded_head 4 year.natAbs
      have hminus : c ≠ '-' := by
        rintro rfl
        exact absurd hc (by decide)
      simp [*]

theorem digits_yearText (year : Int) :
    (yearText year).toList.filter Char.isDigit = Decimal.padded 4 year.natAbs := by
  have hdigits : (Decimal.padded 4 year.natAbs).filter Char.isDigit = Decimal.padded 4 year.natAbs :=
    List.filter_eq_self.mpr fun _ hc => isDigit_of_mem_padded hc
  rw [toList_yearText]
  split
  · rwa [List.filter_cons_of_neg (by decide)]
  · split
    · rwa [List.filter_cons_of_neg (by decide)]
    · exact hdigits

theorem yearText_inj {year other : Int} (h : (yearText year).toList = (yearText other).toList) :
    year = other := by
  have hsign := (head_yearText year).symm.trans (h ▸ head_yearText other)
  have habs : year.natAbs = other.natAbs := padded_inj <| by
    rw [← digits_yearText, h, digits_yearText]
  omega

theorem Date.toList_text (d : Date) : d.text.toList = (yearText d.year).toList ++
    '-' :: (Decimal.padded 2 d.month ++ '-' :: Decimal.padded 2 d.day) := by
  simp [text, toString]

theorem Date.not_mem_text (d : Date) : 'T' ∉ d.text.toList := by
  have hdigits (width n : Nat) : 'T' ∉ Decimal.padded width n := not_mem_padded (by decide)
  rw [toList_text, toList_yearText]
  split
  · simp [hdigits]
  · split <;> simp [hdigits]

theorem Date.text_inj {n k : Int} (h : (ofDays n).text.toList = (ofDays k).text.toList) : n = k := by
  have hlength {m : Nat} (hm : m < 100) : (Decimal.padded 2 m).length = 2 := length_padded (by decide) hm
  have hn := ofDays_bounds n
  have hk := ofDays_bounds k
  have hmonth := hlength (m := (ofDays n).month) (by omega)
  have hmonth' := hlength (m := (ofDays k).month) (by omega)
  have hday := hlength (m := (ofDays n).day) (by omega)
  have hday' := hlength (m := (ofDays k).day) (by omega)
  rw [toList_text, toList_text] at h
  obtain ⟨hyear, hrest⟩ := List.append_inj' h (by simp [hmonth, hmonth', hday, hday'])
  obtain ⟨hmonths, hdays⟩ := List.append_inj (List.tail_eq_of_cons_eq hrest) (hmonth.trans hmonth'.symm)
  refine ofDays_inj ?_
  rw [Date.mk.injEq]
  exact ⟨yearText_inj hyear, padded_inj hmonths, padded_inj (List.tail_eq_of_cons_eq hdays)⟩

namespace Instant

variable {i j : Instant} {x y : List Char}

/-- A point in time that a clock shows. Only the last second of a minute can be followed by a leap second. -/
structure Valid (i : Instant) : Prop where
  nanos_lt : i.nanos < 2 * nanosPerSecond
  leap : nanosPerSecond ≤ i.nanos → i.seconds % 60 = 59

theorem valid_of_lt (h : i.nanos < nanosPerSecond) : i.Valid :=
  ⟨by omega, fun hleap => absurd h (Nat.not_lt.mpr hleap)⟩

def ofDay (i : Instant) : Nat := (Int.fmod i.seconds 86400).toNat

theorem ofDay_spec (i : Instant) : i.seconds = 86400 * Int.fdiv i.seconds 86400 + i.ofDay ∧ i.ofDay < 86400 := by
  have hsum := Int.mul_fdiv_add_fmod i.seconds 86400
  have hnonneg := Int.fmod_nonneg_of_pos i.seconds (b := 86400) (by decide)
  have hlt := Int.fmod_lt_of_pos i.seconds (b := 86400) (by decide)
  unfold ofDay
  omega

theorem toList_secondText (i : Instant) : i.secondText.toList = i.date.text.toList ++ 'T' ::
    (Decimal.padded 2 (i.ofDay / 3600) ++ ':' :: (Decimal.padded 2 (i.ofDay / 60 % 60) ++ ':' ::
      Decimal.padded 2 (i.ofDay % 60 + i.nanos / nanosPerSecond))) := by
  simp [secondText, toString, ofDay]

/-- The text down to the second tells the second, and whether it is a leap second. -/
theorem secondText_append_inj (hi : i.Valid) (hj : j.Valid)
    (h : i.secondText.toList ++ x = j.secondText.toList ++ y) :
    i.seconds = j.seconds ∧ i.nanos / nanosPerSecond = j.nanos / nanosPerSecond ∧ x = y := by
  obtain ⟨hsum, hlt⟩ := i.ofDay_spec
  obtain ⟨hsum', hlt'⟩ := j.ofDay_spec
  obtain ⟨hnanos, hleap⟩ := hi
  obtain ⟨hnanos', hleap'⟩ := hj
  have hcolon (n : Nat) : ':' ∉ Decimal.padded 2 n := not_mem_padded (by decide)
  simp only [toList_secondText, List.append_assoc, List.cons_append] at h
  obtain ⟨hdate, h⟩ := Scan.append_stop_inj (Date.not_mem_text _) (Date.not_mem_text _) h
  obtain ⟨hhours, h⟩ := Scan.append_stop_inj (hcolon _) (hcolon _) h
  obtain ⟨hminutes, h⟩ := Scan.append_stop_inj (hcolon _) (hcolon _) h
  have hday := Date.text_inj hdate
  replace hhours := padded_inj hhours
  replace hminutes := padded_inj hminutes
  unfold nanosPerSecond at *
  obtain ⟨hseconds, hrest⟩ := List.append_inj h <| by
    rw [length_padded (by decide) (by omega), length_padded (by decide) (by omega)]
  replace hseconds := padded_inj hseconds
  refine ⟨?_, ?_, hrest⟩ <;> omega

def places (i : Instant) : Nat :=
  if i.fraction % 1000000 = 0 then 3 else if i.fraction % 1000 = 0 then 6 else 9

def shown (i : Instant) : Nat := i.fraction / 10 ^ (9 - i.places)

theorem shown_spec (i : Instant) : i.fraction = i.shown * 10 ^ (9 - i.places) ∧ i.shown < 10 ^ i.places := by
  have hlt : i.fraction < 1000000000 := Nat.mod_lt _ (by decide)
  unfold shown places
  split
  · omega
  · split <;> omega

theorem places_pos (i : Instant) : 0 < i.places := by
  unfold places
  split
  · decide
  · split <;> decide

theorem toList_text (i : Instant) : i.text.toList = i.secondText.toList ++
    if i.fraction = 0 then ['Z'] else '.' :: (Decimal.padded i.places i.shown ++ ['Z']) := by
  unfold text fractionText
  by_cases hzero : i.fraction = 0
  · simp [hzero, toString]
  · simp [hzero, toString, places, shown]

theorem fraction_inj (h : Decimal.padded i.places i.shown = Decimal.padded j.places j.shown) :
    i.fraction = j.fraction := by
  obtain ⟨hfraction, hlt⟩ := i.shown_spec
  obtain ⟨hfraction', hlt'⟩ := j.shown_spec
  have hplaces := congrArg List.length h
  rw [length_padded i.places_pos hlt, length_padded j.places_pos hlt'] at hplaces
  rw [hfraction, hfraction', padded_inj h, hplaces]

/-- Every point in time has a text of its own. -/
theorem text_inj (hi : i.Valid) (hj : j.Valid) (h : i.text = j.text) : i = j := by
  replace h := congrArg String.toList h
  rw [toList_text, toList_text] at h
  obtain ⟨hseconds, hleap, hrest⟩ := secondText_append_inj hi hj h
  have hfraction : i.fraction = j.fraction := by
    split at hrest <;> split at hrest
    · rename_i hzero hzero'
      rw [hzero, hzero']
    · simp at hrest
    · simp at hrest
    · exact fraction_inj (List.append_cancel_right (List.tail_eq_of_cons_eq hrest))
  have hnanos : i.nanos = j.nanos := by
    rw [← Nat.div_add_mod i.nanos nanosPerSecond, hleap]
    exact (congrArg _ hfraction).trans (Nat.div_add_mod j.nanos nanosPerSecond)
  cases i
  cases j
  rw [Instant.mk.injEq]
  exact ⟨hseconds, hnanos⟩

end Instant

end Vigil.Report
