import TensorGrep.Kernel.Calendar
import TensorGrep.Audit.NativeManifests

/-!
# The dates of timestamps

The native tool computes the date of a timestamp with integer divisions, from a day number
that is split into eras of four hundred years, years that begin with March, and months.

`epochSecondsToIso8601Utc_denotes` says that the text is that of the date so many days after
the first of January 1970, that every intermediate value is in its range, and that an earlier
instant has a smaller text.
-/

namespace TensorGrep
namespace Audit

open Kernel

/-! ## The steps of the conversion -/

/-- `z`: the days since the first of March of the year 0. -/
def shiftedDays (epochSecs : ℕ) : ℕ :=
  epochSecs / 86400 + 719468

/-- `era`. -/
def era (z : ℕ) : ℕ :=
  z / 146097

/-- `doe`. -/
def dayOfEra (z : ℕ) : ℕ :=
  z - era z * 146097

/-- `yoe`. -/
def yearOfEra (doe : ℕ) : ℕ :=
  (doe - doe / 1460 + doe / 36524 - doe / 146096) / 365

/-- The first day of a year of an era. -/
def yearStart (yoe : ℕ) : ℕ :=
  365 * yoe + yoe / 4 - yoe / 100

/-- `doy`. -/
def dayOfYear (doe : ℕ) : ℕ :=
  doe - yearStart (yearOfEra doe)

/-- The date of an instant. -/
def civilDate (epochSecs : ℕ) : Date :=
  Date.ofMarch (yearOfEra (dayOfEra (shiftedDays epochSecs)) + era (shiftedDays epochSecs) * 400)
    (dayOfYear (dayOfEra (shiftedDays epochSecs)))

/-- The text of a date and a time. -/
def isoText
    (date : Date)
    (hour minute second : ℕ) : Bytes :=
  padded 4 date.year ++ asciiBytes "-" ++ padded 2 date.month ++ asciiBytes "-" ++
    padded 2 date.day ++ asciiBytes "T" ++ padded 2 hour ++ asciiBytes ":" ++
    padded 2 minute ++ asciiBytes ":" ++ padded 2 second ++ asciiBytes "Z"

/-- The bytes are put together from those steps. -/
theorem isoBytes_eq (epochSecs : ℕ) :
    isoBytes epochSecs = isoText (civilDate epochSecs) (epochSecs % 86400 / 3600)
      (epochSecs % 86400 % 3600 / 60) (epochSecs % 86400 % 60) :=
  rfl

/-! ## Years of an era -/

/-- A later day is not in an earlier year. -/
theorem yearOfEra_mono
    {m n : ℕ}
    (h : m ≤ n) :
    yearOfEra m ≤ yearOfEra n := by
  induction n, h using Nat.le_induction with
  | base => exact le_refl _
  | succ n _ ih =>
      refine ih.trans (Nat.div_le_div_right ?_)
      have hsmall : n / 1460 ≤ n := Nat.div_le_self n 1460
      have hcenturies : n / 146096 ≤ n / 36524 := Nat.div_le_div_left (by decide) (by decide)
      have hone : (if 1460 ∣ n + 1 then 1 else 0) ≤ 1 := by split_ifs <;> decide
      -- What is taken off at the end of an era has been added for its last century.
      have hera : (if 146096 ∣ n + 1 then 1 else 0) ≤ if 36524 ∣ n + 1 then 1 else 0 := by
        by_cases hera : 146096 ∣ n + 1
        · rw [if_pos hera, if_pos (Dvd.dvd.trans (by decide) hera)]
        · rw [if_neg hera]
          exact Nat.zero_le _
      simp only [Nat.succ_div]
      omega

/-- The first day of every year, and the last one. -/
theorem yearOfEra_ends :
    ∀ y < 400, yearOfEra (daysBeforeMarchYear y) = y ∧
      yearOfEra (daysBeforeMarchYear (y + 1) - 1) = y := by
  decide +kernel

theorem yearOfEra_lt
    {doe : ℕ}
    (h : doe < 146097) :
    yearOfEra doe < 400 := by
  have hlast : yearOfEra 146096 = 399 := by decide
  have hle := yearOfEra_mono (Nat.le_of_lt_succ h)
  omega

theorem yearStart_eq
    {y : ℕ}
    (h : y < 400) :
    yearStart y = daysBeforeMarchYear y := by
  unfold yearStart daysBeforeMarchYear
  omega

/-- A day of an era is in its year. -/
theorem yearOfEra_spec
    {doe : ℕ}
    (h : doe < 146097) :
    daysBeforeMarchYear (yearOfEra doe) ≤ doe ∧
      doe < daysBeforeMarchYear (yearOfEra doe + 1) := by
  have hyear := yearOfEra_lt h
  refine ⟨?_, ?_⟩
  · by_contra hlt
    obtain ⟨y, hy⟩ : ∃ y, yearOfEra doe = y + 1 := by
      refine Nat.exists_eq_succ_of_ne_zero fun hzero => ?_
      rw [hzero] at hlt
      exact hlt (Nat.zero_le doe)
    have hmono := yearOfEra_mono (Nat.le_sub_one_of_lt (not_le.mp hlt))
    rw [hy, (yearOfEra_ends y (by omega)).2] at hmono
    omega
  · by_contra hle
    have hnext : yearOfEra doe + 1 < 400 := by
      by_contra hlast
      have hfour : yearOfEra doe + 1 = 400 := by omega
      rw [hfour] at hle
      exact hle h
    have hmono := yearOfEra_mono (not_lt.mp hle)
    rw [(yearOfEra_ends _ hnext).1] at hmono
    omega

/-- Eras have the same days. -/
theorem daysBeforeMarchYear_add_era
    (year era : ℕ) :
    daysBeforeMarchYear (year + era * 400) = daysBeforeMarchYear year + era * 146097 := by
  unfold daysBeforeMarchYear
  omega

theorem dayOfEra_lt (z : ℕ) : dayOfEra z < 146097 := by
  unfold dayOfEra era
  omega

/-- The split of a day number. -/
theorem shiftedDays_split (z : ℕ) :
    daysBeforeMarchYear (yearOfEra (dayOfEra z) + era z * 400) + dayOfYear (dayOfEra z) = z ∧
      dayOfYear (dayOfEra z) < marchYearLength (yearOfEra (dayOfEra z) + era z * 400) := by
  obtain ⟨hstart, hstop⟩ := yearOfEra_spec (dayOfEra_lt z)
  have hyear := yearStart_eq (yearOfEra_lt (dayOfEra_lt z))
  have hera : era z * 146097 ≤ z := Nat.div_mul_le_self z 146097
  have hday : dayOfEra z = z - era z * 146097 := rfl
  have hlength := daysBeforeMarchYear_succ (yearOfEra (dayOfEra z) + era z * 400)
  rw [Nat.add_right_comm, daysBeforeMarchYear_add_era, daysBeforeMarchYear_add_era] at hlength
  rw [daysBeforeMarchYear_add_era, dayOfYear, hyear]
  omega

/-- The first of January 1970. -/
def epochDate : Date where
  year := 1970
  month := 1
  day := 1

/-- The date of an instant is that of the days since 1970. -/
theorem civilDate_eq_iterate (epochSecs : ℕ) :
    civilDate epochSecs = Date.next^[epochSecs / 86400] epochDate := by
  have hsplit : ∀ n, _ := fun n : ℕ => shiftedDays_split (n + 719468)
  have hiterate := iterate_next_eq_ofMarch (fun n => (hsplit n).1) (fun n => (hsplit n).2)
    (epochSecs / 86400)
  have hstart : Date.ofMarch (yearOfEra (dayOfEra (0 + 719468)) + era (0 + 719468) * 400)
      (dayOfYear (dayOfEra (0 + 719468))) = epochDate := by decide
  rw [hstart] at hiterate
  exact hiterate.symm

/-! ## Ranges -/

/-- Every intermediate value is in its range, and no difference is below zero. -/
structure InRanges (epochSecs : ℕ) : Prop where
  doe : dayOfEra (shiftedDays epochSecs) ≤ 146096
  yoe : yearOfEra (dayOfEra (shiftedDays epochSecs)) ≤ 399
  doyBorrow : yearStart (yearOfEra (dayOfEra (shiftedDays epochSecs))) ≤
    dayOfEra (shiftedDays epochSecs)
  doy : dayOfYear (dayOfEra (shiftedDays epochSecs)) ≤ 365
  mp : marchMonth (dayOfYear (dayOfEra (shiftedDays epochSecs))) ≤ 11
  dayBorrow : monthStart (marchMonth (dayOfYear (dayOfEra (shiftedDays epochSecs)))) ≤
    dayOfYear (dayOfEra (shiftedDays epochSecs))
  month : 1 ≤ (civilDate epochSecs).month ∧ (civilDate epochSecs).month ≤ 12
  day : 1 ≤ (civilDate epochSecs).day ∧ (civilDate epochSecs).day ≤ 31

theorem inRanges (epochSecs : ℕ) : InRanges epochSecs := by
  set z := shiftedDays epochSecs with hz
  have hera := dayOfEra_lt z
  obtain ⟨hstart, hstop⟩ := yearOfEra_spec hera
  have hyear := yearStart_eq (yearOfEra_lt hera)
  have hsplit := (shiftedDays_split z).2
  have hmax : marchYearLength (yearOfEra (dayOfEra z) + era z * 400) ≤ 366 := by
    unfold marchYearLength
    split_ifs <;> decide
  have hday : dayOfYear (dayOfEra z) < 366 := lt_of_lt_of_le hsplit hmax
  have hbounds := ofMarch_bounds (yearOfEra (dayOfEra z) + era z * 400) hday
  exact
    { doe := Nat.le_of_lt_succ hera
      yoe := Nat.le_of_lt_succ (yearOfEra_lt hera)
      doyBorrow := hyear.trans_le hstart
      doy := Nat.le_of_lt_succ hday
      mp := by
        rw [← hz]
        unfold marchMonth
        omega
      dayBorrow := (marchMonth_eq_iff.mp rfl).1
      month := hbounds.1
      day := hbounds.2 }

/-! ## The order of the texts -/

/-- Texts of one length are ordered by what they begin with. -/
theorem append_lt_append_of_length_eq
    {a b c d : Bytes}
    (hlength : a.length = b.length)
    (h : a < b) :
    a ++ c < b ++ d := by
  induction a generalizing b with
  | nil =>
      cases b with
      | nil => exact absurd h (List.not_lt_nil [])
      | cons y b => cases hlength
  | cons x a ih =>
      cases b with
      | nil => cases hlength
      | cons y b =>
          rw [List.cons_append, List.cons_append, List.cons_lt_cons_iff]
          rcases List.cons_lt_cons_iff.mp h with hxy | ⟨rfl, hab⟩
          · exact Or.inl hxy
          · exact Or.inr ⟨rfl, ih (Nat.succ.inj hlength) hab⟩

/-- The byte of a digit. -/
def digitByte (d : ℕ) : UInt8 :=
  UInt8.ofNat (Nat.digitChar d).toNat

theorem digitByte_lt :
    ∀ d < 10, ∀ c < d, digitByte c < digitByte d := by
  decide

/-- The last digit comes last. -/
theorem decimal_of_ten_le
    {n : ℕ}
    (h : 10 ≤ n) :
    Json.decimal n = Json.decimal (n / 10) ++ [digitByte (n % 10)] := by
  rw [Json.decimal, Nat.toDigits_of_base_le (by decide) h, List.map_append]
  rfl

theorem decimal_of_lt_ten
    {n : ℕ}
    (h : n < 10) :
    Json.decimal n = [digitByte n] := by
  rw [Json.decimal, Nat.toDigits_of_lt_base h]
  rfl

/-- A padded number ends with its last digit. -/
theorem padded_succ
    {width n : ℕ}
    (hwidth : 0 < width) :
    padded (width + 1) n = padded width (n / 10) ++ [digitByte (n % 10)] := by
  by_cases h : 10 ≤ n
  · rw [padded, padded, decimal_of_ten_le h, List.length_append, List.length_singleton,
      Nat.add_sub_add_right, List.append_assoc]
  · have hlt : n < 10 := not_le.mp h
    rw [padded, padded, decimal_of_lt_ten hlt, Nat.div_eq_of_lt hlt, Nat.mod_eq_of_lt hlt,
      decimal_of_lt_ten (by decide)]
    have hzero : digitByte 0 = 0x30 := by decide
    rw [hzero, List.length_singleton, List.length_singleton, Nat.add_sub_cancel,
      ← List.replicate_succ', Nat.sub_add_cancel hwidth]

theorem padded_one
    {n : ℕ}
    (h : n < 10) :
    padded 1 n = [digitByte n] := by
  rw [padded, decimal_of_lt_ten h]
  rfl

/-- A number that fits has the width. -/
theorem length_padded
    {width n : ℕ}
    (hwidth : 0 < width)
    (h : n < 10 ^ width) :
    (padded width n).length = width := by
  induction width, hwidth using Nat.le_induction generalizing n with
  | base => rw [padded_one h, List.length_singleton]
  | succ width hwidth ih =>
      rw [padded_succ hwidth, List.length_append, List.length_singleton,
        ih (Nat.div_lt_of_lt_mul (by rwa [← Nat.pow_succ']))]

/-- A smaller number has a smaller text of the same width. -/
theorem padded_lt
    {width m n : ℕ}
    (hwidth : 0 < width)
    (hmn : m < n)
    (h : n < 10 ^ width) :
    padded width m < padded width n := by
  induction width, hwidth using Nat.le_induction generalizing m n with
  | base =>
      rw [padded_one h, padded_one (hmn.trans h), List.cons_lt_cons_iff]
      exact Or.inl (digitByte_lt n h m hmn)
  | succ width hwidth ih =>
      have hn : n / 10 < 10 ^ width := Nat.div_lt_of_lt_mul (by rwa [← Nat.pow_succ'])
      rw [padded_succ hwidth, padded_succ hwidth]
      rcases Nat.lt_or_eq_of_le (Nat.div_le_div_right (c := 10) hmn.le) with hlt | heq
      · refine append_lt_append_of_length_eq ?_ (ih hlt hn)
        rw [length_padded hwidth (hlt.trans hn), length_padded hwidth hn]
      · rw [heq]
        refine List.append_left_lt (List.cons_lt_cons_iff.mpr (Or.inl ?_))
        exact digitByte_lt _ (Nat.mod_lt n (by decide)) _ (by omega)

/-- A field of a text decides unless it is the same. -/
theorem padded_append_lt
    {width m n : ℕ}
    {mark x y : Bytes}
    (hwidth : 0 < width)
    (hn : n < 10 ^ width)
    (h : m < n ∨ m = n ∧ x < y) :
    padded width m ++ (mark ++ x) < padded width n ++ (mark ++ y) := by
  rcases h with hlt | ⟨rfl, hxy⟩
  · refine append_lt_append_of_length_eq ?_ (padded_lt hwidth hlt hn)
    rw [length_padded hwidth (hlt.trans hn), length_padded hwidth hn]
  · exact List.append_left_lt (List.append_left_lt hxy)

/-- The text of the later one of two dates with times is greater. -/
theorem isoText_lt
    {a b : Date}
    {h m s h' m' s' : ℕ}
    (hyear : b.year < 10 ^ 4)
    (hmonth : b.month < 10 ^ 2)
    (hday : b.day < 10 ^ 2)
    (hhour : h' < 10 ^ 2)
    (hminute : m' < 10 ^ 2)
    (hsecond : s' < 10 ^ 2)
    (hlt : a.Before b ∨ a = b ∧ (h < h' ∨ h = h' ∧ (m < m' ∨ m = m' ∧ s < s'))) :
    isoText a h m s < isoText b h' m' s' := by
  have hfields : a.year < b.year ∨ a.year = b.year ∧ (a.month < b.month ∨ a.month = b.month ∧
      (a.day < b.day ∨ a.day = b.day ∧
        (h < h' ∨ h = h' ∧ (m < m' ∨ m = m' ∧ s < s')))) := by
    rcases hlt with hbefore | ⟨rfl, htime⟩
    · unfold Date.Before at hbefore
      omega
    · exact Or.inr ⟨rfl, Or.inr ⟨rfl, Or.inr ⟨rfl, htime⟩⟩⟩
  have htwo : 0 < 2 := Nat.zero_lt_two
  simp only [isoText, List.append_assoc]
  refine padded_append_lt (Nat.zero_lt_succ 3) hyear (hfields.imp_right (And.imp_right ?_))
  refine fun hrest => padded_append_lt htwo hmonth (hrest.imp_right (And.imp_right ?_))
  refine fun hrest => padded_append_lt htwo hday (hrest.imp_right (And.imp_right ?_))
  refine fun hrest => padded_append_lt htwo hhour (hrest.imp_right (And.imp_right ?_))
  refine fun hrest => padded_append_lt htwo hminute (hrest.imp_right (And.imp_right ?_))
  intro hlast
  refine append_lt_append_of_length_eq ?_ (padded_lt htwo hlast hsecond)
  rw [length_padded htwo (hlast.trans hsecond), length_padded htwo hsecond]

/-- The code points of bytes are in their order. -/
theorem ofAscii_lt
    {a b : Bytes}
    (h : a < b) :
    Json.ofAscii a < Json.ofAscii b := by
  induction a generalizing b with
  | nil =>
      cases b with
      | nil => exact absurd h (List.not_lt_nil [])
      | cons y b => exact List.nil_lt_cons _ _
  | cons x a ih =>
      cases b with
      | nil => exact absurd h (List.not_lt_nil _)
      | cons y b =>
          refine List.cons_lt_cons_iff.mpr ?_
          rcases List.cons_lt_cons_iff.mp h with hxy | ⟨rfl, hab⟩
          · refine Or.inl (Fin.lt_def.mpr ?_)
            have hsmall (z : UInt8) : z.toNat < 0x110000 := z.toNat_lt.trans (by decide)
            rw [Fin.val_ofNat, Fin.val_ofNat, Nat.mod_eq_of_lt (hsmall x),
              Nat.mod_eq_of_lt (hsmall y)]
            exact UInt8.lt_iff_toNat_lt.mp hxy
          · exact Or.inr ⟨rfl, ih hab⟩

/-- A later second of a day has a later time. -/
theorem time_lt
    {i j : ℕ}
    (h : i < j) :
    i / 3600 < j / 3600 ∨ i / 3600 = j / 3600 ∧ (i % 3600 / 60 < j % 3600 / 60 ∨
      i % 3600 / 60 = j % 3600 / 60 ∧ i % 60 < j % 60) := by
  rcases Nat.lt_or_eq_of_le (Nat.div_le_div_right (c := 3600) h.le) with hhour | hhour
  · exact Or.inl hhour
  have hrest : i % 3600 < j % 3600 := by omega
  refine Or.inr ⟨hhour, ?_⟩
  rcases Nat.lt_or_eq_of_le (Nat.div_le_div_right (c := 60) hrest.le) with hminute | hminute
  · exact Or.inl hminute
  · exact Or.inr ⟨hminute, by omega⟩

/-- A later instant has a greater text. -/
theorem isoBytes_lt
    {earlier epochSecs : ℕ}
    (hyear : (civilDate epochSecs).year < 10000)
    (h : earlier < epochSecs) :
    isoBytes earlier < isoBytes epochSecs := by
  have hranges := inRanges epochSecs
  have hmonth := hranges.month.2
  have hday := hranges.day.2
  rw [isoBytes_eq, isoBytes_eq]
  refine isoText_lt hyear (by omega) (by omega) (by omega) (by omega) (by omega) ?_
  rw [civilDate_eq_iterate, civilDate_eq_iterate]
  rcases Nat.lt_or_eq_of_le (Nat.div_le_div_right (c := 86400) h.le) with hdays | hdays
  · exact Or.inl (before_iterate_next epochDate hdays)
  · refine Or.inr ⟨by rw [hdays], ?_⟩
    have hseconds : earlier % 86400 < epochSecs % 86400 := by omega
    exact time_lt hseconds

theorem codes_epochSeconds (epochSecs : ℕ) :
    (epochSecondsToIso8601Utc epochSecs).codes = Json.ofAscii (isoBytes epochSecs) := by
  dsimp only [epochSecondsToIso8601Utc]

/-- The text is that of the date and the time so many seconds after the beginning of 1970, it
is made with values that are in their ranges, and it is greater than those of the instants
before. -/
theorem epochSecondsToIso8601Utc_denotes
    {epochSecs : ℕ}
    (hyear : (Date.next^[epochSecs / 86400] epochDate).year < 10000) :
    (∃ hour minute second, hour < 24 ∧ minute < 60 ∧ second < 60 ∧
      hour * 3600 + minute * 60 + second = epochSecs % 86400 ∧
      (epochSecondsToIso8601Utc epochSecs).codes =
        Json.ofAscii (isoText (Date.next^[epochSecs / 86400] epochDate) hour minute second)) ∧
      InRanges epochSecs ∧
      ∀ earlier < epochSecs,
        (epochSecondsToIso8601Utc earlier).codes < (epochSecondsToIso8601Utc epochSecs).codes := by
  refine ⟨⟨epochSecs % 86400 / 3600, epochSecs % 86400 % 3600 / 60, epochSecs % 86400 % 60,
    by omega, by omega, by omega, by omega, ?_⟩, inRanges epochSecs, fun earlier h => ?_⟩
  · rw [← civilDate_eq_iterate, ← isoBytes_eq, codes_epochSeconds]
  · rw [← civilDate_eq_iterate] at hyear
    rw [codes_epochSeconds, codes_epochSeconds]
    exact ofAscii_lt (isoBytes_lt hyear h)

/-- The last second of February 1970. -/
theorem epochSecondsToIso8601Utc_denotes_february :
    (Date.next^[5097599 / 86400] epochDate).year < 10000 ∧
      InRanges 5097599 ∧ (epochSecondsToIso8601Utc 0).codes <
        (epochSecondsToIso8601Utc 5097599).codes := by
  have hyear : (Date.next^[5097599 / 86400] epochDate).year < 10000 := by decide +kernel
  obtain ⟨-, hranges, hgreater⟩ := epochSecondsToIso8601Utc_denotes hyear
  exact ⟨hyear, hranges, hgreater 0 (by decide)⟩

end Audit
end TensorGrep
