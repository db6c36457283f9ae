import Mathlib.Data.Nat.Bitwise
import Mathlib.Order.Monotone.Basic

/-!
# Time stamps of the FAT servers

A directory entry holds a date and a time of day in sixteen bits each.  The servers convert
between these and seconds with the calendar in `disk.c`, which is the same in both: years begin
in March, so that the day that comes and goes is the last of the year.
-/

namespace Robu.Fat

/-! ## The calendar -/

def unsigned (x : Int) : Nat := (x % 2 ^ 32).toNat

def int (x : Int) : Int := (x + 2 ^ 31) % 2 ^ 32 - 2 ^ 31

/-- `yoe`: the year of the 400 that a day lies in. -/
def yearOfEra (doe : Nat) : Nat := (doe - doe / 1460 + doe / 36524 - doe / 146096) / 365

def startOfYear (yoe : Nat) : Nat := yoe * 365 + yoe / 4 - yoe / 100

def fatDaysFromCivil (year month day : Int) : Int :=
  let year := if month ≤ 2 then year - 1 else year
  let era := (if 0 ≤ year then year else year - 399).tdiv 400
  let yoe := unsigned (year - era * 400)
  let mp := unsigned (month + if 2 < month then -3 else 9)
  let doy := unsigned ((unsigned (153 * mp + 2) / 5 : Nat) + day - 1)
  let doe := unsigned (startOfYear yoe + doy)
  era * 146097 + doe - 719468

def fatCivilFromDays (days : Int) : Int × Int × Int :=
  let days := days + 719468
  let era := (if 0 ≤ days then days else days - 146096).tdiv 146097
  let doe := unsigned (days - era * 146097)
  let yoe := yearOfEra doe
  let y := int yoe + int era * 400
  let doy := unsigned (doe - startOfYear yoe)
  let mp := unsigned (5 * doy + 2) / 153
  let day := int (unsigned (doy - (unsigned (153 * mp + 2) / 5 : Nat) + 1))
  let month := int (unsigned (mp + if mp < 10 then 3 else -9))
  (if month ≤ 2 then y + 1 else y, month, day)

def fatFields (year month day : Int) (daySeconds : Nat) : Nat × Nat :=
  (((year - 1980).toNat <<< 9 ||| month.toNat <<< 5 ||| day.toNat) % 2 ^ 16,
    ((daySeconds / 3600) <<< 11 ||| (daySeconds / 60 % 60) <<< 5 ||| daySeconds % 60 / 2) % 2 ^ 16)

def fatEncodeTime (seconds : Int) : Nat × Nat :=
  let days := if seconds.tmod 86400 < 0 then seconds.tdiv 86400 - 1 else seconds.tdiv 86400
  let daySeconds := if seconds.tmod 86400 < 0 then
    seconds.tmod 86400 + 86400 else seconds.tmod 86400
  let (year, month, day) := fatCivilFromDays days
  if year < 1980 then fatFields 1980 1 1 0
  else if 2107 < year then fatFields 2107 12 31 86398
  else fatFields year month day daySeconds.toNat

def fatDecodeTime (date time : Nat) : Int :=
  let day := date &&& 0x1f
  let month := (date >>> 5) &&& 0x0f
  let year := 1980 + ((date >>> 9) &&& 0x7f)
  if day = 0 ∨ month = 0 ∨ 12 < month then 0
  else fatDaysFromCivil year month day * 86400 + ((time >>> 11) &&& 0x1f : Nat) * 3600 +
    ((time >>> 5) &&& 0x3f : Nat) * 60 + (time &&& 0x1f : Nat) * 2

/-! ## Years -/

theorem yearOfEra_mono : Monotone yearOfEra := by
  refine monotone_nat_of_le_succ fun doe => Nat.div_le_div_right ?_
  omega

/-- A year begins at its first day. -/
theorem yearOfEra_startOfYear : ∀ a < 400, yearOfEra (startOfYear a) = a ∧ (a = 0 ∨
    yearOfEra (startOfYear a - 1) < a) := by
  decide +kernel

theorem yearOfEra_spec {doe : Nat} (h : doe < 146097) : yearOfEra doe < 400 ∧
    startOfYear (yearOfEra doe) ≤ doe ∧
      (yearOfEra doe < 399 → doe < startOfYear (yearOfEra doe + 1)) := by
  have hlast : yearOfEra doe < 400 :=
    Nat.lt_of_le_of_lt (yearOfEra_mono (Nat.le_pred_of_lt h)) (by decide)
  refine ⟨hlast, ?_, fun hlt => ?_⟩
  · by_contra hgt
    rcases (yearOfEra_startOfYear _ hlast).2 with h₀ | hlt
    · rw [h₀] at hgt
      exact hgt (Nat.zero_le _)
    · exact absurd (yearOfEra_mono (Nat.le_pred_of_lt (Nat.lt_of_not_le hgt))) (Nat.not_le.mpr hlt)
  · by_contra hge
    have hnext := yearOfEra_mono (Nat.le_of_not_lt hge)
    rw [(yearOfEra_startOfYear _ (Nat.succ_lt_succ hlt)).1] at hnext
    exact absurd hnext (Nat.not_succ_le_self _)

/-- The days from the first of March of the year 0 to that of a year. -/
def start (y : Nat) : Nat := 365 * y + y / 4 - y / 100 + y / 400

theorem start_eq (y : Nat) : start y = y / 400 * 146097 + startOfYear (y % 400) := by
  unfold start startOfYear
  omega

theorem start_mono : Monotone start := by
  refine monotone_nat_of_le_succ fun y => ?_
  unfold start
  omega

/-- **Dates**, by the year, counted from March, and the day of it. -/
structure Date where
  y : Nat
  doy : Nat
  within : start y + doy < start (y + 1)

namespace Date

variable (d : Date)

def mp : Nat := (5 * d.doy + 2) / 153

def year : Nat := if d.mp < 10 then d.y else d.y + 1

def month : Nat := if d.mp < 10 then d.mp + 3 else d.mp - 9

def day : Nat := d.doy - (153 * d.mp + 2) / 5 + 1

def days : Int := start d.y + d.doy - 719468

theorem bounds : d.doy < 366 ∧ d.mp < 12 ∧ (153 * d.mp + 2) / 5 ≤ d.doy ∧
    d.doy < (153 * d.mp + 155) / 5 := by
  have hlast := d.within
  have hdoy : d.doy < 366 := by
    unfold start at hlast
    omega
  unfold mp
  omega

theorem month_bounds : (1 ≤ d.month ∧ d.month ≤ 12) ∧ 1 ≤ d.day ∧ d.day ≤ 31 := by
  obtain ⟨hdoy, hmp, hfirst, hlast⟩ := d.bounds
  unfold month day
  split <;> omega

end Date

theorem unsigned_eq {x : Int} {n : Nat} (h : x = n) (hn : n < 2 ^ 32) : unsigned x = n := by
  unfold unsigned
  omega

theorem int_eq {x : Int} {n : Nat} (h : x = n) (hn : n < 2 ^ 31) : int x = n := by
  unfold int
  omega

/-- Every day is the day of a date, and `fat_civil_from_days` finds it. -/
theorem exists_date {days : Int} (h₀ : 0 ≤ days) (h₁ : days < 100000) : ∃ d :
    Date, d.y < 3000 ∧ d.days = days ∧
      fatCivilFromDays days = ((d.year : Int), (d.month : Int), (d.day : Int)) := by
  obtain ⟨n, hn⟩ : ∃ n : Nat, days + 719468 = n := ⟨(days + 719468).toNat, by omega⟩
  have hera : (if 0 ≤ days + 719468 then days + 719468 else days + 719468 - 146096).tdiv 146097 =
      (n / 146097 : Nat) := by
    rw [if_pos (by omega), hn]
    exact Int.ofNat_tdiv n 146097
  have hdoe : unsigned (days + 719468 - (n / 146097 : Nat) * 146097) = n % 146097 :=
    unsigned_eq (by omega) (by omega)
  obtain ⟨hyoe, hle, hnext⟩ := yearOfEra_spec (Nat.mod_lt n (by decide : 0 < 146097))
  generalize hyear : yearOfEra (n % 146097) = yoe at hyoe hle hnext
  obtain ⟨doy, hdoy⟩ : ∃ doy, n % 146097 = startOfYear yoe + doy := Nat.exists_eq_add_of_le hle
  obtain ⟨y, hy⟩ : ∃ y, n / 146097 * 400 + yoe = y := ⟨_, rfl⟩
  have hstart : start y = n / 146097 * 146097 + startOfYear yoe := by
    rw [start_eq]
    congr 2 <;> omega
  have hwithin : start y + doy < start (y + 1) := by
    rcases Nat.lt_or_ge yoe 399 with hlt | hge
    · have := hnext hlt
      have : start (y + 1) = n / 146097 * 146097 + startOfYear (yoe + 1) := by
        rw [start_eq]
        congr 2 <;> omega
      omega
    · have : start (y + 1) = (n / 146097 + 1) * 146097 + startOfYear 0 := by
        rw [start_eq]
        congr 2 <;> omega
      omega
  refine ⟨⟨y, doy, hwithin⟩, by dsimp only; omega, by dsimp only [Date.days]; omega, ?_⟩
  obtain ⟨hdoy', hmp, hfirst, -⟩ := Date.bounds ⟨y, doy, hwithin⟩
  have hday : unsigned ((n % 146097 : Nat) - startOfYear yoe) = doy :=
    unsigned_eq (by omega) (by omega)
  have hmonth : unsigned (5 * doy + 2) = 5 * doy + 2 := unsigned_eq rfl (by omega)
  unfold fatCivilFromDays Date.year Date.month Date.day
  unfold Date.mp at *
  dsimp only at *
  rw [hera, hdoe, hyear, hday, hmonth]
  generalize (5 * doy + 2) / 153 = mp at *
  have hfirst' : unsigned (153 * mp + 2) = 153 * mp + 2 := unsigned_eq rfl (by omega)
  rw [hfirst']
  have hcast {x : Int} {m : Nat} (h : x = m) (hm : m < 2 ^ 31) : int (unsigned x) = m :=
    int_eq (congrArg Nat.cast (unsigned_eq h (by omega))) hm
  have hmonth' : int (unsigned (mp + if mp < 10 then 3 else -9)) =
    (if mp < 10 then mp + 3 else mp - 9 : Nat) := by
    split <;> exact hcast (by omega) (by omega)
  have hday' : int (unsigned (doy - ((153 * mp + 2) / 5 : Nat) + 1)) =
    (doy - (153 * mp + 2) / 5 + 1 : Nat) :=
    hcast (by omega) (by omega)
  have hy' : int yoe + int (n / 146097 : Nat) * 400 = y := by
    rw [int_eq rfl (by omega : yoe < 2 ^ 31), int_eq rfl (by omega : n / 146097 < 2 ^ 31)]
    omega
  rw [hmonth', hday', hy']
  simp only [Prod.mk.injEq, and_true]
  split <;> split <;> omega

namespace Date

variable (d d' : Date)

theorem fatDaysFromCivil_eq (hy : d.y < 3000) : fatDaysFromCivil d.year d.month d.day = d.days := by
  obtain ⟨hdoy, hmp, hfirst, -⟩ := d.bounds
  have hyear : (if (d.month : Int) ≤ 2 then (d.year : Int) - 1 else d.year) = d.y := by
    unfold month year
    split <;> split <;> omega
  have hera : (if 0 ≤ (d.y : Int) then (d.y : Int) else d.y - 399).tdiv 400 =
    (d.y / 400 : Nat) := by
    rw [if_pos (by omega)]
    exact Int.ofNat_tdiv d.y 400
  have hyoe : unsigned (d.y - (d.y / 400 : Nat) * 400) = d.y % 400 :=
    unsigned_eq (by omega) (by omega)
  have hmonth : unsigned (d.month + if 2 < (d.month : Int) then -3 else 9) = d.mp := by
    unfold month
    refine unsigned_eq ?_ (by omega)
    split <;> split <;> omega
  have hfirst' : unsigned (153 * d.mp + 2) = 153 * d.mp + 2 := unsigned_eq rfl (by omega)
  have hday : unsigned (((153 * d.mp + 2) / 5 : Nat) + d.day - 1) = d.doy := by
    unfold day
    exact unsigned_eq (by omega) (by omega)
  have hdoe : unsigned (startOfYear (d.y % 400) + d.doy) = startOfYear (d.y % 400) + d.doy := by
    refine unsigned_eq rfl ?_
    unfold startOfYear
    omega
  unfold fatDaysFromCivil days
  dsimp only
  rw [hyear, hera, hyoe, hmonth, hfirst', hday, hdoe, start_eq d.y]
  omega

/-- Later days have greater dates. -/
theorem lt_or_eq (hle : d.days ≤ d'.days) :
    (d.year * 16 + d.month) * 32 + d.day < (d'.year * 16 + d'.month) * 32 + d'.day ∨
      d.days = d'.days ∧ (d.year * 16 + d.month) * 32 + d.day = (d'.year * 16 + d'.month) * 32 +
        d'.day := by
  obtain ⟨hdoy, hmp, hfirst, hlast⟩ := d.bounds
  obtain ⟨hdoy', hmp', hfirst', hlast'⟩ := d'.bounds
  have hwithin' := d'.within
  have hmp_eq : d.mp = (5 * d.doy + 2) / 153 := rfl
  have hmp_eq' : d'.mp = (5 * d'.doy + 2) / 153 := rfl
  unfold days at *
  unfold year month day
  rcases Nat.lt_trichotomy d.y d'.y with hy | hy | hy
  · left
    split <;> split <;> omega
  · rw [hy] at hle ⊢
    split <;> split <;> omega
  · have hstart : start (d'.y + 1) ≤ start d.y := start_mono hy
    omega

end Date

/-! ## Packing -/

theorem pack {a b c j k m : Nat} (hk : k = j + 5) (hm : m = 2 ^ j) (hb : b < m) (hc : c < 32) :
    a <<< k ||| b <<< 5 ||| c = (a * m + b) * 32 + c := by
  rw [hm] at hb
  rw [hk, hm, Nat.shiftLeft_add, ← Nat.shiftLeft_or_distrib, ← Nat.shiftLeft_add_eq_or_of_lt hb,
    ← Nat.shiftLeft_add_eq_or_of_lt (i := 5) hc, Nat.shiftLeft_eq, Nat.shiftLeft_eq]

theorem fatDecodeTime_eq (date time : Nat) : fatDecodeTime date time =
    if date % 32 = 0 ∨ date / 32 % 16 = 0 ∨ 12 < date / 32 % 16 then 0
    else fatDaysFromCivil (1980 + date / 512 % 128 : Nat) (date / 32 % 16 : Nat)
    (date % 32 : Nat) * 86400 +
    (time / 2048 % 32 : Nat) * 3600 + (time / 32 % 64 : Nat) * 60 + (time % 32 : Nat) * 2 := by
  have hand (x i : Nat) : x &&& 2 ^ i - 1 = x % 2 ^ i := Nat.and_two_pow_sub_one_eq_mod x i
  unfold fatDecodeTime
  simp only [Nat.shiftRight_eq_div_pow]
  rw [show date &&& 0x1f = _ from hand date 5, show date / 2 ^ 5 &&& 0x0f = _ from hand _ 4,
    show date / 2 ^ 9 &&& 0x7f = _ from hand _ 7, show time &&& 0x1f = _ from hand time 5,
    show time / 2 ^ 11 &&& 0x1f = _ from hand _ 5, show time / 2 ^ 5 &&& 0x3f = _ from hand _ 6]
  rfl

def timeField (t : Nat) : Nat := (t / 3600 * 64 + t / 60 % 60) * 32 + t % 60 / 2

theorem timeField_mono : Monotone timeField := by
  have hhour (t : Nat) : t / 3600 = t / 60 / 60 := (Nat.div_div_eq_div_mul t 60 60).symm
  refine monotone_nat_of_le_succ fun t => ?_
  unfold timeField
  rw [hhour, hhour]
  omega

/-- In the years that fit, a time stamp is made of the fields of the date and the time. -/
theorem fatEncodeTime_eq {n : Nat} (h₀ : 315532800 ≤ n) (h₁ : n < 4354819200) :
    ∃ d : Date, d.y < 3000 ∧ d.days = (n / 86400 : Nat) ∧ (1980 ≤ d.year ∧ d.year ≤ 2107) ∧
      fatEncodeTime n = (((d.year - 1980) * 16 + d.month) * 32 + d.day, timeField (n % 86400)) := by
  obtain ⟨d, hy, hdays, hcivil⟩ := exists_date (by omega : (0 : Int) ≤ (n / 86400 : Nat)) (by omega)
  have hmonth := d.month_bounds
  have hyear : 1980 ≤ d.year ∧ d.year ≤ 2107 := by
    obtain ⟨hdoy, hmp, hfirst, hlast⟩ := d.bounds
    have hwithin := d.within
    have hfirst : start 1979 = 722814 := by decide
    have hlast : start 2107 = 769565 := by decide
    have hnext : start 2108 = 769931 := by decide
    unfold Date.days at hdays
    unfold Date.year
    generalize d.y = y at *
    rcases Nat.lt_trichotomy y 1979 with hlt | rfl | hgt
    · have hle : start (y + 1) ≤ start 1979 := start_mono hlt
      omega
    · split <;> omega
    rcases Nat.lt_trichotomy y 2107 with hlt | rfl | hgt
    · split <;> omega
    · split <;> omega
    · have hle : start 2108 ≤ start y := start_mono hgt
      omega
  refine ⟨d, hy, hdays, hyear, ?_⟩
  have htmod : (n : Int).tmod 86400 = (n % 86400 : Nat) := Int.ofNat_tmod n 86400
  have htdiv : (n : Int).tdiv 86400 = (n / 86400 : Nat) := Int.ofNat_tdiv n 86400
  have hfield : ((d.year : Int) - 1980).toNat = d.year - 1980 := by omega
  unfold fatEncodeTime
  rw [htmod, htdiv, if_neg (by omega), if_neg (by omega)]
  simp only [hcivil]
  rw [if_neg (by omega), if_neg (by omega)]
  unfold fatFields
  have hseconds : n % 86400 / 60 % 60 < 64 ∧ n % 86400 % 60 / 2 < 32 ∧
    n % 86400 / 3600 < 24 := by omega
  rw [hfield, Int.toNat_natCast, Int.toNat_natCast, Int.toNat_natCast,
    pack (j := 4) (m := 16) rfl rfl (by omega) (by omega),
      pack (j := 6) (m := 64) rfl rfl hseconds.1 hseconds.2.1,
    Nat.mod_eq_of_lt (by omega), Nat.mod_eq_of_lt (by omega)]
  rfl

/-- **Time stamps.**  From 1980 to 2107, a time stamp is read back as the even second it was made
from or before, and a later second never has a smaller time stamp. -/
theorem fatDecodeTime_fatEncodeTime {s s' : Int} (h₀ : 315532800 ≤ s) (hle : s ≤ s')
    (h₁ : s' < 4354819200) : fatDecodeTime (fatEncodeTime s).1 (fatEncodeTime s).2 = s - s % 2 ∧
      ((fatEncodeTime s).1 < (fatEncodeTime s').1 ∨
        (fatEncodeTime s).1 = (fatEncodeTime s').1 ∧
          (fatEncodeTime s).2 ≤ (fatEncodeTime s').2) := by
  obtain ⟨n, rfl⟩ := Int.eq_ofNat_of_zero_le (by omega : 0 ≤ s)
  obtain ⟨n', rfl⟩ := Int.eq_ofNat_of_zero_le (by omega : 0 ≤ s')
  obtain ⟨d, hy, hdays, hyear, hn⟩ := fatEncodeTime_eq (n := n) (by omega) (by omega)
  obtain ⟨d', -, hdays', hyear', hn'⟩ := fatEncodeTime_eq (n := n') (by omega) (by omega)
  rw [hn, hn']
  dsimp only
  constructor
  · have hmonth := d.month_bounds
    generalize hd : ((d.year - 1980) * 16 + d.month) * 32 + d.day = date
    have hfields : date % 32 = d.day ∧ date / 32 % 16 = d.month ∧
      1980 + date / 512 % 128 = d.year := by omega
    rw [fatDecodeTime_eq, hfields.1, hfields.2.1, hfields.2.2, if_neg (by omega),
      d.fatDaysFromCivil_eq hy, hdays]
    unfold timeField
    omega
  · rcases d.lt_or_eq d' (by omega) with hlt | ⟨hsame, heq⟩
    · left
      omega
    · exact .inr ⟨by omega, timeField_mono (by omega)⟩

theorem fatDecodeTime_fatEncodeTime_leap :
    fatDecodeTime (fatEncodeTime 951782399).1 (fatEncodeTime 951782399).2 = 951782398 ∧
    ((fatEncodeTime 951782399).1 < (fatEncodeTime 951782400).1 ∨
      (fatEncodeTime 951782399).1 = (fatEncodeTime 951782400).1 ∧
        (fatEncodeTime 951782399).2 ≤ (fatEncodeTime 951782400).2) :=
  fatDecodeTime_fatEncodeTime (by decide) (by decide) (by decide)

end Robu.Fat
