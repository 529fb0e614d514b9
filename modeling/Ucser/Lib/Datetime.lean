import Mathlib.Order.Basic
import Mathlib.Tactic.Common
import Ucser.Lib.Text

/-!
# Dates and times, and their `isoformat`

The `datetime` of Python, with or without an offset from UTC, and the text it is written as.
The text has no fixed length: zero microseconds are left out.

* `padded` — decimal numerals of a fixed width, whose order as texts is that of the numbers.
* `Datetime` — a valid date and time of day.
* `Datetime.fields`, `Datetime.instant` — what Python compares two naive datetimes by, and the
  microseconds on the clock: `fields_lt_iff` says that **both are one order**.
* `Datetime.isoformat`, `utf8_isoformat_lt_iff` — **the bytes of the text are ordered as the
  naive datetimes are**.
-/

namespace Ucser

/-! ## The order of texts -/

/-- Texts of one length in front decide first. -/
theorem append_lt_append_iff {α : Type} [LT α] [Std.Irrefl (· < · : α → α → Prop)]
    {a a' : List α} (h : a.length = a'.length) (b b' : List α) :
    a ++ b < a' ++ b' ↔ a < a' ∨ a = a' ∧ b < b' := by
  induction a generalizing a' with
  | nil =>
      obtain rfl : a' = [] := List.length_eq_zero_iff.mp h.symm
      simp
  | cons x a ih =>
      cases a' with
      | nil => simp at h
      | cons x' a' =>
          rw [List.cons_append, List.cons_append, List.cons_lt_cons_iff, List.cons_lt_cons_iff,
            ih (Nat.succ.inj h), List.cons.injEq]
          tauto

theorem utf8EncodeChar_of_ascii {c : Char} (h : c.toNat < 128) :
    String.utf8EncodeChar c = [UInt8.ofNat c.toNat] := by
  simp [String.utf8EncodeChar]
  omega

theorem ofNat_toNat_lt_iff {c d : Char} (hc : c.toNat < 128) (hd : d.toNat < 128) :
    UInt8.ofNat c.toNat < UInt8.ofNat d.toNat ↔ c < d := by
  rw [UInt8.lt_iff_toNat_lt, UInt8.toNat_ofNat', UInt8.toNat_ofNat', Nat.mod_eq_of_lt (by omega),
    Nat.mod_eq_of_lt (by omega)]
  rfl

/-- The order of ASCII texts is that of their bytes. -/
theorem utf8_lt_iff {l l' : List Char} (h : ∀ c ∈ l, c.toNat < 128) (h' : ∀ c ∈ l', c.toNat < 128) :
    Text.utf8 (String.ofList l) < Text.utf8 (String.ofList l') ↔ l < l' := by
  rw [Text.utf8, Text.utf8, String.toList_ofList, String.toList_ofList]
  induction l generalizing l' with
  | nil =>
      cases l' with
      | nil => simp
      | cons d l' => simp [utf8EncodeChar_of_ascii (h' d List.mem_cons_self)]
  | cons c l ih =>
      obtain ⟨hc, hl⟩ := List.forall_mem_cons.mp h
      cases l' with
      | nil => simp
      | cons d l' =>
          obtain ⟨hd, hl'⟩ := List.forall_mem_cons.mp h'
          have heq : UInt8.ofNat c.toNat = UInt8.ofNat d.toNat ↔ c = d := by
            refine ⟨fun hbyte => ?_, fun hcd => by rw [hcd]⟩
            have hnat := congrArg UInt8.toNat hbyte
            rw [UInt8.toNat_ofNat', UInt8.toNat_ofNat', Nat.mod_eq_of_lt (by omega),
              Nat.mod_eq_of_lt (by omega)] at hnat
            exact Char.toNat_inj.mp hnat
          rw [List.flatMap_cons, List.flatMap_cons, utf8EncodeChar_of_ascii hc,
            utf8EncodeChar_of_ascii hd, List.singleton_append, List.singleton_append,
            List.cons_lt_cons_iff, List.cons_lt_cons_iff, ofNat_toNat_lt_iff hc hd, heq,
            ih hl hl']

/-! ## Numerals of a fixed width -/

/-- The last digits of a number. -/
def padded : Nat → Nat → List Char
  | 0, _ => []
  | width + 1, n => padded width (n / 10) ++ [Nat.digitChar (n % 10)]

theorem length_padded (width n : Nat) : (padded width n).length = width := by
  induction width generalizing n with
  | zero => rfl
  | succ width ih => rw [padded, List.length_append, ih, List.length_singleton]

theorem digitChar_lt_iff : ∀ a < 10, ∀ b < 10, Nat.digitChar a < Nat.digitChar b ↔ a < b := by
  decide

theorem padded_inj {width n m : Nat} (hn : n < 10 ^ width) (hm : m < 10 ^ width) :
    padded width n = padded width m ↔ n = m := by
  induction width generalizing n m with
  | zero =>
      rw [pow_zero, Nat.lt_one_iff] at hn hm
      simp [padded, hn, hm]
  | succ width ih =>
      rw [pow_succ] at hn hm
      refine ⟨fun heq => ?_, fun heq => congrArg _ heq⟩
      obtain ⟨hfirst, hdigit⟩ := List.append_inj' heq rfl
      have hdiv := (ih (by omega) (by omega)).mp hfirst
      have hmod := Text.digitChar_inj (Nat.mod_lt n (by decide)) (Nat.mod_lt m (by decide))
        (List.singleton_inj.mp hdigit)
      omega

/-- **Numerals of one width are ordered as the numbers are.** -/
theorem padded_lt_iff {width n m : Nat} (hn : n < 10 ^ width) (hm : m < 10 ^ width) :
    padded width n < padded width m ↔ n < m := by
  induction width generalizing n m with
  | zero =>
      rw [pow_zero, Nat.lt_one_iff] at hn hm
      simp [padded, hn, hm]
  | succ width ih =>
      rw [pow_succ] at hn hm
      have hlast := digitChar_lt_iff (n % 10) (Nat.mod_lt n (by decide)) (m % 10)
        (Nat.mod_lt m (by decide))
      have hlength : (padded width (n / 10)).length = (padded width (m / 10)).length := by
        rw [length_padded, length_padded]
      rw [padded, padded, append_lt_append_iff hlength, ih (by omega) (by omega),
        padded_inj (by omega) (by omega), List.cons_lt_cons_iff, hlast]
      simp only [List.not_lt_nil, and_false, or_false]
      omega

/-- A numeral of a fixed width decides first. -/
theorem padded_append_lt_iff {width n m : Nat} (hn : n < 10 ^ width) (hm : m < 10 ^ width)
    (b b' : List Char) :
    padded width n ++ b < padded width m ++ b' ↔ n < m ∨ n = m ∧ b < b' := by
  rw [append_lt_append_iff (by rw [length_padded, length_padded]), padded_lt_iff hn hm,
    padded_inj hn hm]

/-! ## Dates and times -/

/-- A leap year of the Gregorian calendar. -/
def isLeap (year : Nat) : Bool := year % 4 = 0 && (year % 100 ≠ 0 || year % 400 = 0)

def daysInMonth (year month : Nat) : Nat :=
  if month = 2 then if isLeap year then 29 else 28
  else if month ∈ [4, 6, 9, 11] then 30
  else 31

/-- A `datetime`: naive when it has no offset from UTC (in microseconds). -/
@[ext]
structure Datetime where
  year : Nat
  month : Nat
  day : Nat
  hour : Nat
  minute : Nat
  second : Nat
  microsecond : Nat
  offset : Option Int := none
  year_valid : 1 ≤ year ∧ year ≤ 9999
  month_valid : 1 ≤ month ∧ month ≤ 12
  day_valid : 1 ≤ day ∧ day ≤ daysInMonth year month
  hour_valid : hour < 24
  minute_valid : minute < 60
  second_valid : second < 60
  microsecond_valid : microsecond < 1000000
  offset_valid : ∀ o ∈ offset, o.natAbs < 86400000000
  deriving DecidableEq

theorem daysInMonth_le (year month : Nat) : daysInMonth year month ≤ 31 := by
  unfold daysInMonth
  split_ifs <;> omega

namespace Datetime

/-- What two naive datetimes are compared by, one field after the other. -/
def fields (d : Datetime) : List Nat :=
  [d.year, d.month, d.day, d.hour, d.minute, d.second, d.microsecond]

/-- The days before the first of January. -/
def daysBeforeYear (year : Nat) : Nat :=
  (year - 1) * 365 + (year - 1) / 4 - (year - 1) / 100 + (year - 1) / 400

/-- The days of the year before a month. -/
def daysBeforeMonth (year : Nat) : Nat → Nat
  | 0 => 0
  | 1 => 0
  | month + 2 => daysBeforeMonth year (month + 1) + daysInMonth year (month + 1)

/-- `toordinal()`. -/
def toordinal (d : Datetime) : Nat :=
  daysBeforeYear d.year + daysBeforeMonth d.year d.month + d.day

/-- The microseconds on the clock of UTC. -/
def instant (d : Datetime) : Int :=
  (((d.toordinal * 24 + d.hour) * 60 + d.minute) * 60 + d.second : Int) * 1000000 +
    d.microsecond - d.offset.getD 0

/-! ## One order -/

theorem daysBeforeMonth_mono {year m m' : Nat} (hm : 1 ≤ m) (h : m < m') :
    daysBeforeMonth year m + daysInMonth year m ≤ daysBeforeMonth year m' := by
  induction m' with
  | zero => omega
  | succ m' ih =>
      obtain ⟨k, rfl⟩ : ∃ k, m' = k + 1 := ⟨m' - 1, by omega⟩
      rw [daysBeforeMonth]
      by_cases heq : m = k + 1
      · rw [heq]
      · have hbefore := ih (by omega)
        omega

theorem daysBeforeMonth_thirteen (year : Nat) :
    daysBeforeMonth year 13 = 365 + (isLeap year).toNat := by
  cases hleap : isLeap year <;> simp [daysBeforeMonth, daysInMonth, hleap]

theorem succ_div_eq (k b : Nat) :
    (k + 1) / b = k / b + if (k + 1) % b = 0 then 1 else 0 := by
  rw [Nat.succ_div]
  simp only [Nat.dvd_iff_mod_eq_zero]

/-- A year has 365 days, and a leap year one more. -/
theorem daysBeforeYear_succ {year : Nat} (h : 1 ≤ year) :
    daysBeforeYear (year + 1) = daysBeforeYear year + 365 + (isLeap year).toNat := by
  obtain ⟨k, rfl⟩ : ∃ k, year = k + 1 := ⟨year - 1, by omega⟩
  have hle : k / 100 ≤ k * 365 := (Nat.div_le_self k 100).trans (by omega)
  -- a multiple of 400 is one of 100, and a multiple of 100 one of 4
  have h400 : (k + 1) % 400 = 0 → (k + 1) % 100 = 0 := by omega
  have h100 : (k + 1) % 100 = 0 → (k + 1) % 4 = 0 := by omega
  unfold daysBeforeYear
  rw [Nat.add_sub_cancel, Nat.add_sub_cancel, succ_div_eq k 4, succ_div_eq k 100,
    succ_div_eq k 400]
  by_cases hcentury : (k + 1) % 100 = 0
  · have hquarter := h100 hcentury
    by_cases hfour : (k + 1) % 400 = 0
    · have hleap : isLeap (k + 1) = true := by simp [isLeap, hquarter, hfour]
      rw [hleap, if_pos hquarter, if_pos hcentury, if_pos hfour, Bool.toNat_true]
      omega
    · have hleap : isLeap (k + 1) = false := by simp [isLeap, hcentury, hfour]
      rw [hleap, if_pos hquarter, if_pos hcentury, if_neg hfour, Bool.toNat_false]
      omega
  · have hfour : (k + 1) % 400 ≠ 0 := mt h400 hcentury
    by_cases hquarter : (k + 1) % 4 = 0
    · have hleap : isLeap (k + 1) = true := by simp [isLeap, hquarter, hcentury]
      rw [hleap, if_pos hquarter, if_neg hcentury, if_neg hfour, Bool.toNat_true]
      omega
    · have hleap : isLeap (k + 1) = false := by simp [isLeap, hquarter]
      rw [hleap, if_neg hquarter, if_neg hcentury, if_neg hfour, Bool.toNat_false]
      omega

theorem daysBeforeYear_mono {y y' : Nat} (hy : 1 ≤ y) (h : y < y') :
    daysBeforeYear y + 365 + (isLeap y).toNat ≤ daysBeforeYear y' := by
  induction y' with
  | zero => omega
  | succ y' ih =>
      by_cases heq : y = y'
      · rw [heq, daysBeforeYear_succ (by omega)]
      · have hbefore := ih (by omega)
        rw [daysBeforeYear_succ (by omega)]
        omega

variable {d d' : Datetime}

/-- The days of a date before the end of its year. -/
theorem toordinal_le (d : Datetime) :
    d.toordinal ≤ daysBeforeYear d.year + 365 + (isLeap d.year).toNat := by
  have hmonth : d.month < 13 := Nat.lt_succ_of_le d.month_valid.2
  have hend : daysBeforeMonth d.year d.month + daysInMonth d.year d.month ≤
      daysBeforeMonth d.year 13 := daysBeforeMonth_mono d.month_valid.1 hmonth
  have hday := d.day_valid.2
  rw [daysBeforeMonth_thirteen] at hend
  unfold toordinal
  omega

theorem toordinal_lt_of_year (h : d.year < d'.year) : d.toordinal < d'.toordinal := by
  have hend := d.toordinal_le
  have hyear := daysBeforeYear_mono d.year_valid.1 h
  have hday := d'.day_valid.1
  unfold toordinal at hend ⊢
  omega

theorem toordinal_lt_of_month (hyear : d.year = d'.year) (h : d.month < d'.month) :
    d.toordinal < d'.toordinal := by
  have hmonth : daysBeforeMonth d.year d.month + daysInMonth d.year d.month ≤
      daysBeforeMonth d.year d'.month := daysBeforeMonth_mono d.month_valid.1 h
  have hday := d.day_valid.2
  have hday' := d'.day_valid.1
  unfold toordinal
  rw [← hyear]
  omega

theorem toordinal_lt_of_day (hyear : d.year = d'.year) (hmonth : d.month = d'.month)
    (h : d.day < d'.day) : d.toordinal < d'.toordinal := by
  unfold toordinal
  rw [hyear, hmonth]
  omega

/-- The first of two naive datetimes has fewer microseconds on the clock. -/
theorem instant_lt_of_fields_lt (h : d.offset = none) (h' : d'.offset = none)
    (hlt : d.fields < d'.fields) : d.instant < d'.instant := by
  have hours := d.hour_valid
  have hminutes := d.minute_valid
  have hseconds := d.second_valid
  have hmicroseconds := d.microsecond_valid
  have hday : d.toordinal < d'.toordinal ∨ d.toordinal = d'.toordinal ∧
      [d.hour, d.minute, d.second, d.microsecond] <
        [d'.hour, d'.minute, d'.second, d'.microsecond] := by
    unfold fields at hlt
    rw [List.cons_lt_cons_iff, List.cons_lt_cons_iff, List.cons_lt_cons_iff] at hlt
    rcases hlt with hyear | ⟨hyear, hmonth | ⟨hmonth, hday | ⟨hday, htime⟩⟩⟩
    · exact .inl (toordinal_lt_of_year hyear)
    · exact .inl (toordinal_lt_of_month hyear hmonth)
    · exact .inl (toordinal_lt_of_day hyear hmonth hday)
    · refine .inr ⟨?_, htime⟩
      rw [toordinal, toordinal, hyear, hmonth, hday]
  unfold instant
  rw [h, h']
  simp only [List.cons_lt_cons_iff, List.not_lt_nil, and_false, or_false] at hday
  omega

theorem eq_of_fields (h : d.offset = none) (h' : d'.offset = none) (heq : d.fields = d'.fields) :
    d = d' := by
  simp only [fields, List.cons.injEq, and_true] at heq
  obtain ⟨hyear, hmonth, hday, hhour, hminute, hsecond, hmicrosecond⟩ := heq
  exact Datetime.ext hyear hmonth hday hhour hminute hsecond hmicrosecond (h.trans h'.symm)

/-- **The order of the fields is the order on the clock.** -/
theorem fields_lt_iff (h : d.offset = none) (h' : d'.offset = none) :
    d.fields < d'.fields ↔ d.instant < d'.instant := by
  refine ⟨instant_lt_of_fields_lt h h', fun hlt => ?_⟩
  rcases lt_trichotomy d.fields d'.fields with hless | heq | hmore
  · exact hless
  · rw [eq_of_fields h h' heq] at hlt
    exact absurd hlt (lt_irrefl _)
  · exact absurd (instant_lt_of_fields_lt h' h hmore) (lt_asymm hlt)

/-- Two naive datetimes on one point of the clock are the same. -/
theorem eq_of_instant (h : d.offset = none) (h' : d'.offset = none)
    (heq : d.instant = d'.instant) : d = d' := by
  rcases lt_trichotomy d.fields d'.fields with hless | hfields | hmore
  · exact absurd heq (instant_lt_of_fields_lt h h' hless).ne
  · exact eq_of_fields h h' hfields
  · exact absurd heq.symm (instant_lt_of_fields_lt h' h hmore).ne

/-! ## The text -/

/-- The microseconds, if there are any. -/
def microsecondText (microsecond : Nat) : List Char :=
  if microsecond = 0 then [] else '.' :: padded 6 microsecond

/-- The offset from UTC, if there is one. -/
def offsetText : Option Int → List Char
  | none => []
  | some o =>
      let n := o.natAbs
      (if o < 0 then '-' else '+') :: padded 2 (n / 3600000000) ++
        ':' :: padded 2 (n / 60000000 % 60) ++
        if n % 60000000 = 0 then []
        else ':' :: padded 2 (n / 1000000 % 60) ++ microsecondText (n % 1000000)

/-- `isoformat()`. -/
def isoformat (d : Datetime) : String :=
  String.ofList (padded 4 d.year ++ '-' :: (padded 2 d.month ++ '-' :: (padded 2 d.day ++
    'T' :: (padded 2 d.hour ++ ':' :: (padded 2 d.minute ++ ':' :: (padded 2 d.second ++
      (microsecondText d.microsecond ++ offsetText d.offset)))))))

/-- A text without microseconds is a proper beginning of one with them. -/
theorem microsecondText_lt_iff {m m' : Nat} (h : m < 1000000) (h' : m' < 1000000) :
    microsecondText m < microsecondText m' ↔ m < m' := by
  unfold microsecondText
  by_cases hzero : m = 0
  · by_cases hzero' : m' = 0
    · simp [hzero, hzero']
    · rw [if_pos hzero, if_neg hzero']
      simp only [List.nil_lt_cons, true_iff]
      omega
  · by_cases hzero' : m' = 0
    · rw [if_pos hzero']
      simp only [List.not_lt_nil, false_iff]
      omega
    · rw [if_neg hzero, if_neg hzero', List.cons_lt_cons_self, padded_lt_iff h h']

/-- The texts of naive datetimes are ordered as their fields are. -/
theorem isoformat_lt_iff (h : d.offset = none) (h' : d'.offset = none) :
    d.isoformat.toList < d'.isoformat.toList ↔ d.fields < d'.fields := by
  have hfields : ∀ {n m : Nat}, n < 60 → m < 60 → n < 10 ^ 2 ∧ m < 10 ^ 2 := by omega
  have hyear : d.year < 10 ^ 4 ∧ d'.year < 10 ^ 4 :=
    ⟨Nat.lt_succ_of_le d.year_valid.2, Nat.lt_succ_of_le d'.year_valid.2⟩
  have hmonth : d.month < 10 ^ 2 ∧ d'.month < 10 ^ 2 :=
    hfields (by have := d.month_valid.2; omega) (by have := d'.month_valid.2; omega)
  have hday : d.day < 10 ^ 2 ∧ d'.day < 10 ^ 2 :=
    hfields (by have := d.day_valid.2.trans (daysInMonth_le _ _); omega)
      (by have := d'.day_valid.2.trans (daysInMonth_le _ _); omega)
  have hhour : d.hour < 10 ^ 2 ∧ d'.hour < 10 ^ 2 :=
    hfields (by have := d.hour_valid; omega) (by have := d'.hour_valid; omega)
  have hminute := hfields d.minute_valid d'.minute_valid
  have hsecond := hfields d.second_valid d'.second_valid
  rw [isoformat, isoformat, String.toList_ofList, String.toList_ofList, h, h', offsetText,
    List.append_nil, List.append_nil, padded_append_lt_iff hyear.1 hyear.2,
    List.cons_lt_cons_self, padded_append_lt_iff hmonth.1 hmonth.2, List.cons_lt_cons_self,
    padded_append_lt_iff hday.1 hday.2, List.cons_lt_cons_self,
    padded_append_lt_iff hhour.1 hhour.2, List.cons_lt_cons_self,
    padded_append_lt_iff hminute.1 hminute.2, List.cons_lt_cons_self,
    padded_append_lt_iff hsecond.1 hsecond.2,
    microsecondText_lt_iff d.microsecond_valid d'.microsecond_valid]
  simp only [fields, List.cons_lt_cons_iff, List.not_lt_nil, and_false, or_false]

theorem ascii_of_mem_padded {width n : Nat} {c : Char} (h : c ∈ padded width n) :
    c.toNat < 128 := by
  have hdigit : ∀ n < 10, (Nat.digitChar n).toNat < 128 := by decide
  induction width generalizing n with
  | zero => exact absurd h List.not_mem_nil
  | succ width ih =>
      rcases List.mem_append.mp h with hfirst | hlast
      · exact ih hfirst
      · rw [List.mem_singleton.mp hlast]
        exact hdigit _ (Nat.mod_lt n (by decide))

/-- The text of a naive datetime is ASCII. -/
theorem ascii_isoformat (h : d.offset = none) : ∀ c ∈ d.isoformat.toList, c.toNat < 128 := by
  have hmicro : ∀ c ∈ microsecondText d.microsecond, c.toNat < 128 := by
    intro c hc
    unfold microsecondText at hc
    split_ifs at hc
    · exact absurd hc List.not_mem_nil
    · rcases List.mem_cons.mp hc with rfl | hc
      · decide
      · exact ascii_of_mem_padded hc
  rw [isoformat, String.toList_ofList, h, offsetText, List.append_nil]
  simp only [List.mem_append, List.mem_cons]
  rintro c (hc | rfl | hc | rfl | hc | rfl | hc | rfl | hc | rfl | hc | hc)
  all_goals first | decide | exact ascii_of_mem_padded hc | exact hmicro c hc

/-- **The bytes of the text are ordered as the naive datetimes are.** -/
theorem utf8_isoformat_lt_iff (h : d.offset = none) (h' : d'.offset = none) :
    Text.utf8 d.isoformat < Text.utf8 d'.isoformat ↔ d.instant < d'.instant := by
  have hbytes := utf8_lt_iff (ascii_isoformat h) (ascii_isoformat h')
  rw [String.ofList_toList, String.ofList_toList] at hbytes
  rw [hbytes, isoformat_lt_iff h h', fields_lt_iff h h']

end Datetime
end Ucser
