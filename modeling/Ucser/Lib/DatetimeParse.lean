import Ucser.Lib.Datetime

/-!
# Reading `isoformat` back

The reader of naive datetimes, field after field, each of its fixed width.

* `scanPadded`, `scanPadded_append` — a numeral of a fixed width is read back.
* `Datetime.ofFields?` — a datetime from its fields, if they are in range.
* `Datetime.ofIsoformat?`, `ofIsoformat?_isoformat` — **a naive datetime is read back from its
  text.**
-/

namespace Ucser

/-- A numeral of this many digits, and what is behind it. -/
def scanPadded (width : Nat) (cs : List Char) : Option (Nat × List Char) :=
  if width ≤ cs.length ∧ (cs.take width).all Char.isDigit then
    some (Nat.ofDigitChars 10 (cs.take width) 0, cs.drop width)
  else none

/-- What is behind this character, if it is the next. -/
def scanChar (c : Char) : List Char → Option (List Char)
  | [] => none
  | d :: cs => if d = c then some cs else none

theorem ofDigitChars_padded (width n : Nat) :
    Nat.ofDigitChars 10 (padded width n) 0 = n % 10 ^ width := by
  induction width generalizing n with
  | zero => simp [padded, Nat.mod_one]
  | succ width ih =>
      rw [padded, Nat.ofDigitChars_append, ih, Nat.ofDigitChars_cons_digitChar_of_lt_ten
        (Nat.mod_lt n (by decide)), Nat.ofDigitChars_nil, pow_succ, mul_comm (10 ^ width) 10,
        Nat.mod_mul]
      omega

theorem isDigit_padded (width n : Nat) : (padded width n).all Char.isDigit = true := by
  have hdigit : ∀ d < 10, (Nat.digitChar d).isDigit = true := by decide
  induction width generalizing n with
  | zero => rfl
  | succ width ih =>
      rw [padded, List.all_append, ih, List.all_cons, List.all_nil,
        hdigit _ (Nat.mod_lt n (by decide))]
      rfl

/-- **A numeral is read back**, whatever comes behind it. -/
theorem scanPadded_append {width n : Nat} (h : n < 10 ^ width) (cs : List Char) :
    scanPadded width (padded width n ++ cs) = some (n, cs) := by
  have htake : (padded width n ++ cs).take width = padded width n := by
    rw [List.take_append_of_le_length (length_padded width n).ge,
      List.take_of_length_le (length_padded width n).le]
  have hdrop : (padded width n ++ cs).drop width = cs := by
    rw [List.drop_append_of_le_length (length_padded width n).ge,
      List.drop_of_length_le (length_padded width n).le, List.nil_append]
  have hlength : width ≤ (padded width n ++ cs).length := by
    rw [List.length_append, length_padded]
    omega
  rw [scanPadded, htake, hdrop, if_pos ⟨hlength, isDigit_padded width n⟩, ofDigitChars_padded,
    Nat.mod_eq_of_lt h]

@[simp] theorem scanChar_self (c : Char) (cs : List Char) : scanChar c (c :: cs) = some cs :=
  if_pos rfl

namespace Datetime

theorem naive_valid : ∀ o ∈ (none : Option Int), o.natAbs < 86400000000 := by
  intro o ho
  cases ho

/-- A naive datetime from its fields. -/
def ofFields? (year month day hour minute second microsecond : Nat) : Option Datetime :=
  if h : (1 ≤ year ∧ year ≤ 9999) ∧ (1 ≤ month ∧ month ≤ 12) ∧
      (1 ≤ day ∧ day ≤ daysInMonth year month) ∧ hour < 24 ∧ minute < 60 ∧ second < 60 ∧
      microsecond < 1000000 then
    some {
      year, month, day, hour, minute, second, microsecond
      year_valid := h.1
      month_valid := h.2.1
      day_valid := h.2.2.1
      hour_valid := h.2.2.2.1
      minute_valid := h.2.2.2.2.1
      second_valid := h.2.2.2.2.2.1
      microsecond_valid := h.2.2.2.2.2.2
      offset_valid := naive_valid }
  else none

/-- The microseconds, if there are any. -/
def scanMicrosecond : List Char → Option (Nat × List Char)
  | '.' :: cs => scanPadded 6 cs
  | cs => some (0, cs)

/-- A naive datetime from its text. -/
def ofIsoformat? (text : String) : Option Datetime := do
  let (year, cs) ← scanPadded 4 text.toList
  let cs ← scanChar '-' cs
  let (month, cs) ← scanPadded 2 cs
  let cs ← scanChar '-' cs
  let (day, cs) ← scanPadded 2 cs
  let cs ← scanChar 'T' cs
  let (hour, cs) ← scanPadded 2 cs
  let cs ← scanChar ':' cs
  let (minute, cs) ← scanPadded 2 cs
  let cs ← scanChar ':' cs
  let (second, cs) ← scanPadded 2 cs
  let (microsecond, cs) ← scanMicrosecond cs
  if cs = [] then ofFields? year month day hour minute second microsecond else none

variable {d : Datetime}

theorem ofFields?_fields (h : d.offset = none) :
    ofFields? d.year d.month d.day d.hour d.minute d.second d.microsecond = some d := by
  rw [ofFields?, dif_pos ⟨d.year_valid, d.month_valid, d.day_valid, d.hour_valid, d.minute_valid,
    d.second_valid, d.microsecond_valid⟩]
  exact congrArg some (Datetime.ext rfl rfl rfl rfl rfl rfl rfl h.symm)

theorem scanMicrosecond_text {microsecond : Nat} (h : microsecond < 1000000) :
    scanMicrosecond (microsecondText microsecond) = some (microsecond, []) := by
  unfold microsecondText
  split_ifs with hzero
  · rw [hzero]
    rfl
  · have hscan : scanPadded 6 (padded 6 microsecond ++ []) = some (microsecond, []) :=
      scanPadded_append h []
    rw [List.append_nil] at hscan
    exact hscan

/-- **A naive datetime is read back from its text.** -/
theorem ofIsoformat?_isoformat (h : d.offset = none) : ofIsoformat? d.isoformat = some d := by
  have hyear : d.year < 10 ^ 4 := by have := d.year_valid; omega
  have hmonth : d.month < 10 ^ 2 := by have := d.month_valid; omega
  have hday : d.day < 10 ^ 2 := by
    have hle := daysInMonth_le d.year d.month
    have := d.day_valid
    omega
  have hhour : d.hour < 10 ^ 2 := by have := d.hour_valid; omega
  have hminute : d.minute < 10 ^ 2 := by have := d.minute_valid; omega
  have hsecond : d.second < 10 ^ 2 := by have := d.second_valid; omega
  rw [ofIsoformat?, isoformat, String.toList_ofList, h, offsetText, List.append_nil]
  simp only [scanPadded_append hyear, scanPadded_append hmonth, scanPadded_append hday,
    scanPadded_append hhour, scanPadded_append hminute, scanPadded_append hsecond, scanChar_self,
    scanMicrosecond_text d.microsecond_valid, Option.bind_eq_bind, Option.bind_some, if_pos]
  exact ofFields?_fields h

end Datetime
end Ucser
