import Mathlib.Data.List.DropRight
import Mathlib.Data.List.Infix
import Mathlib.Data.String.Basic
import Mathlib.Tactic.IntervalCases

/-!
# Text: UTF-8, base64, lower-casing and substring tests

What the standard library does with strings, as far as the repository leans on it.

* `utf8` — `s.encode('utf-8')`; `utf8_injective`, `length_le_length_utf8`, and what a part of
  an encoding decodes to, `exists_append_of_utf8Decode`.
* `b64encode`, `a2b`, `b64decode` — base64 and CPython's lenient decoder, which skips
  characters outside the alphabet and stops at the first complete padding;
  `b64decode_b64encode` is **the round trip**.
* `length_b64encode`, `length_lt_length_b64encode` — the length of an encoding:
  four characters for every three bytes begun, so always more than there were bytes.
* `readLine` — a line reader that accepts `\n`, `\r` and `\r\n`.
* `lower`, `contains` — `s.lower()` and `token in s`.
* `strip`, `strip_pad`, `filter_strip` — `s.strip()`: **blanks around a text do not matter**,
  and nothing else is taken away; `strip_eq_self_iff` says which texts it leaves alone.
* `parseInt` — `int(s)`; `parseInt_toDigits` reads back a number written in decimal.
-/

namespace Ucser
namespace Text

/-! ## UTF-8 -/

/-- `s.encode('utf-8')`. -/
def utf8 (s : String) : List UInt8 := s.toList.flatMap String.utf8EncodeChar

theorem utf8_injective : Function.Injective utf8 := by
  intro s t h
  have hb : s.toList.utf8Encode = t.toList.utf8Encode := by
    rw [List.utf8Encode, List.utf8Encode]
    exact congrArg List.toByteArray h
  rw [← String.toByteArray_ofList, ← String.toByteArray_ofList] at hb
  have hs := String.toByteArray_inj.mp hb
  simpa using hs

@[simp] theorem utf8_empty : utf8 "" = [] := by
  simp [utf8]

/-- `data.decode()`: the text that the bytes encode, if they do encode one. -/
def utf8Decode (data : List UInt8) : Option String := String.fromUTF8? data.toByteArray

/-- A text is read back from its encoding. -/
theorem utf8Decode_utf8 (s : String) : utf8Decode (utf8 s) = some s := by
  have hbytes : (utf8 s).toByteArray = s.toByteArray := by
    rw [← String.ofList_toList (s := s), String.toByteArray_ofList, String.ofList_toList]
    rfl
  rw [utf8Decode, hbytes, String.fromUTF8?, dif_pos s.isValidUTF8]
  rfl

/-- What a part of an encoding decodes to, if to anything, is a part of the text. -/
theorem exists_append_of_utf8Decode {s t : String} {data rest : List UInt8}
    (hdata : utf8Decode data = some s) (ht : utf8 t = data ++ rest) : ∃ u, t = s ++ u := by
  have hs : s.toList.utf8Encode = data.toByteArray := by
    rw [String.utf8Encode_toList]
    rw [utf8Decode, String.fromUTF8?] at hdata
    split at hdata
    · exact congrArg String.toByteArray (Option.some.inj hdata).symm
    · exact absurd hdata (by simp)
  have hbytes : s.toList.utf8Encode ++ rest.toByteArray = t.toList.utf8Encode := by
    rw [hs, ← List.toByteArray_append, ← ht]
    rfl
  obtain ⟨u, hu⟩ := List.isPrefix_of_utf8Encode_append_eq_utf8Encode _ hbytes
  refine ⟨String.ofList u, String.toList_injective ?_⟩
  rw [String.toList_append, String.toList_ofList, hu]

theorem length_le_length_flatMap_utf8 (l : List Char) :
    l.length ≤ (l.flatMap String.utf8EncodeChar).length := by
  induction l with
  | nil => simp
  | cons c l ih =>
      have hpos := Char.utf8Size_pos c
      rw [List.flatMap_cons, List.length_append, String.length_utf8EncodeChar, List.length_cons]
      omega

/-- A character takes at least one byte. -/
theorem length_le_length_utf8 (s : String) : s.toList.length ≤ (utf8 s).length :=
  length_le_length_flatMap_utf8 s.toList

/-! ## Base64 -/

/-- The base64 alphabet. -/
def b64Char (n : Nat) : Char :=
  if n < 26 then Char.ofNat (65 + n)
  else if n < 52 then Char.ofNat (71 + n)
  else if n < 62 then Char.ofNat (n - 4)
  else if n = 62 then '+'
  else '/'

/-- The place of a character in the base64 alphabet, if it has one. -/
def b64Val (c : Char) : Option Nat :=
  if 'A' ≤ c ∧ c ≤ 'Z' then some (c.toNat - 65)
  else if 'a' ≤ c ∧ c ≤ 'z' then some (c.toNat - 71)
  else if '0' ≤ c ∧ c ≤ '9' then some (c.toNat + 4)
  else if c = '+' then some 62
  else if c = '/' then some 63
  else none

/-- `base64.b64encode`. -/
def b64encode : List UInt8 → List Char
  | [] => []
  | [a] => [b64Char (a.toNat / 4), b64Char (a.toNat % 4 * 16), '=', '=']
  | [a, b] =>
      [b64Char (a.toNat / 4), b64Char (a.toNat % 4 * 16 + b.toNat / 16),
        b64Char (b.toNat % 16 * 4), '=']
  | a :: b :: c :: rest =>
      b64Char (a.toNat / 4) :: b64Char (a.toNat % 4 * 16 + b.toNat / 16) ::
        b64Char (b.toNat % 16 * 4 + c.toNat / 64) :: b64Char (c.toNat % 64) :: b64encode rest

/-- Why a text is not base64. -/
inductive Base64Error where
  /-- `ValueError`: string argument should contain only ASCII characters. -/
  | nonAscii
  /-- `binascii.Error`: number of data characters cannot be 1 more than a
  multiple of 4. -/
  | oneMoreThanMultiple
  /-- `binascii.Error`: Incorrect padding. -/
  | incorrectPadding
  deriving DecidableEq, Repr

/-- `binascii.a2b_base64` without strict mode: `quad` is the position inside a
group of four, `left` the bits kept from the previous character, `pads` the
padding characters seen since the last data character. -/
def a2b (quad left pads : Nat) : List Char → Except Base64Error (List UInt8)
  | [] =>
      if quad = 0 then .ok []
      else if quad = 1 then .error .oneMoreThanMultiple
      else .error .incorrectPadding
  | c :: cs =>
      if c = '=' then
        if 2 ≤ quad then
          if 4 ≤ quad + (pads + 1) then .ok [] else a2b quad left (pads + 1) cs
        else a2b quad left pads cs
      else
        match b64Val c with
        | none => a2b quad left pads cs
        | some v =>
            match quad with
            | 0 => a2b 1 v 0 cs
            | 1 => (a2b 2 (v % 16) 0 cs).map (UInt8.ofNat (left * 4 + v / 16) :: ·)
            | 2 => (a2b 3 (v % 4) 0 cs).map (UInt8.ofNat (left * 16 + v / 4) :: ·)
            | _ => (a2b 0 0 0 cs).map (UInt8.ofNat (left * 64 + v) :: ·)

/-- `base64.b64decode` on a `str`: only ASCII is looked at. -/
def b64decode (s : List Char) : Except Base64Error (List UInt8) :=
  if s.all (·.toNat < 128) then a2b 0 0 0 s else .error .nonAscii

theorem b64Char_spec : ∀ n, n < 64 →
    b64Char n ≠ '=' ∧ b64Val (b64Char n) = some n ∧ (b64Char n).toNat < 128 ∧
      b64Char n ≠ '\n' ∧ b64Char n ≠ '\r' := by decide

section DataCharacters

variable {n : Nat} (h : n < 64) (left pads : Nat) (cs : List Char)
include h

theorem a2b_first : a2b 0 left pads (b64Char n :: cs) = a2b 1 n 0 cs := by
  obtain ⟨hne, hval, -⟩ := b64Char_spec n h
  rw [a2b, if_neg hne, hval]
  rfl

theorem a2b_second : a2b 1 left pads (b64Char n :: cs) =
    (a2b 2 (n % 16) 0 cs).map (UInt8.ofNat (left * 4 + n / 16) :: ·) := by
  obtain ⟨hne, hval, -⟩ := b64Char_spec n h
  rw [a2b, if_neg hne, hval]
  rfl

theorem a2b_third : a2b 2 left pads (b64Char n :: cs) =
    (a2b 3 (n % 4) 0 cs).map (UInt8.ofNat (left * 16 + n / 4) :: ·) := by
  obtain ⟨hne, hval, -⟩ := b64Char_spec n h
  rw [a2b, if_neg hne, hval]
  rfl

theorem a2b_fourth : a2b 3 left pads (b64Char n :: cs) =
    (a2b 0 0 0 cs).map (UInt8.ofNat (left * 64 + n) :: ·) := by
  obtain ⟨hne, hval, -⟩ := b64Char_spec n h
  rw [a2b, if_neg hne, hval]
  rfl

end DataCharacters

theorem ofNat_eq_self {a : UInt8} {n : Nat} (h : n = a.toNat) : UInt8.ofNat n = a := by
  rw [h, UInt8.ofNat_toNat]

/-- Decoding what was encoded gives the bytes back. -/
theorem a2b_b64encode (bs : List UInt8) : a2b 0 0 0 (b64encode bs) = .ok bs := by
  induction bs using b64encode.induct with
  | case1 => rfl
  | case2 a =>
      have ha := a.toNat_lt
      have h1 : UInt8.ofNat (a.toNat / 4 * 4 + a.toNat % 4 * 16 / 16) = a :=
        ofNat_eq_self (by omega)
      rw [b64encode, a2b_first (by omega), a2b_second (by omega), h1]
      rfl
  | case3 a b =>
      have ha := a.toNat_lt
      have hb := b.toNat_lt
      have h1 : UInt8.ofNat (a.toNat / 4 * 4 + (a.toNat % 4 * 16 + b.toNat / 16) / 16) = a :=
        ofNat_eq_self (by omega)
      have h2 : UInt8.ofNat ((a.toNat % 4 * 16 + b.toNat / 16) % 16 * 16 +
          b.toNat % 16 * 4 / 4) = b := ofNat_eq_self (by omega)
      rw [b64encode, a2b_first (by omega), a2b_second (by omega), a2b_third (by omega), h1, h2]
      rfl
  | case4 a b c rest ih =>
      have ha := a.toNat_lt
      have hb := b.toNat_lt
      have hc := c.toNat_lt
      have h1 : UInt8.ofNat (a.toNat / 4 * 4 + (a.toNat % 4 * 16 + b.toNat / 16) / 16) = a :=
        ofNat_eq_self (by omega)
      have h2 : UInt8.ofNat ((a.toNat % 4 * 16 + b.toNat / 16) % 16 * 16 +
          (b.toNat % 16 * 4 + c.toNat / 64) / 4) = b := ofNat_eq_self (by omega)
      have h3 : UInt8.ofNat ((b.toNat % 16 * 4 + c.toNat / 64) % 4 * 64 + c.toNat % 64) = c :=
        ofNat_eq_self (by omega)
      rw [b64encode, a2b_first (by omega), a2b_second (by omega), a2b_third (by omega),
        a2b_fourth (by omega), h1, h2, h3, ih]
      rfl

/-- What the characters of an encoding look like: ASCII, and none of them ends a
line. -/
theorem b64encode_chars (bs : List UInt8) :
    ∀ c ∈ b64encode bs, c.toNat < 128 ∧ c ≠ '\n' ∧ c ≠ '\r' := by
  have hpad : ('=' : Char).toNat < 128 ∧ ('=' : Char) ≠ '\n' ∧ ('=' : Char) ≠ '\r' := by decide
  have hdata : ∀ n, n < 64 →
      (b64Char n).toNat < 128 ∧ b64Char n ≠ '\n' ∧ b64Char n ≠ '\r' :=
    fun n hn => (b64Char_spec n hn).2.2
  induction bs using b64encode.induct with
  | case1 => intro c hc; simp [b64encode] at hc
  | case2 a =>
      have ha := a.toNat_lt
      intro c hc
      simp only [b64encode, List.mem_cons, List.not_mem_nil, or_false] at hc
      rcases hc with rfl | rfl | rfl | rfl
      · exact hdata _ (by omega)
      · exact hdata _ (by omega)
      · exact hpad
      · exact hpad
  | case3 a b =>
      have ha := a.toNat_lt
      have hb := b.toNat_lt
      intro c hc
      simp only [b64encode, List.mem_cons, List.not_mem_nil, or_false] at hc
      rcases hc with rfl | rfl | rfl | rfl
      · exact hdata _ (by omega)
      · exact hdata _ (by omega)
      · exact hdata _ (by omega)
      · exact hpad
  | case4 a b c rest ih =>
      have ha := a.toNat_lt
      have hb := b.toNat_lt
      have hc := c.toNat_lt
      intro d hd
      simp only [b64encode, List.mem_cons] at hd
      rcases hd with rfl | rfl | rfl | rfl | hd
      · exact hdata _ (by omega)
      · exact hdata _ (by omega)
      · exact hdata _ (by omega)
      · exact hdata _ (by omega)
      · exact ih d hd

/-- **Base64 round trip** through the lenient decoder. -/
theorem b64decode_b64encode (bs : List UInt8) : b64decode (b64encode bs) = .ok bs := by
  have hascii : (b64encode bs).all (·.toNat < 128) = true := by
    rw [List.all_eq_true]
    intro c hc
    simpa using (b64encode_chars bs c hc).1
  rw [b64decode, if_pos hascii, a2b_b64encode]

/-- Four characters for every three bytes begun. -/
theorem length_b64encode (bs : List UInt8) :
    (b64encode bs).length = (bs.length + 2) / 3 * 4 := by
  induction bs using b64encode.induct with
  | case1 => rfl
  | case2 a => simp [b64encode]
  | case3 a b => simp [b64encode]
  | case4 a b c rest ih =>
      simp only [b64encode, List.length_cons, ih]
      omega

theorem length_lt_length_b64encode {bs : List UInt8} (h : bs ≠ []) :
    bs.length < (b64encode bs).length := by
  have hpos := List.length_pos_of_ne_nil h
  rw [length_b64encode]
  omega

theorem b64encode_ne_nil {bs : List UInt8} (h : bs ≠ []) : b64encode bs ≠ [] := by
  intro hnil
  have hlt := length_lt_length_b64encode h
  rw [hnil] at hlt
  exact absurd hlt (Nat.not_lt_zero _)

/-! ## Lines -/

/-- The first line of a text, as a stream reader returns it: up to the first
`\n` or `\r`; `none` at the end of the stream. -/
def readLine (text : List Char) : Option (List Char) :=
  match text with
  | [] => none
  | _ => some (text.takeWhile (fun c => c ≠ '\n' ∧ c ≠ '\r'))

theorem readLine_append_newline {l : List Char} (h : ∀ c ∈ l, c ≠ '\n' ∧ c ≠ '\r')
    (rest : List Char) : readLine (l ++ '\n' :: rest) = some l := by
  have htake : (l ++ '\n' :: rest).takeWhile (fun c => c ≠ '\n' ∧ c ≠ '\r') = l := by
    rw [List.takeWhile_append_of_pos (by simpa using h), List.takeWhile_cons]
    simp
  cases l with
  | nil => simp [readLine]
  | cons c l =>
      rw [List.cons_append] at htake ⊢
      rw [readLine, htake]
      exact List.cons_ne_nil _ _

/-! ## Lower case and substrings -/

/-- The lower-case form of one character.  Only `İ` and the Kelvin sign have an
ASCII character in theirs besides the ASCII letters; every other non-ASCII
character stands for its own non-ASCII image, which no ASCII token can meet. -/
def lowerChar (c : Char) : List Char :=
  if 'A' ≤ c ∧ c ≤ 'Z' then [Char.ofNat (c.toNat + 32)]
  else if c = '\u0130' then ['i', '\u0307']
  else if c = '\u212a' then ['k']
  else [c]

/-- `s.lower()`, as far as searching it for ASCII text can tell. -/
def lower (s : String) : List Char := s.toList.flatMap lowerChar

/-- `token in s`. -/
def contains (s : List Char) (token : String) : Bool := decide (token.toList <:+: s)

/-! ## Surrounding blanks -/

/-- `str.isspace` of one character. -/
def isSpace (c : Char) : Bool :=
  let n := c.toNat
  (9 ≤ n && n ≤ 13) || (28 ≤ n && n ≤ 32) || n == 0x85 || n == 0xA0 || n == 0x1680 ||
    (0x2000 ≤ n && n ≤ 0x200A) || n == 0x2028 || n == 0x2029 || n == 0x202F || n == 0x205F ||
    n == 0x3000

/-- `str.strip`. -/
def strip (s : List Char) : List Char :=
  ((s.dropWhile isSpace).reverse.dropWhile isSpace).reverse

/-- A text of blanks. -/
def Blank (s : List Char) : Prop := ∀ c ∈ s, isSpace c = true

instance (s : List Char) : Decidable (Blank s) :=
  List.decidableBAll (fun c => isSpace c = true) s

theorem strip_append_of_blank {a : List Char} (h : Blank a) (s : List Char) :
    strip (a ++ s) = strip s := by
  rw [strip, strip, List.dropWhile_append_of_pos h]

theorem strip_append_blank {b : List Char} (s : List Char) (h : Blank b) :
    strip (s ++ b) = strip s := by
  have hrev : ∀ l : List Char, (l ++ b).reverse.dropWhile isSpace = l.reverse.dropWhile isSpace := by
    intro l
    rw [List.reverse_append, List.dropWhile_append_of_pos]
    simpa [Blank] using h
  rw [strip, strip, List.dropWhile_append]
  by_cases hempty : (s.dropWhile isSpace).isEmpty
  · have hb : b.dropWhile isSpace = [] := List.dropWhile_eq_nil_iff.mpr h
    rw [if_pos hempty, hb, List.isEmpty_iff.mp hempty]
  · rw [if_neg hempty, hrev]

/-- **Blanks around a text do not matter.** -/
theorem strip_pad {a b : List Char} (ha : Blank a) (s : List Char) (hb : Blank b) :
    strip (a ++ s ++ b) = strip s := by
  rw [strip_append_blank _ hb, strip_append_of_blank ha]

theorem strip_of_blank {s : List Char} (h : Blank s) : strip s = [] := by
  rw [← List.append_nil s, strip_append_of_blank h]
  rfl

theorem blank_takeWhile (s : List Char) : Blank (s.takeWhile isSpace) :=
  fun _ hc => List.mem_takeWhile_imp hc

/-- A text is what `strip` leaves of it, with blanks around. -/
theorem exists_strip (s : List Char) :
    ∃ a b, Blank a ∧ Blank b ∧ s = a ++ strip s ++ b := by
  refine ⟨s.takeWhile isSpace, ((s.dropWhile isSpace).reverse.takeWhile isSpace).reverse,
    blank_takeWhile s, ?_, ?_⟩
  · intro c hc
    exact blank_takeWhile _ c (List.mem_reverse.mp hc)
  · have htail : strip s ++ ((s.dropWhile isSpace).reverse.takeWhile isSpace).reverse =
        s.dropWhile isSpace := by
      rw [strip, ← List.reverse_append, List.takeWhile_append_dropWhile, List.reverse_reverse]
    rw [List.append_assoc, htail, List.takeWhile_append_dropWhile]

/-- **Nothing but blanks is taken away.** -/
theorem filter_strip (s : List Char) :
    (strip s).filter (fun c => !isSpace c) = s.filter (fun c => !isSpace c) := by
  obtain ⟨a, b, ha, hb, hs⟩ := exists_strip s
  have hnone : ∀ {l : List Char}, Blank l → l.filter (fun c => !isSpace c) = [] := by
    intro l hl
    rw [List.filter_eq_nil_iff]
    intro c hc
    simp [hl c hc]
  conv => rhs; rw [hs]
  simp [hnone ha, hnone hb]

theorem strip_ne_nil {s : List Char} {c : Char} (h : c ∈ s) (hc : isSpace c = false) :
    strip s ≠ [] := by
  intro hnil
  have hfilter := filter_strip s
  rw [hnil, List.filter_nil, eq_comm, List.filter_eq_nil_iff] at hfilter
  exact hfilter c h (by simp [hc])

/-- What is left begins with no blank. -/
theorem head_strip {s rest : List Char} {c : Char} (h : strip s = c :: rest) :
    isSpace c = false := by
  have hprefix : strip s <+: s.dropWhile isSpace := List.rdropWhile_prefix isSpace _
  obtain ⟨tail, htail⟩ := hprefix
  have hhead := List.head?_dropWhile_not isSpace s
  rw [← htail, h] at hhead
  simpa using hhead

theorem dropWhile_eq_self {s : List Char} (h : ∀ c ∈ s.head?, isSpace c = false) :
    s.dropWhile isSpace = s := by
  cases s with
  | nil => rfl
  | cons c s => rw [List.dropWhile_cons_of_neg (by simpa using h c)]

theorem head?_strip {s : List Char} {c : Char} (h : c ∈ (strip s).head?) : isSpace c = false := by
  obtain ⟨rest, hrest⟩ := List.head?_eq_some_iff.mp h
  exact head_strip hrest

/-- What is left ends with no blank. -/
theorem getLast?_strip {s : List Char} {c : Char} (h : c ∈ (strip s).getLast?) :
    isSpace c = false := by
  rw [strip, List.getLast?_reverse] at h
  have hhead := List.head?_dropWhile_not isSpace (s.dropWhile isSpace).reverse
  rw [h] at hhead
  simpa using hhead

/-- The texts that `strip` leaves alone: those with no blank at either end. -/
theorem strip_eq_self_iff {s : List Char} : strip s = s ↔
    (∀ c ∈ s.head?, isSpace c = false) ∧ ∀ c ∈ s.getLast?, isSpace c = false := by
  constructor
  · intro h
    rw [← h]
    exact ⟨fun _ => head?_strip, fun _ => getLast?_strip⟩
  · rintro ⟨hhead, hlast⟩
    rw [strip, dropWhile_eq_self hhead, dropWhile_eq_self, List.reverse_reverse]
    simpa using hlast

theorem strip_strip (s : List Char) : strip (strip s) = strip s :=
  strip_eq_self_iff.mpr ⟨fun _ => head?_strip, fun _ => getLast?_strip⟩

theorem strip_of_no_space {s : List Char} (h : ∀ c ∈ s, isSpace c = false) : strip s = s :=
  strip_eq_self_iff.mpr ⟨fun c hc => h c (List.mem_of_mem_head? hc),
    fun c hc => h c (List.mem_of_getLast? hc)⟩

/-! ## Numbers -/

/-- The digits of a number, single underscores between them. -/
def digitsFrom (value : Nat) (afterDigit : Bool) : List Char → Option Nat
  | [] => if afterDigit then some value else none
  | c :: cs =>
      if c.isDigit then digitsFrom (10 * value + (c.toNat - '0'.toNat)) true cs
      else if c = '_' ∧ afterDigit = true then digitsFrom value false cs
      else none

/-- `int(s)`, for ASCII digits. -/
def parseInt (s : List Char) : Option Int :=
  match strip s with
  | [] => none
  | c :: digits =>
      if c = '-' then (digitsFrom 0 false digits).map (fun n => -(n : Int))
      else if c = '+' then (digitsFrom 0 false digits).map (fun n => (n : Int))
      else (digitsFrom 0 false (c :: digits)).map (fun n => (n : Int))

theorem digitsFrom_of_isDigit {digits : List Char} (h : ∀ c ∈ digits, c.isDigit = true)
    (value : Nat) : digitsFrom value true digits = some (Nat.ofDigitChars 10 digits value) := by
  induction digits generalizing value with
  | nil => simp [digitsFrom]
  | cons c digits ih =>
      obtain ⟨hc, hdigits⟩ := List.forall_mem_cons.mp h
      rw [digitsFrom, if_pos hc, ih hdigits, Nat.ofDigitChars_cons]

theorem digitChar_inj {k l : Nat} (hk : k < 10) (hl : l < 10)
    (h : Nat.digitChar k = Nat.digitChar l) : k = l := by
  have hall : ∀ k < 10, ∀ l < 10, Nat.digitChar k = Nat.digitChar l → k = l := by decide
  exact hall k hk l hl h

theorem isSpace_of_isDigit {c : Char} (h : c.isDigit = true) : isSpace c = false := by
  have hrange : 48 ≤ c.toNat ∧ c.toNat ≤ 57 := by
    simpa [Char.isDigit, UInt32.le_iff_toNat_le] using h
  obtain ⟨hlow, hhigh⟩ := hrange
  unfold isSpace
  generalize c.toNat = n at hlow hhigh
  interval_cases n <;> rfl

/-- **A number written in decimal is read back**, with blanks around it or not. -/
theorem parseInt_toDigits (n : Nat) {a b : List Char} (ha : Blank a) (hb : Blank b) :
    parseInt (a ++ Nat.toDigits 10 n ++ b) = some (n : Int) := by
  have hdigits : ∀ c ∈ Nat.toDigits 10 n, c.isDigit = true :=
    fun c hc => Nat.isDigit_of_mem_toDigits (by decide) (by decide) hc
  have hstrip : strip (a ++ Nat.toDigits 10 n ++ b) = Nat.toDigits 10 n := by
    rw [strip_pad ha _ hb]
    exact strip_of_no_space fun c hc => isSpace_of_isDigit (hdigits c hc)
  have hvalue := Nat.ofDigitChars_ten_toDigits (n := n)
  rw [parseInt, hstrip]
  cases hcs : Nat.toDigits 10 n with
  | nil => exact absurd hcs Nat.toDigits_ne_nil
  | cons c digits =>
      rw [hcs] at hdigits hvalue
      obtain ⟨hc, hrest⟩ := List.forall_mem_cons.mp hdigits
      have hminus : c ≠ '-' := by
        rintro rfl
        exact absurd hc (by decide)
      have hplus : c ≠ '+' := by
        rintro rfl
        exact absurd hc (by decide)
      rw [Nat.ofDigitChars_cons] at hvalue
      simp only [hminus, hplus, if_false, digitsFrom, hc, if_true]
      rw [digitsFrom_of_isDigit hrest, hvalue]
      rfl

end Text
end Ucser
