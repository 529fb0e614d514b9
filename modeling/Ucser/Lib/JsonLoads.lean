import Mathlib.Data.List.TakeWhile
import Ucser.Lib.Dict
import Ucser.Lib.Json

/-!
# Reading JSON back

`json.loads`, and that it reads back what `json.dumps` writes, with or without blanks behind
the separators.

* `renderWith`, `dumpsPlain` — the text with some blanks behind every separator, keys in the
  order they stand; `json.dumps(v)` puts one there.
* `scanString`, `scanNumber`, `scanValue`, `loads` — the reader: strings with their escapes,
  the grammar of numbers, arrays, and objects, in which a later key replaces an earlier one.
  `NaN`, the infinities and a lone surrogate, which Python reads, are no `Value`.
* `Number.ofInt` — an integer, which is a literal.
* `WellFormed` — the values a Python program can hold: numbers are literals, keys distinct.
* `scanValue_renderWith` — **the reader reads a text back**, whatever stops a number behind
  it; `loads_dumpsPlain` is the consequence.
-/

namespace Ucser
namespace Json

/-! ## Writing with blanks -/

mutual
/-- The text of a value, with a padding behind every separator. -/
def renderWith (pad : List Char) : Value → List Char
  | .null => ['n', 'u', 'l', 'l']
  | .bool true => ['t', 'r', 'u', 'e']
  | .bool false => ['f', 'a', 'l', 's', 'e']
  | .num n => n.text
  | .str s => renderStr s
  | .arr [] => ['[', ']']
  | .arr (x :: xs) => '[' :: (renderWith pad x ++ renderTailWith pad xs)
  | .obj [] => ['{', '}']
  | .obj ((k, v) :: kvs) =>
      '{' :: (renderStr k ++ ':' :: (pad ++ (renderWith pad v ++ renderFieldsWith pad kvs)))

/-- The rest of an array after its first element. -/
def renderTailWith (pad : List Char) : List Value → List Char
  | [] => [']']
  | x :: xs => ',' :: (pad ++ (renderWith pad x ++ renderTailWith pad xs))

/-- The rest of an object after its first pair. -/
def renderFieldsWith (pad : List Char) : List (String × Value) → List Char
  | [] => ['}']
  | (k, v) :: kvs =>
      ',' :: (pad ++
        (renderStr k ++ ':' :: (pad ++ (renderWith pad v ++ renderFieldsWith pad kvs))))
end

/-- `json.dumps(v)`. -/
def dumpsPlain (v : Value) : String := String.ofList (renderWith [' '] v)

mutual
/-- Without padding it is the text of the sorted serialiser. -/
theorem renderWith_nil : ∀ v : Value, renderWith [] v = render v
  | .null => rfl
  | .bool true => rfl
  | .bool false => rfl
  | .num n => rfl
  | .str s => rfl
  | .arr [] => rfl
  | .arr (x :: xs) => by rw [renderWith, render, renderWith_nil x, renderTailWith_nil xs]
  | .obj [] => rfl
  | .obj ((k, v) :: kvs) => by
      rw [renderWith, render, renderWith_nil v, renderFieldsWith_nil kvs, List.nil_append]

theorem renderTailWith_nil : ∀ xs : List Value, renderTailWith [] xs = renderTail xs
  | [] => rfl
  | x :: xs => by
      rw [renderTailWith, renderTail, renderWith_nil x, renderTailWith_nil xs, List.nil_append]

theorem renderFieldsWith_nil :
    ∀ kvs : List (String × Value), renderFieldsWith [] kvs = renderFields kvs
  | [] => rfl
  | (k, v) :: kvs => by
      rw [renderFieldsWith, renderFields, renderWith_nil v, renderFieldsWith_nil kvs,
        List.nil_append, List.nil_append]
end

/-! ## Strings -/

/-- The value of a hexadecimal digit of either case. -/
def hexDigit? (c : Char) : Option Nat :=
  if '0' ≤ c ∧ c ≤ '9' then some (c.toNat - 48)
  else if 'a' ≤ c ∧ c ≤ 'f' then some (c.toNat - 87)
  else if 'A' ≤ c ∧ c ≤ 'F' then some (c.toNat - 55)
  else none

/-- Four hexadecimal digits. -/
def hex4 (a b c d : Char) : Option Nat := do
  let a ← hexDigit? a
  let b ← hexDigit? b
  let c ← hexDigit? c
  let d ← hexDigit? d
  return a * 4096 + b * 256 + c * 16 + d

/-- The character that an escape of two characters stands for. -/
def unescape (c : Char) : Option Char :=
  if c = '"' ∨ c = '\\' ∨ c = '/' then some c
  else if c = 'b' then some (Char.ofNat 0x08)
  else if c = 'f' then some (Char.ofNat 0x0C)
  else if c = 'n' then some '\n'
  else if c = 'r' then some '\r'
  else if c = 't' then some '\t'
  else none

/-- The code points and code units up to the closing quote, and what is behind it. -/
def scanUnits : List Char → Option (List Nat × List Char)
  | [] => none
  | '"' :: r => some ([], r)
  | '\\' :: 'u' :: a :: b :: c :: d :: r =>
      match hex4 a b c d with
      | some u => (scanUnits r).map fun p => (u :: p.1, p.2)
      | none => none
  | '\\' :: e :: r =>
      match unescape e with
      | some c => (scanUnits r).map fun p => (c.toNat :: p.1, p.2)
      | none => none
  | c :: r => if c.toNat < 0x20 then none else (scanUnits r).map fun p => (c.toNat :: p.1, p.2)

/-- The characters of the code points, a surrogate pair being one. -/
def joinUnits : List Nat → Option (List Char)
  | [] => some []
  | [u] => if 0xD800 ≤ u ∧ u ≤ 0xDFFF then none else some [Char.ofNat u]
  | u :: v :: us =>
      if 0xD800 ≤ u ∧ u ≤ 0xDBFF then
        if 0xDC00 ≤ v ∧ v ≤ 0xDFFF then
          (joinUnits us).map (Char.ofNat (0x10000 + (u - 0xD800) * 1024 + (v - 0xDC00)) :: ·)
        else none
      else if 0xDC00 ≤ u ∧ u ≤ 0xDFFF then none
      else (joinUnits (v :: us)).map (Char.ofNat u :: ·)

/-- The string behind an opening quote, and what is behind its closing quote. -/
def scanString (cs : List Char) : Option (String × List Char) :=
  match scanUnits cs with
  | some (units, r) => (joinUnits units).map fun s => (String.ofList s, r)
  | none => none

/-- What `escape` writes for a character, as code units. -/
def unitsOf (c : Char) : List Nat :=
  if c.toNat < 0x10000 then [c.toNat]
  else [0xD800 + (c.toNat - 0x10000) / 1024, 0xDC00 + (c.toNat - 0x10000) % 1024]

theorem hexDigit?_hexDigit : ∀ n, n < 16 → hexDigit? (hexDigit n) = some n := by decide

theorem scanUnits_plain {c : Char} (hquote : c ≠ '"') (hback : c ≠ '\\') (hle : 0x20 ≤ c.toNat)
    (r : List Char) :
    scanUnits (c :: r) = (scanUnits r).map fun p => (c.toNat :: p.1, p.2) := by
  rw [scanUnits.eq_def]
  split
  · simp_all
  · simp_all
  · simp_all
  · simp_all
  · rename_i c' r' _ _ _ heq
    obtain ⟨rfl, rfl⟩ := List.cons.inj heq
    rw [if_neg (by omega)]

/-- A code unit is read back from its escape, whatever follows. -/
theorem scanUnits_escapeUnit {u : Nat} (hu : u < 0x10000) (r : List Char) :
    scanUnits (escapeUnit u ++ r) = (scanUnits r).map fun p => (u :: p.1, p.2) := by
  unfold escapeUnit
  split_ifs with h1 h2 h3 h4 h5 h6 h7 h8
  · subst h1; rfl
  · subst h2; rfl
  · subst h3; rfl
  · subst h4; rfl
  · subst h5; rfl
  · subst h6; rfl
  · subst h7; rfl
  · have hval := toNat_ofNat_of_ascii (Nat.lt_succ_of_le h8.2)
    have hne : ∀ c : Char, c.toNat ≠ u → Char.ofNat u ≠ c := by
      rintro c hc rfl
      exact hc hval
    rw [List.singleton_append, scanUnits_plain (hne '"' (Ne.symm h1)) (hne '\\' (Ne.symm h2))
      (by omega), hval]
  · simp only [List.cons_append, List.nil_append, scanUnits, hex4]
    rw [hexDigit?_hexDigit _ (by omega), hexDigit?_hexDigit _ (by omega),
      hexDigit?_hexDigit _ (by omega), hexDigit?_hexDigit _ (by omega)]
    have hsum : u / 4096 * 4096 + u / 256 % 16 * 256 + u / 16 % 16 * 16 + u % 16 = u := by omega
    simp only [Option.bind_eq_bind, Option.bind_some, Option.pure_def, hsum]

theorem scanUnits_escape (c : Char) (r : List Char) :
    scanUnits (escape c ++ r) = (scanUnits r).map fun p => (unitsOf c ++ p.1, p.2) := by
  have hlt := toNat_lt c
  unfold escape unitsOf
  by_cases h : c.toNat < 0x10000
  · rw [if_pos h, if_pos h, scanUnits_escapeUnit h]
    rfl
  · rw [if_neg h, if_neg h, List.append_assoc, scanUnits_escapeUnit (by omega),
      scanUnits_escapeUnit (by omega), Option.map_map]
    rfl

theorem scanUnits_flatMap_escape (l r : List Char) :
    scanUnits (l.flatMap escape ++ '"' :: r) = some (l.flatMap unitsOf, r) := by
  induction l with
  | nil => rfl
  | cons c cs ih =>
      rw [List.flatMap_cons, List.append_assoc, scanUnits_escape, ih]
      rfl

/-- The units of a character are joined to it, whatever follows. -/
theorem joinUnits_unitsOf (c : Char) (us : List Nat) :
    joinUnits (unitsOf c ++ us) = (joinUnits us).map (c :: ·) := by
  have hc := not_surrogate c
  have hlt := toNat_lt c
  unfold unitsOf
  by_cases h : c.toNat < 0x10000
  · rw [if_pos h, List.singleton_append]
    cases us with
    | nil =>
        show (if 0xD800 ≤ c.toNat ∧ c.toNat ≤ 0xDFFF then none else some [Char.ofNat c.toNat]) = _
        rw [if_neg (by omega), Char.ofNat_toNat]
        rfl
    | cons v us => rw [joinUnits, if_neg (by omega), if_neg (by omega), Char.ofNat_toNat]
  · have hval : 0x10000 + (0xD800 + (c.toNat - 0x10000) / 1024 - 0xD800) * 1024 +
        (0xDC00 + (c.toNat - 0x10000) % 1024 - 0xDC00) = c.toNat := by omega
    rw [if_neg h, List.cons_append, List.singleton_append, joinUnits, if_pos (by omega),
      if_pos (by omega), hval, Char.ofNat_toNat]

theorem joinUnits_flatMap_unitsOf (l : List Char) : joinUnits (l.flatMap unitsOf) = some l := by
  induction l with
  | nil => rfl
  | cons c cs ih =>
      rw [List.flatMap_cons, joinUnits_unitsOf, ih]
      rfl

/-- A string is read back from between its quotes. -/
theorem scanString_renderStr (s : String) (r : List Char) :
    scanString (s.toList.flatMap escape ++ '"' :: r) = some (s, r) := by
  rw [scanString, scanUnits_flatMap_escape]
  dsimp only
  rw [joinUnits_flatMap_unitsOf, Option.map_some, String.ofList_toList]

/-! ## Numbers -/

/-- The digits at the head of a text, and what is behind them. -/
def scanDigits (cs : List Char) : List Char × List Char :=
  (cs.takeWhile Char.isDigit, cs.dropWhile Char.isDigit)

/-- At most one character that meets a condition. -/
def scanOptional (p : Char → Bool) : List Char → List Char × List Char
  | c :: r => if p c then ([c], r) else ([], c :: r)
  | [] => ([], [])

/-- `0|[1-9]\d*` -/
def scanInt : List Char → Option (List Char × List Char)
  | c :: r =>
      if c = '0' then some (['0'], r) else if c.isDigit then some (scanDigits (c :: r)) else none
  | [] => none

/-- `(\.\d+)?` -/
def scanFraction : List Char → List Char × List Char
  | c :: r =>
      if c = '.' ∧ (scanDigits r).1 ≠ [] then (c :: (scanDigits r).1, (scanDigits r).2)
      else ([], c :: r)
  | [] => ([], [])

/-- `([eE][-+]?\d+)?` -/
def scanExponent : List Char → List Char × List Char
  | c :: r =>
      let (sign, r') := scanOptional (fun c => c = '-' || c = '+') r
      if (c = 'e' ∨ c = 'E') ∧ (scanDigits r').1 ≠ [] then
        (c :: (sign ++ (scanDigits r').1), (scanDigits r').2)
      else ([], c :: r)
  | [] => ([], [])

/-- The literal at the head of a text: as long as the grammar allows. -/
def scanLiteral (cs : List Char) : Option (List Char × List Char) := do
  let (minus, r) := scanOptional (fun c => c = '-') cs
  let (int, r) ← scanInt r
  let (fraction, r) := scanFraction r
  let (exponent, r) := scanExponent r
  return (minus ++ int ++ fraction ++ exponent, r)

instance decidableNumChars (text : List Char) : Decidable (∀ c ∈ text, isNumChar c = true) :=
  List.decidableBAll _ text

/-- A number from its literal. -/
def Number.ofText? (text : List Char) : Option Number :=
  if h : text ≠ [] ∧ ∀ c ∈ text, isNumChar c = true then some ⟨text, h.1, h.2⟩ else none

/-- A number at the head of a text. -/
def scanNumber (cs : List Char) : Option (Number × List Char) := do
  let (text, r) ← scanLiteral cs
  let n ← Number.ofText? text
  return (n, r)

/-- The number is written by the grammar of JSON. -/
def Number.IsLiteral (n : Number) : Prop := scanLiteral n.text = some (n.text, [])

instance (n : Number) : Decidable n.IsLiteral :=
  inferInstanceAs (Decidable (scanLiteral n.text = some (n.text, [])))

/-- A number as Python writes it. -/
abbrev Literal : Type := { n : Number // n.IsLiteral }

/-- What stops a number is none of its characters. -/
theorem stops_head {c : Char} {r : List Char} (h : Stops (c :: r)) :
    c.isDigit = false ∧ c ≠ '-' ∧ c ≠ '+' ∧ c ≠ '.' ∧ c ≠ 'e' ∧ c ≠ 'E' := by
  have hc := h c r rfl
  simpa [isNumChar, and_assoc] using hc

theorem scanDigits_append {r : List Char} (hr : Stops r) (t : List Char) :
    scanDigits (t ++ r) = ((scanDigits t).1, (scanDigits t).2 ++ r) := by
  unfold scanDigits
  induction t with
  | nil =>
      cases r with
      | nil => rfl
      | cons c r => simp [(stops_head hr).1]
  | cons c t ih =>
      rw [Prod.mk.injEq] at ih
      by_cases hc : c.isDigit = true
      · simp [hc, ih.1, ih.2]
      · simp [hc]

theorem scanOptional_append {p : Char → Bool} (hp : ∀ c, p c = true → isNumChar c = true)
    {r : List Char} (hr : Stops r) (t : List Char) :
    scanOptional p (t ++ r) = ((scanOptional p t).1, (scanOptional p t).2 ++ r) := by
  cases t with
  | nil =>
      cases r with
      | nil => rfl
      | cons c r =>
          have hc : ¬ p c = true := fun h => absurd ((hp c h).symm.trans (hr c r rfl)) (by decide)
          rw [List.nil_append, scanOptional, if_neg hc]
          rfl
  | cons c t =>
      rw [List.cons_append, scanOptional, scanOptional]
      by_cases hc : p c = true
      · rw [if_pos hc, if_pos hc]
      · rw [if_neg hc, if_neg hc, List.cons_append]

theorem scanInt_append {r : List Char} (hr : Stops r) (t : List Char) :
    scanInt (t ++ r) = (scanInt t).map fun p => (p.1, p.2 ++ r) := by
  cases t with
  | nil =>
      cases r with
      | nil => rfl
      | cons c r =>
          have hc := (stops_head hr).1
          have hzero : c ≠ '0' := by
            rintro rfl
            exact absurd hc (by decide)
          rw [List.nil_append, scanInt, if_neg hzero, hc]
          rfl
  | cons c t =>
      rw [List.cons_append, scanInt, scanInt, ← List.cons_append, scanDigits_append hr]
      by_cases hzero : c = '0'
      · rw [if_pos hzero, if_pos hzero, Option.map_some]
      · rw [if_neg hzero, if_neg hzero]
        by_cases hc : c.isDigit = true
        · rw [if_pos hc, if_pos hc, Option.map_some]
        · rw [if_neg hc, if_neg hc, Option.map_none]

theorem scanFraction_append {r : List Char} (hr : Stops r) (t : List Char) :
    scanFraction (t ++ r) = ((scanFraction t).1, (scanFraction t).2 ++ r) := by
  cases t with
  | nil =>
      cases r with
      | nil => rfl
      | cons c r =>
          rw [List.nil_append, scanFraction, if_neg fun h => (stops_head hr).2.2.2.1 h.1]
          rfl
  | cons c t =>
      rw [List.cons_append, scanFraction, scanFraction, scanDigits_append hr]
      by_cases hc : c = '.' ∧ (scanDigits t).1 ≠ []
      · rw [if_pos hc, if_pos hc]
      · rw [if_neg hc, if_neg hc, List.cons_append]

theorem scanExponent_append {r : List Char} (hr : Stops r) (t : List Char) :
    scanExponent (t ++ r) = ((scanExponent t).1, (scanExponent t).2 ++ r) := by
  cases t with
  | nil =>
      cases r with
      | nil => rfl
      | cons c r =>
          have hc : ¬ (c = 'e' ∨ c = 'E') := not_or.mpr (stops_head hr).2.2.2.2
          simp [scanExponent, hc]
  | cons c t =>
      have hsign := scanOptional_append (p := fun c => c = '-' || c = '+')
        (fun c hc => by obtain rfl | rfl := (by simpa using hc : c = '-' ∨ c = '+') <;> decide) hr t
      simp only [List.cons_append, scanExponent, hsign, scanDigits_append hr]
      split_ifs
      · rfl
      · rfl

/-- What stops a number does not change the literal in front of it. -/
theorem scanLiteral_append {r : List Char} (hr : Stops r) (t : List Char) :
    scanLiteral (t ++ r) = (scanLiteral t).map fun p => (p.1, p.2 ++ r) := by
  have hminus := scanOptional_append (p := fun c => c = '-') (by simp [isNumChar]) hr t
  simp only [scanLiteral, hminus, scanInt_append hr]
  cases scanInt (scanOptional (fun c => c = '-') t).2 with
  | none => rfl
  | some p =>
      simp only [Option.map_some, Option.bind_eq_bind, Option.bind_some, scanFraction_append hr,
        scanExponent_append hr, Option.pure_def]

/-- A number is read back from its literal. -/
theorem scanNumber_append {n : Number} (h : n.IsLiteral) {r : List Char} (hr : Stops r) :
    scanNumber (n.text ++ r) = some (n, r) := by
  have htext : Number.ofText? n.text = some n := dif_pos ⟨n.ne_nil, n.chars⟩
  have hliteral : scanLiteral n.text = some (n.text, []) := h
  unfold scanNumber
  rw [scanLiteral_append hr, hliteral]
  simp only [Option.map_some, Option.bind_eq_bind, Option.bind_some, htext, Option.pure_def,
    List.nil_append]

/-! ## Integers -/

/-- The decimal digits of a positive number do not start with a zero. -/
theorem head_toDigits {n : Nat} (hn : 0 < n) : (Nat.toDigits 10 n).head? ≠ some '0' := by
  induction n using Nat.strongRecOn with
  | ind n ih =>
      by_cases hlt : n < 10
      · rw [Nat.toDigits_of_lt_base hlt]
        have hdigit : ∀ d, d < 10 → 0 < d → [Nat.digitChar d].head? ≠ some '0' := by decide
        exact hdigit n hlt hn
      · rw [Nat.toDigits_of_base_le (by decide) (by omega), List.head?_append_of_ne_nil _
          Nat.toDigits_ne_nil]
        exact ih (n / 10) (by omega) (by omega)

theorem isDigit_toDigits (n : Nat) : ∀ c ∈ Nat.toDigits 10 n, c.isDigit = true :=
  fun _ hc => Nat.isDigit_of_mem_toDigits (by decide) (by decide) hc

theorem scanInt_toDigits (n : Nat) :
    scanInt (Nat.toDigits 10 n) = some (Nat.toDigits 10 n, []) := by
  have hdigits := isDigit_toDigits n
  by_cases hn : n = 0
  · subst hn
    rfl
  · have hhead := head_toDigits (Nat.pos_of_ne_zero hn)
    cases hcs : Nat.toDigits 10 n with
    | nil => exact absurd hcs Nat.toDigits_ne_nil
    | cons c cs =>
        rw [hcs] at hhead hdigits
        have hzero : c ≠ '0' := fun h => hhead (congrArg some h)
        rw [scanInt, if_neg hzero, if_pos (hdigits c List.mem_cons_self), scanDigits,
          List.takeWhile_eq_self_iff.mpr hdigits, List.dropWhile_eq_nil_iff.mpr hdigits]

/-- The text of an integer. -/
def intText (i : Int) : List Char :=
  if i < 0 then '-' :: Nat.toDigits 10 i.natAbs else Nat.toDigits 10 i.natAbs

theorem intText_ne_nil (i : Int) : intText i ≠ [] := by
  unfold intText
  split_ifs
  · exact List.cons_ne_nil _ _
  · exact Nat.toDigits_ne_nil

theorem isNumChar_intText (i : Int) : ∀ c ∈ intText i, isNumChar c = true := by
  have hdigit : ∀ c ∈ Nat.toDigits 10 i.natAbs, isNumChar c = true := by
    intro c hc
    simp [isNumChar, isDigit_toDigits _ c hc]
  unfold intText
  split_ifs
  · exact List.forall_mem_cons.mpr ⟨by decide, hdigit⟩
  · exact hdigit

/-- An integer as Python writes it. -/
def Number.ofInt (i : Int) : Number := ⟨intText i, intText_ne_nil i, isNumChar_intText i⟩

theorem minus_toDigits (n : Nat) :
    scanOptional (fun c => c = '-') (Nat.toDigits 10 n) = ([], Nat.toDigits 10 n) := by
  have hdigits := isDigit_toDigits n
  cases hcs : Nat.toDigits 10 n with
  | nil => rfl
  | cons c cs =>
      rw [hcs] at hdigits
      have hminus : c ≠ '-' := by
        rintro rfl
        exact absurd (hdigits '-' List.mem_cons_self) (by decide)
      rw [scanOptional, if_neg (by simpa using hminus)]

theorem Number.isLiteral_ofInt (i : Int) : (Number.ofInt i).IsLiteral := by
  show scanLiteral (intText i) = some (intText i, [])
  unfold intText
  split_ifs with hneg
  · simp [scanLiteral, scanOptional, scanInt_toDigits, scanFraction, scanExponent]
  · simp [scanLiteral, minus_toDigits, scanInt_toDigits, scanFraction, scanExponent]

theorem toDigits_injective : Function.Injective (Nat.toDigits 10) := by
  intro m n h
  rw [← Nat.ofDigitChars_ten_toDigits (n := m), h, Nat.ofDigitChars_ten_toDigits]

theorem minus_notMem_toDigits (n : Nat) : '-' ∉ Nat.toDigits 10 n :=
  fun h => absurd (isDigit_toDigits n '-' h) (by decide)

theorem Number.ofInt_injective : Function.Injective Number.ofInt := by
  intro i j h
  have htext : intText i = intText j := congrArg Number.text h
  unfold intText at htext
  by_cases hi : i < 0
  · by_cases hj : j < 0
    · rw [if_pos hi, if_pos hj] at htext
      have habs := toDigits_injective (List.cons.inj htext).2
      omega
    · rw [if_pos hi, if_neg hj] at htext
      exact absurd (htext ▸ List.mem_cons_self) (minus_notMem_toDigits j.natAbs)
  · by_cases hj : j < 0
    · rw [if_neg hi, if_pos hj] at htext
      exact absurd (htext ▸ List.mem_cons_self) (minus_notMem_toDigits i.natAbs)
    · rw [if_neg hi, if_neg hj] at htext
      have habs := toDigits_injective htext
      omega

/-! ## Values -/

/-- What JSON takes for a blank. -/
def isBlank (c : Char) : Bool := c = ' ' || c = '\t' || c = '\n' || c = '\r'

/-- The text behind the blanks at its head. -/
def skipBlanks (cs : List Char) : List Char := cs.dropWhile isBlank

/-- `dict(pairs)`: a later pair replaces the value of an earlier one with its key. -/
def dictOf (pairs : List (String × Value)) : List (String × Value) :=
  (pairs.foldl (fun (d : Dict String Value) p => d.insert p.1 p.2) .empty).items

/-- A constant or a number at the head of a text. -/
def scanAtom : List Char → Option (Value × List Char)
  | 'n' :: 'u' :: 'l' :: 'l' :: r => some (.null, r)
  | 't' :: 'r' :: 'u' :: 'e' :: r => some (.bool true, r)
  | 'f' :: 'a' :: 'l' :: 's' :: 'e' :: r => some (.bool false, r)
  | cs => (scanNumber cs).map fun p => (.num p.1, p.2)

mutual
/-- The value at the head of a text, and what is behind it. -/
def scanValue : Nat → List Char → Option (Value × List Char)
  | 0, _ => none
  | _ + 1, [] => none
  | fuel + 1, c :: r =>
      if c = '"' then (scanString r).map fun p => (.str p.1, p.2)
      else if c = '{' then
        match skipBlanks r with
        | '}' :: r => some (.obj [], r)
        | r => (scanFields fuel r).map fun p => (.obj (dictOf p.1), p.2)
      else if c = '[' then
        match skipBlanks r with
        | ']' :: r => some (.arr [], r)
        | r => (scanElems fuel r).map fun p => (.arr p.1, p.2)
      else scanAtom (c :: r)

/-- The elements of an array from one of them on, and what is behind its bracket. -/
def scanElems : Nat → List Char → Option (List Value × List Char)
  | 0, _ => none
  | fuel + 1, cs => do
      let (v, r) ← scanValue fuel cs
      match skipBlanks r with
      | ']' :: r => some ([v], r)
      | ',' :: r =>
          let (vs, r) ← scanElems fuel (skipBlanks r)
          some (v :: vs, r)
      | _ => none

/-- The pairs of an object from one of them on, and what is behind its brace. -/
def scanFields : Nat → List Char → Option (List (String × Value) × List Char)
  | 0, _ => none
  | fuel + 1, '"' :: r => do
      let (k, r) ← scanString r
      match skipBlanks r with
      | ':' :: r =>
          let (v, r) ← scanValue fuel (skipBlanks r)
          match skipBlanks r with
          | '}' :: r => some ([(k, v)], r)
          | ',' :: r =>
              let (kvs, r) ← scanFields fuel (skipBlanks r)
              some ((k, v) :: kvs, r)
          | _ => none
      | _ => none
  | _ + 1, _ => none
end

/-- `json.loads(text)`. -/
def loads (text : String) : Option Value :=
  match scanValue (text.toList.length + 1) (skipBlanks text.toList) with
  | some (v, r) => if skipBlanks r = [] then some v else none
  | none => none

mutual
/-- The values that Python can hold: every number is a literal, no object has a key twice. -/
def Value.wellFormed : Value → Bool
  | .num n => n.IsLiteral
  | .arr xs => wellFormedElems xs
  | .obj kvs => (kvs.map Prod.fst).Nodup && wellFormedFields kvs
  | .null => true
  | .bool _ => true
  | .str _ => true

def wellFormedElems : List Value → Bool
  | [] => true
  | x :: xs => x.wellFormed && wellFormedElems xs

def wellFormedFields : List (String × Value) → Bool
  | [] => true
  | (_, v) :: kvs => v.wellFormed && wellFormedFields kvs
end

theorem wellFormedElems_str (l : List String) : wellFormedElems (l.map Value.str) = true := by
  induction l with
  | nil => rfl
  | cons s l ih => exact ih

/-! ## Reading a text back -/

/-- Pairs with distinct keys are a dictionary as they stand. -/
theorem dictOf_of_nodup {pairs : List (String × Value)} (h : (pairs.map Prod.fst).Nodup) :
    dictOf pairs = pairs :=
  Dict.foldl_insert_of_nodup h (by simp [Dict.keys, Dict.empty])

theorem kindOf_blank {c : Char} (h : isBlank c = true) : kindOf c = 6 := by
  simp only [isBlank, Bool.or_eq_true, decide_eq_true_eq] at h
  obtain ((rfl | rfl) | rfl) | rfl := h
  · rfl
  · rfl
  · rfl
  · rfl

/-- The text of a value starts with a character that announces the value. -/
theorem renderWith_head (pad : List Char) (v : Value) :
    ∃ c t, renderWith pad v = c :: t ∧ kindOf c = kind v := by
  cases v with
  | null => exact ⟨_, _, rfl, by decide⟩
  | bool b => cases b <;> exact ⟨_, _, rfl, by decide⟩
  | num n =>
      cases htext : n.text with
      | nil => exact absurd htext n.ne_nil
      | cons c t =>
          exact ⟨c, t, htext, kindOf_numChar (n.chars c (by rw [htext]; exact List.mem_cons_self))⟩
  | str s => exact ⟨_, _, rfl, rfl⟩
  | arr xs => cases xs <;> exact ⟨_, _, rfl, rfl⟩
  | obj kvs => cases kvs <;> exact ⟨_, _, rfl, rfl⟩

theorem kind_lt_six (v : Value) : kind v < 6 := by cases v <;> simp [kind]

variable {pad : List Char}

theorem skipBlanks_pad (hpad : ∀ c ∈ pad, isBlank c = true) (cs : List Char) :
    skipBlanks (pad ++ cs) = skipBlanks cs := by
  induction pad with
  | nil => rfl
  | cons c pad ih =>
      obtain ⟨hc, hrest⟩ := List.forall_mem_cons.mp hpad
      rw [List.cons_append, ← ih hrest]
      simp [skipBlanks, hc]

theorem skipBlanks_cons {c : Char} (h : isBlank c = false) (cs : List Char) :
    skipBlanks (c :: cs) = c :: cs := by
  simp [skipBlanks, h]

/-- There are no blanks at the head of the text of a value, and no closing bracket. -/
theorem exists_head_renderWith (pad : List Char) (v : Value) :
    ∃ c t, renderWith pad v = c :: t ∧ isBlank c = false ∧ c ≠ ']' := by
  obtain ⟨c, t, htext, hkind⟩ := renderWith_head pad v
  have hlt := kind_lt_six v
  refine ⟨c, t, htext, ?_, ?_⟩
  · by_contra hblank
    have hsix := kindOf_blank (Bool.eq_true_of_not_eq_false hblank)
    omega
  · rintro rfl
    have hsix : kindOf ']' = 6 := rfl
    omega

theorem skipBlanks_renderWith (pad : List Char) (v : Value) (cs : List Char) :
    skipBlanks (renderWith pad v ++ cs) = renderWith pad v ++ cs := by
  obtain ⟨c, t, htext, hblank, _⟩ := exists_head_renderWith pad v
  rw [htext, List.cons_append, skipBlanks_cons hblank]

theorem stops_renderTailWith (xs : List Value) (r : List Char) :
    Stops (renderTailWith pad xs ++ r) := by
  cases xs with
  | nil => exact stops_cons (by decide)
  | cons x xs => exact stops_cons (by decide)

theorem stops_renderFieldsWith (kvs : List (String × Value)) (r : List Char) :
    Stops (renderFieldsWith pad kvs ++ r) := by
  cases kvs with
  | nil => exact stops_cons (by decide)
  | cons p kvs => exact stops_cons (by decide)

theorem scanAtom_of_isNumChar {c : Char} (hc : isNumChar c = true) (cs : List Char) :
    scanAtom (c :: cs) = (scanNumber (c :: cs)).map fun p => (.num p.1, p.2) := by
  unfold scanAtom
  split
  · next heq =>
    rw [(List.cons.inj heq).1] at hc
    exact absurd hc (by decide)
  · next heq =>
    rw [(List.cons.inj heq).1] at hc
    exact absurd hc (by decide)
  · next heq =>
    rw [(List.cons.inj heq).1] at hc
    exact absurd hc (by decide)
  · rfl

theorem scanAtom_num {n : Number} (h : n.IsLiteral) {r : List Char} (hr : Stops r) :
    scanAtom (n.text ++ r) = some (.num n, r) := by
  obtain ⟨c, t, htext⟩ := List.exists_cons_of_ne_nil n.ne_nil
  have hc : isNumChar c = true := n.chars c (by rw [htext]; exact List.mem_cons_self)
  have hnumber := scanNumber_append h hr
  rw [htext, List.cons_append] at hnumber ⊢
  rw [scanAtom_of_isNumChar hc, hnumber]
  rfl

theorem scanValue_num {n : Number} (h : n.IsLiteral) {r : List Char} (hr : Stops r) (fuel : Nat) :
    scanValue (fuel + 1) (n.text ++ r) = some (.num n, r) := by
  obtain ⟨c, t, htext⟩ := List.exists_cons_of_ne_nil n.ne_nil
  have hkind := kindOf_numChar (n.chars c (by rw [htext]; exact List.mem_cons_self))
  have hatom := scanAtom_num h hr
  have hother : ∀ c', kindOf c' ≠ 2 → c ≠ c' := by
    rintro c' hne rfl
    exact hne hkind
  rw [htext, List.cons_append] at hatom ⊢
  rw [scanValue, if_neg (hother '"' (by decide)), if_neg (hother '{' (by decide)),
    if_neg (hother '[' (by decide)), hatom]

theorem scanValue_array {r : List Char} (h : ∀ r', skipBlanks r ≠ ']' :: r') (fuel : Nat) :
    scanValue (fuel + 1) ('[' :: r) =
      (scanElems fuel (skipBlanks r)).map fun p => (.arr p.1, p.2) := by
  rw [scanValue, if_neg (by decide), if_neg (by decide), if_pos rfl]
  split
  · rename_i heq
    exact absurd heq (h _)
  · rfl

theorem scanValue_object {r : List Char} (h : ∀ r', skipBlanks r ≠ '}' :: r') (fuel : Nat) :
    scanValue (fuel + 1) ('{' :: r) =
      (scanFields fuel (skipBlanks r)).map fun p => (.obj (dictOf p.1), p.2) := by
  rw [scanValue, if_neg (by decide), if_pos rfl]
  split
  · rename_i heq
    exact absurd heq (h _)
  · rfl

theorem scanElems_last {n : Nat} {cs r r' : List Char} {v : Value}
    (hvalue : scanValue n cs = some (v, r)) (hr : skipBlanks r = ']' :: r') :
    scanElems (n + 1) cs = some ([v], r') := by
  simp [scanElems, hvalue, hr]

theorem scanElems_more {n : Nat} {cs r r' r'' : List Char} {v : Value} {vs : List Value}
    (hvalue : scanValue n cs = some (v, r)) (hr : skipBlanks r = ',' :: r')
    (hrest : scanElems n (skipBlanks r') = some (vs, r'')) :
    scanElems (n + 1) cs = some (v :: vs, r'') := by
  simp [scanElems, hvalue, hr, hrest]

theorem scanFields_last {n : Nat} {cs r₁ r₂ r₃ r₄ : List Char} {k : String} {v : Value}
    (hkey : scanString cs = some (k, r₁)) (hcolon : skipBlanks r₁ = ':' :: r₂)
    (hvalue : scanValue n (skipBlanks r₂) = some (v, r₃)) (hr : skipBlanks r₃ = '}' :: r₄) :
    scanFields (n + 1) ('"' :: cs) = some ([(k, v)], r₄) := by
  simp [scanFields, hkey, hcolon, hvalue, hr]

theorem scanFields_more {n : Nat} {cs r₁ r₂ r₃ r₄ r₅ : List Char} {k : String} {v : Value}
    {kvs : List (String × Value)} (hkey : scanString cs = some (k, r₁))
    (hcolon : skipBlanks r₁ = ':' :: r₂) (hvalue : scanValue n (skipBlanks r₂) = some (v, r₃))
    (hr : skipBlanks r₃ = ',' :: r₄) (hrest : scanFields n (skipBlanks r₄) = some (kvs, r₅)) :
    scanFields (n + 1) ('"' :: cs) = some ((k, v) :: kvs, r₅) := by
  simp [scanFields, hkey, hcolon, hvalue, hr, hrest]

mutual
/-- **A text is read back.**  At the head of a text that starts with a value, whatever stops
a number behind it, the reader finds that value. -/
theorem scanValue_renderWith (hpad : ∀ c ∈ pad, isBlank c = true) : ∀ (v : Value) (n : Nat)
    {r : List Char}, v.wellFormed = true → (renderWith pad v).length ≤ n → Stops r →
    scanValue n (renderWith pad v ++ r) = some (v, r)
  | v, 0, r, _, hn, _ => by
      obtain ⟨c, t, htext, _⟩ := exists_head_renderWith pad v
      rw [htext] at hn
      exact absurd hn (by simp)
  | .null, n + 1, r, _, _, _ => rfl
  | .bool true, n + 1, r, _, _, _ => rfl
  | .bool false, n + 1, r, _, _, _ => rfl
  | .num m, n + 1, r, hv, _, hr => scanValue_num (of_decide_eq_true hv) hr n
  | .str s, n + 1, r, _, _, _ => by
      show (scanString (s.toList.flatMap escape ++ ['"'] ++ r)).map _ = _
      rw [List.append_assoc, List.singleton_append, scanString_renderStr]
      rfl
  | .arr [], n + 1, r, _, _, _ => rfl
  | .arr (x :: xs), n + 1, r, hv, hn, _ => by
      obtain ⟨hx, hxs⟩ := Bool.and_eq_true_iff.mp hv
      have helems := scanElems_renderWith hpad x xs n (r := r) hx hxs
        (by simpa [renderWith] using hn)
      have hskip := skipBlanks_renderWith pad x (renderTailWith pad xs ++ r)
      rw [renderWith, List.cons_append, List.append_assoc, scanValue_array, hskip, helems]
      · rfl
      · intro r' heq
        obtain ⟨c, t, htext, _, hne⟩ := exists_head_renderWith pad x
        rw [hskip, htext, List.cons_append] at heq
        exact hne (List.cons.inj heq).1
  | .obj [], n + 1, r, _, _, _ => rfl
  | .obj ((k, v) :: kvs), n + 1, r, hv, hn, _ => by
      obtain ⟨hnodup, hfields⟩ := Bool.and_eq_true_iff.mp hv
      obtain ⟨hv, hkvs⟩ := Bool.and_eq_true_iff.mp hfields
      have hscan := scanFields_renderWith hpad k v kvs n (r := r) hv hkvs
        (by simpa [renderWith] using hn)
      have hskip : ∀ cs, skipBlanks (renderStr k ++ cs) = renderStr k ++ cs :=
        fun cs => skipBlanks_cons (by decide) _
      rw [renderWith, List.cons_append, List.append_assoc, List.cons_append, List.append_assoc,
        List.append_assoc, scanValue_object, hskip, hscan, Option.map_some,
        dictOf_of_nodup (of_decide_eq_true hnodup)]
      intro r' heq
      rw [hskip] at heq
      exact absurd (List.cons.inj heq).1 (by decide)

theorem scanElems_renderWith (hpad : ∀ c ∈ pad, isBlank c = true) : ∀ (x : Value)
    (xs : List Value) (n : Nat) {r : List Char}, x.wellFormed = true →
    wellFormedElems xs = true → (renderWith pad x ++ renderTailWith pad xs).length ≤ n →
    scanElems n (renderWith pad x ++ (renderTailWith pad xs ++ r)) = some (x :: xs, r)
  | x, xs, 0, r, _, _, hn => by
      obtain ⟨c, t, htext, _⟩ := exists_head_renderWith pad x
      rw [htext] at hn
      exact absurd hn (by simp)
  | x, [], n + 1, r, hx, _, hn => by
      have hvalue := scanValue_renderWith hpad x n (r := renderTailWith pad [] ++ r) hx
        (by simp [renderTailWith] at hn; omega) (stops_renderTailWith [] r)
      exact scanElems_last hvalue (skipBlanks_cons (by decide) r)
  | x, y :: ys, n + 1, r, hx, hys, hn => by
      obtain ⟨hy, hys⟩ := Bool.and_eq_true_iff.mp hys
      have hvalue := scanValue_renderWith hpad x n (r := renderTailWith pad (y :: ys) ++ r) hx
        (by simp [renderTailWith] at hn; omega) (stops_renderTailWith (y :: ys) r)
      have helems := scanElems_renderWith hpad y ys n (r := r) hy hys
        (by simp [renderTailWith] at hn ⊢; omega)
      have hcomma : skipBlanks (renderTailWith pad (y :: ys) ++ r) =
          ',' :: (pad ++ (renderWith pad y ++ (renderTailWith pad ys ++ r))) := by
        rw [renderTailWith, List.cons_append, skipBlanks_cons (by decide), List.append_assoc,
          List.append_assoc]
      refine scanElems_more hvalue hcomma ?_
      rw [skipBlanks_pad hpad, skipBlanks_renderWith]
      exact helems

theorem scanFields_renderWith (hpad : ∀ c ∈ pad, isBlank c = true) : ∀ (k : String) (v : Value)
    (kvs : List (String × Value)) (n : Nat) {r : List Char}, v.wellFormed = true →
    wellFormedFields kvs = true →
    (renderStr k ++ ':' :: (pad ++ (renderWith pad v ++ renderFieldsWith pad kvs))).length ≤ n →
    scanFields n (renderStr k ++
      ':' :: (pad ++ (renderWith pad v ++ (renderFieldsWith pad kvs ++ r)))) =
      some ((k, v) :: kvs, r)
  | k, v, kvs, 0, r, _, _, hn => absurd hn (by simp)
  | k, v, [], n + 1, r, hv, _, hn => by
      have hvalue := scanValue_renderWith hpad v n (r := renderFieldsWith pad [] ++ r) hv
        (by simp [renderFieldsWith] at hn; omega) (stops_renderFieldsWith [] r)
      rw [renderStr, List.cons_append, List.append_assoc, List.singleton_append]
      refine scanFields_last (scanString_renderStr k _) (skipBlanks_cons (by decide) _) ?_
        (skipBlanks_cons (by decide) r)
      rw [skipBlanks_pad hpad, skipBlanks_renderWith]
      exact hvalue
  | k, v, (k', v') :: kvs, n + 1, r, hv, hkvs, hn => by
      obtain ⟨hv', hkvs⟩ := Bool.and_eq_true_iff.mp hkvs
      have hvalue := scanValue_renderWith hpad v n
        (r := renderFieldsWith pad ((k', v') :: kvs) ++ r) hv
        (by simp [renderFieldsWith] at hn; omega) (stops_renderFieldsWith _ r)
      have hfields := scanFields_renderWith hpad k' v' kvs n (r := r) hv' hkvs
        (by simp [renderFieldsWith] at hn ⊢; omega)
      have hcomma : skipBlanks (renderFieldsWith pad ((k', v') :: kvs) ++ r) =
          ',' :: (pad ++ (renderStr k' ++
            ':' :: (pad ++ (renderWith pad v' ++ (renderFieldsWith pad kvs ++ r))))) := by
        rw [renderFieldsWith, List.cons_append, skipBlanks_cons (by decide)]
        simp
      rw [renderStr, List.cons_append, List.append_assoc, List.singleton_append]
      refine scanFields_more (scanString_renderStr k _) (skipBlanks_cons (by decide) _) ?_ hcomma ?_
      · rw [skipBlanks_pad hpad, skipBlanks_renderWith]
        exact hvalue
      · rw [skipBlanks_pad hpad, renderStr, List.cons_append, skipBlanks_cons (by decide)]
        exact hfields
end

/-- **`json.loads` reads back what `json.dumps` writes.** -/
theorem loads_dumpsPlain {v : Value} (h : v.wellFormed = true) : loads (dumpsPlain v) = some v := by
  have hpad : ∀ c ∈ [' '], isBlank c = true := by simp [isBlank]
  have hskip := skipBlanks_renderWith [' '] v []
  have hscan := scanValue_renderWith hpad v ((renderWith [' '] v).length + 1) h (by omega) stops_nil
  rw [List.append_nil] at hskip hscan
  rw [loads, dumpsPlain, String.toList_ofList, hskip, hscan]
  rfl

/-! ## With sorted keys -/

/-- `json.dumps(v, sort_keys=True)`. -/
def dumpsSorted (v : Value) : String := dumpsPlain (sortKeys v)

theorem wellFormedFields_eq_all (kvs : List (String × Value)) :
    wellFormedFields kvs = kvs.all (fun p => p.2.wellFormed) := by
  induction kvs with
  | nil => rfl
  | cons p kvs ih => rw [wellFormedFields, ih, List.all_cons]

/-- The keys of an object, sorted. -/
theorem keys_sortFields_perm (kvs : List (String × Value)) :
    ((sortFields kvs).map Prod.fst).Perm (kvs.map Prod.fst) := by
  induction kvs with
  | nil => exact .nil
  | cons p kvs ih =>
      have hinsert := List.perm_orderedInsert KeyLE (p.1, sortKeys p.2) (sortFields kvs)
      exact (hinsert.map Prod.fst).trans (ih.cons p.1)

mutual
/-- Sorting keys keeps a value well formed. -/
theorem wellFormed_sortKeys : ∀ v : Value, (sortKeys v).wellFormed = v.wellFormed
  | .null => rfl
  | .bool b => rfl
  | .num n => rfl
  | .str s => rfl
  | .arr xs => wellFormed_sortElems xs
  | .obj kvs => by
      have hnodup := (keys_sortFields_perm kvs).nodup_iff
      rw [sortKeys, Value.wellFormed, Value.wellFormed, wellFormed_sortFields kvs,
        decide_eq_decide.mpr hnodup]

theorem wellFormed_sortElems : ∀ xs : List Value,
    wellFormedElems (sortElems xs) = wellFormedElems xs
  | [] => rfl
  | x :: xs => by
      rw [sortElems, wellFormedElems, wellFormedElems, wellFormed_sortKeys x,
        wellFormed_sortElems xs]

theorem wellFormed_sortFields : ∀ kvs : List (String × Value),
    wellFormedFields (sortFields kvs) = wellFormedFields kvs
  | [] => rfl
  | (k, v) :: kvs => by
      have hperm := List.perm_orderedInsert KeyLE (k, sortKeys v) (sortFields kvs)
      rw [sortFields, wellFormedFields_eq_all, hperm.all_eq, List.all_cons,
        ← wellFormedFields_eq_all, wellFormed_sortFields kvs, wellFormed_sortKeys v,
        wellFormedFields]
end

/-- **Equal texts are texts of equal values**, up to the order of keys. -/
theorem dumpsSorted_inj {v w : Value} (hv : v.wellFormed = true) (hw : w.wellFormed = true) :
    dumpsSorted v = dumpsSorted w ↔ sortKeys v = sortKeys w := by
  refine ⟨fun h => ?_, congrArg dumpsPlain⟩
  have hloads := loads_dumpsPlain ((wellFormed_sortKeys v).trans hv)
  rw [← dumpsSorted, h, dumpsSorted, loads_dumpsPlain ((wellFormed_sortKeys w).trans hw)] at hloads
  exact (Option.some.inj hloads).symm

end Json
end Ucser
