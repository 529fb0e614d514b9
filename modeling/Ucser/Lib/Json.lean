import Mathlib.Data.List.Sort
import Mathlib.Data.String.Basic

/-!
# JSON values and their sorted, ASCII-only serialisation

The text that `json.dumps(v, sort_keys=True, separators=(',', ':'))` produces:
keys in code-point order, no blanks, every character outside `' '..'~'` written
as a `\u` escape of its UTF-16 code units.

* `Value`, `Number` — a JSON value; a number *is* its literal, so integers of
  any size and finite floats are covered without fixing a float format.
* `render`, `sortKeys`, `dumps` — the serialiser, in two passes.
* `render_inj` — **the text determines the value**: two values whose texts start
  the same way, up to what may follow a value, are one value and leave the same
  rest.  `dumps_inj` is the consequence: equal dumps mean equal values up to the
  order of keys.
* `get?_sortFields` — sorting keys does not change what a key is mapped to.
* `Reordered` — values that differ in the order of keys alone; `reordered_iff` — sorting
  decides it.
* `Value.truthy` — the truth of a value as a condition.
-/

namespace Ucser
namespace Json

/-! ## Values -/

/-- The characters a JSON number is written with. -/
def isNumChar (c : Char) : Bool :=
  c.isDigit || c == '-' || c == '+' || c == '.' || c == 'e' || c == 'E'

/-- A JSON number, as the literal it is written with. -/
structure Number where
  /-- The literal. -/
  text : List Char
  ne_nil : text ≠ []
  chars : ∀ c ∈ text, isNumChar c = true
  deriving DecidableEq

/-- A JSON value.  Objects keep the order their keys were inserted in. -/
inductive Value where
  | null
  | bool (b : Bool)
  | num (n : Number)
  | str (s : String)
  | arr (xs : List Value)
  | obj (kvs : List (String × Value))
  deriving Inhabited

/-- `dict.get(key)` on the pairs of an object: the value of the first pair with
that key. -/
def get? (kvs : List (String × Value)) (key : String) : Option Value :=
  match kvs with
  | [] => none
  | (k, v) :: rest => if k = key then some v else get? rest key

/-! ## Truth -/

/-- The number its digits spell. -/
def digitsVal (text : List Char) : Nat :=
  text.foldl (fun n c => if c.isDigit then 10 * n + (c.toNat - 48) else n) 0

/-- Does the literal denote zero?  A literal with a fraction or an exponent is read as a
double, and what is at most half the least double, `2 ^ (-1075)`, rounds to zero. -/
def Number.isZero (n : Number) : Bool :=
  let mantissa := n.text.takeWhile (fun c => c ≠ 'e' && c ≠ 'E')
  let exponent := (n.text.dropWhile (fun c => c ≠ 'e' && c ≠ 'E')).drop 1
  let decimals := ((mantissa.dropWhile (· ≠ '.')).drop 1).length
  if exponent.head? = some '-' then
    digitsVal mantissa * 2 ^ 1075 ≤ 10 ^ (decimals + digitsVal exponent)
  else digitsVal mantissa * 10 ^ digitsVal exponent * 2 ^ 1075 ≤ 10 ^ decimals

/-- `bool(value)`. -/
def Value.truthy : Value → Bool
  | .null => false
  | .bool b => b
  | .num n => !n.isZero
  | .str s => s ≠ ""
  | .arr xs => !xs.isEmpty
  | .obj kvs => !kvs.isEmpty

/-! ## Strings -/

/-- A lower-case hexadecimal digit. -/
def hexDigit (n : Nat) : Char := if n < 10 then Char.ofNat (48 + n) else Char.ofNat (87 + n)

/-- The escape of one UTF-16 code unit. -/
def escapeUnit (u : Nat) : List Char :=
  if u = 0x22 then ['\\', '"']
  else if u = 0x5C then ['\\', '\\']
  else if u = 0x08 then ['\\', 'b']
  else if u = 0x0C then ['\\', 'f']
  else if u = 0x0A then ['\\', 'n']
  else if u = 0x0D then ['\\', 'r']
  else if u = 0x09 then ['\\', 't']
  else if 0x20 ≤ u ∧ u ≤ 0x7E then [Char.ofNat u]
  else ['\\', 'u', hexDigit (u / 4096), hexDigit (u / 256 % 16), hexDigit (u / 16 % 16),
    hexDigit (u % 16)]

/-- The escape of one character: a character outside the basic plane is written
as a surrogate pair. -/
def escape (c : Char) : List Char :=
  if c.toNat < 0x10000 then escapeUnit c.toNat
  else escapeUnit (0xD800 + (c.toNat - 0x10000) / 1024) ++
    escapeUnit (0xDC00 + (c.toNat - 0x10000) % 1024)

/-- A string between its quotes. -/
def renderStr (s : String) : List Char := '"' :: (s.toList.flatMap escape ++ ['"'])

/-! ## Rendering and sorting -/

mutual
/-- The text of a value, keys in the order they stand. -/
def render : Value → List Char
  | .null => ['n', 'u', 'l', 'l']
  | .bool true => ['t', 'r', 'u', 'e']
  | .bool false => ['f', 'a', 'l', 's', 'e']
  | .num n => n.text
  | .str s => renderStr s
  | .arr [] => ['[', ']']
  | .arr (x :: xs) => '[' :: (render x ++ renderTail xs)
  | .obj [] => ['{', '}']
  | .obj ((k, v) :: kvs) => '{' :: (renderStr k ++ ':' :: (render v ++ renderFields kvs))

/-- The rest of an array after its first element. -/
def renderTail : List Value → List Char
  | [] => [']']
  | x :: xs => ',' :: (render x ++ renderTail xs)

/-- The rest of an object after its first pair. -/
def renderFields : List (String × Value) → List Char
  | [] => ['}']
  | (k, v) :: kvs => ',' :: (renderStr k ++ ':' :: (render v ++ renderFields kvs))
end

/-- Pairs are sorted by their key alone. -/
def KeyLE (p q : String × Value) : Prop := p.1 ≤ q.1

instance : DecidableRel KeyLE := fun p q => inferInstanceAs (Decidable (p.1 ≤ q.1))

mutual
/-- The value with the keys of every object in it sorted. -/
def sortKeys : Value → Value
  | .arr xs => .arr (sortElems xs)
  | .obj kvs => .obj (sortFields kvs)
  | .null => .null
  | .bool b => .bool b
  | .num n => .num n
  | .str s => .str s

/-- `sortKeys` on every element of an array. -/
def sortElems : List Value → List Value
  | [] => []
  | x :: xs => sortKeys x :: sortElems xs

/-- `sortKeys` on every value of an object, and the pairs sorted by key. -/
def sortFields : List (String × Value) → List (String × Value)
  | [] => []
  | (k, v) :: kvs => List.orderedInsert KeyLE (k, sortKeys v) (sortFields kvs)
end

/-- `json.dumps(v, sort_keys=True, separators=(',', ':'))`. -/
def dumps (v : Value) : String := String.ofList (render (sortKeys v))

/-! ## Escapes can be read back -/

/-- The value of a hexadecimal digit. -/
def hexVal (c : Char) : Nat := if c.toNat < 58 then c.toNat - 48 else c.toNat - 87

theorem hexVal_hexDigit : ∀ n, n < 16 → hexVal (hexDigit n) = n := by decide

/-- Read one UTF-16 code unit from the inside of a string. -/
def readUnit : List Char → Option (Nat × List Char)
  | '\\' :: '"' :: r => some (0x22, r)
  | '\\' :: '\\' :: r => some (0x5C, r)
  | '\\' :: 'b' :: r => some (0x08, r)
  | '\\' :: 'f' :: r => some (0x0C, r)
  | '\\' :: 'n' :: r => some (0x0A, r)
  | '\\' :: 'r' :: r => some (0x0D, r)
  | '\\' :: 't' :: r => some (0x09, r)
  | '\\' :: 'u' :: a :: b :: c :: d :: r =>
      some (hexVal a * 4096 + hexVal b * 256 + hexVal c * 16 + hexVal d, r)
  | c :: r => some (c.toNat, r)
  | [] => none

theorem toNat_ofNat_of_ascii : ∀ {u : Nat}, u < 0x7F → (Char.ofNat u).toNat = u := by decide

theorem readUnit_plain {c : Char} (h : c ≠ '\\') (r : List Char) :
    readUnit (c :: r) = some (c.toNat, r) := by
  unfold readUnit
  split <;> simp_all

/-- A code unit is read back from its escape, whatever follows. -/
theorem readUnit_escapeUnit {u : Nat} (hu : u < 0x10000) (r : List Char) :
    readUnit (escapeUnit u ++ r) = some (u, r) := by
  unfold escapeUnit
  split_ifs with h1 h2 h3 h4 h5 h6 h7 h8
  · subst h1; rfl
  · subst h2; rfl
  · subst h3; rfl
  · subst h4; rfl
  · subst h5; rfl
  · subst h6; rfl
  · subst h7; rfl
  · have hval := toNat_ofNat_of_ascii (Nat.lt_succ_of_le h8.2)
    have hne : Char.ofNat u ≠ '\\' := by
      intro hc
      have := congrArg Char.toNat hc
      rw [hval] at this
      exact h2 this
    rw [List.singleton_append, readUnit_plain hne, hval]
  · simp only [List.cons_append, List.nil_append, readUnit]
    rw [hexVal_hexDigit _ (by omega), hexVal_hexDigit _ (by omega),
      hexVal_hexDigit _ (by omega), hexVal_hexDigit _ (by omega)]
    congr 2
    omega

theorem escapeUnit_append_inj {u u' : Nat} (hu : u < 0x10000) (hu' : u' < 0x10000)
    {r r' : List Char} (h : escapeUnit u ++ r = escapeUnit u' ++ r') : u = u' ∧ r = r' := by
  have h1 := readUnit_escapeUnit hu r
  rw [h, readUnit_escapeUnit hu' r'] at h1
  simpa [eq_comm] using h1

theorem not_surrogate (c : Char) : c.toNat < 0xD800 ∨ 0xDFFF < c.toNat := by
  rcases c.valid with h | h
  · exact Or.inl h
  · exact Or.inr h.1

theorem toNat_lt (c : Char) : c.toNat < 0x110000 := by
  rcases c.valid with h | h
  · exact lt_trans h (by decide)
  · exact h.2

/-- A character is read back from its escape, whatever follows. -/
theorem escape_append_inj {c c' : Char} {r r' : List Char}
    (h : escape c ++ r = escape c' ++ r') : c = c' ∧ r = r' := by
  have hc := not_surrogate c
  have hc' := not_surrogate c'
  have hlt := toNat_lt c
  have hlt' := toNat_lt c'
  unfold escape at h
  split_ifs at h with h1 h2 h3
  · obtain ⟨hu, hr⟩ := escapeUnit_append_inj h1 h2 h
    exact ⟨Char.toNat_inj.mp hu, hr⟩
  · rw [List.append_assoc] at h
    have hu := (escapeUnit_append_inj h1 (by omega) h).1
    omega
  · rw [List.append_assoc] at h
    have hu := (escapeUnit_append_inj (by omega) h3 h).1
    omega
  · rw [List.append_assoc, List.append_assoc] at h
    obtain ⟨hhi, hrest⟩ := escapeUnit_append_inj (by omega) (by omega) h
    obtain ⟨hlo, hr⟩ := escapeUnit_append_inj (by omega) (by omega) hrest
    exact ⟨Char.toNat_inj.mp (by omega), hr⟩

/-- An escape is not empty and does not start with a quote. -/
theorem escapeUnit_head (u : Nat) :
    ∃ c t, escapeUnit u = c :: t ∧ c ≠ '"' := by
  unfold escapeUnit
  split_ifs with h1 h2 h3 h4 h5 h6 h7 h8
  all_goals try exact ⟨_, _, rfl, by decide⟩
  refine ⟨_, _, rfl, ?_⟩
  intro hc
  have := congrArg Char.toNat hc
  rw [toNat_ofNat_of_ascii (Nat.lt_succ_of_le h8.2)] at this
  exact h1 this

theorem escape_head (c : Char) : ∃ d t, escape c = d :: t ∧ d ≠ '"' := by
  unfold escape
  split_ifs with h
  · exact escapeUnit_head c.toNat
  · obtain ⟨d, t, hd, hne⟩ :=
      escapeUnit_head (0xD800 + (c.toNat - 0x10000) / 1024)
    exact ⟨d, _, by rw [hd, List.cons_append], hne⟩

theorem flatMap_escape_inj : ∀ {l l' r r' : List Char},
    l.flatMap escape ++ '"' :: r = l'.flatMap escape ++ '"' :: r' → l = l' ∧ r = r' := by
  intro l
  induction l with
  | nil =>
      intro l' r r' h
      cases l' with
      | nil => simpa using h
      | cons c' cs' =>
          obtain ⟨d, t, hd, hne⟩ := escape_head c'
          simp only [List.flatMap_nil, List.nil_append, List.flatMap_cons, hd, List.cons_append,
            List.cons.injEq] at h
          exact absurd h.1.symm hne
  | cons c cs ih =>
      intro l' r r' h
      cases l' with
      | nil =>
          obtain ⟨d, t, hd, hne⟩ := escape_head c
          simp only [List.flatMap_nil, List.nil_append, List.flatMap_cons, hd, List.cons_append,
            List.cons.injEq] at h
          exact absurd h.1 hne
      | cons c' cs' =>
          simp only [List.flatMap_cons, List.append_assoc] at h
          obtain ⟨hc, hrest⟩ := escape_append_inj h
          obtain ⟨hcs, hr⟩ := ih hrest
          exact ⟨by rw [hc, hcs], hr⟩

theorem renderStr_append_inj {s s' : String} {r r' : List Char}
    (h : renderStr s ++ r = renderStr s' ++ r') : s = s' ∧ r = r' := by
  simp only [renderStr, List.cons_append, List.append_assoc, List.nil_append, List.cons.injEq,
    true_and] at h
  obtain ⟨hl, hr⟩ := flatMap_escape_inj h
  exact ⟨String.toList_injective hl, hr⟩

/-! ## The text determines the value -/

/-- Which kind of value a first character announces. -/
def kindOf (c : Char) : Nat :=
  if c = 'n' then 0 else if c = 't' ∨ c = 'f' then 1 else if c = '"' then 3
  else if c = '[' then 4 else if c = '{' then 5 else if isNumChar c then 2 else 6

/-- The kind of a value. -/
def kind : Value → Nat
  | .null => 0
  | .bool _ => 1
  | .num _ => 2
  | .str _ => 3
  | .arr _ => 4
  | .obj _ => 5

theorem kind_ne_six (v : Value) : kind v ≠ kindOf ']' := by
  rw [show kindOf ']' = 6 from rfl]
  cases v <;> simp [kind]

theorem kindOf_numChar {c : Char} (h : isNumChar c = true) : kindOf c = 2 := by
  have h1 : c ≠ 'n' := by rintro rfl; revert h; decide
  have h2 : c ≠ 't' := by rintro rfl; revert h; decide
  have h3 : c ≠ 'f' := by rintro rfl; revert h; decide
  have h4 : c ≠ '"' := by rintro rfl; revert h; decide
  have h5 : c ≠ '[' := by rintro rfl; revert h; decide
  have h6 : c ≠ '{' := by rintro rfl; revert h; decide
  simp [kindOf, h1, h2, h3, h4, h5, h6, h]

/-- The first character of a text announces the kind of its value. -/
theorem render_head (v : Value) : ∃ c t, render v = c :: t ∧ kindOf c = kind v := by
  cases v with
  | null => exact ⟨_, _, rfl, by decide⟩
  | bool b => cases b <;> exact ⟨_, _, rfl, by decide⟩
  | num n =>
      obtain ⟨text, hne, hchars⟩ := n
      cases text with
      | nil => exact absurd rfl hne
      | cons c t => exact ⟨c, t, rfl, kindOf_numChar (hchars c (by simp))⟩
  | str s => exact ⟨'"', _, rfl, rfl⟩
  | arr xs => cases xs <;> exact ⟨'[', _, rfl, rfl⟩
  | obj kvs =>
      cases kvs with
      | nil => exact ⟨'{', _, rfl, rfl⟩
      | cons p kvs => exact ⟨'{', _, rfl, rfl⟩

theorem kind_eq_of_append_eq {v v' : Value} {r r' : List Char}
    (h : render v ++ r = render v' ++ r') : kind v = kind v' := by
  obtain ⟨c, t, hv, hk⟩ := render_head v
  obtain ⟨c', t', hv', hk'⟩ := render_head v'
  rw [hv, hv', List.cons_append, List.cons_append, List.cons.injEq] at h
  rw [← hk, ← hk', h.1]

/-- What may follow a value: nothing that could prolong a number. -/
def Stops (r : List Char) : Prop := ∀ c t, r = c :: t → isNumChar c = false

theorem stops_nil : Stops [] := by intro c t h; cases h

theorem stops_cons {c : Char} {r : List Char} (h : isNumChar c = false) : Stops (c :: r) := by
  intro c' t h'
  cases h'
  exact h

theorem stops_renderTail (xs : List Value) (r : List Char) : Stops (renderTail xs ++ r) := by
  cases xs with
  | nil => exact stops_cons (by decide)
  | cons x xs => exact stops_cons (by decide)

theorem stops_renderFields (kvs : List (String × Value)) (r : List Char) :
    Stops (renderFields kvs ++ r) := by
  cases kvs with
  | nil => exact stops_cons (by decide)
  | cons p kvs => exact stops_cons (by decide)

theorem numText_inj : ∀ {t t' r r' : List Char}, (∀ c ∈ t, isNumChar c = true) →
    (∀ c ∈ t', isNumChar c = true) → Stops r → Stops r' → t ++ r = t' ++ r' →
    t = t' ∧ r = r' := by
  intro t
  induction t with
  | nil =>
      intro t' r r' _ ht' hr _ h
      cases t' with
      | nil => exact ⟨rfl, h⟩
      | cons c' t' =>
          have hnum := ht' c' (by simp)
          rw [hr c' (t' ++ r') h] at hnum
          exact absurd hnum (by decide)
  | cons c t ih =>
      intro t' r r' ht ht' hr hr' h
      cases t' with
      | nil =>
          have hnum := ht c (by simp)
          rw [hr' c (t ++ r) h.symm] at hnum
          exact absurd hnum (by decide)
      | cons c' t' =>
          simp only [List.cons_append, List.cons.injEq] at h
          obtain ⟨htt, hrr⟩ := ih (fun x hx => ht x (by simp [hx]))
            (fun x hx => ht' x (by simp [hx])) hr hr' h.2
          exact ⟨by rw [h.1, htt], hrr⟩

theorem bool_inj {b b' : Bool} {r r' : List Char}
    (h : render (.bool b) ++ r = render (.bool b') ++ r') : b = b' ∧ r = r' := by
  cases b <;> cases b' <;> simp_all [render]

mutual
/-- **The text determines the value.**  Two texts that start alike, up to what
may follow a value, are the text of one value followed by the same rest. -/
theorem render_inj : ∀ (v v' : Value) {r r' : List Char}, Stops r → Stops r' →
    render v ++ r = render v' ++ r' → v = v' ∧ r = r'
  | v, .null, r, r', _, _, h => by
      have hk := kind_eq_of_append_eq h
      cases v <;> simp [kind] at hk
      simpa [render] using h
  | v, .bool b', r, r', _, _, h => by
      have hk := kind_eq_of_append_eq h
      cases v <;> simp [kind] at hk
      rename_i b
      obtain ⟨hb, hr⟩ := bool_inj h
      exact ⟨by rw [hb], hr⟩
  | v, .num n', r, r', hs, hs', h => by
      have hk := kind_eq_of_append_eq h
      cases v <;> simp [kind] at hk
      rename_i n
      obtain ⟨ht, hr⟩ := numText_inj n.chars n'.chars hs hs' h
      refine ⟨?_, hr⟩
      cases n
      cases n'
      simp only at ht
      subst ht
      rfl
  | v, .str s', r, r', _, _, h => by
      have hk := kind_eq_of_append_eq h
      cases v <;> simp [kind] at hk
      obtain ⟨hs, hr⟩ := renderStr_append_inj h
      exact ⟨by rw [hs], hr⟩
  | v, .arr xs', r, r', _, _, h => by
      have hk := kind_eq_of_append_eq h
      cases v <;> simp [kind] at hk
      rename_i xs
      cases xs' with
      | nil =>
          cases xs with
          | nil => simpa [render] using h
          | cons x xs =>
              simp only [render, List.cons_append, List.nil_append, List.cons.injEq, true_and,
                List.append_assoc] at h
              obtain ⟨c, t, hc, hkc⟩ := render_head x
              rw [hc, List.cons_append, List.cons.injEq] at h
              rw [h.1] at hkc
              exact absurd hkc.symm (kind_ne_six x)
      | cons x' xs' =>
          cases xs with
          | nil =>
              simp only [render, List.cons_append, List.nil_append, List.cons.injEq, true_and,
                List.append_assoc] at h
              obtain ⟨c, t, hc, hkc⟩ := render_head x'
              rw [hc, List.cons_append, List.cons.injEq] at h
              rw [← h.1] at hkc
              exact absurd hkc.symm (kind_ne_six x')
          | cons x xs =>
              simp only [render, List.cons_append, List.cons.injEq, true_and,
                List.append_assoc] at h
              obtain ⟨hx, hrest⟩ := render_inj x x' (stops_renderTail xs r)
                (stops_renderTail xs' r') h
              obtain ⟨hxs, hr⟩ := renderTail_inj xs xs' hrest
              exact ⟨by rw [hx, hxs], hr⟩
  | v, .obj kvs', r, r', _, _, h => by
      have hk := kind_eq_of_append_eq h
      cases v <;> simp [kind] at hk
      rename_i kvs
      cases kvs' with
      | nil =>
          cases kvs with
          | nil =>
              simp only [render, List.cons_append, List.nil_append, List.cons.injEq, true_and] at h
              exact ⟨rfl, h⟩
          | cons p kvs => simp [render, renderStr] at h
      | cons p' kvs' =>
          cases kvs with
          | nil => simp [render, renderStr] at h
          | cons p kvs =>
              obtain ⟨k, x⟩ := p
              obtain ⟨k', x'⟩ := p'
              simp only [render, List.cons_append, List.cons.injEq, true_and,
                List.append_assoc] at h
              obtain ⟨hkey, hrest⟩ := renderStr_append_inj h
              simp only [List.cons.injEq, true_and] at hrest
              obtain ⟨hx, hrest'⟩ := render_inj x x' (stops_renderFields kvs r)
                (stops_renderFields kvs' r') hrest
              obtain ⟨hkvs, hr⟩ := renderFields_inj kvs kvs' hrest'
              exact ⟨by rw [hkey, hx, hkvs], hr⟩

theorem renderTail_inj : ∀ (xs xs' : List Value) {r r' : List Char},
    renderTail xs ++ r = renderTail xs' ++ r' → xs = xs' ∧ r = r'
  | [], [], r, r', h => by simpa [renderTail] using h
  | [], x' :: xs', r, r', h => by simp [renderTail] at h
  | x :: xs, [], r, r', h => by simp [renderTail] at h
  | x :: xs, x' :: xs', r, r', h => by
      simp only [renderTail, List.cons_append, List.cons.injEq, true_and, List.append_assoc] at h
      obtain ⟨hx, hrest⟩ := render_inj x x' (stops_renderTail xs r) (stops_renderTail xs' r') h
      obtain ⟨hxs, hr⟩ := renderTail_inj xs xs' hrest
      exact ⟨by rw [hx, hxs], hr⟩

theorem renderFields_inj : ∀ (kvs kvs' : List (String × Value)) {r r' : List Char},
    renderFields kvs ++ r = renderFields kvs' ++ r' → kvs = kvs' ∧ r = r'
  | [], [], r, r', h => by simpa [renderFields] using h
  | [], p' :: kvs', r, r', h => by simp [renderFields] at h
  | p :: kvs, [], r, r', h => by simp [renderFields] at h
  | (k, x) :: kvs, (k', x') :: kvs', r, r', h => by
      simp only [renderFields, List.cons_append, List.cons.injEq, true_and,
        List.append_assoc] at h
      obtain ⟨hkey, hrest⟩ := renderStr_append_inj h
      simp only [List.cons.injEq, true_and] at hrest
      obtain ⟨hx, hrest'⟩ := render_inj x x' (stops_renderFields kvs r)
        (stops_renderFields kvs' r') hrest
      obtain ⟨hkvs, hr⟩ := renderFields_inj kvs kvs' hrest'
      exact ⟨by rw [hkey, hx, hkvs], hr⟩
end

/-- **Equal dumps mean equal values**, up to the order of keys. -/
theorem dumps_inj {v v' : Value} : dumps v = dumps v' ↔ sortKeys v = sortKeys v' := by
  constructor
  · intro h
    have ht : render (sortKeys v) ++ [] = render (sortKeys v') ++ [] := by
      rw [List.append_nil, List.append_nil]
      exact String.ofList_injective h
    exact (render_inj _ _ stops_nil stops_nil ht).1
  · intro h
    rw [dumps, dumps, h]

/-! ## Sorting keys and looking them up -/

theorem get?_orderedInsert (a : String) (w : Value) (l : List (String × Value)) (key : String) :
    get? (List.orderedInsert KeyLE (a, w) l) key = if a = key then some w else get? l key := by
  induction l with
  | nil => simp [get?]
  | cons p l ih =>
      obtain ⟨b, x⟩ := p
      rw [List.orderedInsert]
      split_ifs with hle hkey hkey
      · simp [get?, hkey]
      · simp [get?, hkey]
      · rw [get?, ih, if_pos hkey]
        have hne : b ≠ key := by
          rintro rfl
          exact hle (by rw [hkey]; exact le_refl b)
        rw [if_neg hne]
      · rw [get?, ih, if_neg hkey, get?]

/-- Sorting keys does not change what a key is mapped to, only the order inside
the value it is mapped to. -/
theorem get?_sortFields (kvs : List (String × Value)) (key : String) :
    get? (sortFields kvs) key = (get? kvs key).map sortKeys := by
  induction kvs with
  | nil => simp [sortFields, get?]
  | cons p kvs ih =>
      obtain ⟨k, v⟩ := p
      rw [sortFields, get?_orderedInsert, ih, get?]
      split_ifs with h
      · rfl
      · rfl

/-- Objects with equal dumps agree on every key, up to the order of keys inside
its value. -/
theorem get?_of_dumps_eq {kvs kvs' : List (String × Value)}
    (h : dumps (.obj kvs) = dumps (.obj kvs')) (key : String) :
    (get? kvs key).map sortKeys = (get? kvs' key).map sortKeys := by
  have hs := dumps_inj.mp h
  simp only [sortKeys, Value.obj.injEq] at hs
  rw [← get?_sortFields, ← get?_sortFields, hs]

/-- `sortKeys` on an array of strings changes nothing. -/
theorem sortElems_str (l : List String) : sortElems (l.map Value.str) = l.map Value.str := by
  induction l with
  | nil => simp [sortElems]
  | cons s l ih => simp [sortElems, sortKeys, ih]

/-! ## Up to the order of keys -/

/-- Values that differ in the order of keys alone: anywhere inside, two neighbouring pairs
with different keys may change places. -/
inductive Reordered : Value → Value → Prop where
  | refl (v : Value) : Reordered v v
  | symm {v w : Value} (h : Reordered v w) : Reordered w v
  | trans {v w x : Value} (h : Reordered v w) (h' : Reordered w x) : Reordered v x
  | swap (before after : List (String × Value)) {k k' : String} (v v' : Value) (hne : k ≠ k') :
      Reordered (.obj (before ++ (k, v) :: (k', v') :: after))
        (.obj (before ++ (k', v') :: (k, v) :: after))
  | field (before after : List (String × Value)) (k : String) {v w : Value}
      (h : Reordered v w) :
      Reordered (.obj (before ++ (k, v) :: after)) (.obj (before ++ (k, w) :: after))
  | elem (before after : List Value) {v w : Value} (h : Reordered v w) :
      Reordered (.arr (before ++ v :: after)) (.arr (before ++ w :: after))

/-- Two pairs with different keys may be inserted in either order. -/
theorem orderedInsert_comm {p q : String × Value} (hne : p.1 ≠ q.1) (l : List (String × Value)) :
    List.orderedInsert KeyLE p (List.orderedInsert KeyLE q l) =
      List.orderedInsert KeyLE q (List.orderedInsert KeyLE p l) := by
  have hnot : KeyLE p q → ¬ KeyLE q p := fun h h' => hne (le_antisymm h h')
  have hnot' : ¬ KeyLE p q → KeyLE q p := fun h => le_of_not_ge h
  induction l with
  | nil =>
      by_cases h : KeyLE p q
      · simp [h, hnot h]
      · simp [h, hnot' h]
  | cons b l ih =>
      by_cases hp : KeyLE p b
      · by_cases hq : KeyLE q b
        · by_cases h : KeyLE p q
          · simp [hp, hq, h, hnot h]
          · simp [hp, hq, h, hnot' h]
        · -- `p` stops at `b`, which `q` passes
          have hqp : ¬ KeyLE q p := fun h => hq (le_trans h hp)
          simp [hp, hq, hqp]
      · by_cases hq : KeyLE q b
        · have hpq : ¬ KeyLE p q := fun h => hp (le_trans h hq)
          simp [hp, hq, hpq]
        · simp [hp, hq, ih]

theorem sortFields_append_congr {l l' : List (String × Value)}
    (h : sortFields l = sortFields l') (before : List (String × Value)) :
    sortFields (before ++ l) = sortFields (before ++ l') := by
  induction before with
  | nil => exact h
  | cons p before ih =>
      obtain ⟨k, v⟩ := p
      simp [sortFields, ih]

theorem sortElems_append (xs ys : List Value) :
    sortElems (xs ++ ys) = sortElems xs ++ sortElems ys := by
  induction xs with
  | nil => simp [sortElems]
  | cons x xs ih => simp [sortElems, ih]

/-- A pair may stand where sorting puts it. -/
theorem reordered_orderedInsert (before : List (String × Value)) (p : String × Value)
    (l : List (String × Value)) :
    Reordered (.obj (before ++ p :: l)) (.obj (before ++ List.orderedInsert KeyLE p l)) := by
  induction l generalizing before with
  | nil => exact .refl _
  | cons b l ih =>
      by_cases h : KeyLE p b
      · simpa [h] using Reordered.refl _
      · have hne : p.1 ≠ b.1 := fun heq => h (le_of_eq heq)
        have hswap := Reordered.swap before l p.2 b.2 hne
        have hrest := ih (before ++ [b])
        simp only [List.append_assoc, List.singleton_append] at hrest
        rw [List.orderedInsert_of_not_le KeyLE l h]
        exact hswap.trans hrest

mutual
/-- Every value is sorted by changing the order of keys alone. -/
theorem reordered_sortKeys : ∀ v : Value, Reordered v (sortKeys v)
  | .null => by simpa [sortKeys] using Reordered.refl _
  | .bool b => by simpa [sortKeys] using Reordered.refl _
  | .num n => by simpa [sortKeys] using Reordered.refl _
  | .str s => by simpa [sortKeys] using Reordered.refl _
  | .arr xs => by simpa [sortKeys] using reordered_sortElems [] xs
  | .obj kvs => by simpa [sortKeys] using reordered_sortFields [] kvs

theorem reordered_sortElems : ∀ before xs : List Value,
    Reordered (.arr (before ++ xs)) (.arr (before ++ sortElems xs))
  | before, [] => by simpa [sortElems] using Reordered.refl _
  | before, x :: xs => by
      have hrest := reordered_sortElems (before ++ [sortKeys x]) xs
      rw [List.append_assoc, List.append_assoc] at hrest
      simpa [sortElems] using (Reordered.elem before xs (reordered_sortKeys x)).trans hrest

theorem reordered_sortFields : ∀ before kvs : List (String × Value),
    Reordered (.obj (before ++ kvs)) (.obj (before ++ sortFields kvs))
  | before, [] => by simpa [sortFields] using Reordered.refl _
  | before, (k, v) :: kvs => by
      have hrest := reordered_sortFields (before ++ [(k, sortKeys v)]) kvs
      rw [List.append_assoc, List.append_assoc] at hrest
      rw [sortFields]
      exact ((Reordered.field before kvs k (reordered_sortKeys v)).trans hrest).trans
        (reordered_orderedInsert before (k, sortKeys v) (sortFields kvs))
end

/-- **Sorting decides it**: values differ in the order of keys alone exactly when sorting
their keys makes them equal. -/
theorem reordered_iff {v w : Value} : Reordered v w ↔ sortKeys v = sortKeys w := by
  constructor
  · intro h
    induction h with
    | refl v => rfl
    | symm _ ih => exact ih.symm
    | trans _ _ ih ih' => exact ih.trans ih'
    | swap before after v v' hne =>
        rw [sortKeys, sortKeys]
        refine congrArg Value.obj (sortFields_append_congr ?_ before)
        rw [sortFields, sortFields, sortFields, sortFields]
        exact orderedInsert_comm (by exact hne) _
    | field before after k _ ih =>
        rw [sortKeys, sortKeys]
        refine congrArg Value.obj (sortFields_append_congr ?_ before)
        simp [sortFields, ih]
    | elem before after _ ih => simp [sortKeys, sortElems_append, sortElems, ih]
  · intro h
    have hw := (reordered_sortKeys w).symm
    rw [← h] at hw
    exact (reordered_sortKeys v).trans hw

end Json
end Ucser
