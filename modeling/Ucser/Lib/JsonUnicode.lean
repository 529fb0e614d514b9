import Ucser.Lib.JsonLoads

/-!
# JSON that is not all ASCII

`json.dumps(v, ensure_ascii=False)`, and what pydantic writes: a character is escaped only
where it must be.

* `renderUsing` — the text of a value, for any way of writing strings and any padding;
  `renderWith_eq` — the writer that escapes everything is one of them.
* `Reads` — what is to be known of the way of writing strings: they are read back.
* `loads_renderUsing` — **then every value is read back.**
* `isPrintable_of_mem_dumpsPlain` — `json.dumps(v)` writes printable ASCII.
* `dumpsUnicode`, `dumpsCompact` — the two writers, with and without a blank behind the
  separators.
-/

namespace Ucser
namespace Json

/-! ## Any way of writing strings -/

mutual
/-- The text of a value: strings as `str` writes them, a padding behind every separator. -/
def renderUsing (str : String → List Char) (pad : List Char) : Value → List Char
  | .null => ['n', 'u', 'l', 'l']
  | .bool true => ['t', 'r', 'u', 'e']
  | .bool false => ['f', 'a', 'l', 's', 'e']
  | .num n => n.text
  | .str s => str s
  | .arr [] => ['[', ']']
  | .arr (x :: xs) => '[' :: (renderUsing str pad x ++ renderTailUsing str pad xs)
  | .obj [] => ['{', '}']
  | .obj ((k, v) :: kvs) =>
      '{' :: (str k ++ ':' :: (pad ++ (renderUsing str pad v ++ renderFieldsUsing str pad kvs)))

/-- The rest of an array after its first element. -/
def renderTailUsing (str : String → List Char) (pad : List Char) : List Value → List Char
  | [] => [']']
  | x :: xs => ',' :: (pad ++ (renderUsing str pad x ++ renderTailUsing str pad xs))

/-- The rest of an object after its first pair. -/
def renderFieldsUsing (str : String → List Char) (pad : List Char) :
    List (String × Value) → List Char
  | [] => ['}']
  | (k, v) :: kvs =>
      ',' :: (pad ++
        (str k ++ ':' :: (pad ++ (renderUsing str pad v ++ renderFieldsUsing str pad kvs))))
end

mutual
/-- The writer that escapes everything beyond ASCII. -/
theorem renderWith_eq (pad : List Char) : ∀ v : Value,
    renderWith pad v = renderUsing renderStr pad v
  | .null => rfl
  | .bool true => rfl
  | .bool false => rfl
  | .num n => rfl
  | .str s => rfl
  | .arr [] => rfl
  | .arr (x :: xs) => by
      rw [renderWith, renderUsing, renderWith_eq pad x, renderTailWith_eq pad xs]
  | .obj [] => rfl
  | .obj ((k, v) :: kvs) => by
      rw [renderWith, renderUsing, renderWith_eq pad v, renderFieldsWith_eq pad kvs]

theorem renderTailWith_eq (pad : List Char) : ∀ xs : List Value,
    renderTailWith pad xs = renderTailUsing renderStr pad xs
  | [] => rfl
  | x :: xs => by
      rw [renderTailWith, renderTailUsing, renderWith_eq pad x, renderTailWith_eq pad xs]

theorem renderFieldsWith_eq (pad : List Char) : ∀ kvs : List (String × Value),
    renderFieldsWith pad kvs = renderFieldsUsing renderStr pad kvs
  | [] => rfl
  | (k, v) :: kvs => by
      rw [renderFieldsWith, renderFieldsUsing, renderWith_eq pad v, renderFieldsWith_eq pad kvs]
end

/-- A string is read back from behind its opening quote. -/
def Reads (str : String → List Char) : Prop :=
  ∀ s, ∃ t, str s = '"' :: t ∧ ∀ r, scanString (t ++ r) = some (s, r)

variable {str : String → List Char} {pad : List Char}

/-- The text of a value starts with a character that announces the value. -/
theorem renderUsing_head (hstr : Reads str) (pad : List Char) (v : Value) :
    ∃ c t, renderUsing str pad v = c :: t ∧ kindOf c = kind v := by
  cases v with
  | null => exact ⟨_, _, rfl, by decide⟩
  | bool b => cases b <;> exact ⟨_, _, rfl, by decide⟩
  | num n =>
      obtain ⟨c, t, htext⟩ := List.exists_cons_of_ne_nil n.ne_nil
      exact ⟨c, t, htext, kindOf_numChar (n.chars c (by rw [htext]; exact List.mem_cons_self))⟩
  | str s =>
      obtain ⟨t, ht, _⟩ := hstr s
      exact ⟨_, t, ht, rfl⟩
  | arr xs => cases xs <;> exact ⟨_, _, rfl, rfl⟩
  | obj kvs => cases kvs <;> exact ⟨_, _, rfl, rfl⟩

/-- There are no blanks at the head of the text of a value, and no closing bracket. -/
theorem exists_head_renderUsing (hstr : Reads str) (pad : List Char) (v : Value) :
    ∃ c t, renderUsing str pad v = c :: t ∧ isBlank c = false ∧ c ≠ ']' := by
  obtain ⟨c, t, htext, hkind⟩ := renderUsing_head hstr pad v
  have hlt := kind_lt_six v
  refine ⟨c, t, htext, ?_, ?_⟩
  · by_contra hblank
    have hsix := kindOf_blank (Bool.eq_true_of_not_eq_false hblank)
    omega
  · rintro rfl
    have hsix : kindOf ']' = 6 := rfl
    omega

theorem skipBlanks_renderUsing (hstr : Reads str) (pad : List Char) (v : Value) (cs : List Char) :
    skipBlanks (renderUsing str pad v ++ cs) = renderUsing str pad v ++ cs := by
  obtain ⟨c, t, htext, hblank, _⟩ := exists_head_renderUsing hstr pad v
  rw [htext, List.cons_append, skipBlanks_cons hblank]

theorem skipBlanks_str (hstr : Reads str) (k : String) (cs : List Char) :
    skipBlanks (str k ++ cs) = str k ++ cs := by
  obtain ⟨t, ht, _⟩ := hstr k
  rw [ht, List.cons_append, skipBlanks_cons (by decide)]

theorem stops_renderTailUsing (xs : List Value) (r : List Char) :
    Stops (renderTailUsing str pad xs ++ r) := by
  cases xs with
  | nil => exact stops_cons (by decide)
  | cons x xs => exact stops_cons (by decide)

theorem stops_renderFieldsUsing (kvs : List (String × Value)) (r : List Char) :
    Stops (renderFieldsUsing str pad kvs ++ r) := by
  cases kvs with
  | nil => exact stops_cons (by decide)
  | cons p kvs => exact stops_cons (by decide)

mutual
/-- **A text is read back**, whatever stops a number behind it. -/
theorem scanValue_renderUsing (hstr : Reads str) (hpad : ∀ c ∈ pad, isBlank c = true) :
    ∀ (v : Value) (n : Nat) {r : List Char}, v.wellFormed = true →
    (renderUsing str pad v).length ≤ n → Stops r →
    scanValue n (renderUsing str pad v ++ r) = some (v, r)
  | v, 0, r, _, hn, _ => by
      obtain ⟨c, t, htext, _⟩ := exists_head_renderUsing hstr pad v
      rw [htext] at hn
      exact absurd hn (by simp)
  | .null, n + 1, r, _, _, _ => rfl
  | .bool true, n + 1, r, _, _, _ => rfl
  | .bool false, n + 1, r, _, _, _ => rfl
  | .num m, n + 1, r, hv, _, hr => scanValue_num (of_decide_eq_true hv) hr n
  | .str s, n + 1, r, _, _, _ => by
      obtain ⟨t, ht, hscan⟩ := hstr s
      rw [renderUsing, ht, List.cons_append, scanValue, if_pos rfl, hscan]
      rfl
  | .arr [], n + 1, r, _, _, _ => rfl
  | .arr (x :: xs), n + 1, r, hv, hn, _ => by
      obtain ⟨hx, hxs⟩ := Bool.and_eq_true_iff.mp hv
      have helems := scanElems_renderUsing hstr hpad x xs n (r := r) hx hxs
        (by simpa [renderUsing] using hn)
      have hskip := skipBlanks_renderUsing hstr pad x (renderTailUsing str pad xs ++ r)
      rw [renderUsing, List.cons_append, List.append_assoc, scanValue_array, hskip, helems]
      · rfl
      · intro r' heq
        obtain ⟨c, t, htext, _, hne⟩ := exists_head_renderUsing hstr pad x
        rw [hskip, htext, List.cons_append] at heq
        exact hne (List.cons.inj heq).1
  | .obj [], n + 1, r, _, _, _ => rfl
  | .obj ((k, v) :: kvs), n + 1, r, hv, hn, _ => by
      obtain ⟨hnodup, hfields⟩ := Bool.and_eq_true_iff.mp hv
      obtain ⟨hv, hkvs⟩ := Bool.and_eq_true_iff.mp hfields
      have hscan := scanFields_renderUsing hstr hpad k v kvs n (r := r) hv hkvs
        (by simpa [renderUsing] using hn)
      rw [renderUsing, List.cons_append, List.append_assoc, List.cons_append, List.append_assoc,
        List.append_assoc, scanValue_object, skipBlanks_str hstr, hscan, Option.map_some,
        dictOf_of_nodup (of_decide_eq_true hnodup)]
      intro r' heq
      obtain ⟨t, ht, _⟩ := hstr k
      rw [skipBlanks_str hstr, ht, List.cons_append] at heq
      exact absurd (List.cons.inj heq).1 (by decide)

theorem scanElems_renderUsing (hstr : Reads str) (hpad : ∀ c ∈ pad, isBlank c = true) :
    ∀ (x : Value) (xs : List Value) (n : Nat) {r : List Char}, x.wellFormed = true →
    wellFormedElems xs = true → (renderUsing str pad x ++ renderTailUsing str pad xs).length ≤ n →
    scanElems n (renderUsing str pad x ++ (renderTailUsing str pad xs ++ r)) = some (x :: xs, r)
  | x, xs, 0, r, _, _, hn => by
      obtain ⟨c, t, htext, _⟩ := exists_head_renderUsing hstr pad x
      rw [htext] at hn
      exact absurd hn (by simp)
  | x, [], n + 1, r, hx, _, hn => by
      have hvalue := scanValue_renderUsing hstr hpad x n (r := renderTailUsing str pad [] ++ r) hx
        (by simp [renderTailUsing] at hn; omega) (stops_renderTailUsing [] r)
      exact scanElems_last hvalue (skipBlanks_cons (by decide) r)
  | x, y :: ys, n + 1, r, hx, hys, hn => by
      obtain ⟨hy, hys⟩ := Bool.and_eq_true_iff.mp hys
      have hvalue := scanValue_renderUsing hstr hpad x n
        (r := renderTailUsing str pad (y :: ys) ++ r) hx
        (by simp [renderTailUsing] at hn; omega) (stops_renderTailUsing (y :: ys) r)
      have helems := scanElems_renderUsing hstr hpad y ys n (r := r) hy hys
        (by simp [renderTailUsing] at hn ⊢; omega)
      have hcomma : skipBlanks (renderTailUsing str pad (y :: ys) ++ r) =
          ',' :: (pad ++ (renderUsing str pad y ++ (renderTailUsing str pad ys ++ r))) := by
        rw [renderTailUsing, List.cons_append, skipBlanks_cons (by decide), List.append_assoc,
          List.append_assoc]
      refine scanElems_more hvalue hcomma ?_
      rw [skipBlanks_pad hpad, skipBlanks_renderUsing hstr]
      exact helems

theorem scanFields_renderUsing (hstr : Reads str) (hpad : ∀ c ∈ pad, isBlank c = true) :
    ∀ (k : String) (v : Value) (kvs : List (String × Value)) (n : Nat) {r : List Char},
    v.wellFormed = true → wellFormedFields kvs = true →
    (str k ++ ':' :: (pad ++ (renderUsing str pad v ++ renderFieldsUsing str pad kvs))).length ≤ n →
    scanFields n (str k ++
      ':' :: (pad ++ (renderUsing str pad v ++ (renderFieldsUsing str pad kvs ++ r)))) =
      some ((k, v) :: kvs, r)
  | k, v, kvs, 0, r, _, _, hn => absurd hn (by simp)
  | k, v, [], n + 1, r, hv, _, hn => by
      have hvalue := scanValue_renderUsing hstr hpad v n (r := renderFieldsUsing str pad [] ++ r) hv
        (by simp [renderFieldsUsing] at hn; omega) (stops_renderFieldsUsing [] r)
      obtain ⟨t, ht, hscan⟩ := hstr k
      rw [ht, List.cons_append]
      refine scanFields_last (hscan _) (skipBlanks_cons (by decide) _) ?_
        (skipBlanks_cons (by decide) r)
      rw [skipBlanks_pad hpad, skipBlanks_renderUsing hstr]
      exact hvalue
  | k, v, (k', v') :: kvs, n + 1, r, hv, hkvs, hn => by
      obtain ⟨hv', hkvs⟩ := Bool.and_eq_true_iff.mp hkvs
      have hvalue := scanValue_renderUsing hstr hpad v n
        (r := renderFieldsUsing str pad ((k', v') :: kvs) ++ r) hv
        (by simp [renderFieldsUsing] at hn; omega) (stops_renderFieldsUsing _ r)
      have hfields := scanFields_renderUsing hstr hpad k' v' kvs n (r := r) hv' hkvs
        (by simp [renderFieldsUsing] at hn ⊢; omega)
      have hcomma : skipBlanks (renderFieldsUsing str pad ((k', v') :: kvs) ++ r) =
          ',' :: (pad ++ (str k' ++
            ':' :: (pad ++ (renderUsing str pad v' ++ (renderFieldsUsing str pad kvs ++ r))))) := by
        rw [renderFieldsUsing, List.cons_append, skipBlanks_cons (by decide)]
        simp
      obtain ⟨t, ht, hscan⟩ := hstr k
      rw [ht, List.cons_append]
      refine scanFields_more (hscan _) (skipBlanks_cons (by decide) _) ?_ hcomma ?_
      · rw [skipBlanks_pad hpad, skipBlanks_renderUsing hstr]
        exact hvalue
      · rw [skipBlanks_pad hpad, skipBlanks_str hstr]
        exact hfields
end

/-- **Every value is read back**, if its strings are. -/
theorem loads_renderUsing (hstr : Reads str) (hpad : ∀ c ∈ pad, isBlank c = true) {v : Value}
    (h : v.wellFormed = true) : loads (String.ofList (renderUsing str pad v)) = some v := by
  have hskip := skipBlanks_renderUsing hstr pad v []
  have hscan := scanValue_renderUsing hstr hpad v ((renderUsing str pad v).length + 1) h (by omega)
    stops_nil
  rw [List.append_nil] at hskip hscan
  rw [loads, String.toList_ofList, hskip, hscan]
  rfl

/-! ## Escaping only what must be -/

/-- A character between quotes: quotes, backslashes and control characters are escaped. -/
def escapeRaw (c : Char) : List Char := if c.toNat < 0x7F then escapeUnit c.toNat else [c]

/-- A string between its quotes. -/
def renderStrRaw (s : String) : List Char := '"' :: (s.toList.flatMap escapeRaw ++ ['"'])

theorem scanUnits_escapeRaw (c : Char) (r : List Char) :
    scanUnits (escapeRaw c ++ r) = (scanUnits r).map fun p => (c.toNat :: p.1, p.2) := by
  unfold escapeRaw
  split_ifs with h
  · exact scanUnits_escapeUnit (by omega) r
  · have hne : ∀ d : Char, d.toNat < 0x7F → c ≠ d := by
      rintro d hd rfl
      exact h hd
    exact scanUnits_plain (hne '"' (by decide)) (hne '\\' (by decide)) (by omega) r

theorem scanUnits_flatMap_escapeRaw (l r : List Char) :
    scanUnits (l.flatMap escapeRaw ++ '"' :: r) = some (l.map Char.toNat, r) := by
  induction l with
  | nil => rfl
  | cons c cs ih =>
      rw [List.flatMap_cons, List.append_assoc, scanUnits_escapeRaw, ih]
      rfl

/-- Code points that are no surrogates are joined to their characters. -/
theorem joinUnits_map_toNat (l : List Char) : joinUnits (l.map Char.toNat) = some l := by
  induction l with
  | nil => rfl
  | cons c cs ih =>
      have hc := not_surrogate c
      cases cs with
      | nil =>
          show (if 0xD800 ≤ c.toNat ∧ c.toNat ≤ 0xDFFF then none else some [Char.ofNat c.toNat]) = _
          rw [if_neg (by omega), Char.ofNat_toNat]
      | cons d ds =>
          rw [List.map_cons, List.map_cons, joinUnits, if_neg (by omega), if_neg (by omega),
            ← List.map_cons, ih, Char.ofNat_toNat]
          rfl

theorem reads_renderStrRaw : Reads renderStrRaw := by
  intro s
  refine ⟨s.toList.flatMap escapeRaw ++ ['"'], rfl, fun r => ?_⟩
  rw [List.append_assoc, List.singleton_append, scanString, scanUnits_flatMap_escapeRaw]
  dsimp only
  rw [joinUnits_map_toNat, Option.map_some, String.ofList_toList]

/-! ## The characters of a text -/

mutual
/-- The strings in a value, keys among them. -/
def Value.strings : Value → List String
  | .str s => [s]
  | .arr xs => stringsElems xs
  | .obj kvs => stringsFields kvs
  | .null => []
  | .bool _ => []
  | .num _ => []

/-- The strings in the elements of an array. -/
def stringsElems : List Value → List String
  | [] => []
  | x :: xs => x.strings ++ stringsElems xs

/-- The keys of an object and the strings in its values. -/
def stringsFields : List (String × Value) → List String
  | [] => []
  | (k, v) :: kvs => k :: (v.strings ++ stringsFields kvs)
end

/-- A printable ASCII character. -/
def isPrintable (c : Char) : Bool := 0x20 ≤ c.toNat && c.toNat < 0x7F

theorem isPrintable_iff {c : Char} : isPrintable c = true ↔ 0x20 ≤ c.toNat ∧ c.toNat < 0x7F := by
  simp [isPrintable]

/-- What is escaped is written in printable ASCII. -/
theorem isPrintable_of_mem_escapeUnit {u : Nat} (hu : u < 0x10000) :
    ∀ c ∈ escapeUnit u, isPrintable c = true := by
  have hhex : ∀ n, n < 16 → isPrintable (hexDigit n) = true := by decide
  unfold escapeUnit
  split_ifs with h1 h2 h3 h4 h5 h6 h7 h8
  · exact List.all_eq_true.mp rfl
  · exact List.all_eq_true.mp rfl
  · exact List.all_eq_true.mp rfl
  · exact List.all_eq_true.mp rfl
  · exact List.all_eq_true.mp rfl
  · exact List.all_eq_true.mp rfl
  · exact List.all_eq_true.mp rfl
  · rw [List.forall_mem_singleton, isPrintable_iff, toNat_ofNat_of_ascii (by omega)]
    omega
  · simp only [List.forall_mem_cons, List.not_mem_nil, false_imp_iff, implies_true, and_true]
    exact ⟨rfl, rfl, hhex _ (by omega), hhex _ (by omega), hhex _ (by omega), hhex _ (by omega)⟩

theorem isPrintable_of_isNumChar {c : Char} (h : isNumChar c = true) : isPrintable c = true := by
  simp only [isNumChar, Bool.or_eq_true, beq_iff_eq] at h
  obtain ((((hdigit | rfl) | rfl) | rfl) | rfl) | rfl := h
  · obtain ⟨hlow, hhigh⟩ : 0x30 ≤ c.toNat ∧ c.toNat ≤ 0x39 := Char.isDigit_iff_toNat.mp hdigit
    exact isPrintable_iff.mpr ⟨by omega, by omega⟩
  · rfl
  · rfl
  · rfl
  · rfl
  · rfl

section Chars

variable {P : Char → Prop} (hP : ∀ c, isPrintable c = true → P c)
include hP

theorem forall_of_printable {text : List Char} (h : text.all isPrintable = true) :
    ∀ c ∈ text, P c :=
  fun c hc => hP c (List.all_eq_true.mp h c hc)

theorem forall_mem_renderStrRaw (s : String) :
    (∀ c ∈ renderStrRaw s, P c) ↔ ∀ c ∈ s.toList, 0x7F ≤ c.toNat → P c := by
  have hquote : P '"' := hP '"' rfl
  rw [renderStrRaw, List.forall_mem_cons, List.forall_mem_append, List.forall_mem_singleton]
  constructor
  · rintro ⟨-, h, -⟩ c hc hle
    refine h c (List.mem_flatMap.mpr ⟨c, hc, ?_⟩)
    rw [escapeRaw, if_neg (by omega)]
    exact List.mem_cons_self
  · refine fun h => ⟨hquote, fun d hd => ?_, hquote⟩
    obtain ⟨c, hc, hdc⟩ := List.mem_flatMap.mp hd
    unfold escapeRaw at hdc
    split_ifs at hdc with hlt
    · exact hP d (isPrintable_of_mem_escapeUnit (by omega) d hdc)
    · rw [List.mem_singleton.mp hdc]
      exact h c hc (by omega)

mutual
/-- **What holds of every character of a text**, if it holds of printable ASCII and of the
padding: what holds of the other characters of its strings. -/
theorem forall_mem_renderUsing (hpad : ∀ c ∈ pad, P c) : ∀ v : Value,
    (∀ c ∈ renderUsing renderStrRaw pad v, P c) ↔
      ∀ s ∈ v.strings, ∀ c ∈ s.toList, 0x7F ≤ c.toNat → P c
  | .null => iff_of_true (forall_of_printable hP rfl) (by simp [Value.strings])
  | .bool true => iff_of_true (forall_of_printable hP rfl) (by simp [Value.strings])
  | .bool false => iff_of_true (forall_of_printable hP rfl) (by simp [Value.strings])
  | .num n =>
      iff_of_true (fun c hc => hP c (isPrintable_of_isNumChar (n.chars c hc)))
        (by simp [Value.strings])
  | .str s => by
      rw [renderUsing, forall_mem_renderStrRaw hP, Value.strings, List.forall_mem_singleton]
  | .arr [] => iff_of_true (forall_of_printable hP rfl) (by simp [Value.strings, stringsElems])
  | .arr (x :: xs) => by
      have hopen : P '[' := hP _ rfl
      rw [renderUsing, Value.strings, stringsElems, List.forall_mem_cons, List.forall_mem_append,
        List.forall_mem_append, forall_mem_renderUsing hpad x, forall_mem_renderTailUsing hpad xs,
        and_iff_right hopen]
  | .obj [] => iff_of_true (forall_of_printable hP rfl) (by simp [Value.strings, stringsFields])
  | .obj ((k, v) :: kvs) => by
      have hopen : P (Char.ofNat 0x7B) := hP _ rfl
      have hcolon : P ':' := hP _ rfl
      rw [renderUsing, Value.strings, stringsFields, List.forall_mem_cons, List.forall_mem_append,
        List.forall_mem_cons, List.forall_mem_append, List.forall_mem_append, List.forall_mem_cons,
        List.forall_mem_append, forall_mem_renderStrRaw hP, forall_mem_renderUsing hpad v,
        forall_mem_renderFieldsUsing hpad kvs, and_iff_right hopen, and_iff_right hcolon,
        and_iff_right hpad]

theorem forall_mem_renderTailUsing (hpad : ∀ c ∈ pad, P c) : ∀ xs : List Value,
    (∀ c ∈ renderTailUsing renderStrRaw pad xs, P c) ↔
      ∀ s ∈ stringsElems xs, ∀ c ∈ s.toList, 0x7F ≤ c.toNat → P c
  | [] => iff_of_true (forall_of_printable hP rfl) (by simp [stringsElems])
  | x :: xs => by
      have hcomma : P ',' := hP _ rfl
      rw [renderTailUsing, stringsElems, List.forall_mem_cons, List.forall_mem_append,
        List.forall_mem_append, List.forall_mem_append, forall_mem_renderUsing hpad x,
        forall_mem_renderTailUsing hpad xs, and_iff_right hcomma, and_iff_right hpad]

theorem forall_mem_renderFieldsUsing (hpad : ∀ c ∈ pad, P c) : ∀ kvs : List (String × Value),
    (∀ c ∈ renderFieldsUsing renderStrRaw pad kvs, P c) ↔
      ∀ s ∈ stringsFields kvs, ∀ c ∈ s.toList, 0x7F ≤ c.toNat → P c
  | [] => iff_of_true (forall_of_printable hP rfl) (by simp [stringsFields])
  | (k, v) :: kvs => by
      have hcomma : P ',' := hP _ rfl
      have hcolon : P ':' := hP _ rfl
      rw [renderFieldsUsing, stringsFields, List.forall_mem_cons, List.forall_mem_append,
        List.forall_mem_append, List.forall_mem_cons, List.forall_mem_append,
        List.forall_mem_append, List.forall_mem_cons, List.forall_mem_append,
        forall_mem_renderStrRaw hP, forall_mem_renderUsing hpad v,
        forall_mem_renderFieldsUsing hpad kvs, and_iff_right hcomma, and_iff_right hcolon,
        and_iff_right hpad, and_iff_right hpad]
end

mutual
/-- What holds of printable ASCII, of the padding and of the strings as they are written. -/
theorem forall_mem_of_str (hstr : ∀ s, ∀ c ∈ str s, P c) (hpad : ∀ c ∈ pad, P c) : ∀ v : Value,
    ∀ c ∈ renderUsing str pad v, P c
  | .null => forall_of_printable hP rfl
  | .bool true => forall_of_printable hP rfl
  | .bool false => forall_of_printable hP rfl
  | .num n => fun c hc => hP c (isPrintable_of_isNumChar (n.chars c hc))
  | .str s => hstr s
  | .arr [] => forall_of_printable hP rfl
  | .arr (x :: xs) => by
      rw [renderUsing, List.forall_mem_cons, List.forall_mem_append]
      exact ⟨hP _ rfl, forall_mem_of_str hstr hpad x, forall_mem_tail_of_str hstr hpad xs⟩
  | .obj [] => forall_of_printable hP rfl
  | .obj ((k, v) :: kvs) => by
      rw [renderUsing, List.forall_mem_cons, List.forall_mem_append, List.forall_mem_cons,
        List.forall_mem_append, List.forall_mem_append]
      exact ⟨hP _ rfl, hstr k, hP _ rfl, hpad, forall_mem_of_str hstr hpad v,
        forall_mem_fields_of_str hstr hpad kvs⟩

theorem forall_mem_tail_of_str (hstr : ∀ s, ∀ c ∈ str s, P c) (hpad : ∀ c ∈ pad, P c) :
    ∀ xs : List Value, ∀ c ∈ renderTailUsing str pad xs, P c
  | [] => forall_of_printable hP rfl
  | x :: xs => by
      rw [renderTailUsing, List.forall_mem_cons, List.forall_mem_append, List.forall_mem_append]
      exact ⟨hP _ rfl, hpad, forall_mem_of_str hstr hpad x, forall_mem_tail_of_str hstr hpad xs⟩

theorem forall_mem_fields_of_str (hstr : ∀ s, ∀ c ∈ str s, P c) (hpad : ∀ c ∈ pad, P c) :
    ∀ kvs : List (String × Value), ∀ c ∈ renderFieldsUsing str pad kvs, P c
  | [] => forall_of_printable hP rfl
  | (k, v) :: kvs => by
      rw [renderFieldsUsing, List.forall_mem_cons, List.forall_mem_append, List.forall_mem_append,
        List.forall_mem_cons, List.forall_mem_append, List.forall_mem_append]
      exact ⟨hP _ rfl, hpad, hstr k, hP _ rfl, hpad, forall_mem_of_str hstr hpad v,
        forall_mem_fields_of_str hstr hpad kvs⟩
end

end Chars

/-- **`json.dumps(v)` writes printable ASCII**, and so no line end. -/
theorem isPrintable_of_mem_dumpsPlain (v : Value) :
    ∀ c ∈ (dumpsPlain v).toList, isPrintable c = true := by
  rw [dumpsPlain, String.toList_ofList, renderWith_eq]
  refine forall_mem_of_str (fun _ h => h) (fun s => ?_) (List.forall_mem_singleton.mpr rfl) v
  rw [renderStr, List.forall_mem_cons, List.forall_mem_append, List.forall_mem_singleton]
  refine ⟨rfl, fun d hd => ?_, rfl⟩
  obtain ⟨c, _, hdc⟩ := List.mem_flatMap.mp hd
  have hlt := toNat_lt c
  unfold escape at hdc
  split_ifs at hdc with hbasic
  · exact isPrintable_of_mem_escapeUnit hbasic d hdc
  · rcases List.mem_append.mp hdc with hhigh | hlow
    · exact isPrintable_of_mem_escapeUnit (by omega) d hhigh
    · exact isPrintable_of_mem_escapeUnit (by omega) d hlow

/-- `json.dumps(v, ensure_ascii=False)`. -/
def dumpsUnicode (v : Value) : String := String.ofList (renderUsing renderStrRaw [' '] v)

/-- What `model_dump_json()` writes for a value: no blanks, and no escapes but those needed. -/
def dumpsCompact (v : Value) : String := String.ofList (renderUsing renderStrRaw [] v)

theorem loads_dumpsUnicode {v : Value} (h : v.wellFormed = true) :
    loads (dumpsUnicode v) = some v :=
  loads_renderUsing reads_renderStrRaw (by simp [isBlank]) h

theorem loads_dumpsCompact {v : Value} (h : v.wellFormed = true) :
    loads (dumpsCompact v) = some v :=
  loads_renderUsing reads_renderStrRaw (by simp) h

end Json
end Ucser
