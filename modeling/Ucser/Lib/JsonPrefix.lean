import Mathlib.Data.List.TakeWhile
import Ucser.Lib.JsonLoads

/-!
# Reading JSON from a text that goes on

What the reader has read of a text does not depend on how the text goes on, numbers apart,
which end where something else begins.

* `Steady` — a reader that comes to the same result however the text goes on, and the rest is
  the end of the text.
* `scanString_steady`, `scanNumber_steady` — strings, and numbers with something behind them.
* `scanAll_steady` — **values, elements and pairs**, by induction on the fuel.
* `loads_append_eq_none` — **a text that reads as an object, and goes on with more than
  blanks, reads as nothing**; `exists_of_loads_obj`: such a text ends in a brace.
* `loads_of_part` — so a part of a text does not read as **another object** than the text.
-/

namespace Ucser
namespace Json

/-! ## Steady readers -/

/-- A result of a reader that stays, however the text goes on. -/
def Steady {β : Type} (scan : List Char → Option (β × List Char)) (cs : List Char) (b : β)
    (r : List Char) : Prop :=
  r <:+ cs ∧ ∀ x, scan (cs ++ x) = some (b, r ++ x)

theorem exists_of_map_eq_some {β γ : Type} {f : β → γ} {o : Option (β × List Char)} {c : γ}
    {r : List Char} (h : (o.map fun p => (f p.1, p.2)) = some (c, r)) :
    ∃ b, o = some (b, r) ∧ f b = c := by
  obtain ⟨⟨b, r'⟩, hb, heq⟩ := Option.map_eq_some_iff.mp h
  obtain ⟨rfl, rfl⟩ := Prod.mk.inj heq
  exact ⟨b, hb, rfl⟩

theorem Steady.cons {β γ : Type} {scan : List Char → Option (β × List Char)}
    {scan' : List Char → Option (γ × List Char)} {cs r : List Char} {b : β} {f : β → γ}
    (h : Steady scan cs b r) (front : List Char)
    (hscan : ∀ x, scan' (front ++ (cs ++ x)) = (scan (cs ++ x)).map fun p => (f p.1, p.2)) :
    Steady scan' (front ++ cs) (f b) r := by
  refine ⟨h.1.trans (List.suffix_append front cs), fun x => ?_⟩
  rw [List.append_assoc, hscan, h.2]
  rfl

/-! ## Strings -/

theorem scanUnits_escaped {e c : Char} (h : unescape e = some c) (r : List Char) :
    scanUnits ('\\' :: e :: r) = (scanUnits r).map fun p => (c.toNat :: p.1, p.2) := by
  rw [scanUnits.eq_def]
  split
  · simp_all
  · simp_all
  · next heq =>
    obtain ⟨rfl, -⟩ := List.cons.inj (List.cons.inj heq).2
    have hnone : unescape 'u' = none := by decide
    rw [hnone] at h
    exact absurd h (by simp)
  · next heq =>
    obtain ⟨rfl, rfl⟩ := List.cons.inj (List.cons.inj heq).2
    rw [h]
  · next hne heq =>
    obtain ⟨rfl, rfl⟩ := List.cons.inj heq
    exact (hne _ _ rfl rfl).elim

theorem scanUnits_steady {cs : List Char} : ∀ {us : List Nat} {r : List Char},
    scanUnits cs = some (us, r) → Steady scanUnits cs us r := by
  fun_induction scanUnits cs with
  | case1 =>
      intro us r h
      exact absurd h (by simp)
  | case2 r' =>
      intro us r h
      obtain ⟨rfl, rfl⟩ := Prod.mk.inj (Option.some.inj h)
      exact ⟨List.suffix_cons _ _, fun x => rfl⟩
  | case3 a b c d r' u hu ih =>
      intro us r h
      obtain ⟨us', h', rfl⟩ := exists_of_map_eq_some h
      refine (ih h').cons ['\\', 'u', a, b, c, d] fun x => ?_
      show scanUnits ('\\' :: 'u' :: a :: b :: c :: d :: (r' ++ x)) = _
      rw [scanUnits, hu]
  | case4 =>
      intro us r h
      exact absurd h (by simp)
  | case5 e r' hne c hc ih =>
      intro us r h
      obtain ⟨us', h', rfl⟩ := exists_of_map_eq_some h
      exact (ih h').cons ['\\', e] fun x => scanUnits_escaped hc _
  | case6 =>
      intro us r h
      exact absurd h (by simp)
  | case7 =>
      intro us r h
      exact absurd h (by simp)
  | case8 c r' hquote hu hescape hlow ih =>
      intro us r h
      obtain ⟨us', h', rfl⟩ := exists_of_map_eq_some h
      have hback : c ≠ '\\' := by
        rintro rfl
        cases r' with
        | nil => exact absurd h' (by simp [scanUnits])
        | cons e r' => exact hescape e r' rfl rfl
      exact (ih h').cons [c] fun x => scanUnits_plain hquote hback (by omega) _

theorem scanString_steady {cs r : List Char} {s : String} (h : scanString cs = some (s, r)) :
    Steady scanString cs s r := by
  unfold scanString at h
  cases hunits : scanUnits cs with
  | none =>
      rw [hunits] at h
      exact absurd h (by simp)
  | some p =>
      obtain ⟨units, r'⟩ := p
      rw [hunits] at h
      obtain ⟨l, hl, heq⟩ := Option.map_eq_some_iff.mp h
      obtain ⟨rfl, rfl⟩ := Prod.mk.inj heq
      obtain ⟨hsuffix, hall⟩ := scanUnits_steady hunits
      refine ⟨hsuffix, fun x => ?_⟩
      rw [scanString, hall x]
      dsimp only
      rw [hl, Option.map_some]

/-! ## Numbers -/

theorem scanDigits_split (cs : List Char) : (scanDigits cs).1 ++ (scanDigits cs).2 = cs :=
  List.takeWhile_append_dropWhile

theorem scanOptional_split (p : Char → Bool) (cs : List Char) :
    (scanOptional p cs).1 ++ (scanOptional p cs).2 = cs := by
  cases cs with
  | nil => rfl
  | cons c r =>
      rw [scanOptional]
      split_ifs <;> rfl

theorem scanInt_split {cs t r : List Char} (h : scanInt cs = some (t, r)) : t ++ r = cs := by
  cases cs with
  | nil => exact absurd h (by simp [scanInt])
  | cons c cs =>
      rw [scanInt] at h
      split_ifs at h with hzero hdigit
      · obtain ⟨rfl, rfl⟩ := Prod.mk.inj (Option.some.inj h)
        rw [hzero]
        rfl
      · have hsplit := scanDigits_split (c :: cs)
        rwa [Option.some.inj h] at hsplit

theorem scanFraction_split (cs : List Char) : (scanFraction cs).1 ++ (scanFraction cs).2 = cs := by
  cases cs with
  | nil => rfl
  | cons c r =>
      rw [scanFraction]
      split_ifs
      · rw [List.cons_append, scanDigits_split]
      · rfl

theorem scanExponent_split (cs : List Char) : (scanExponent cs).1 ++ (scanExponent cs).2 = cs := by
  cases cs with
  | nil => rfl
  | cons c r =>
      have hsign := scanOptional_split (fun c => c = '-' || c = '+') r
      simp only [scanExponent]
      split_ifs
      · rw [List.cons_append, List.append_assoc, scanDigits_split, hsign]
      · rfl

theorem scanLiteral_split {cs t r : List Char} (h : scanLiteral cs = some (t, r)) : t ++ r = cs := by
  have hminus := scanOptional_split (fun c => c = '-') cs
  simp only [scanLiteral, Option.bind_eq_bind, Option.pure_def] at h
  cases hint : scanInt (scanOptional (fun c => decide (c = '-')) cs).2 with
  | none =>
      rw [hint] at h
      exact absurd h (by simp)
  | some p =>
      rw [hint, Option.bind_some] at h
      obtain ⟨rfl, rfl⟩ := Prod.mk.inj (Option.some.inj h)
      have hrest := scanInt_split hint
      simp only [List.append_assoc, scanExponent_split, scanFraction_split, hrest, hminus]

/-- What stops a number in front of which it was read. -/
def Stopped (r : List Char) : Prop := ∃ c r', r = c :: r' ∧ isNumChar c = false

theorem Stopped.stops {r : List Char} (h : Stopped r) (x : List Char) : Stops (r ++ x) := by
  obtain ⟨c, r', rfl, hc⟩ := h
  exact stops_cons hc

theorem scanNumber_steady {cs r : List Char} {n : Number} (h : scanNumber cs = some (n, r))
    (hr : Stopped r) : Steady scanNumber cs n r := by
  simp only [scanNumber, Option.bind_eq_bind, Option.pure_def] at h
  cases hliteral : scanLiteral cs with
  | none =>
      rw [hliteral] at h
      exact absurd h (by simp)
  | some p =>
      obtain ⟨t, r'⟩ := p
      rw [hliteral, Option.bind_some] at h
      obtain ⟨m, hm, heq⟩ := Option.bind_eq_some_iff.mp h
      obtain ⟨rfl, rfl⟩ := Prod.mk.inj (Option.some.inj heq)
      obtain rfl := scanLiteral_split hliteral
      -- without what stops it, the literal is all there is
      have hstops := hr.stops []
      rw [List.append_nil] at hstops
      rw [scanLiteral_append hstops] at hliteral
      obtain ⟨⟨t', r''⟩, ht, heq⟩ := Option.map_eq_some_iff.mp hliteral
      obtain ⟨rfl, hr''⟩ := Prod.mk.inj heq
      have hnil : r'' = [] := by simpa using hr''
      refine ⟨List.suffix_append _ _, fun x => ?_⟩
      rw [scanNumber, List.append_assoc, scanLiteral_append (hr.stops x), ht, hnil]
      simp only [Option.map_some, Option.bind_eq_bind, Option.bind_some, hm, Option.pure_def,
        List.nil_append]

/-! ## Values -/

theorem skipBlanks_append {cs r : List Char} {c : Char} (h : skipBlanks cs = c :: r)
    (x : List Char) : skipBlanks (cs ++ x) = c :: (r ++ x) := by
  unfold skipBlanks at h ⊢
  rw [List.dropWhile_append, h]
  rfl

theorem skipBlanks_suffix (cs : List Char) : skipBlanks cs <:+ cs := List.dropWhile_suffix _

/-- A separator stops a number. -/
theorem stopped_of_skipBlanks {cs r : List Char} {c : Char} (h : skipBlanks cs = c :: r)
    (hc : isNumChar c = false) : Stopped cs := by
  cases cs with
  | nil => exact absurd h (by simp [skipBlanks])
  | cons d cs =>
      refine ⟨d, cs, rfl, ?_⟩
      by_cases hd : isBlank d = true
      · simp only [isBlank, Bool.or_eq_true, decide_eq_true_eq] at hd
        obtain ((rfl | rfl) | rfl) | rfl := hd <;> rfl
      · rw [skipBlanks_cons (by simpa using hd)] at h
        rw [(List.cons.inj h).1, hc]

/-- A value whose reading may depend on what comes next. -/
def Value.isNum : Value → Bool
  | .num _ => true
  | _ => false

/-- A number begins with one of its characters. -/
theorem exists_head_of_scanNumber {cs r : List Char} {n : Number}
    (h : scanNumber cs = some (n, r)) : ∃ c cs', cs = c :: cs' ∧ isNumChar c = true := by
  simp only [scanNumber, Option.bind_eq_bind, Option.pure_def] at h
  obtain ⟨⟨t, r'⟩, hliteral, h⟩ := Option.bind_eq_some_iff.mp h
  obtain ⟨m, hm, -⟩ := Option.bind_eq_some_iff.mp h
  unfold Number.ofText? at hm
  split_ifs at hm with ht
  obtain ⟨c, t', rfl⟩ := List.exists_cons_of_ne_nil ht.1
  exact ⟨c, t' ++ r', (scanLiteral_split hliteral).symm, ht.2 c List.mem_cons_self⟩

theorem scanAtom_steady {cs r : List Char} {v : Value} (h : scanAtom cs = some (v, r))
    (hr : v.isNum = true → Stopped r) : Steady scanAtom cs v r := by
  unfold scanAtom at h
  split at h
  · obtain ⟨rfl, rfl⟩ := Prod.mk.inj (Option.some.inj h)
    exact ⟨⟨['n', 'u', 'l', 'l'], rfl⟩, fun x => rfl⟩
  · obtain ⟨rfl, rfl⟩ := Prod.mk.inj (Option.some.inj h)
    exact ⟨⟨['t', 'r', 'u', 'e'], rfl⟩, fun x => rfl⟩
  · obtain ⟨rfl, rfl⟩ := Prod.mk.inj (Option.some.inj h)
    exact ⟨⟨['f', 'a', 'l', 's', 'e'], rfl⟩, fun x => rfl⟩
  · obtain ⟨n, hn, rfl⟩ := exists_of_map_eq_some h
    obtain ⟨c, cs, rfl, hc⟩ := exists_head_of_scanNumber hn
    exact (scanNumber_steady hn (hr rfl)).cons [] fun x => scanAtom_of_isNumChar hc _

/-- The values read with so much fuel stay, with more fuel too. -/
def ValueSteady (n : Nat) : Prop :=
  ∀ {cs : List Char} {v : Value} {r : List Char}, scanValue n cs = some (v, r) →
    (v.isNum = true → Stopped r) → ∀ m, n ≤ m → Steady (scanValue m) cs v r

def ElemsSteady (n : Nat) : Prop :=
  ∀ {cs : List Char} {vs : List Value} {r : List Char}, scanElems n cs = some (vs, r) →
    ∀ m, n ≤ m → Steady (scanElems m) cs vs r

def FieldsSteady (n : Nat) : Prop :=
  ∀ {cs : List Char} {kvs : List (String × Value)} {r : List Char},
    scanFields n cs = some (kvs, r) → ∀ m, n ≤ m → Steady (scanFields m) cs kvs r

theorem exists_cons_of_scanElems {n : Nat} {cs r : List Char} {vs : List Value}
    (h : scanElems n cs = some (vs, r)) : ∃ c cs', cs = c :: cs' := by
  cases cs with
  | cons c cs => exact ⟨c, cs, rfl⟩
  | nil =>
      cases n with
      | zero => exact absurd h (by simp [scanElems])
      | succ n => cases n <;> exact absurd h (by simp [scanElems, scanValue])

theorem exists_cons_of_scanFields {n : Nat} {cs r : List Char} {kvs : List (String × Value)}
    (h : scanFields n cs = some (kvs, r)) : ∃ c cs', cs = c :: cs' := by
  cases cs with
  | cons c cs => exact ⟨c, cs, rfl⟩
  | nil => cases n <;> exact absurd h (by simp [scanFields])

theorem exists_cons_of_scanValue {n : Nat} {cs r : List Char} {v : Value}
    (h : scanValue n cs = some (v, r)) : ∃ c cs', cs = c :: cs' := by
  cases cs with
  | cons c cs => exact ⟨c, cs, rfl⟩
  | nil => cases n <;> exact absurd h (by simp [scanValue])

/-- Blanks can be skipped before or after more text is put behind, where something follows
them. -/
theorem scan_skipBlanks_append {β : Type} {scan : List Char → Option (β × List Char)}
    {cs cs' r : List Char} {d : Char} {b : β} (hskip : skipBlanks cs = d :: cs')
    (hall : ∀ x, scan (skipBlanks cs ++ x) = some (b, r ++ x)) (x : List Char) :
    scan (skipBlanks (cs ++ x)) = some (b, r ++ x) := by
  have hx := hall x
  rw [hskip, List.cons_append] at hx
  rw [skipBlanks_append hskip x, hx]

theorem skipBlanks_append_ne {cs cs' : List Char} {d e : Char} (hskip : skipBlanks cs = d :: cs')
    (hne : ∀ r, skipBlanks cs = e :: r → False) (x r : List Char) :
    skipBlanks (cs ++ x) = e :: r → False := by
  rw [skipBlanks_append hskip x]
  intro heq
  exact hne cs' (hskip.trans (congrArg (· :: cs') (List.cons.inj heq).1))

theorem valueSteady_succ {n : Nat} (helems : ElemsSteady n) (hfields : FieldsSteady n) :
    ValueSteady (n + 1) := by
  intro cs v r h hr m hm
  obtain ⟨k, rfl⟩ : ∃ k, m = k + 1 := ⟨m - 1, by omega⟩
  have hk : n ≤ k := by omega
  cases cs with
  | nil => exact absurd h (by simp [scanValue])
  | cons c cs =>
      rw [scanValue] at h
      split_ifs at h with hquote hbrace hbracket
      · obtain ⟨s, hs, rfl⟩ := exists_of_map_eq_some h
        refine (scanString_steady hs).cons [c] fun x => ?_
        rw [List.singleton_append, scanValue, if_pos hquote]
      · subst hbrace
        split at h
        · next r' hskip =>
          obtain ⟨rfl, rfl⟩ := Prod.mk.inj (Option.some.inj h)
          have hsuffix : r' <:+ cs := (hskip ▸ List.suffix_cons _ r').trans (skipBlanks_suffix cs)
          refine ⟨hsuffix.trans (List.suffix_cons _ cs), fun x => ?_⟩
          simp only [List.cons_append, scanValue, hquote, if_false, if_true,
            skipBlanks_append hskip]
        · next hne =>
          obtain ⟨kvs, hkvs, rfl⟩ := exists_of_map_eq_some (f := fun kvs => Value.obj (dictOf kvs)) h
          obtain ⟨d, cs', hskip⟩ := exists_cons_of_scanFields hkvs
          obtain ⟨hsuffix, hall⟩ := hfields hkvs k hk
          refine ⟨(hsuffix.trans (skipBlanks_suffix cs)).trans (List.suffix_cons _ cs),
            fun x => ?_⟩
          rw [List.cons_append, scanValue_object, scan_skipBlanks_append hskip hall, Option.map_some]
          exact skipBlanks_append_ne hskip hne x
      · subst hbracket
        split at h
        · next r' hskip =>
          obtain ⟨rfl, rfl⟩ := Prod.mk.inj (Option.some.inj h)
          have hsuffix : r' <:+ cs := (hskip ▸ List.suffix_cons _ r').trans (skipBlanks_suffix cs)
          refine ⟨hsuffix.trans (List.suffix_cons _ cs), fun x => ?_⟩
          simp only [List.cons_append, scanValue, hquote, hbrace, if_false, if_true,
            skipBlanks_append hskip]
        · next hne =>
          obtain ⟨vs, hvs, rfl⟩ := exists_of_map_eq_some h
          obtain ⟨d, cs', hskip⟩ := exists_cons_of_scanElems hvs
          obtain ⟨hsuffix, hall⟩ := helems hvs k hk
          refine ⟨(hsuffix.trans (skipBlanks_suffix cs)).trans (List.suffix_cons _ cs),
            fun x => ?_⟩
          rw [List.cons_append, scanValue_array, scan_skipBlanks_append hskip hall, Option.map_some]
          exact skipBlanks_append_ne hskip hne x
      · refine (scanAtom_steady h hr).imp_right fun hall x => ?_
        rw [List.cons_append, scanValue, if_neg hquote, if_neg hbrace, if_neg hbracket]
        exact hall x

theorem elemsSteady_succ {n : Nat} (hvalue : ValueSteady n) (helems : ElemsSteady n) :
    ElemsSteady (n + 1) := by
  intro cs vs r h m hm
  obtain ⟨k, rfl⟩ : ∃ k, m = k + 1 := ⟨m - 1, by omega⟩
  have hk : n ≤ k := by omega
  simp only [scanElems, Option.bind_eq_bind] at h
  obtain ⟨⟨v, r₁⟩, hv, h⟩ := Option.bind_eq_some_iff.mp h
  dsimp only at h
  split at h
  · next r₂ hskip =>
    obtain ⟨rfl, rfl⟩ := Prod.mk.inj (Option.some.inj h)
    obtain ⟨hsuffix, hall⟩ :=
      hvalue hv (fun _ => stopped_of_skipBlanks hskip (by decide)) k hk
    have hrest : r₂ <:+ r₁ := (hskip ▸ List.suffix_cons _ r₂).trans (skipBlanks_suffix r₁)
    exact ⟨hrest.trans hsuffix, fun x => scanElems_last (hall x) (skipBlanks_append hskip x)⟩
  · next r₂ hskip =>
    obtain ⟨⟨vs', r₃⟩, hvs, h⟩ := Option.bind_eq_some_iff.mp h
    obtain ⟨rfl, rfl⟩ := Prod.mk.inj (Option.some.inj h)
    obtain ⟨hsuffix, hall⟩ :=
      hvalue hv (fun _ => stopped_of_skipBlanks hskip (by decide)) k hk
    obtain ⟨hsuffix', hall'⟩ := helems hvs k hk
    have hrest : r₂ <:+ r₁ := (hskip ▸ List.suffix_cons _ r₂).trans (skipBlanks_suffix r₁)
    obtain ⟨c, cs', hnext⟩ := exists_cons_of_scanElems hvs
    refine ⟨((hsuffix'.trans (skipBlanks_suffix r₂)).trans hrest).trans hsuffix, fun x => ?_⟩
    refine scanElems_more (hall x) (skipBlanks_append hskip x) ?_
    have hx := hall' x
    rw [hnext, List.cons_append] at hx
    rw [skipBlanks_append hnext, hx]
  · exact absurd h (by simp)

/-- What the pairs that were read begin with: a key and its value, and then either the closing
brace or further pairs. -/
theorem scanFields_cases {n : Nat} {cs r : List Char} {kvs : List (String × Value)}
    (h : scanFields (n + 1) cs = some (kvs, r)) :
    ∃ cs' key r₁ r₂ v r₃, cs = '"' :: cs' ∧ scanString cs' = some (key, r₁) ∧
      skipBlanks r₁ = ':' :: r₂ ∧ scanValue n (skipBlanks r₂) = some (v, r₃) ∧ Stopped r₃ ∧
      (skipBlanks r₃ = '}' :: r ∧ kvs = [(key, v)] ∨
        ∃ r₄ kvs', skipBlanks r₃ = ',' :: r₄ ∧ scanFields n (skipBlanks r₄) = some (kvs', r) ∧
          kvs = (key, v) :: kvs') := by
  obtain ⟨c, cs', rfl⟩ := exists_cons_of_scanFields h
  by_cases hquote : c = '"'
  · subst hquote
    simp only [scanFields, Option.bind_eq_bind] at h
    obtain ⟨⟨key, r₁⟩, hkey, h⟩ := Option.bind_eq_some_iff.mp h
    dsimp only at h
    split at h
    · next r₂ hcolon =>
      obtain ⟨⟨v, r₃⟩, hv, h⟩ := Option.bind_eq_some_iff.mp h
      refine ⟨cs', key, r₁, r₂, v, r₃, rfl, hkey, hcolon, hv, ?_⟩
      dsimp only at h
      split at h
      · next r₄ hskip =>
        obtain ⟨rfl, rfl⟩ := Prod.mk.inj (Option.some.inj h)
        exact ⟨stopped_of_skipBlanks hskip (by decide), Or.inl ⟨hskip, rfl⟩⟩
      · next r₄ hskip =>
        obtain ⟨⟨kvs', r₅⟩, hkvs, h⟩ := Option.bind_eq_some_iff.mp h
        obtain ⟨rfl, rfl⟩ := Prod.mk.inj (Option.some.inj h)
        exact ⟨stopped_of_skipBlanks hskip (by decide), Or.inr ⟨r₄, kvs', hskip, hkvs, rfl⟩⟩
      · exact absurd h (by simp)
    · exact absurd h (by simp)
  · rw [scanFields] at h
    · exact absurd h (by simp)
    · intro r' heq
      exact hquote (List.cons.inj heq).1

theorem suffix_of_skipBlanks {cs r : List Char} {c : Char} (h : skipBlanks cs = c :: r) :
    r <:+ cs :=
  (h ▸ List.suffix_cons c r).trans (skipBlanks_suffix cs)

theorem fieldsSteady_succ {n : Nat} (hvalue : ValueSteady n) (hfields : FieldsSteady n) :
    FieldsSteady (n + 1) := by
  intro cs kvs r h m hm
  obtain ⟨k, rfl⟩ : ∃ k, m = k + 1 := ⟨m - 1, by omega⟩
  have hk : n ≤ k := by omega
  obtain ⟨cs', key, r₁, r₂, v, r₃, rfl, hkey, hcolon, hv, hstopped, hend⟩ :=
    scanFields_cases h
  obtain ⟨hsuffix₁, hall₁⟩ := scanString_steady hkey
  have hsuffix₂ : skipBlanks r₂ <:+ '"' :: cs' :=
    ((skipBlanks_suffix r₂).trans (suffix_of_skipBlanks hcolon)).trans
      (hsuffix₁.trans (List.suffix_cons _ cs'))
  obtain ⟨d, ds, hnext⟩ := exists_cons_of_scanValue hv
  obtain ⟨hsuffix₃, hall₃⟩ := hvalue hv (fun _ => hstopped) k hk
  have hvalue' : ∀ x, scanValue k (skipBlanks (r₂ ++ x)) = some (v, r₃ ++ x) := by
    intro x
    have hx := hall₃ x
    rw [hnext, List.cons_append] at hx
    rw [skipBlanks_append hnext, hx]
  obtain ⟨hskip, rfl⟩ | ⟨r₄, kvs', hskip, hkvs, rfl⟩ := hend
  · refine ⟨((suffix_of_skipBlanks hskip).trans hsuffix₃).trans hsuffix₂, fun x => ?_⟩
    exact scanFields_last (hall₁ x) (skipBlanks_append hcolon x) (hvalue' x)
      (skipBlanks_append hskip x)
  · obtain ⟨hsuffix₅, hall₅⟩ := hfields hkvs k hk
    obtain ⟨d', ds', hnext'⟩ := exists_cons_of_scanFields hkvs
    refine ⟨(((hsuffix₅.trans (skipBlanks_suffix r₄)).trans (suffix_of_skipBlanks hskip)).trans
      hsuffix₃).trans hsuffix₂, fun x => ?_⟩
    refine scanFields_more (hall₁ x) (skipBlanks_append hcolon x) (hvalue' x)
      (skipBlanks_append hskip x) ?_
    have hx := hall₅ x
    rw [hnext', List.cons_append] at hx
    rw [skipBlanks_append hnext', hx]

/-- **What was read of a value, of elements and of pairs stays**, however the text goes on. -/
theorem scanAll_steady (n : Nat) : ValueSteady n ∧ ElemsSteady n ∧ FieldsSteady n := by
  induction n with
  | zero =>
      refine ⟨?_, ?_, ?_⟩
      · intro cs v r h
        exact absurd h (by simp [scanValue])
      · intro cs vs r h
        exact absurd h (by simp [scanElems])
      · intro cs kvs r h
        exact absurd h (by simp [scanFields])
  | succ n ih =>
      obtain ⟨hvalue, helems, hfields⟩ := ih
      exact ⟨valueSteady_succ helems hfields, elemsSteady_succ hvalue helems,
        fieldsSteady_succ hvalue hfields⟩

/-! ## Objects -/

/-- The pairs of an object end in a brace. -/
theorem brace_suffix_of_scanFields : ∀ {n : Nat} {cs r : List Char}
    {kvs : List (String × Value)}, scanFields n cs = some (kvs, r) → '}' :: r <:+ cs := by
  intro n
  induction n with
  | zero =>
      intro cs r kvs h
      exact absurd h (by simp [scanFields])
  | succ n ih =>
      intro cs r kvs h
      obtain ⟨cs', key, r₁, r₂, v, r₃, rfl, hkey, hcolon, hv, hstopped, hend⟩ :=
        scanFields_cases h
      have hsuffix : r₃ <:+ '"' :: cs' :=
        ((((scanAll_steady n).1 hv (fun _ => hstopped) n le_rfl).1.trans
          (skipBlanks_suffix r₂)).trans (suffix_of_skipBlanks hcolon)).trans
            ((scanString_steady hkey).1.trans (List.suffix_cons _ cs'))
      obtain ⟨hskip, -⟩ | ⟨r₄, kvs', hskip, hkvs, -⟩ := hend
      · exact (hskip ▸ skipBlanks_suffix r₃).trans hsuffix
      · exact (((ih hkvs).trans (skipBlanks_suffix r₄)).trans (suffix_of_skipBlanks hskip)).trans
          hsuffix

theorem brace_suffix_of_scanValue {n : Nat} {cs r : List Char} {kvs : List (String × Value)}
    (h : scanValue n cs = some (.obj kvs, r)) : '}' :: r <:+ cs := by
  obtain ⟨c, cs, rfl⟩ := exists_cons_of_scanValue h
  cases n with
  | zero => exact absurd h (by simp [scanValue])
  | succ n =>
      rw [scanValue] at h
      split_ifs at h
      · obtain ⟨s, -, heq⟩ := exists_of_map_eq_some h
        exact absurd heq (by simp)
      · split at h
        · next r' hskip =>
          obtain ⟨-, rfl⟩ := Prod.mk.inj (Option.some.inj h)
          exact (hskip ▸ skipBlanks_suffix cs).trans (List.suffix_cons c cs)
        · obtain ⟨kvs', hkvs, -⟩ :=
            exists_of_map_eq_some (f := fun kvs => Value.obj (dictOf kvs)) h
          exact ((brace_suffix_of_scanFields hkvs).trans (skipBlanks_suffix cs)).trans
            (List.suffix_cons c cs)
      · split at h
        · exact absurd h (by simp)
        · obtain ⟨vs, -, heq⟩ := exists_of_map_eq_some h
          exact absurd heq (by simp)
      · unfold scanAtom at h
        split at h
        · exact absurd h (by simp)
        · exact absurd h (by simp)
        · exact absurd h (by simp)
        · obtain ⟨m, -, heq⟩ := exists_of_map_eq_some h
          exact absurd heq (by simp)

/-- What `loads` has read of a text: a value, and blanks behind it. -/
theorem loads_eq_some_iff {s : String} {v : Value} :
    loads s = some v ↔ ∃ r, scanValue (s.toList.length + 1) (skipBlanks s.toList) = some (v, r) ∧
      skipBlanks r = [] := by
  unfold loads
  cases hscan : scanValue (s.toList.length + 1) (skipBlanks s.toList) with
  | none => simp
  | some p =>
      obtain ⟨v', r⟩ := p
      by_cases hr : skipBlanks r = []
      · simp [hr]
      · simp [hr]

/-- **A text that reads as an object, and goes on with more than blanks, reads as nothing.** -/
theorem loads_append_eq_none {s t : String} {kvs : List (String × Value)}
    (h : loads s = some (.obj kvs)) (ht : skipBlanks t.toList ≠ []) : loads (s ++ t) = none := by
  obtain ⟨r, hscan, hr⟩ := loads_eq_some_iff.mp h
  obtain ⟨c, cs, hnext⟩ := exists_cons_of_scanValue hscan
  have hfuel : s.toList.length + 1 ≤ (s ++ t).toList.length + 1 := by simp
  have hsteady := ((scanAll_steady _).1 hscan (by simp [Value.isNum]) _ hfuel).2 t.toList
  have hskip := skipBlanks_append hnext t.toList
  rw [hnext, List.cons_append] at hsteady
  have hblank : ∀ c ∈ r, isBlank c = true := List.dropWhile_eq_nil_iff.mp hr
  have hrest : ¬ skipBlanks (r ++ t.toList) = [] := by
    rwa [skipBlanks_pad hblank]
  rw [loads, String.toList_append, hskip]
  rw [String.toList_append] at hsteady
  rw [hsteady]
  exact if_neg hrest

/-- **A text that reads as an object, and goes on with blanks, reads the same.** -/
theorem loads_append_blank {s t : String} {kvs : List (String × Value)}
    (h : loads s = some (.obj kvs)) (ht : skipBlanks t.toList = []) :
    loads (s ++ t) = some (.obj kvs) := by
  obtain ⟨r, hscan, hr⟩ := loads_eq_some_iff.mp h
  obtain ⟨c, cs, hnext⟩ := exists_cons_of_scanValue hscan
  have hfuel : s.toList.length + 1 ≤ (s ++ t).toList.length + 1 := by simp
  have hsteady := ((scanAll_steady _).1 hscan (by simp [Value.isNum]) _ hfuel).2 t.toList
  have hblank : ∀ c ∈ r, isBlank c = true := List.dropWhile_eq_nil_iff.mp hr
  refine loads_eq_some_iff.mpr ⟨r ++ t.toList, ?_, ?_⟩
  · rw [String.toList_append, skipBlanks_append hnext t.toList, ← List.cons_append, ← hnext]
    rwa [String.toList_append] at hsteady
  · rw [skipBlanks_pad hblank, ht]

/-- **A part of a text reads as the object that the text reads as**, or as no object. -/
theorem loads_of_part {s t : String} {kvs : List (String × Value)} {v : Value}
    (h : loads s = some (.obj kvs)) (hwhole : loads (s ++ t) = some v) : v = .obj kvs := by
  by_cases ht : skipBlanks t.toList = []
  · rw [loads_append_blank h ht] at hwhole
    exact (Option.some.inj hwhole).symm
  · rw [loads_append_eq_none h ht] at hwhole
    cases hwhole

/-- A text that reads as an object ends in a brace, blanks apart. -/
theorem exists_brace_of_loads {s : String} {kvs : List (String × Value)}
    (h : loads s = some (.obj kvs)) :
    ∃ front blanks, s.toList = front ++ '}' :: blanks ∧ ∀ c ∈ blanks, isBlank c = true := by
  obtain ⟨r, hscan, hr⟩ := loads_eq_some_iff.mp h
  obtain ⟨front, hfront⟩ := (brace_suffix_of_scanValue hscan).trans (skipBlanks_suffix _)
  exact ⟨front, r, hfront.symm, List.dropWhile_eq_nil_iff.mp hr⟩

end Json
end Ucser
