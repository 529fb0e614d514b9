import Mathlib.Data.List.Nodup

/-!
# Dictionaries that keep their insertion order

A Python `dict`: its pairs in the order their keys were first inserted, no key twice.

* `Dict` — the pairs, with the proof that no key occurs twice (an association list of
  Mathlib puts a new key in front; here it goes to the end).
* `insert`, `modify`, `erase` — assigning a key, updating the value of one, and deleting it.
* `get?_insert`, `get?_modify`, `get?_erase` — **what a key is mapped to afterwards**;
  `keys_modify` — an update keeps the keys and their order; `modify_of_notMem` — it changes
  nothing where there is nothing.
* `mem_items_iff` — the pairs are exactly what `get?` finds.
* `ofItems` — a dictionary from its pairs; `ofItems_items` — its own pairs make it.
-/

namespace Ucser

/-- An insertion-ordered dictionary. -/
structure Dict (κ α : Type) where
  items : List (κ × α)
  nodup : (items.map Prod.fst).Nodup

namespace Dict

variable {κ α : Type}

/-- `dict.keys()`. -/
def keys (d : Dict κ α) : List κ := d.items.map Prod.fst

/-- `dict.values()`. -/
def values (d : Dict κ α) : List α := d.items.map Prod.snd

/-- `{}`. -/
def empty : Dict κ α := ⟨[], List.nodup_nil⟩

/-! ## Looking up -/

variable [DecidableEq κ]

/-- `dict.get(key)`. -/
def get? (d : Dict κ α) (key : κ) : Option α := d.items.lookup key

theorem lookup_cons_eq (key k : κ) (v : α) (rest : List (κ × α)) :
    ((k, v) :: rest).lookup key = if key = k then some v else rest.lookup key := by
  rw [List.lookup_cons]
  by_cases hk : key = k
  · rw [if_pos hk, beq_iff_eq.mpr hk]
  · rw [if_neg hk, beq_eq_false_iff_ne.mpr hk]

theorem mem_of_lookup {key : κ} {v : α} {items : List (κ × α)}
    (h : items.lookup key = some v) : (key, v) ∈ items := by
  obtain ⟨before, after, rfl, _⟩ := List.lookup_eq_some_iff.mp h
  exact List.mem_append_right _ List.mem_cons_self

theorem lookup_of_mem {key : κ} {v : α} {items : List (κ × α)}
    (hnodup : (items.map Prod.fst).Nodup) (h : (key, v) ∈ items) :
    items.lookup key = some v := by
  induction items with
  | nil => exact absurd h List.not_mem_nil
  | cons p rest ih =>
      obtain ⟨k, w⟩ := p
      rw [List.map_cons, List.nodup_cons] at hnodup
      rw [lookup_cons_eq]
      rcases List.mem_cons.mp h with heq | hrest
      · obtain ⟨rfl, rfl⟩ := Prod.mk.inj heq
        rw [if_pos rfl]
      · have hne : key ≠ k := by
          rintro rfl
          exact hnodup.1 (List.mem_map.mpr ⟨(key, v), hrest, rfl⟩)
        rw [if_neg hne]
        exact ih hnodup.2 hrest

/-- The pairs are exactly what `get?` finds. -/
theorem mem_items_iff {d : Dict κ α} {key : κ} {v : α} :
    (key, v) ∈ d.items ↔ d.get? key = some v :=
  ⟨lookup_of_mem d.nodup, mem_of_lookup⟩

theorem mem_keys_iff {d : Dict κ α} {key : κ} : key ∈ d.keys ↔ ∃ v, d.get? key = some v := by
  rw [keys, List.mem_map]
  constructor
  · rintro ⟨⟨k, v⟩, hmem, rfl⟩
    exact ⟨v, mem_items_iff.mp hmem⟩
  · rintro ⟨v, hv⟩
    exact ⟨(key, v), mem_items_iff.mpr hv, rfl⟩

theorem mem_keys_of_get? {d : Dict κ α} {key : κ} {v : α} (h : d.get? key = some v) :
    key ∈ d.keys :=
  mem_keys_iff.mpr ⟨v, h⟩

theorem get?_eq_none_iff {d : Dict κ α} {key : κ} : d.get? key = none ↔ key ∉ d.keys := by
  rw [mem_keys_iff, ← Option.not_isSome_iff_eq_none, Option.isSome_iff_exists]

instance (d : Dict κ α) (key : κ) : Decidable (key ∈ d.keys) :=
  inferInstanceAs (Decidable (key ∈ d.items.map Prod.fst))

theorem mem_values_iff {d : Dict κ α} {v : α} : v ∈ d.values ↔ ∃ key, d.get? key = some v := by
  rw [values, List.mem_map]
  constructor
  · rintro ⟨⟨k, w⟩, hmem, rfl⟩
    exact ⟨k, mem_items_iff.mp hmem⟩
  · rintro ⟨key, hv⟩
    exact ⟨(key, v), mem_items_iff.mpr hv, rfl⟩

/-! ## Updating -/

/-- `dict[key] = f(dict[key])`; nothing happens to other keys. -/
def modify (d : Dict κ α) (key : κ) (f : α → α) : Dict κ α where
  items := d.items.map (fun p => if p.1 = key then (p.1, f p.2) else p)
  nodup := by
    have hfst : (Prod.fst ∘ fun p : κ × α => if p.1 = key then (p.1, f p.2) else p) = Prod.fst := by
      funext p
      by_cases hp : p.1 = key
      · simp [hp]
      · simp [hp]
    rw [List.map_map, hfst]
    exact d.nodup

@[simp] theorem keys_modify (d : Dict κ α) (key : κ) (f : α → α) :
    (d.modify key f).keys = d.keys := by
  unfold keys modify
  rw [List.map_map]
  refine List.map_congr_left fun p _ => ?_
  by_cases hp : p.1 = key
  · simp [hp]
  · simp [hp]

/-- Updating the value of a key that is not there changes nothing. -/
theorem modify_of_notMem {d : Dict κ α} {key : κ} (h : key ∉ d.keys) (f : α → α) :
    d.modify key f = d := by
  have hitems : (d.modify key f).items = d.items := by
    refine (List.map_congr_left fun p hp => if_neg ?_).trans (List.map_id _)
    rintro rfl
    exact h (List.mem_map_of_mem hp)
  cases d
  exact (mk.injEq _ _ _ _).mpr hitems

/-- What a key is mapped to after an update. -/
theorem get?_modify (d : Dict κ α) (key key' : κ) (f : α → α) :
    (d.modify key f).get? key' = if key' = key then (d.get? key').map f else d.get? key' := by
  unfold get? modify
  dsimp only
  induction d.items with
  | nil => simp
  | cons p rest ih =>
      obtain ⟨k, v⟩ := p
      rw [List.map_cons, lookup_cons_eq]
      by_cases hk : k = key
      · subst hk
        rw [if_pos rfl, lookup_cons_eq, ih]
        by_cases hkey : key' = k
        · simp [hkey]
        · rw [if_neg hkey, if_neg hkey, if_neg hkey, if_neg hkey]
      · rw [if_neg hk, lookup_cons_eq, ih]
        by_cases hkey : key' = k
        · subst hkey
          rw [if_pos rfl, if_neg hk, if_pos rfl]
        · rw [if_neg hkey, if_neg hkey]

/-- `dict[key] = v`. -/
def insert (d : Dict κ α) (key : κ) (v : α) : Dict κ α :=
  if h : key ∈ d.keys then d.modify key (fun _ => v)
  else
    { items := d.items ++ [(key, v)]
      nodup := by
        rw [List.map_append]
        exact List.nodup_append.mpr ⟨d.nodup, List.nodup_singleton _, by
          intro a ha b hb
          obtain rfl : b = key := by simpa using hb
          rintro rfl
          exact h ha⟩ }

/-- What a key is mapped to after an assignment. -/
theorem get?_insert (d : Dict κ α) (key key' : κ) (v : α) :
    (d.insert key v).get? key' = if key' = key then some v else d.get? key' := by
  unfold insert
  by_cases h : key ∈ d.keys
  · rw [dif_pos h, get?_modify]
    by_cases hkey : key' = key
    · obtain ⟨w, hw⟩ := mem_keys_iff.mp h
      rw [if_pos hkey, if_pos hkey, hkey, hw, Option.map_some]
    · rw [if_neg hkey, if_neg hkey]
  · rw [dif_neg h]
    have hnone : d.items.lookup key = none := get?_eq_none_iff.mpr h
    unfold get?
    rw [List.lookup_append, lookup_cons_eq]
    by_cases hkey : key' = key
    · rw [if_pos hkey, if_pos hkey, hkey, hnone]
      rfl
    · rw [if_neg hkey, if_neg hkey]
      simp

theorem mem_keys_insert {d : Dict κ α} {key key' : κ} {v : α} :
    key' ∈ (d.insert key v).keys ↔ key' = key ∨ key' ∈ d.keys := by
  rw [mem_keys_iff, get?_insert, mem_keys_iff]
  by_cases hkey : key' = key
  · simp [hkey]
  · simp [hkey]

/-- Pairs with new and distinct keys go to the end as they stand. -/
theorem foldl_insert_of_nodup {pairs : List (κ × α)} {d : Dict κ α}
    (hnodup : (pairs.map Prod.fst).Nodup) (hfresh : ∀ p ∈ pairs, p.1 ∉ d.keys) :
    (pairs.foldl (fun (d : Dict κ α) p => d.insert p.1 p.2) d).items = d.items ++ pairs := by
  induction pairs generalizing d with
  | nil => simp
  | cons p rest ih =>
      obtain ⟨hp, hrest⟩ := List.nodup_cons.mp hnodup
      have hinsert : (d.insert p.1 p.2).items = d.items ++ [p] := by
        unfold insert
        rw [dif_neg (hfresh p List.mem_cons_self)]
      rw [List.foldl_cons, ih hrest, hinsert, List.append_assoc, List.singleton_append]
      intro q hq hmem
      rcases mem_keys_insert.mp hmem with heq | hmem
      · exact hp (heq ▸ List.mem_map_of_mem hq)
      · exact hfresh q (List.mem_cons_of_mem _ hq) hmem

/-- The dictionary that assigning these pairs, one after the other, makes. -/
def ofItems (pairs : List (κ × α)) : Dict κ α := pairs.foldl (fun d p => d.insert p.1 p.2) empty

@[simp] theorem ofItems_items (d : Dict κ α) : ofItems d.items = d := by
  have hitems : (ofItems d.items).items = d.items :=
    foldl_insert_of_nodup d.nodup (by simp [keys, empty])
  cases d
  exact (mk.injEq _ _ _ _).mpr hitems

/-- What a key is mapped to, with other names for the keys and other values for the values. -/
theorem get?_items_map {κ' β : Type} [DecidableEq κ'] {g : κ → κ'} (hg : Function.Injective g)
    (f : α → β) {d : Dict κ α} {d' : Dict κ' β} (h : d'.items = d.items.map (Prod.map g f))
    (key : κ) : d'.get? (g key) = (d.get? key).map f := by
  cases hkey : d.get? key with
  | some v =>
      rw [Option.map_some, ← mem_items_iff, h]
      exact List.mem_map_of_mem (mem_items_iff.mpr hkey)
  | none =>
      rw [Option.map_none, get?_eq_none_iff, keys, h, List.map_map]
      intro hmem
      obtain ⟨p, hp, heq⟩ := List.mem_map.mp hmem
      exact get?_eq_none_iff.mp hkey (List.mem_map.mpr ⟨p, hp, hg heq⟩)

/-- Assigning with other names for the keys and other values for the values. -/
theorem items_insert_map {κ' β : Type} [DecidableEq κ'] {g : κ → κ'} (hg : Function.Injective g)
    (f : α → β) {d : Dict κ α} {d' : Dict κ' β} (h : d'.items = d.items.map (Prod.map g f))
    (key : κ) (v : α) :
    (d'.insert (g key) (f v)).items = (d.insert key v).items.map (Prod.map g f) := by
  have hkeys : g key ∈ d'.keys ↔ key ∈ d.keys := by
    have hmap : d'.keys = d.keys.map g := by
      rw [keys, keys, h, List.map_map, List.map_map]
      rfl
    rw [hmap, List.mem_map_of_injective hg]
  by_cases hmem : key ∈ d.keys
  · rw [insert, insert, dif_pos hmem, dif_pos (hkeys.mpr hmem)]
    show d'.items.map _ = (d.items.map _).map _
    rw [h, List.map_map, List.map_map]
    refine List.map_congr_left fun p _ => ?_
    by_cases hp : p.1 = key
    · simp [hp]
    · simp [hp, hg.ne hp]
  · rw [insert, insert, dif_neg hmem, dif_neg (mt hkeys.mp hmem)]
    show d'.items ++ _ = (d.items ++ _).map _
    rw [h, List.map_append]
    rfl

/-- `del dict[key]`; nothing happens when the key is not there. -/
def erase (d : Dict κ α) (key : κ) : Dict κ α where
  items := d.items.filter (fun p => p.1 ≠ key)
  nodup := d.nodup.sublist (List.filter_sublist.map Prod.fst)

/-- What a key is mapped to after a deletion. -/
theorem get?_erase (d : Dict κ α) (key key' : κ) :
    (d.erase key).get? key' = if key' = key then none else d.get? key' := by
  unfold get? erase
  dsimp only
  induction d.items with
  | nil => simp
  | cons p rest ih =>
      obtain ⟨k, v⟩ := p
      by_cases hk : k = key
      · rw [List.filter_cons_of_neg (by simp [hk]), ih, lookup_cons_eq, hk]
        by_cases hkey : key' = key
        · rw [if_pos hkey, if_pos hkey]
        · rw [if_neg hkey, if_neg hkey, if_neg hkey]
      · rw [List.filter_cons_of_pos (by simp [hk]), lookup_cons_eq, ih, lookup_cons_eq]
        by_cases hkey : key' = k
        · subst hkey
          rw [if_pos rfl, if_neg hk, if_pos rfl]
        · rw [if_neg hkey, if_neg hkey]

theorem mem_keys_erase {d : Dict κ α} {key key' : κ} :
    key' ∈ (d.erase key).keys ↔ key' ≠ key ∧ key' ∈ d.keys := by
  rw [mem_keys_iff, get?_erase, mem_keys_iff]
  by_cases hkey : key' = key
  · simp [hkey]
  · simp [hkey]

end Dict
end Ucser
