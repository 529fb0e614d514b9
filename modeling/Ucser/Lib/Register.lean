import Mathlib.Data.List.Nodup

/-!
# Registers with writes in flight

A write to a register is started and takes effect some time later; writes of different
owners may overlap and take effect in any order, each replacing what is stored.

* `Register`, `start`, `land`, `busy` — a register, the two halves of a write, and
  whether a write of an owner is yet to take effect.
* `Newest` — the invariant: the write started last carries this value.
* `Newest.stored` — **if it also took effect last, its value is stored**.
* `InTurn` — no write has been overtaken by a later one; `InTurn.landed_eq` — then the
  write started last took effect last as soon as none is in flight.
-/

namespace Ucser

/-- A write that is yet to take effect. -/
structure Register.Pending (ι α : Type) where
  number : Nat
  owner : ι
  value : α

/-- A register: what is stored, the writes in flight, oldest first, how many writes have
been started, and the number of the one that took effect last, from 1. -/
structure Register (ι α : Type) where
  stored : Option α := none
  inFlight : List (Register.Pending ι α) := []
  started : Nat := 0
  landed : Nat := 0

namespace Register

variable {ι α : Type}

/-- A write is started. -/
def start (r : Register ι α) (owner : ι) (value : α) : Register ι α :=
  { r with
    inFlight := r.inFlight ++ [⟨r.started + 1, owner, value⟩]
    started := r.started + 1 }

section Land

variable [DecidableEq ι]

/-- A write of the owner is yet to take effect. -/
def busy (r : Register ι α) (owner : ι) : Bool := r.inFlight.any (fun w => w.owner = owner)

/-- The write of the owner takes effect; `none` when there is none. -/
def land (r : Register ι α) (owner : ι) : Option (Register ι α) :=
  (r.inFlight.find? (fun w => w.owner = owner)).map fun w =>
    { r with
      stored := some w.value
      inFlight := r.inFlight.filter (fun w => w.owner ≠ owner)
      landed := w.number }

variable {r r' : Register ι α} {owner : ι}

theorem land_cases (h : r.land owner = some r') :
    ∃ w ∈ r.inFlight, w.owner = owner ∧ r' = { r with
      stored := some w.value
      inFlight := r.inFlight.filter (fun w => w.owner ≠ owner)
      landed := w.number } := by
  obtain ⟨w, hw, rfl⟩ := Option.map_eq_some_iff.mp h
  exact ⟨w, List.mem_of_find?_eq_some hw, by simpa using List.find?_some hw, rfl⟩

theorem busy_eq_false_iff : r.busy owner = false ↔ ∀ w ∈ r.inFlight, w.owner ≠ owner := by
  simp [busy]

end Land

variable {r r' : Register ι α} {owner : ι} {v : α}

/-! ## The write started last -/

/-- The value of the write started last, with what its number is compared to. -/
structure Newest (r : Register ι α) (v : α) : Prop where
  le : ∀ w ∈ r.inFlight, w.number ≤ r.started
  landed_le : r.landed ≤ r.started
  value : ∀ w ∈ r.inFlight, w.number = r.started → w.value = v
  stored : r.landed = r.started → r.stored = some v

theorem newest_start (hle : ∀ w ∈ r.inFlight, w.number ≤ r.started)
    (hlanded : r.landed ≤ r.started) (owner : ι) (v : α) : (r.start owner v).Newest v where
  le := by
    intro w hw
    rcases List.mem_append.mp hw with hw | hw
    · exact Nat.le_succ_of_le (hle w hw)
    · rw [List.mem_singleton.mp hw]
      exact Nat.le_refl _
  landed_le := Nat.le_succ_of_le hlanded
  value := by
    intro w hw hnumber
    rcases List.mem_append.mp hw with hw | hw
    · have h := hle w hw
      have h' : w.number = r.started + 1 := hnumber
      omega
    · rw [List.mem_singleton.mp hw]
  stored := by
    intro h
    have h' : r.landed = r.started + 1 := h
    omega

theorem Newest.start {v' : α} (h : r.Newest v') (owner : ι) (v : α) : (r.start owner v).Newest v :=
  newest_start h.le h.landed_le owner v

theorem Newest.land [DecidableEq ι] (h : r.Newest v) (hland : r.land owner = some r') :
    r'.Newest v := by
  obtain ⟨w, hw, _, rfl⟩ := land_cases hland
  have hkept : ∀ w' ∈ r.inFlight.filter (fun w => w.owner ≠ owner), w' ∈ r.inFlight :=
    fun w' hw' => List.mem_of_mem_filter hw'
  refine ⟨fun w' hw' => h.le w' (hkept w' hw'), h.le w hw,
    fun w' hw' => h.value w' (hkept w' hw'), fun hnumber => ?_⟩
  exact congrArg some (h.value w hw hnumber)

/-! ## Writes that take effect in turn -/

/-- The writes in flight are exactly those started after the one that took effect last. -/
structure InTurn (r : Register ι α) : Prop where
  landed_le : r.landed ≤ r.started
  numbers : r.inFlight.map Pending.number = List.range' (r.landed + 1) (r.started - r.landed)
  owners : (r.inFlight.map Pending.owner).Nodup

theorem InTurn.landed_eq (h : r.InTurn) (hquiet : r.inFlight = []) : r.landed = r.started := by
  have hnumbers := h.numbers
  have hle := h.landed_le
  rw [hquiet, List.map_nil, eq_comm, List.range'_eq_nil_iff] at hnumbers
  omega

variable [DecidableEq ι]

theorem InTurn.start (h : r.InTurn) (hbusy : r.busy owner = false) : (r.start owner v).InTurn where
  landed_le := Nat.le_succ_of_le h.landed_le
  numbers := by
    have hle := h.landed_le
    show (r.inFlight ++ [_]).map Pending.number =
      List.range' (r.landed + 1) (r.started + 1 - r.landed)
    rw [List.map_append, h.numbers, show r.started + 1 - r.landed = r.started - r.landed + 1 by omega,
      List.range'_concat]
    simp
    omega
  owners := by
    show ((r.inFlight ++ [_]).map Pending.owner).Nodup
    rw [List.map_append, List.map_singleton, ← List.concat_eq_append]
    refine h.owners.concat fun hmem => ?_
    obtain ⟨w, hw, heq⟩ := List.mem_map.mp hmem
    exact busy_eq_false_iff.mp hbusy w hw heq

/-- The oldest write takes effect. -/
theorem InTurn.land (h : r.InTurn) (holdest : (r.inFlight.head?.map Pending.owner) = some owner)
    (hland : r.land owner = some r') : r'.InTurn := by
  obtain ⟨w, rest, hflight⟩ : ∃ w rest, r.inFlight = w :: rest := by
    cases hflight : r.inFlight with
    | nil =>
        rw [hflight] at holdest
        exact absurd holdest (by simp)
    | cons w rest => exact ⟨w, rest, rfl⟩
  obtain ⟨hle, hnumbers, howners⟩ := h
  rw [hflight] at holdest hnumbers howners
  obtain rfl : w.owner = owner := by simpa using holdest
  have hrest : rest.filter (fun w' => w'.owner ≠ w.owner) = rest := by
    refine List.filter_eq_self.mpr fun w' hw' => ?_
    have hnot := (List.nodup_cons.mp howners).1
    have hne : w'.owner ≠ w.owner := by
      intro heq
      exact hnot (heq ▸ List.mem_map_of_mem hw')
    simpa using hne
  have hr' : r' = { r with stored := some w.value, inFlight := rest, landed := w.number } := by
    unfold Register.land at hland
    rw [hflight] at hland
    simp only [List.find?_cons, decide_true, Option.map_some, Option.some.injEq] at hland
    rw [← hland, List.filter_cons_of_neg (by simp), hrest]
  obtain ⟨n, hn⟩ : ∃ n, r.started - r.landed = n + 1 := by
    refine ⟨r.started - r.landed - 1, ?_⟩
    have hlength := congrArg List.length hnumbers
    simp only [List.map_cons, List.length_cons, List.length_range'] at hlength
    omega
  rw [hn, List.map_cons, List.range'_succ, List.cons.injEq] at hnumbers
  obtain ⟨hnumber, htail⟩ := hnumbers
  rw [hr']
  refine ⟨?_, ?_, (List.nodup_cons.mp howners).2⟩
  · show w.number ≤ r.started
    omega
  · show rest.map Pending.number = List.range' (w.number + 1) (r.started - w.number)
    rw [htail, hnumber]
    congr 1
    omega

end Register
end Ucser
