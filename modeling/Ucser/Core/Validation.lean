import Ucser.Core.Types
import Ucser.Lib.Json

/-!
# Looking into JSON, and checking it

What the code does with a value that `json.loads` gave it: it looks a key up, and it hands
fields to pydantic, which checks their types.

* `getItem` — `value[key]`, which raises when there is no such thing.
* `validateStr`, `validateList`, `validateOptional`, `validateDict` — fields of the types
  `str`, `List[T]`, `Optional[T]` and `Dict[str, Any]`.
* `mapM_eq_ok` — a list is accepted when each of its elements is.
-/

namespace Ucser

/-- `value[key]`: raises when the key is not there, or the value is no dictionary. -/
def getItem (value : Json.Value) (key : String) : Except PyError Json.Value :=
  match value with
  | .obj fields =>
      match Json.get? fields key with
      | some item => .ok item
      | none => .error (.exception ("KeyError: " ++ key))
  | _ => .error (.exception "TypeError")

/-- A field of type `str`. -/
def validateStr (value : Json.Value) : Except PyError String :=
  match value with
  | .str s => .ok s
  | _ => .error (.exception "ValidationError")

/-- A field of type `List[T]`. -/
def validateList {α : Type} (validate : Json.Value → Except PyError α) (value : Json.Value) :
    Except PyError (List α) :=
  match value with
  | .arr values => values.mapM validate
  | _ => .error (.exception "ValidationError")

/-- A field of type `List[str]`. -/
def validateStrs (value : Json.Value) : Except PyError (List String) :=
  validateList validateStr value

/-- A field of type `Optional[T]`. -/
def validateOptional {α : Type} (validate : Json.Value → Except PyError α) (value : Json.Value) :
    Except PyError (Option α) :=
  match value with
  | .null => .ok none
  | value => (validate value).map some

/-- A field of type `Dict[str, Any]`. -/
def validateDict (value : Json.Value) : Except PyError (List (String × Json.Value)) :=
  match value with
  | .obj fields => .ok fields
  | _ => .error (.exception "ValidationError")

/-- A computation that gave a result went through its first step and then the rest. -/
theorem exists_of_bind_eq_ok {ε α β : Type} {x : Except ε α} {f : α → Except ε β} {b : β}
    (h : (x >>= f) = .ok b) : ∃ a, x = .ok a ∧ f a = .ok b := by
  cases x with
  | error e => exact absurd h (by simp [bind, Except.bind])
  | ok a => exact ⟨a, rfl, h⟩

/-- What every element of a list is accepted as is what the list is accepted as. -/
theorem mapM_eq_ok {α β ε : Type} {validate : β → Except ε α} {render : α → β}
    (h : ∀ a, validate (render a) = .ok a) (l : List α) :
    (l.map render).mapM validate = .ok l := by
  induction l with
  | nil => rfl
  | cons a rest ih =>
      rw [List.map_cons, List.mapM_cons, h a, ih]
      rfl

end Ucser
