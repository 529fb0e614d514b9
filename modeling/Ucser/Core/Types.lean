import Mathlib.Data.Finset.Basic
import Ucser.Lib.Text

/-!
# The vocabulary of `core/types.py`

Capabilities, the execution context, the adapter names a step may carry, the
four states a record or a node can be in, and the exceptions the modelled code
raises.
-/

namespace Ucser

/-! ## Capabilities -/

/-- `Capability(str, Enum)`. -/
inductive Capability where
  | deleteRoot
  | writeFs
  | network
  | exec
  | fsRead
  | envMutate
  | executeRead
  deriving DecidableEq, Repr

namespace Capability

/-- `cap.value`. -/
def value : Capability → String
  | deleteRoot => "delete_root"
  | writeFs => "write_fs"
  | network => "network"
  | exec => "exec"
  | fsRead => "fs_read"
  | envMutate => "env_mutate"
  | executeRead => "execute_read"

/-- The capabilities in the order of their values. -/
def inOrder : List Capability :=
  [deleteRoot, envMutate, exec, executeRead, fsRead, network, writeFs]

/-- `sorted([cap.value for cap in caps])`. -/
def sortedValues (caps : Finset Capability) : List String :=
  (inOrder.filter (· ∈ caps)).map value

theorem mem_inOrder (c : Capability) : c ∈ inOrder := by cases c <;> decide

theorem value_injective : Function.Injective value := by
  intro c d h
  cases c <;> cases d <;> first | rfl | exact absurd h (by decide)

/-- The values really come out sorted. -/
theorem sortedValues_sorted (caps : Finset Capability) :
    (sortedValues caps).Pairwise (· ≤ ·) := by
  have hall : inOrder.Pairwise (fun c d => value c ≤ value d) := by decide
  rw [sortedValues, List.pairwise_map]
  exact hall.filter _

theorem mem_sortedValues {caps : Finset Capability} {c : Capability} :
    c.value ∈ sortedValues caps ↔ c ∈ caps := by
  rw [sortedValues, List.mem_map]
  constructor
  · rintro ⟨d, hd, hv⟩
    rw [← value_injective hv]
    simpa using (List.mem_filter.mp hd).2
  · intro hc
    exact ⟨c, List.mem_filter.mpr ⟨mem_inOrder c, by simpa using hc⟩, rfl⟩

/-- The sorted values determine the set. -/
theorem sortedValues_injective : Function.Injective sortedValues := by
  intro s t h
  ext c
  rw [← mem_sortedValues, ← mem_sortedValues, h]

end Capability

/-! ## The execution context -/

/-- `ExecutionContext`, with the fields the pipeline reads. -/
structure ExecutionContext where
  executionId : String
  capabilities : Finset Capability
  deriving DecidableEq

/-! ## Adapters and states -/

/-- `Literal["bash", "powershell", "ps", "linux", "python", "microvm"]`. -/
inductive Adapter where
  | bash
  | powershell
  | ps
  | linux
  | python
  | microvm
  deriving DecidableEq, Repr

/-- The name of an adapter, which `.lower()` leaves as it is. -/
def Adapter.name : Adapter → String
  | bash => "bash"
  | powershell => "powershell"
  | ps => "ps"
  | linux => "linux"
  | python => "python"
  | microvm => "microvm"

/-- `pending, running, completed, failed`: the states of a record and of a node
of a graph. -/
inductive Status where
  | pending
  | running
  | completed
  | failed
  deriving DecidableEq, Repr

/-! ## Exceptions -/

/-- What a `PermissionError` of the gate says. -/
inductive PolicyReason where
  /-- `Contract Violation in evaluate. Missing Capabilities: …` -/
  | contract (missing : Finset Capability)
  /-- `Contract Violation: No ExecutionContext provided to evaluate.` -/
  | noContext
  /-- `Security Gate Blocked Execution: Explicit allowed_caps … exceed context boundary.` -/
  | exceedsContext (violation : Finset Capability)
  /-- `Security Gate Blocked Execution: Unauthorized capabilities …` -/
  | unauthorized (violation : Finset Capability)
  /-- `Security Gate Blocked Execution: ` followed by the auditor's reasons. -/
  | flagged (reasons : List String)
  deriving DecidableEq

/-- The exceptions the modelled code raises or lets through. -/
inductive PyError where
  | permissionError (reason : PolicyReason)
  | securityError (message : String)
  | valueError (message : String)
  /-- A signature that is not base64. -/
  | base64Error (reason : Text.Base64Error)
  /-- Any other ordinary exception: of an adapter, a database, a file. -/
  | exception (message : String)
  /-- `asyncio.CancelledError`, which is no `Exception`. -/
  | cancelledError
  deriving DecidableEq

/-- Does `except Exception` catch it? -/
def PyError.isException : PyError → Bool
  | .cancelledError => false
  | _ => true

end Ucser
