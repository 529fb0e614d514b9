import Ucser.Core.Types
import Ucser.Lib.Dict

/-!
# The graph of a workflow: `core/dag.py`

* `DAGNode`, `UCERGraph` — the nodes, in a dictionary that `add_node` fills.
* `getReadyNodes`, `markCompleted`, `markFailed`, `isComplete`, `hasFailed` — the
  operations of the orchestrator on it.
* `status?`, `dependsOn?` — what the operations read; one lemma for each operation and
  each of the two says what it changes.
* `Depends` — the dependency relation restricted to the ids present.
* `mem_getReadyNodes` — **the ready nodes** are the pending ones with no present
  dependency that is not completed.
-/

namespace Ucser

/-- `DAGNode`. -/
structure DAGNode where
  nodeId : String
  intent : String
  dependsOn : List String := []
  status : Status := .pending
  ucerId : Option String := none
  deriving DecidableEq

/-- `UCERGraph`. -/
structure UCERGraph where
  nodes : Dict String DAGNode := .empty

namespace UCERGraph

/-- `add_node`. -/
def addNode (graph : UCERGraph) (node : DAGNode) : UCERGraph :=
  { graph with nodes := graph.nodes.insert node.nodeId node }

/-- The graph that `add_node` builds from a list of nodes. -/
def ofNodes (nodes : List DAGNode) : UCERGraph := nodes.foldl addNode {}

/-- Is the node pending with all its dependencies satisfied? -/
def isReady (graph : UCERGraph) (node : DAGNode) : Bool :=
  node.status = .pending &&
    node.dependsOn.all (fun depId =>
      match graph.nodes.get? depId with
      | some dep => dep.status = .completed
      | none => true)

/-- `get_ready_nodes`: the keys of the nodes it returns. -/
def getReadyNodes (graph : UCERGraph) : List String :=
  (graph.nodes.items.filter (fun item => graph.isReady item.2)).map Prod.fst

/-- `mark_completed`. -/
def markCompleted (graph : UCERGraph) (nodeId : String) (ucerId : Option String) : UCERGraph :=
  if nodeId ∈ graph.nodes.keys then
    { graph with nodes := graph.nodes.modify nodeId (fun node =>
        { node with status := .completed, ucerId := ucerId }) }
  else graph

/-- `mark_failed`. -/
def markFailed (graph : UCERGraph) (nodeId : String) : UCERGraph :=
  if nodeId ∈ graph.nodes.keys then
    { graph with nodes := graph.nodes.modify nodeId (fun node => { node with status := .failed }) }
  else graph

/-- `is_complete`. -/
def isComplete (graph : UCERGraph) : Bool :=
  graph.nodes.values.all (fun node => node.status = .completed)

/-- `has_failed`. -/
def hasFailed (graph : UCERGraph) : Bool :=
  graph.nodes.values.any (fun node => node.status = .failed)

/-- `node.status = "running"` for the node stored under a key. -/
def setRunning (graph : UCERGraph) (key : String) : UCERGraph :=
  { graph with nodes := graph.nodes.modify key (fun node => { node with status := .running }) }

/-- `node.ucer_id = …` for the node stored under a key. -/
def setUcerId (graph : UCERGraph) (key : String) (ucerId : String) : UCERGraph :=
  { graph with nodes := graph.nodes.modify key (fun node => { node with ucerId := some ucerId }) }

/-! ## What the operations read -/

/-- The status of the node stored under a key. -/
def status? (graph : UCERGraph) (key : String) : Option Status :=
  (graph.nodes.get? key).map DAGNode.status

/-- The dependencies of the node stored under a key. -/
def dependsOn? (graph : UCERGraph) (key : String) : Option (List String) :=
  (graph.nodes.get? key).map DAGNode.dependsOn

/-- The identifier of the node stored under a key. -/
def nodeId? (graph : UCERGraph) (key : String) : Option String :=
  (graph.nodes.get? key).map DAGNode.nodeId

/-- The intent of the node stored under a key. -/
def intent? (graph : UCERGraph) (key : String) : Option String :=
  (graph.nodes.get? key).map DAGNode.intent

/-- The dependency relation restricted to the ids present in the graph. -/
def Depends (graph : UCERGraph) (a b : String) : Prop :=
  ∃ deps, graph.dependsOn? a = some deps ∧ b ∈ deps ∧ b ∈ graph.nodes.keys

variable {graph : UCERGraph} {key key' : String}

theorem mem_keys_iff_status? : key ∈ graph.nodes.keys ↔ ∃ s, graph.status? key = some s := by
  rw [Dict.mem_keys_iff]
  constructor
  · rintro ⟨node, hnode⟩
    exact ⟨node.status, by rw [status?, hnode, Option.map_some]⟩
  · rintro ⟨s, hs⟩
    obtain ⟨node, hnode, _⟩ := Option.map_eq_some_iff.mp hs
    exact ⟨node, hnode⟩

theorem status?_eq_none_iff : graph.status? key = none ↔ key ∉ graph.nodes.keys := by
  rw [status?, Option.map_eq_none_iff, Dict.get?_eq_none_iff]

/-- **The ready nodes.** -/
theorem mem_getReadyNodes :
    key ∈ graph.getReadyNodes ↔
      graph.status? key = some .pending ∧
        ∀ dep, graph.Depends key dep → graph.status? dep = some .completed := by
  rw [getReadyNodes, List.mem_map]
  constructor
  · rintro ⟨⟨k, node⟩, hmem, rfl⟩
    obtain ⟨hitem, hready⟩ := List.mem_filter.mp hmem
    rw [Dict.mem_items_iff] at hitem
    obtain ⟨hpending, hdeps⟩ := Bool.and_eq_true_iff.mp hready
    refine ⟨by rw [status?, hitem, Option.map_some, of_decide_eq_true hpending], ?_⟩
    rintro dep ⟨deps, hdepsOf, hdep, hkeys⟩
    rw [dependsOn?, hitem, Option.map_some, Option.some.injEq] at hdepsOf
    subst hdepsOf
    obtain ⟨m, hm⟩ := Dict.mem_keys_iff.mp hkeys
    have hall := List.all_eq_true.mp hdeps dep hdep
    rw [hm] at hall
    rw [status?, hm, Option.map_some, of_decide_eq_true hall]
  · rintro ⟨hpending, hdeps⟩
    obtain ⟨node, hnode, hstatus⟩ := Option.map_eq_some_iff.mp hpending
    refine ⟨(key, node), List.mem_filter.mpr ⟨Dict.mem_items_iff.mpr hnode, ?_⟩, rfl⟩
    refine Bool.and_eq_true_iff.mpr ⟨decide_eq_true hstatus, List.all_eq_true.mpr ?_⟩
    intro dep hdep
    cases hm : graph.nodes.get? dep with
    | none => rfl
    | some m =>
        have hcompleted := hdeps dep
          ⟨node.dependsOn, by rw [dependsOn?, hnode, Option.map_some], hdep,
            Dict.mem_keys_of_get? hm⟩
        rw [status?, hm, Option.map_some, Option.some.injEq] at hcompleted
        exact decide_eq_true hcompleted

theorem nodup_getReadyNodes (graph : UCERGraph) : graph.getReadyNodes.Nodup :=
  graph.nodes.nodup.sublist (List.filter_sublist.map Prod.fst)

theorem isComplete_iff :
    graph.isComplete = true ↔
      ∀ key s, graph.status? key = some s → s = .completed := by
  unfold isComplete status?
  rw [List.all_eq_true]
  constructor
  · intro h key s hs
    obtain ⟨node, hnode, rfl⟩ := Option.map_eq_some_iff.mp hs
    exact of_decide_eq_true (h node (Dict.mem_values_iff.mpr ⟨key, hnode⟩))
  · intro h node hnode
    obtain ⟨key, hkey⟩ := Dict.mem_values_iff.mp hnode
    exact decide_eq_true (h key node.status (by rw [hkey, Option.map_some]))

theorem hasFailed_iff :
    graph.hasFailed = true ↔ ∃ key, graph.status? key = some .failed := by
  unfold hasFailed status?
  rw [List.any_eq_true]
  constructor
  · rintro ⟨node, hnode, hfailed⟩
    obtain ⟨key, hkey⟩ := Dict.mem_values_iff.mp hnode
    exact ⟨key, by rw [hkey, Option.map_some, of_decide_eq_true hfailed]⟩
  · rintro ⟨key, hkey⟩
    obtain ⟨node, hnode, hstatus⟩ := Option.map_eq_some_iff.mp hkey
    exact ⟨node, Dict.mem_values_iff.mpr ⟨key, hnode⟩, decide_eq_true hstatus⟩

/-! ## What the operations change -/

/-- An operation keeps the shape of a graph: its keys and, for every key, what the node
is called, what it intends and what it depends on. -/
structure SameShape (graph graph' : UCERGraph) : Prop where
  keys : graph'.nodes.keys = graph.nodes.keys
  nodeId : ∀ key, graph'.nodeId? key = graph.nodeId? key
  intent : ∀ key, graph'.intent? key = graph.intent? key
  dependsOn : ∀ key, graph'.dependsOn? key = graph.dependsOn? key

theorem SameShape.refl (graph : UCERGraph) : SameShape graph graph :=
  ⟨rfl, fun _ => rfl, fun _ => rfl, fun _ => rfl⟩

theorem SameShape.trans {g₁ g₂ g₃ : UCERGraph} (h : SameShape g₁ g₂) (h' : SameShape g₂ g₃) :
    SameShape g₁ g₃ :=
  ⟨h'.keys.trans h.keys, fun key => (h'.nodeId key).trans (h.nodeId key),
    fun key => (h'.intent key).trans (h.intent key),
    fun key => (h'.dependsOn key).trans (h.dependsOn key)⟩

theorem SameShape.depends {graph' : UCERGraph} (h : SameShape graph graph') {a b : String} :
    graph'.Depends a b ↔ graph.Depends a b := by
  unfold Depends
  rw [h.dependsOn, h.keys]

/-- Reading a field after an update that keeps it. -/
theorem map_get?_modify {α : Type} {f : DAGNode → DAGNode} {field : DAGNode → α}
    (hf : ∀ node, field (f node) = field node) (key' : String) :
    ((graph.nodes.modify key f).get? key').map field = (graph.nodes.get? key').map field := by
  rw [Dict.get?_modify]
  by_cases hkey : key' = key
  · rw [if_pos hkey, Option.map_map]
    exact congrArg (Option.map · _) (funext hf)
  · rw [if_neg hkey]

/-- Updating the node under a key by a function that keeps what it is called, what it
intends and what it depends on. -/
theorem sameShape_modify {f : DAGNode → DAGNode} (hid : ∀ node, (f node).nodeId = node.nodeId)
    (hintent : ∀ node, (f node).intent = node.intent)
    (hdeps : ∀ node, (f node).dependsOn = node.dependsOn) :
    SameShape graph { graph with nodes := graph.nodes.modify key f } :=
  ⟨Dict.keys_modify _ _ _, map_get?_modify hid, map_get?_modify hintent, map_get?_modify hdeps⟩

/-- The statuses after such an update. -/
theorem status?_modify (f : DAGNode → DAGNode) :
    { graph with nodes := graph.nodes.modify key f }.status? key' =
      if key' = key then (graph.nodes.get? key').map (fun node => (f node).status)
      else graph.status? key' := by
  unfold status?
  rw [Dict.get?_modify]
  by_cases hkey : key' = key
  · rw [if_pos hkey, if_pos hkey, Option.map_map]
    rfl
  · rw [if_neg hkey, if_neg hkey]

theorem map_const_status? (s : Status) :
    (graph.nodes.get? key).map (fun _ => s) = (graph.status? key).map (fun _ => s) := by
  rw [status?, Option.map_map]
  rfl

theorem sameShape_setRunning (key : String) : SameShape graph (graph.setRunning key) :=
  sameShape_modify (fun _ => rfl) (fun _ => rfl) (fun _ => rfl)

theorem sameShape_setUcerId (key ucerId : String) :
    SameShape graph (graph.setUcerId key ucerId) :=
  sameShape_modify (fun _ => rfl) (fun _ => rfl) (fun _ => rfl)

/-- `mark_completed` and `mark_failed` need not look whether the key is there. -/
theorem guarded_modify (f : DAGNode → DAGNode) :
    (if key ∈ graph.nodes.keys then { graph with nodes := graph.nodes.modify key f } else graph) =
      { graph with nodes := graph.nodes.modify key f } := by
  by_cases h : key ∈ graph.nodes.keys
  · rw [if_pos h]
  · rw [if_neg h, Dict.modify_of_notMem h]

theorem sameShape_markCompleted (nodeId : String) (ucerId : Option String) :
    SameShape graph (graph.markCompleted nodeId ucerId) := by
  rw [markCompleted, guarded_modify]
  exact sameShape_modify (fun _ => rfl) (fun _ => rfl) (fun _ => rfl)

theorem sameShape_markFailed (nodeId : String) : SameShape graph (graph.markFailed nodeId) := by
  rw [markFailed, guarded_modify]
  exact sameShape_modify (fun _ => rfl) (fun _ => rfl) (fun _ => rfl)

@[simp] theorem status?_setRunning :
    (graph.setRunning key).status? key' =
      if key' = key then (graph.status? key').map (fun _ => .running)
      else graph.status? key' := by
  rw [setRunning, status?_modify, map_const_status?]

@[simp] theorem status?_setUcerId {ucerId : String} :
    (graph.setUcerId key ucerId).status? key' = graph.status? key' := by
  rw [setUcerId, status?_modify]
  by_cases hkey : key' = key
  · rw [if_pos hkey]
    rfl
  · rw [if_neg hkey]

@[simp] theorem status?_markCompleted {ucerId : Option String} :
    (graph.markCompleted key ucerId).status? key' =
      if key' = key then (graph.status? key').map (fun _ => .completed)
      else graph.status? key' := by
  rw [markCompleted, guarded_modify, status?_modify, map_const_status?]

@[simp] theorem status?_markFailed :
    (graph.markFailed key).status? key' =
      if key' = key then (graph.status? key').map (fun _ => .failed)
      else graph.status? key' := by
  rw [markFailed, guarded_modify, status?_modify, map_const_status?]

/-- A status other than the one that an operation assigns has been there before. -/
theorem status?_of_ne_assigned {graph' : UCERGraph} {status assigned : Status}
    (hne : status ≠ assigned)
    (h : graph'.status? key' =
      if key' = key then (graph.status? key').map (fun _ => assigned) else graph.status? key')
    (hstatus : graph'.status? key' = some status) : graph.status? key' = some status := by
  rw [h] at hstatus
  by_cases hkey : key' = key
  · rw [if_pos hkey] at hstatus
    obtain ⟨_, _, hassigned⟩ := Option.map_eq_some_iff.mp hstatus
    exact absurd hassigned.symm hne
  · rwa [if_neg hkey] at hstatus

end UCERGraph
end Ucser
