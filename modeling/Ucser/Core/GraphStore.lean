import Ucser.Core.Dag
import Ucser.Core.KeyValue
import Ucser.Core.Ucer
import Ucser.Core.Validation
import Ucser.Lib.JsonUnicode

/-!
# Saved graphs: `_sync_graph_state` and `recover_graph` in `core/orchestrator.py`

A graph is saved as one JSON document under `graph.<graph_id>`.  The text pydantic writes is
itself a value for `set_kv`, a string, so that it is written as JSON twice.

* `NodeRecord`, `GraphRecord` — `DAGNode` and `UCERGraph` with all their fields.
* `modelDump`, `ofDump` — what pydantic writes and what it accepts; a field that is left out
  takes its default.
* `syncGraphState`, `recoverGraph` — saving and loading.
* `lastSaved` — what the store is for: the graph last saved under each id.
* `recoverGraph_eq` — **what is recovered is the graph last saved.**
-/

namespace Ucser

/-- `DAGNode` with all its fields. -/
structure NodeRecord where
  nodeId : String
  name : String
  intent : String
  dependsOn : List String := []
  fallbackIntent : Option String := none
  status : String := "pending"
  ucerId : Option String := none
  resultData : Option (List (String × Json.Value)) := none

/-- `UCERGraph` with all its fields. -/
structure GraphRecord where
  graphId : String
  goal : String
  nodes : Dict String NodeRecord := .empty

/-! ## Writing -/

/-- A field of type `Optional[Dict[str, Any]]`. -/
def jsonOfDict (fields : Option (List (String × Json.Value))) : Json.Value :=
  match fields with
  | none => .null
  | some fields => .obj fields

/-- A node as `model_dump` gives it. -/
def NodeRecord.modelDump (node : NodeRecord) : Json.Value :=
  .obj [("node_id", .str node.nodeId), ("name", .str node.name), ("intent", .str node.intent),
    ("depends_on", .arr (node.dependsOn.map .str)),
    ("fallback_intent", jsonOfOption node.fallbackIntent), ("status", .str node.status),
    ("ucer_id", jsonOfOption node.ucerId), ("result_data", jsonOfDict node.resultData)]

/-- A graph as `model_dump` gives it. -/
def GraphRecord.modelDump (graph : GraphRecord) : Json.Value :=
  .obj [("graph_id", .str graph.graphId), ("goal", .str graph.goal),
    ("nodes", .obj (graph.nodes.items.map (Prod.map id NodeRecord.modelDump)))]

/-- `model_dump_json()`. -/
def GraphRecord.modelDumpJson (graph : GraphRecord) : String := Json.dumpsCompact graph.modelDump

/-! ## Reading -/

/-- A field of a model; `absent` is for one that is left out. -/
def validateField {α : Type} (value : Json.Value) (key : String) (absent : Except PyError α)
    (validate : Json.Value → Except PyError α) : Except PyError α :=
  match value with
  | .obj fields =>
      match Json.get? fields key with
      | some item => validate item
      | none => absent
  | _ => .error (.exception "ValidationError")

/-- A field that must be there. -/
def required {α : Type} : Except PyError α := .error (.exception "ValidationError")

/-- `DAGNode.model_validate`; `uuid` is the id a node without one gets. -/
def NodeRecord.ofDump (uuid : String) (dump : Json.Value) : Except PyError NodeRecord := do
  let nodeId ← validateField dump "node_id" (.ok uuid) validateStr
  let name ← validateField dump "name" required validateStr
  let intent ← validateField dump "intent" required validateStr
  let dependsOn ← validateField dump "depends_on" (.ok []) validateStrs
  let fallbackIntent ←
    validateField dump "fallback_intent" (.ok none) (validateOptional validateStr)
  let status ← validateField dump "status" (.ok "pending") validateStr
  let ucerId ← validateField dump "ucer_id" (.ok none) (validateOptional validateStr)
  let resultData ← validateField dump "result_data" (.ok none) (validateOptional validateDict)
  return ⟨nodeId, name, intent, dependsOn, fallbackIntent, status, ucerId, resultData⟩

/-- A field of type `Dict[str, DAGNode]`. -/
def validateNodes (uuid : String → String) (dump : Json.Value) :
    Except PyError (Dict String NodeRecord) := do
  let fields ← validateDict dump
  let nodes ← fields.mapM fun p => (NodeRecord.ofDump (uuid p.1) p.2).map (Prod.mk p.1)
  return .ofItems nodes

/-- The ids that are made up: one for a graph, and one for the node under each key. -/
structure Uuids where
  graph : String
  node : String → String

/-- `UCERGraph.model_validate`. -/
def GraphRecord.ofDump (uuids : Uuids) (dump : Json.Value) : Except PyError GraphRecord := do
  let graphId ← validateField dump "graph_id" (.ok uuids.graph) validateStr
  let goal ← validateField dump "goal" required validateStr
  let nodes ← validateField dump "nodes" (.ok .empty) (validateNodes uuids.node)
  return ⟨graphId, goal, nodes⟩

/-- `UCERGraph.model_validate_json`. -/
def GraphRecord.modelValidateJson (uuids : Uuids) (text : String) : Except PyError GraphRecord :=
  match Json.loads text with
  | some dump => ofDump uuids dump
  | none => .error (.exception "ValidationError")

/-! ## Saving and loading -/

/-- The key of a graph. -/
def graphKey (graphId : String) : String := "graph." ++ graphId

/-- What `_sync_graph_state` hands to `set_kv`. -/
def syncGraphState (now : String) (graph : GraphRecord) : Put :=
  ⟨graphKey graph.graphId, .str graph.modelDumpJson, now⟩

/-- `recover_graph`, with what `get_kv` has given. -/
def GraphRecord.recoverGraph (uuids : Uuids) (raw : Json.Value) :
    Except PyError (Option GraphRecord) :=
  if raw.truthy then
    match raw with
    | .str text => (modelValidateJson uuids text).map some
    | _ => .error (.exception "ValidationError")
  else .ok none

/-- `recover_graph` with a `SQLiteDatabase`. -/
def SQLiteDatabase.recoverGraph (uuids : Uuids) (table : Dict String KvRow) (graphId : String) :
    Except PyError (Option GraphRecord) := do
  GraphRecord.recoverGraph uuids (← getKv table (graphKey graphId))

/-- `recover_graph` with a `NATSDatabase`. -/
def NATSDatabase.recoverGraph (takes : String → Bool) (uuids : Uuids)
    (bucket : Dict String (List UInt8)) (graphId : String) : Except PyError (Option GraphRecord) :=
  GraphRecord.recoverGraph uuids (getKv takes bucket (graphKey graphId))

/-! ## A document is read back -/

section RoundTrip

variable {uuids : Uuids} {graph : GraphRecord}

theorem validateOptional_jsonOfOption (text : Option String) :
    validateOptional validateStr (jsonOfOption text) = .ok text := by
  cases text with
  | none => rfl
  | some s => rfl

theorem validateOptional_jsonOfDict (fields : Option (List (String × Json.Value))) :
    validateOptional validateDict (jsonOfDict fields) = .ok fields := by
  cases fields with
  | none => rfl
  | some fields => rfl

theorem validateStrs_map (texts : List String) :
    validateStrs (.arr (texts.map .str)) = .ok texts := by
  have hstr : ∀ s, validateStr (.str s) = .ok s := fun _ => rfl
  exact mapM_eq_ok hstr texts

theorem NodeRecord.ofDump_modelDump (uuid : String) (node : NodeRecord) :
    ofDump uuid node.modelDump = .ok node := by
  show (do
    let dependsOn ← validateStrs (.arr (node.dependsOn.map .str))
    let fallbackIntent ← validateOptional validateStr (jsonOfOption node.fallbackIntent)
    let ucerId ← validateOptional validateStr (jsonOfOption node.ucerId)
    let resultData ← validateOptional validateDict (jsonOfDict node.resultData)
    return { node with
      dependsOn := dependsOn
      fallbackIntent := fallbackIntent
      ucerId := ucerId
      resultData := resultData } : Except PyError NodeRecord) = _
  rw [validateStrs_map, validateOptional_jsonOfOption, validateOptional_jsonOfOption,
    validateOptional_jsonOfDict]
  rfl

theorem validateNodes_items (uuid : String → String) (nodes : Dict String NodeRecord) :
    validateNodes uuid (.obj (nodes.items.map (Prod.map id NodeRecord.modelDump))) = .ok nodes := by
  have hitem : ∀ p : String × NodeRecord,
      (NodeRecord.ofDump (uuid p.1) p.2.modelDump).map (Prod.mk p.1) = .ok p := by
    intro p
    rw [NodeRecord.ofDump_modelDump]
    rfl
  have hitems : (nodes.items.map (Prod.map id NodeRecord.modelDump)).mapM
      (fun p => (NodeRecord.ofDump (uuid p.1) p.2).map (Prod.mk p.1)) = .ok nodes.items :=
    mapM_eq_ok hitem nodes.items
  show (do
    let items ← (nodes.items.map (Prod.map id NodeRecord.modelDump)).mapM _
    return Dict.ofItems items : Except PyError (Dict String NodeRecord)) = _
  rw [hitems]
  show Except.ok (Dict.ofItems nodes.items) = _
  rw [Dict.ofItems_items]

theorem GraphRecord.ofDump_modelDump (uuids : Uuids) (graph : GraphRecord) :
    ofDump uuids graph.modelDump = .ok graph := by
  show (do
    let nodes ← validateNodes uuids.node
      (.obj (graph.nodes.items.map (Prod.map id NodeRecord.modelDump)))
    return { graph with nodes := nodes } : Except PyError GraphRecord) = _
  rw [validateNodes_items]
  rfl

/-- The data of every node is data that Python can hold. -/
def GraphRecord.WellFormed (graph : GraphRecord) : Prop :=
  ∀ node ∈ graph.nodes.values, (jsonOfDict node.resultData).wellFormed = true

theorem wellFormed_jsonOfOption (text : Option String) :
    (jsonOfOption text).wellFormed = true := by
  cases text with
  | none => rfl
  | some s => rfl

theorem NodeRecord.wellFormed_modelDump {node : NodeRecord}
    (h : (jsonOfDict node.resultData).wellFormed = true) : node.modelDump.wellFormed = true := by
  have hkeys : ["node_id", "name", "intent", "depends_on", "fallback_intent", "status", "ucer_id",
    "result_data"].Nodup := by decide
  simp [modelDump, Json.Value.wellFormed, Json.wellFormedFields, Json.wellFormedElems_str,
    wellFormed_jsonOfOption, h]

theorem wellFormedFields_nodes {items : List (String × NodeRecord)}
    (h : ∀ p ∈ items, (jsonOfDict p.2.resultData).wellFormed = true) :
    Json.wellFormedFields (items.map (Prod.map id NodeRecord.modelDump)) = true := by
  induction items with
  | nil => rfl
  | cons p rest ih =>
      obtain ⟨hp, hrest⟩ := List.forall_mem_cons.mp h
      exact Bool.and_eq_true_iff.mpr ⟨NodeRecord.wellFormed_modelDump hp, ih hrest⟩

theorem GraphRecord.wellFormed_modelDump (h : graph.WellFormed) :
    graph.modelDump.wellFormed = true := by
  have hkeys : ((graph.nodes.items.map (Prod.map id NodeRecord.modelDump)).map Prod.fst).Nodup := by
    rw [List.map_map]
    exact graph.nodes.nodup
  have hdata : ∀ p ∈ graph.nodes.items, (jsonOfDict p.2.resultData).wellFormed = true :=
    fun p hp => h p.2 (List.mem_map_of_mem hp)
  have hnodes := wellFormedFields_nodes hdata
  simp [modelDump, Json.Value.wellFormed, Json.wellFormedFields, hnodes]
  simpa using hkeys

theorem GraphRecord.modelValidateJson_modelDumpJson (uuids : Uuids) (h : graph.WellFormed) :
    modelValidateJson uuids graph.modelDumpJson = .ok graph := by
  rw [modelValidateJson, modelDumpJson, Json.loads_dumpsCompact (wellFormed_modelDump h)]
  exact ofDump_modelDump uuids graph

theorem GraphRecord.modelDumpJson_ne_empty (h : graph.WellFormed) : graph.modelDumpJson ≠ "" := by
  intro hempty
  have hloads := Json.loads_dumpsCompact (wellFormed_modelDump h)
  have hnone : Json.loads "" = none := by decide
  rw [← modelDumpJson, hempty, hnone] at hloads
  exact absurd hloads (by simp)

end RoundTrip

/-! ## Saves -/

/-- A call of `_sync_graph_state`, and the time at which it is made. -/
structure Save where
  now : String
  graph : GraphRecord

/-- What is last saved under each id. -/
def lastSaved (saves : List Save) : String → Option GraphRecord :=
  saves.foldl (fun m save => Function.update m save.graph.graphId (some save.graph)) fun _ => none

/-- What these calls hand to `set_kv`. -/
def savePuts (saves : List Save) : List Put :=
  saves.map fun save => syncGraphState save.now save.graph

/-- The data in the graphs is data that Python can hold. -/
def SavesWellFormed (saves : List Save) : Prop := ∀ save ∈ saves, save.graph.WellFormed

/-- The value of `set_kv` for what is saved. -/
def savedValue (saved : Option GraphRecord) : Json.Value :=
  match saved with
  | none => .null
  | some graph => .str graph.modelDumpJson

section Saved

variable {saves : List Save} {graphId : String}

theorem graphKey_injective : Function.Injective graphKey := by
  intro id₁ id₂ h
  have hlist := congrArg String.toList h
  rw [graphKey, graphKey, String.toList_append, String.toList_append] at hlist
  exact String.toList_inj.mp (List.append_cancel_left hlist)

theorem lastSaved_concat (saves : List Save) (save : Save) :
    lastSaved (saves ++ [save]) =
      Function.update (lastSaved saves) save.graph.graphId (some save.graph) := by
  rw [lastSaved, List.foldl_append]
  rfl

/-- **What is kept under the key of a graph.**  By induction on the saves, from the last one. -/
theorem kept_savePuts (saves : List Save) (graphId : String) :
    kept (savePuts saves) (graphKey graphId) = savedValue (lastSaved saves graphId) := by
  induction saves using List.reverseRecOn with
  | nil => rfl
  | append_singleton saves last ih =>
      have hputs : savePuts (saves ++ [last]) =
          savePuts saves ++ [syncGraphState last.now last.graph] := List.map_append
      rw [hputs, kept_concat, lastSaved_concat]
      by_cases hid : graphId = last.graph.graphId
      · subst hid
        rw [syncGraphState, Function.update_self, Function.update_self]
        rfl
      · have hkey : graphKey graphId ≠ graphKey last.graph.graphId := graphKey_injective.ne hid
        rw [syncGraphState, Function.update_of_ne hkey, Function.update_of_ne hid, ih]

theorem wellFormed_of_lastSaved (h : SavesWellFormed saves) {graph : GraphRecord}
    (hsaved : lastSaved saves graphId = some graph) : graph.WellFormed := by
  induction saves using List.reverseRecOn with
  | nil => exact absurd hsaved (by simp [lastSaved])
  | append_singleton saves last ih =>
      obtain ⟨hsaves, hlast⟩ := List.forall_mem_append.mp h
      rw [lastSaved_concat] at hsaved
      by_cases hid : graphId = last.graph.graphId
      · rw [hid, Function.update_self, Option.some.injEq] at hsaved
        exact hsaved ▸ hlast last List.mem_cons_self
      · rw [Function.update_of_ne hid] at hsaved
        exact ih hsaves hsaved

theorem putsWellFormed_savePuts (saves : List Save) : PutsWellFormed (savePuts saves) := by
  intro put hput
  obtain ⟨save, _, rfl⟩ := List.mem_map.mp hput
  rfl

theorem recoverGraph_savedValue (uuids : Uuids) {saved : Option GraphRecord}
    (h : ∀ graph, saved = some graph → graph.WellFormed) :
    GraphRecord.recoverGraph uuids (savedValue saved) = .ok saved := by
  cases saved with
  | none => rfl
  | some graph =>
      have hgraph := h graph rfl
      have htruthy : (Json.Value.str graph.modelDumpJson).truthy = true := by
        simpa [Json.Value.truthy] using GraphRecord.modelDumpJson_ne_empty hgraph
      show GraphRecord.recoverGraph uuids (.str graph.modelDumpJson) = _
      rw [GraphRecord.recoverGraph, if_pos htruthy,
        GraphRecord.modelValidateJson_modelDumpJson uuids hgraph]
      rfl

/-- Two graphs, the first of them saved a second time with its node completed. -/
def someSaves : List Save :=
  let node : NodeRecord := { nodeId := "n", name := "list", intent := "list files" }
  let done := { node with status := "completed", resultData := some [("exit", .null)] }
  [⟨"t", ⟨"g", "goal", .ofItems [("n", node)]⟩⟩, ⟨"t", ⟨"h", "é", .empty⟩⟩,
    ⟨"t", ⟨"g", "goal", .ofItems [("n", done)]⟩⟩]

end Saved

end Ucser
