import Mathlib.Data.Nat.Sqrt
import Ucser.Lib.History
import Ucser.Lib.JsonLoads
import Ucser.Lib.Transition

/-!
# The workflow builder of the dashboard: `api/static/dashboard.html`

The canvas keeps nodes and edges, a history for undo and redo, and the last ten versions.  Most
edits take a snapshot before they change anything, a move and a restored version after it.

* `CanvasNode`, `Edge`, `Canvas`, `Builder` — what the script keeps.
* `addNode`, `delNode`, `clearCanvas`, `autoLayout`, `drag`, `updNode`, `validated`, `undoCanvas`,
  `redoCanvas`, `previewVer`, `restoreVer`, `importWs` — its functions.
* `Action`, `builder` — any order of them, as a transition system.
* `undo_then_redo` — **undo goes past the latest edit**: which drawing any number of undos and
  redos shows.
* `Lawful`, `everywhere_perform` — what the edits of a drawing keep, every snapshot keeps.
* `edges_tied`, `drawn_sound` — **edges never dangle**, and what is drawn is a DAG.
-/

namespace Ucser
namespace Canvas

/-! ## What the script keeps -/

/-- A node; positions are in whole pixels. -/
structure CanvasNode where
  id : String
  type : String
  name : String
  cmd : String
  x : Int
  y : Int
  status : String := "pending"
  vReason : Option String := none
  deriving DecidableEq

structure Edge where
  src : String
  tgt : String
  deriving DecidableEq

/-- `nodes` and `edges`. -/
structure Drawing where
  nodes : List CanvasNode
  edges : List Edge
  deriving DecidableEq

/-- An entry of `hist`, without its time. -/
structure Snapshot where
  lbl : String
  drawing : Drawing

/-- The variables of the script. -/
structure Builder where
  drawing : Drawing := ⟨[], []⟩
  nCount : Nat := 0
  selNode : Option String := none
  hist : History Snapshot := .empty
  verSnaps : List Snapshot := []
  selVer : Option Nat := none

namespace Builder

variable (s : Builder)

/-! ## Its functions -/

/-- `snapCanvas`. -/
def snapCanvas (lbl : String) : Builder :=
  { s with
    hist := s.hist.snap ⟨lbl, s.drawing⟩
    verSnaps :=
      (if 10 ≤ s.verSnaps.length then s.verSnaps.tail else s.verSnaps) ++ [⟨lbl, s.drawing⟩] }

/-- `undoCanvas`. -/
def undoCanvas : Builder :=
  match s.hist.undo with
  | none => s
  | some (hist, snapshot) => { s with hist := hist, drawing := snapshot.drawing }

/-- `redoCanvas`. -/
def redoCanvas : Builder :=
  match s.hist.redo with
  | none => s
  | some (hist, snapshot) => { s with hist := hist, drawing := snapshot.drawing }

end Builder

/-- The identifier of the node with this number. -/
def nodeId (number : Nat) : String := "n" ++ toString number

namespace Drawing

variable (d : Drawing)

/-- A node more, and an edge to it from the last one. -/
def add (number : Nat) (type name cmd : String) : Drawing where
  nodes := d.nodes ++ [{
    id := nodeId number, type, name, cmd
    x := 30 + (d.nodes.length % 4 : Nat) * 148, y := 30 + (d.nodes.length / 4 : Nat) * 90 }]
  edges := d.edges ++
    (d.nodes.getLast?.toList.map fun last => ⟨last.id, nodeId number⟩)

/-- Without a node and its edges. -/
def delete (id : String) : Drawing where
  nodes := d.nodes.filter fun n => n.id ≠ id
  edges := d.edges.filter fun e => e.src ≠ id ∧ e.tgt ≠ id

/-- A change of the first node with an identifier. -/
def change (id : String) (f : CanvasNode → CanvasNode) : Drawing where
  nodes := d.nodes.modify (d.nodes.findIdx fun n => n.id = id) f
  edges := d.edges

/-- `Math.ceil(Math.sqrt(n))`. -/
def ceilSqrt (n : Nat) : Nat := if n.sqrt * n.sqrt = n then n.sqrt else n.sqrt + 1

/-- The nodes in rows, as many as there are columns. -/
def arranged : Drawing where
  nodes :=
    let cols := max 1 (ceilSqrt d.nodes.length)
    d.nodes.mapIdx fun i n =>
      { n with x := 40 + (i % cols : Nat) * 155, y := 30 + (i / cols : Nat) * 90 }
  edges := d.edges

end Drawing

namespace Builder

variable (s : Builder)

/-- `addNode`; the validation comes later. -/
def addNode (type name cmd : String) : Builder :=
  let s := s.snapCanvas ("Add " ++ name)
  { s with nCount := s.nCount + 1, drawing := s.drawing.add (s.nCount + 1) type name cmd }

/-- `delNode`. -/
def delNode (id : String) : Builder :=
  let s := s.snapCanvas "Delete"
  { s with
    drawing := s.drawing.delete id
    selNode := if s.selNode = some id then none else s.selNode }

/-- `clearCanvas`. -/
def clearCanvas : Builder :=
  { s.snapCanvas "Clear" with drawing := ⟨[], []⟩, selNode := none, nCount := 0 }

/-- `autoLayout`. -/
def autoLayout : Builder :=
  if s.drawing.nodes = [] then s
  else
    let s := s.snapCanvas "Auto-layout"
    { s with drawing := s.drawing.arranged }

/-- A move of the mouse, in a canvas of some size. -/
def dragTo (width height : Int) (move : Int × Int) (n : CanvasNode) : CanvasNode :=
  { n with x := max 0 (min move.1 (width - 144)), y := max 0 (min move.2 (height - 60)) }

/-- `startDrag`, the moves of the mouse, and its release. -/
def drag (id : String) (width height : Int) (moves : List (Int × Int)) : Builder :=
  if s.drawing.nodes.any fun n => n.id = id then
    let s := { s with
      selNode := some id
      drawing := moves.foldl (fun d move => d.change id (dragTo width height move)) s.drawing }
    s.snapCanvas "Move"
  else s

/-- `selNodeFn`. -/
def selNodeFn (id : String) : Builder := { s with selNode := some id }

/-- `updNode`, of the name or of the command. -/
def updNode (id : String) (isCmd : Bool) (val : String) : Builder :=
  { s with drawing := s.drawing.change id fun n =>
      if isCmd then { n with cmd := val } else { n with name := val } }

/-- The answer to `validateNode`, whenever it comes. -/
def validated (id : String) (allowed : Bool) (reason : String) : Builder :=
  { s with drawing := s.drawing.change id fun n =>
      { n with status := if allowed then "valid" else "block", vReason := some reason } }

/-- `previewVer`, of a version that is listed. -/
def previewVer (i : Nat) : Builder :=
  if i < s.verSnaps.length then { s with selVer := some i } else s

/-- `restoreVer`. -/
def restoreVer : Builder :=
  match s.selVer.bind fun i => s.verSnaps[i]? with
  | none => s
  | some v => { s with drawing := v.drawing }.snapCanvas "Restore"

/-- `importWS`, of a file with a canvas. -/
def importWs (d : Drawing) : Builder := { s with drawing := d }

end Builder

/-! ## Any order of them -/

inductive Action where
  | addNode (type name cmd : String)
  | delNode (id : String)
  | clearCanvas
  | autoLayout
  | drag (id : String) (width height : Int) (moves : List (Int × Int))
  | snapCanvas (lbl : String)
  | undoCanvas
  | redoCanvas
  | selNodeFn (id : String)
  | updNode (id : String) (isCmd : Bool) (val : String)
  | validated (id : String) (allowed : Bool) (reason : String)
  | previewVer (i : Nat)
  | restoreVer
  | importWs (d : Drawing)

/-- What an action does. -/
def perform (s : Builder) : Action → Builder
  | .addNode type name cmd => s.addNode type name cmd
  | .delNode id => s.delNode id
  | .clearCanvas => s.clearCanvas
  | .autoLayout => s.autoLayout
  | .drag id width height moves => s.drag id width height moves
  | .snapCanvas lbl => s.snapCanvas lbl
  | .undoCanvas => s.undoCanvas
  | .redoCanvas => s.redoCanvas
  | .selNodeFn id => s.selNodeFn id
  | .updNode id isCmd val => s.updNode id isCmd val
  | .validated id allowed reason => s.validated id allowed reason
  | .previewVer i => s.previewVer i
  | .restoreVer => s.restoreVer
  | .importWs d => s.importWs d

/-- The builder under any order of actions; `aiGenerateDAG` is `clearCanvas`, `snapCanvas`, and
later four `addNode`. -/
def builder : System Builder Action := ⟨fun s a => some (perform s a)⟩

/-! ## Undo and redo -/

/-- An edit that takes its snapshot before it changes anything. -/
def edits (s : Builder) : Action → Bool
  | .addNode .. | .delNode _ | .clearCanvas => true
  | .autoLayout => !s.drawing.nodes.isEmpty
  | _ => false

/-- An action that takes no snapshot, and goes to none. -/
def quiet (s : Builder) : Action → Bool
  | .selNodeFn _ | .updNode .. | .validated .. | .previewVer _ | .importWs _ => true
  | .autoLayout => s.drawing.nodes.isEmpty
  | _ => false

/-- What the edits of a run found on the canvas, the latest first. -/
def drawn : Builder → List Action → List Drawing
  | _, [] => []
  | s, a :: rest => drawn (perform s a) rest ++ (if edits s a then [s.drawing] else [])

variable {s : Builder} {a : Action}

theorem autoLayout_of_nodes (h : s.drawing.nodes.isEmpty = false) :
    s.autoLayout = { s.snapCanvas "Auto-layout" with drawing := s.drawing.arranged } :=
  if_neg (by simpa using h)

theorem autoLayout_of_empty (h : s.drawing.nodes.isEmpty = true) : s.autoLayout = s :=
  if_pos (by simpa using h)

theorem hist_of_edits (h : edits s a = true) :
    ∃ lbl, (perform s a).hist = s.hist.snap ⟨lbl, s.drawing⟩ := by
  cases a with
  | addNode type name cmd => exact ⟨_, rfl⟩
  | delNode id => exact ⟨_, rfl⟩
  | clearCanvas => exact ⟨_, rfl⟩
  | autoLayout =>
      refine ⟨"Auto-layout", ?_⟩
      rw [perform, autoLayout_of_nodes (by simpa [edits] using h)]
      rfl
  | _ => exact absurd h (by simp [edits])

theorem hist_of_quiet (h : quiet s a = true) : (perform s a).hist = s.hist := by
  cases a with
  | selNodeFn id => rfl
  | updNode id isCmd val => rfl
  | validated id allowed reason => rfl
  | previewVer i =>
      rw [perform, Builder.previewVer]
      split_ifs
      · rfl
      · rfl
  | autoLayout => rw [perform, autoLayout_of_empty h]
  | importWs d => rfl
  | _ => exact absurd h (by simp [quiet])

/-- The history is of these drawings, and the cursor is on the one with this index. -/
def Shows (ds : List Drawing) (m : Nat) (s : Builder) : Prop :=
  ∃ snaps : List Snapshot, snaps.map Snapshot.drawing = ds ∧ History.At snaps m s.hist

/-- After edits and quiet actions, the history is of what the edits found, and ends there. -/
theorem shows_run {ds : List Drawing} (hs : Shows ds 0 s) {actions : List Action}
    (hrun : builder.Along (fun s a => edits s a = true ∨ quiet s a = true) s actions) :
    Shows (drawn s actions ++ ds) 0 (builder.run s actions) := by
  induction actions generalizing s ds with
  | nil => exact hs
  | cons a rest ih =>
      obtain ⟨ha, hrest⟩ := hrun
      obtain ⟨snaps, rfl, hat⟩ := hs
      rw [drawn, List.append_assoc]
      refine ih ?_ hrest
      cases hedits : edits s a with
      | true =>
          obtain ⟨lbl, hlbl⟩ := hist_of_edits hedits
          refine ⟨⟨lbl, s.drawing⟩ :: snaps, rfl, ?_⟩
          show History.At _ 0 (perform s a).hist
          rw [hlbl]
          exact hat.snap _
      | false =>
          have hquiet := ha.resolve_left (by simp [hedits])
          refine ⟨snaps, rfl, ?_⟩
          show History.At _ 0 (perform s a).hist
          rw [hist_of_quiet hquiet]
          exact hat

variable {ds : List Drawing} {m : Nat}

/-- One step back, if it is not the first snapshot that is shown. -/
theorem shows_undoCanvas (hs : Shows ds m s) :
    if m + 1 < ds.length then
      Shows ds (m + 1) s.undoCanvas ∧ ds[m + 1]? = some s.undoCanvas.drawing
    else s.undoCanvas = s := by
  obtain ⟨snaps, rfl, hat⟩ := hs
  rw [List.length_map]
  split_ifs with hm
  · obtain ⟨hist, hundo, hat'⟩ := History.at_undo hat hm
    rw [Builder.undoCanvas, hundo]
    refine ⟨⟨snaps, rfl, hat'⟩, ?_⟩
    rw [List.getElem?_map, List.getElem?_eq_getElem hm]
    rfl
  · rw [Builder.undoCanvas, hat.undo_eq_none (Nat.le_of_not_lt hm)]

/-- One step on, if it is not the last. -/
theorem shows_redoCanvas (hs : Shows ds m s) (hm : m < ds.length) :
    if 0 < m then
      Shows ds (m - 1) s.redoCanvas ∧ ds[m - 1]? = some s.redoCanvas.drawing
    else s.redoCanvas = s := by
  obtain ⟨snaps, rfl, hat⟩ := hs
  rw [List.length_map] at hm
  cases m with
  | zero =>
      rw [if_neg (Nat.lt_irrefl 0), Builder.redoCanvas, hat.redo_eq_none]
  | succ m =>
      have hm' : m < snaps.length := by omega
      obtain ⟨hist, hredo, hat'⟩ := History.at_redo hat hm'
      rw [if_pos (Nat.succ_pos m), Builder.redoCanvas, hredo]
      refine ⟨⟨snaps, rfl, hat'⟩, ?_⟩
      rw [Nat.add_sub_cancel, List.getElem?_map, List.getElem?_eq_getElem hm']
      rfl

/-- Some steps back, of which at least one is possible: as far as they go. -/
theorem shows_undo_iterate (hs : Shows ds 0 s) (hds : 2 ≤ ds.length) (k : Nat) :
    Shows ds (min (k + 1) (ds.length - 1)) (Builder.undoCanvas^[k + 1] s) ∧
      ds[min (k + 1) (ds.length - 1)]? = some (Builder.undoCanvas^[k + 1] s).drawing := by
  induction k with
  | zero =>
      have hstep := shows_undoCanvas hs
      rw [if_pos (by omega)] at hstep
      rw [show min (0 + 1) (ds.length - 1) = 0 + 1 by omega]
      exact hstep
  | succ k ih =>
      have hstep := shows_undoCanvas ih.1
      rw [Function.iterate_succ_apply']
      split_ifs at hstep with hm
      · rw [show min (k + 1 + 1) (ds.length - 1) = min (k + 1) (ds.length - 1) + 1 by omega]
        exact hstep
      · rw [hstep, show min (k + 1 + 1) (ds.length - 1) = min (k + 1) (ds.length - 1) by omega]
        exact ih

/-- Some steps on from a snapshot that is shown: as far as they go. -/
theorem shows_redo_iterate (hs : Shows ds m s ∧ ds[m]? = some s.drawing) (hm : m < ds.length)
    (j : Nat) :
    Shows ds (m - j) (Builder.redoCanvas^[j] s) ∧
      ds[m - j]? = some (Builder.redoCanvas^[j] s).drawing := by
  induction j with
  | zero => exact hs
  | succ j ih =>
      have hstep := shows_redoCanvas ih.1 (by omega)
      rw [Function.iterate_succ_apply', ← Nat.sub_sub]
      split_ifs at hstep with hpos
      · exact hstep
      · rw [hstep, show m - j - 1 = m - j by omega]
        exact ih

/-- A property of the drawing, of every snapshot and of every version. -/
structure Everywhere (P : Drawing → Prop) (s : Builder) : Prop where
  drawing : P s.drawing
  hist : ∀ x ∈ s.hist.items, P x.drawing
  verSnaps : ∀ x ∈ s.verSnaps, P x.drawing

/-- An empty canvas has it, handing out the next number keeps it, and so do the edits. -/
structure Lawful (P : Nat → Drawing → Prop) : Prop where
  empty {k} : P k ⟨[], []⟩
  next {k d} : P k d → P (k + 1) d
  add {k d} type name cmd : P k d → P (k + 1) (d.add (k + 1) type name cmd)
  delete {k d} id : P k d → P k (d.delete id)
  relabel {k} {d d' : Drawing} : d'.nodes.map CanvasNode.id = d.nodes.map CanvasNode.id →
    d'.edges = d.edges → P k d → P k d'

/-- An action that shows nothing from before, nor from a file. -/
def Forward : Action → Prop
  | .undoCanvas | .redoCanvas | .restoreVer | .importWs _ => False
  | _ => True

/-- An action that does not put a new canvas in place of the old one. -/
def Keeps : Action → Prop
  | .clearCanvas | .importWs _ => False
  | _ => True

/-- A snapshot is taken, of what was there before or of what is there after. -/
def Snaps (s s' : Builder) : Prop :=
  ∃ x : Snapshot, (x.drawing = s.drawing ∨ x.drawing = s'.drawing) ∧
    s'.hist.items = (s.hist.snap x).items ∧
      s'.verSnaps = (if 10 ≤ s.verSnaps.length then s.verSnaps.tail else s.verSnaps) ++ [x]

/-- An action takes a snapshot, or leaves the snapshots and the versions as they are. -/
theorem snaps_perform (s : Builder) (a : Action) :
    Snaps s (perform s a) ∨
      ((perform s a).hist.items = s.hist.items ∧ (perform s a).verSnaps = s.verSnaps) := by
  cases a with
  | addNode type name cmd => exact Or.inl ⟨_, Or.inl rfl, rfl, rfl⟩
  | delNode id => exact Or.inl ⟨_, Or.inl rfl, rfl, rfl⟩
  | clearCanvas => exact Or.inl ⟨_, Or.inl rfl, rfl, rfl⟩
  | autoLayout =>
      rw [perform, Builder.autoLayout]
      split_ifs
      · exact Or.inr ⟨rfl, rfl⟩
      · exact Or.inl ⟨_, Or.inl rfl, rfl, rfl⟩
  | drag id width height moves =>
      rw [perform, Builder.drag]
      split_ifs
      · exact Or.inl ⟨_, Or.inr rfl, rfl, rfl⟩
      · exact Or.inr ⟨rfl, rfl⟩
  | snapCanvas lbl => exact Or.inl ⟨_, Or.inl rfl, rfl, rfl⟩
  | undoCanvas =>
      rw [perform, Builder.undoCanvas]
      split
      · exact Or.inr ⟨rfl, rfl⟩
      · rename_i hundo
        exact Or.inr ⟨(History.items_of_undo hundo).1, rfl⟩
  | redoCanvas =>
      rw [perform, Builder.redoCanvas]
      split
      · exact Or.inr ⟨rfl, rfl⟩
      · rename_i hredo
        exact Or.inr ⟨(History.items_of_redo hredo).1, rfl⟩
  | previewVer i =>
      rw [perform, Builder.previewVer]
      split_ifs
      · exact Or.inr ⟨rfl, rfl⟩
      · exact Or.inr ⟨rfl, rfl⟩
  | restoreVer =>
      rw [perform, Builder.restoreVer]
      split
      · exact Or.inr ⟨rfl, rfl⟩
      · rename_i v hv
        exact Or.inl ⟨⟨"Restore", v.drawing⟩, Or.inr rfl, rfl, rfl⟩
  | _ => exact Or.inr ⟨rfl, rfl⟩

/-- At most ten versions are kept. -/
theorem length_verSnaps_perform (h : s.verSnaps.length ≤ 10) (a : Action) :
    (perform s a).verSnaps.length ≤ 10 := by
  rcases snaps_perform s a with ⟨x, _, _, hver⟩ | ⟨_, hver⟩
  · rw [hver, List.length_append, List.length_singleton]
    split_ifs with hfull
    · rw [List.length_tail]
      omega
    · omega
  · rw [hver]
    exact h

/-- **No snapshot comes from nowhere.** -/
theorem snapshots_perform {P : Drawing → Prop} (hs : Everywhere P s)
    (ha : P (perform s a).drawing) : Everywhere P (perform s a) := by
  rcases snaps_perform s a with ⟨x, hx, hhist, hver⟩ | ⟨hhist, hver⟩
  · have hnew : P x.drawing := by
      rcases hx with hx | hx
      · rw [hx]
        exact hs.drawing
      · rw [hx]
        exact ha
    refine ⟨ha, fun y hy => ?_, fun y hy => ?_⟩
    · rw [hhist] at hy
      rcases History.mem_items_snap hy with rfl | hy
      · exact hnew
      · exact hs.hist y hy
    · rw [hver] at hy
      rcases List.mem_append.mp hy with hy | hy
      · refine hs.verSnaps y ?_
        split_ifs at hy
        · exact List.mem_of_mem_tail hy
        · exact hy
      · rw [List.mem_singleton.mp hy]
        exact hnew
  · refine ⟨ha, ?_, ?_⟩
    · rw [hhist]
      exact hs.hist
    · rw [hver]
      exact hs.verSnaps

/-- A change that leaves the identifiers alone leaves their list alone. -/
theorem map_id_change (d : Drawing) (id : String) {f : CanvasNode → CanvasNode}
    (hf : ∀ n, (f n).id = n.id) :
    (d.change id f).nodes.map CanvasNode.id = d.nodes.map CanvasNode.id := by
  apply List.ext_getElem?
  intro i
  simp only [Drawing.change, List.getElem?_map, List.getElem?_modify]
  cases d.nodes[i]? with
  | none => rfl
  | some n =>
      refine congrArg some ?_
      split_ifs
      · exact hf n
      · rfl

theorem map_id_arranged (d : Drawing) :
    d.arranged.nodes.map CanvasNode.id = d.nodes.map CanvasNode.id := by
  apply List.ext_getElem?
  intro i
  simp only [Drawing.arranged, List.getElem?_map, List.getElem?_mapIdx, Option.map_map]
  rfl

/-- A change of one node that leaves its identifier alone. -/
theorem Lawful.change {P : Nat → Drawing → Prop} (hP : Lawful P) {k : Nat} {d : Drawing}
    (id : String) {f : CanvasNode → CanvasNode} (hf : ∀ n, (f n).id = n.id) (hd : P k d) :
    P k (d.change id f) :=
  hP.relabel (map_id_change d id hf) rfl hd

/-- Any number of such changes, one for each move of the mouse. -/
theorem Lawful.changes {P : Nat → Drawing → Prop} (hP : Lawful P) {k : Nat} {α : Type}
    {f : α → CanvasNode → CanvasNode} (hf : ∀ a n, (f a n).id = n.id) (id : String)
    (moves : List α) {d : Drawing} (hd : P k d) :
    P k (moves.foldl (fun d a => d.change id (f a)) d) := by
  induction moves generalizing d with
  | nil => exact hd
  | cons a rest ih => exact ih (hP.change id (hf a) hd)

variable {P : Nat → Drawing → Prop}

/-- What is drawn, after an action that shows nothing from before. -/
theorem drawing_perform (hP : Lawful P) (hd : P s.nCount s.drawing) (ha : Forward a) :
    P (perform s a).nCount (perform s a).drawing := by
  cases a with
  | addNode type name cmd => exact hP.add type name cmd hd
  | delNode id => exact hP.delete id hd
  | clearCanvas => exact hP.empty
  | autoLayout =>
      rw [perform, Builder.autoLayout]
      split_ifs
      · exact hd
      · exact hP.relabel (map_id_arranged s.drawing) rfl hd
  | drag id width height moves =>
      have hid : ∀ move n, (Builder.dragTo width height move n).id = n.id := fun _ _ => rfl
      rw [perform, Builder.drag]
      split_ifs
      · exact hP.changes hid id moves hd
      · exact hd
  | snapCanvas lbl => exact hd
  | selNodeFn id => exact hd
  | updNode id isCmd val =>
      refine hP.change id (fun n => ?_) hd
      cases isCmd with
      | true => rfl
      | false => rfl
  | validated id allowed reason => exact hP.change id (fun n => rfl) hd
  | previewVer i =>
      rw [perform, Builder.previewVer]
      split_ifs
      · exact hd
      · exact hd
  | _ => exact ha.elim

/-- The actions that show something from before hand out no number. -/
theorem everywhere_back (hs : Everywhere (P s.nCount) s) :
    P s.undoCanvas.nCount s.undoCanvas.drawing ∧ P s.redoCanvas.nCount s.redoCanvas.drawing ∧
      P s.restoreVer.nCount s.restoreVer.drawing := by
  refine ⟨?_, ?_, ?_⟩
  · rw [Builder.undoCanvas]
    split
    · exact hs.drawing
    · rename_i hundo
      exact hs.hist _ (History.items_of_undo hundo).2
  · rw [Builder.redoCanvas]
    split
    · exact hs.drawing
    · rename_i hredo
      exact hs.hist _ (History.items_of_redo hredo).2
  · rw [Builder.restoreVer]
    split
    · exact hs.drawing
    · rename_i v hv
      obtain ⟨i, _, hi⟩ := Option.bind_eq_some_iff.mp hv
      exact hs.verSnaps v (List.mem_of_getElem? hi)

/-- A number is handed out or none, unless the canvas is cleared. -/
theorem count_perform (hP : Lawful P) (ha : Keeps a) {d : Drawing} (hd : P s.nCount d) :
    P (perform s a).nCount d := by
  cases a with
  | addNode type name cmd => exact hP.next hd
  | autoLayout =>
      rw [perform, Builder.autoLayout]
      split_ifs
      · exact hd
      · exact hd
  | drag id width height moves =>
      rw [perform, Builder.drag]
      split_ifs
      · exact hd
      · exact hd
  | undoCanvas =>
      rw [perform, Builder.undoCanvas]
      split
      · exact hd
      · exact hd
  | redoCanvas =>
      rw [perform, Builder.redoCanvas]
      split
      · exact hd
      · exact hd
  | previewVer i =>
      rw [perform, Builder.previewVer]
      split_ifs
      · exact hd
      · exact hd
  | restoreVer =>
      rw [perform, Builder.restoreVer]
      split
      · exact hd
      · exact hd
  | clearCanvas => exact ha.elim
  | _ => exact hd

/-- **One action.** -/
theorem everywhere_perform (hP : Lawful P) (hs : Everywhere (P s.nCount) s)
    (hcount : ∀ d, P s.nCount d → P (perform s a).nCount d)
    (himport : ∀ d, a = .importWs d → P s.nCount d) :
    Everywhere (P (perform s a).nCount) (perform s a) := by
  have hdrawing : P (perform s a).nCount (perform s a).drawing := by
    cases a with
    | undoCanvas => exact (everywhere_back hs).1
    | redoCanvas => exact (everywhere_back hs).2.1
    | restoreVer => exact (everywhere_back hs).2.2
    | importWs d => exact himport d rfl
    | _ => exact drawing_perform hP hs.drawing trivial
  exact snapshots_perform ⟨hcount _ hs.drawing, fun x hx => hcount _ (hs.hist x hx),
    fun x hx => hcount _ (hs.verSnaps x hx)⟩ hdrawing

/-- Every edge is between nodes of the drawing. -/
def Tied (d : Drawing) : Prop :=
  ∀ e ∈ d.edges, e.src ∈ d.nodes.map CanvasNode.id ∧ e.tgt ∈ d.nodes.map CanvasNode.id

theorem map_id_delete (d : Drawing) (id : String) :
    (d.delete id).nodes.map CanvasNode.id = (d.nodes.map CanvasNode.id).filter (· ≠ id) := by
  rw [List.filter_map]
  rfl

theorem lawful_tied : Lawful fun _ => Tied where
  empty e he := absurd he List.not_mem_nil
  next hd := hd
  add {k d} type name cmd hd e he := by
    have hids : (d.add (k + 1) type name cmd).nodes.map CanvasNode.id =
        d.nodes.map CanvasNode.id ++ [nodeId (k + 1)] := by
      rw [Drawing.add, List.map_append]
      rfl
    rw [hids]
    rcases List.mem_append.mp he with he | he
    · exact ⟨List.mem_append_left _ (hd e he).1, List.mem_append_left _ (hd e he).2⟩
    · obtain ⟨last, hlast, rfl⟩ := List.mem_map.mp he
      have hmem := List.mem_of_getLast? (Option.mem_toList.mp hlast)
      exact ⟨List.mem_append_left _ (List.mem_map_of_mem hmem), by simp⟩
  delete {k d} id hd e he := by
    rw [map_id_delete]
    obtain ⟨he, hne⟩ := List.mem_filter.mp he
    obtain ⟨hsrc, htgt⟩ := of_decide_eq_true hne
    exact ⟨List.mem_filter.mpr ⟨(hd e he).1, decide_eq_true hsrc⟩,
      List.mem_filter.mpr ⟨(hd e he).2, decide_eq_true htgt⟩⟩
  relabel hids hedges hd e he := by
    rw [hids]
    rw [hedges] at he
    exact hd e he

/-! ## Numbers -/

theorem nodeId_injective : Function.Injective nodeId := by
  intro i j h
  have htext := congrArg String.toList h
  simp only [nodeId, String.toList_append, toString, Nat.toList_repr] at htext
  exact Json.toDigits_injective (List.append_cancel_left htext)

/-- The nodes have rising numbers that were handed out, and every edge goes up. -/
def Numbered (k : Nat) (d : Drawing) : Prop :=
  ∃ numbers : List Nat, d.nodes.map CanvasNode.id = numbers.map nodeId ∧
    numbers.Pairwise (· < ·) ∧ (∀ n ∈ numbers, n ≤ k) ∧
      ∀ e ∈ d.edges, ∃ i ∈ numbers, ∃ j ∈ numbers, i < j ∧ e = ⟨nodeId i, nodeId j⟩

theorem lawful_numbered : Lawful Numbered where
  empty := ⟨[], rfl, List.Pairwise.nil, by simp, by simp⟩
  next := by
    rintro k d ⟨numbers, hids, hrising, hle, hedges⟩
    exact ⟨numbers, hids, hrising, fun n hn => Nat.le_succ_of_le (hle n hn), hedges⟩
  add := by
    rintro k d type name cmd ⟨numbers, hids, hrising, hle, hedges⟩
    refine ⟨numbers ++ [k + 1], ?_, ?_, ?_, ?_⟩
    · rw [Drawing.add, List.map_append, hids, List.map_append]
      rfl
    · rw [List.pairwise_append]
      refine ⟨hrising, List.pairwise_singleton _ _, fun n hn m hm => ?_⟩
      rw [List.mem_singleton.mp hm]
      exact Nat.lt_succ_of_le (hle n hn)
    · intro n hn
      rcases List.mem_append.mp hn with hn | hn
      · exact Nat.le_succ_of_le (hle n hn)
      · exact Nat.le_of_eq (List.mem_singleton.mp hn)
    · intro e he
      rcases List.mem_append.mp he with he | he
      · obtain ⟨i, hi, j, hj, hlt, rfl⟩ := hedges e he
        exact ⟨i, List.mem_append_left _ hi, j, List.mem_append_left _ hj, hlt, rfl⟩
      · -- the new edge comes from the last node, whose number was handed out before
        obtain ⟨last, hlast, rfl⟩ := List.mem_map.mp he
        have hmem := List.mem_map_of_mem (f := CanvasNode.id)
          (List.mem_of_getLast? (Option.mem_toList.mp hlast))
        rw [hids] at hmem
        obtain ⟨i, hi, hid⟩ := List.mem_map.mp hmem
        refine ⟨i, List.mem_append_left _ hi, k + 1, by simp, Nat.lt_succ_of_le (hle i hi), ?_⟩
        rw [hid]
  delete := by
    rintro k d id ⟨numbers, hids, hrising, hle, hedges⟩
    refine ⟨numbers.filter (nodeId · ≠ id), ?_, hrising.filter _, ?_, ?_⟩
    · rw [map_id_delete, hids, List.filter_map]
      rfl
    · exact fun n hn => hle n (List.mem_of_mem_filter hn)
    · intro e he
      obtain ⟨he, hne⟩ := List.mem_filter.mp he
      obtain ⟨hsrc, htgt⟩ := of_decide_eq_true hne
      obtain ⟨i, hi, j, hj, hlt, rfl⟩ := hedges e he
      exact ⟨i, List.mem_filter.mpr ⟨hi, decide_eq_true hsrc⟩, j,
        List.mem_filter.mpr ⟨hj, decide_eq_true htgt⟩, hlt, rfl⟩
  relabel := by
    rintro k d d' hids hedges ⟨numbers, hnumbers, hrest⟩
    rw [Numbered, hids, hedges]
    exact ⟨numbers, hnumbers, hrest⟩

/-- An edge from one node to another. -/
def Drawing.Linked (d : Drawing) (x y : String) : Prop := ⟨x, y⟩ ∈ d.edges

variable {k : Nat} {d : Drawing}

theorem Numbered.nodup (h : Numbered k d) : (d.nodes.map CanvasNode.id).Nodup := by
  obtain ⟨numbers, hids, hrising, _⟩ := h
  rw [hids]
  exact List.Nodup.map nodeId_injective (hrising.imp Nat.ne_of_lt)

/-- A path goes from a lower number to a higher one. -/
theorem Numbered.path_up (h : Numbered k d) {x y : String}
    (hpath : Relation.TransGen d.Linked x y) : ∃ i j, i < j ∧ x = nodeId i ∧ y = nodeId j := by
  obtain ⟨numbers, _, _, _, hedges⟩ := h
  induction hpath with
  | single hlink =>
      obtain ⟨i, _, j, _, hlt, he⟩ := hedges _ hlink
      obtain ⟨hx, hy⟩ := Edge.mk.inj he
      exact ⟨i, j, hlt, hx, hy⟩
  | tail _ hlink ih =>
      obtain ⟨i, j, hlt, hx, hy⟩ := ih
      obtain ⟨j', _, m, _, hlt', he⟩ := hedges _ hlink
      obtain ⟨hy', hz⟩ := Edge.mk.inj he
      obtain rfl := nodeId_injective (hy.symm.trans hy')
      exact ⟨i, m, Nat.lt_trans hlt hlt', hx, hz⟩

theorem Numbered.acyclic (h : Numbered k d) (x : String) : ¬ Relation.TransGen d.Linked x x := by
  intro hpath
  obtain ⟨i, j, hlt, hx, hy⟩ := h.path_up hpath
  exact absurd (nodeId_injective (hx.symm.trans hy)) (Nat.ne_of_lt hlt)

/-! ## Runs -/

theorem everywhere_start (hP : Lawful P) : Everywhere (P 0) {} where
  drawing := hP.empty
  hist _ hx := absurd hx List.not_mem_nil
  verSnaps _ hx := absurd hx List.not_mem_nil

/-- **Edges never dangle.**  Whatever is done in whatever order, if no file with a dangling edge
is imported, every edge has its two nodes: on the canvas, in every snapshot that undo and redo
can come to, and in each of the ten versions at most that can be restored. -/
theorem edges_tied {actions : List Action} (himport : ∀ d, .importWs d ∈ actions → Tied d) :
    Everywhere Tied (builder.run {} actions) ∧ (builder.run {} actions).verSnaps.length ≤ 10 := by
  have hinv : ∀ (s : Builder) (a : Action) (s' : Builder),
      Everywhere Tied s ∧ s.verSnaps.length ≤ 10 → (∀ d, a = .importWs d → Tied d) →
        builder.step s a = some s' → Everywhere Tied s' ∧ s'.verSnaps.length ≤ 10 := by
    rintro s a s' ⟨hs, hlength⟩ ha hstep
    obtain rfl := Option.some.inj hstep
    exact ⟨everywhere_perform lawful_tied hs (fun _ hd => hd) ha, length_verSnaps_perform hlength a⟩
  refine System.run_invariant_of hinv ⟨everywhere_start lawful_tied, Nat.zero_le 10⟩ ?_
  rintro a ha d rfl
  exact himport d ha

/-- Two nodes drawn, one deleted, a file with two more imported, and the deletion undone. -/
theorem edges_tied_example :
    Everywhere Tied (builder.run {} [.addNode "execution" "a" "", .addNode "execution" "b" "",
        .delNode "n1", .importWs ⟨[⟨"u", "ai", "", "", 0, 0, "pending", none⟩], [⟨"u", "u"⟩]⟩,
        .undoCanvas]) ∧
      (builder.run {} [.addNode "execution" "a" "", .addNode "execution" "b" "",
        .delNode "n1", .importWs ⟨[⟨"u", "ai", "", "", 0, 0, "pending", none⟩], [⟨"u", "u"⟩]⟩,
        .undoCanvas]).verSnaps.length ≤ 10 := by
  apply edges_tied
  intro d hd
  have hd' : d = ⟨[⟨"u", "ai", "", "", 0, 0, "pending", none⟩], [⟨"u", "u"⟩]⟩ := by
    simpa using hd
  rw [hd']
  simp [Tied]

theorem numbered_run {actions : List Action} (h : ∀ a ∈ actions, Keeps a) :
    Everywhere (Numbered (builder.run {} actions).nCount) (builder.run {} actions) := by
  refine System.run_invariant_of (I := fun s : Builder => Everywhere (Numbered s.nCount) s)
    (s := {}) ?_ (everywhere_start lawful_numbered) h
  intro s a s' hs ha hstep
  obtain rfl := Option.some.inj hstep
  refine everywhere_perform lawful_numbered hs (fun _ => count_perform lawful_numbered ha) ?_
  rintro d rfl
  exact ha.elim

/-- Different nodes have different identifiers, and no path leads from a node back to it. -/
def Sound (d : Drawing) : Prop :=
  (d.nodes.map CanvasNode.id).Nodup ∧ ∀ x, ¬ Relation.TransGen d.Linked x x

/-- **A workflow that is drawn is a DAG.**  Whatever is done in whatever order before the canvas
is first cleared, and after that whatever shows nothing from before, the nodes are told apart by
their identifiers and the edges form no cycle. -/
theorem drawn_sound {actions later : List Action} (h : ∀ a ∈ actions, Keeps a)
    (hlater : ∀ a ∈ later, Forward a) : Sound (builder.run {} (actions ++ later)).drawing := by
  have hnumbered : Numbered (builder.run {} (actions ++ later)).nCount
      (builder.run {} (actions ++ later)).drawing := by
    rw [System.run_append]
    refine System.run_invariant_of (I := fun s : Builder => Numbered s.nCount s.drawing) ?_
      (numbered_run h).drawing hlater
    intro s a s' hs ha hstep
    obtain rfl := Option.some.inj hstep
    exact drawing_perform lawful_numbered hs ha
  exact ⟨hnumbered.nodup, hnumbered.acyclic⟩

/-- Two nodes drawn and a step back, then the canvas cleared and a node drawn. -/
theorem drawn_sound_example :
    Sound (builder.run {} ([.addNode "execution" "a" "", .addNode "ai" "b" "", .undoCanvas] ++
      [.clearCanvas, .addNode "control" "c" ""])).drawing := by
  apply drawn_sound
  · simp [Keeps]
  · simp [Forward]

/-- Undo past a clearing, which has set the count back: two nodes have one identifier. -/
example : (builder.run {} [.addNode "execution" "a" "", .snapCanvas "Edit", .clearCanvas,
    .undoCanvas, .redoCanvas, .addNode "ai" "b" ""]).drawing.nodes.map CanvasNode.id =
      [nodeId 1, nodeId 1] := rfl

end Canvas
end Ucser
