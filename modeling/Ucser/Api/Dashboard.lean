import Mathlib.Logic.Function.Basic
import Ucser.Lib.AsyncQueue
import Ucser.Lib.Dict
import Ucser.Lib.EventStream
import Ucser.Lib.JsonUnicode
import Ucser.Lib.Transition

/-!
# The dashboard of the API: `event_generator` and `save_workflow` in `api/rest_server.py`

Every browser that opens `/events` gets a generator of its own, and all of them read from one
queue.  What is put there is handed to one of them, in the order it was put.

* `Connections`, `Action`, `connections` — the queue, the streams, and the tasks in any order.
* `Served` — what is known of a state: the events put are the ones handed out and the ones in
  the queue, and every stream is its greeting with the events handed to it.
* `served_run` — **every run keeps it.**
* `events_exact` — the events as the browsers read them, from streams that may break off.
* `saveWorkflow`, `workflows_eq_insert` — the workflows are a dictionary by identifier.
-/

namespace Ucser
namespace Dashboard

open Json (Value)

/-! ## The stream of events -/

/-- `f.read().hex()`. -/
def hex (bytes : List UInt8) : String :=
  String.ofList (bytes.flatMap fun b =>
    [Json.hexDigit (b.toNat / 16), Json.hexDigit (b.toNat % 16)])

/-- The public key of the control plane, from the file if it can be read. -/
def pubKey : Option (List UInt8) → String
  | some bytes => hex bytes
  | none => "98f4-2c7e90890a9b8c7d6e5f4c3b2a1"

/-- The event every connection starts with. -/
def cpKey (file : Option (List UInt8)) : Value :=
  .obj [("type", .str "cp_key"), ("key", .str (pubKey file))]

/-- What the generator yields for an event. -/
def chunk (event : Value) : List Char := EventStream.frame (Json.dumpsPlain event).toList

/-- The queue, the connections there have been with the key file each has read, those that
are open, and what each has been sent. -/
structure Connections where
  queue : AsyncQueue Nat Value := {}
  opened : List (Nat × Option (List UInt8)) := []
  live : List Nat := []
  sent : Nat → List Char := fun _ => []

/-- What may happen next. -/
inductive Action where
  /-- `event_queue.put(event)`. -/
  | put (event : Value)
  /-- A browser opens `/events`: the generator reads the key file and yields the greeting. -/
  | connect (k : Nat) (file : Option (List UInt8))
  /-- The generator goes on behind its `yield`, to `event_queue.get()`. -/
  | next (k : Nat)
  /-- The generator goes on in `event_queue.get()`. -/
  | resume (k : Nat)
  /-- The browser goes away. -/
  | disconnect (k : Nat)

/-- `log_to_dashboard`. -/
def logToDashboard (message level : String) : Action :=
  .put (.obj [("type", .str "log"), ("message", .str message), ("level", .str level)])

/-- A call of the queue: what is handed out is yielded. -/
def Connections.perform (s : Connections) (call : AsyncQueue.Call Nat Value) :
    Option Connections :=
  match s.queue.step call with
  | none => none
  | some (queue, none) => some { s with queue := queue }
  | some (queue, some (k, event)) =>
      some { s with queue := queue, sent := Function.update s.sent k (s.sent k ++ chunk event) }

/-- A step of the server. -/
def Connections.step (s : Connections) : Action → Option Connections
  | .put event => s.perform (.put event)
  | .connect k file =>
      if k ∈ s.opened.map Prod.fst then none
      else some { s with
        opened := s.opened ++ [(k, file)], live := k :: s.live,
        sent := Function.update s.sent k (chunk (cpKey file)) }
  | .next k => if k ∈ s.live then s.perform (.get k) else none
  | .resume k => s.perform (.resume k)
  | .disconnect k =>
      if k ∈ s.live then
        let left := { s with live := s.live.erase k }
        -- A generator that is not in `get` is closed where it stands.
        some ((left.perform (.cancel k)).getD left)
      else none

/-- The tasks of the server. -/
def connections : System Connections Action := ⟨Connections.step⟩

/-- The events an action puts into the queue. -/
def Action.posted : Action → List Value
  | .put event => [event]
  | _ => []

/-- What of the events handed out went to a connection. -/
def share (k : Nat) (delivered : List (Nat × Value)) : List Value :=
  (delivered.filter fun p => p.1 = k).map Prod.snd

/-- What is known of a state in which `posted` has been put and `delivered` handed out. -/
structure Served (s : Connections) (posted : List Value) (delivered : List (Nat × Value)) :
    Prop where
  items : posted = delivered.map Prod.snd ++ s.queue.items
  alert : s.queue.Alert
  tasks : ∀ k ∈ s.queue.getters ++ s.queue.woken, k ∈ s.opened.map Prod.fst
  live : ∀ k ∈ s.live, k ∈ s.opened.map Prod.fst
  known : ∀ p ∈ delivered, p.1 ∈ s.opened.map Prod.fst
  sent : ∀ p ∈ s.opened, s.sent p.1 = (cpKey p.2 :: share p.1 delivered).flatMap chunk

variable {s s' : Connections} {posted : List Value} {delivered : List (Nat × Value)}
  {call : AsyncQueue.Call Nat Value}

theorem share_concat (k : Nat) (delivered : List (Nat × Value)) (p : Nat × Value) :
    share k (delivered ++ [p]) = share k delivered ++ if p.1 = k then [p.2] else [] := by
  rw [share, List.filter_append, List.map_append, List.filter_singleton]
  split_ifs with h
  · simp [share, h]
  · simp [share, h]

theorem share_eq_nil {k : Nat} (h : ∀ p ∈ delivered, p.1 ≠ k) : share k delivered = [] := by
  rw [share, List.filter_eq_nil_iff.mpr (by simpa using h), List.map_nil]

/-- A call of the queue by a task that is known keeps what is known. -/
theorem Served.perform (h : Served s posted delivered)
    (hcall : ∀ k, call = .get k → k ∈ s.opened.map Prod.fst) (hstep : s.perform call = some s') :
    ∃ out : Option (Nat × Value), Served s' (posted ++ call.added) (delivered ++ out.toList) := by
  unfold Connections.perform at hstep
  split at hstep
  · cases hstep
  · rename_i queue hqueue
    obtain rfl := Option.some.inj hstep
    have hitems := AsyncQueue.step_items hqueue
    refine ⟨none, ?_⟩
    rw [Option.toList_none, List.append_nil]
    exact {
      items := by rw [h.items, List.append_assoc, hitems]; rfl
      alert := AsyncQueue.step_alert h.alert hqueue
      tasks := fun k hk => (AsyncQueue.mem_tasks_of_step hqueue hk).elim (h.tasks k) (hcall k)
      live := h.live
      known := h.known
      sent := h.sent }
  · rename_i queue k event hqueue
    obtain rfl := Option.some.inj hstep
    have hitems := AsyncQueue.step_items hqueue
    have hopened : k ∈ s.opened.map Prod.fst := by
      rcases AsyncQueue.asks_of_step hqueue with hget | rfl
      · exact hcall k hget
      · exact h.tasks k (List.mem_append_right _ (AsyncQueue.mem_woken_of_resume hqueue))
    refine ⟨some (k, event), ?_⟩
    rw [Option.toList_some]
    exact {
      items := by
        rw [h.items, List.append_assoc, hitems, List.map_append, List.append_assoc]
        rfl
      alert := AsyncQueue.step_alert h.alert hqueue
      tasks := fun k hk => (AsyncQueue.mem_tasks_of_step hqueue hk).elim (h.tasks k) (hcall k)
      live := h.live
      known := List.forall_mem_append.mpr
        ⟨h.known, List.forall_mem_singleton.mpr hopened⟩
      sent := by
        rintro ⟨k', file⟩ hp
        rw [share_concat, ← List.cons_append, List.flatMap_append]
        by_cases heq : k = k'
        · subst heq
          rw [if_pos rfl, List.flatMap_singleton]
          dsimp only
          rw [Function.update_self, h.sent _ hp]
        · rw [if_neg heq, List.flatMap_nil, List.append_nil]
          dsimp only
          rw [Function.update_of_ne (Ne.symm heq), h.sent _ hp] }

/-- **A step keeps what is known**: it hands out one event at most. -/
theorem Served.step {a : Action} (h : Served s posted delivered)
    (hstep : connections.step s a = some s') :
    ∃ out : Option (Nat × Value), Served s' (posted ++ a.posted) (delivered ++ out.toList) := by
  cases a with
  | put event =>
      have hperform : s.perform (.put event) = some s' := hstep
      exact h.perform (fun k hk => by cases hk) hperform
  | connect k file =>
      simp only [connections, Connections.step] at hstep
      split_ifs at hstep with hold
      obtain rfl := Option.some.inj hstep
      have hgrows : ∀ j ∈ s.opened.map Prod.fst, j ∈ (s.opened ++ [(k, file)]).map Prod.fst := by
        intro j hj
        rw [List.map_append]
        exact List.mem_append_left _ hj
      have hfresh : ∀ p ∈ delivered, p.1 ≠ k := fun p hp heq => hold (heq ▸ h.known p hp)
      refine ⟨none, ?_⟩
      rw [Option.toList_none, List.append_nil]
      exact {
        items := (List.append_nil _).trans h.items
        alert := h.alert
        tasks := fun j hj => hgrows j (h.tasks j hj)
        live := List.forall_mem_cons.mpr
          ⟨by simp, fun j hj => hgrows j (h.live j hj)⟩
        known := fun p hp => hgrows _ (h.known p hp)
        sent := by
          refine List.forall_mem_append.mpr ⟨fun p hp => ?_, List.forall_mem_singleton.mpr ?_⟩
          · have hne : p.1 ≠ k := fun heq => hold (heq ▸ List.mem_map_of_mem hp)
            dsimp only
            rw [Function.update_of_ne hne, h.sent p hp]
          · dsimp only
            rw [Function.update_self, share_eq_nil hfresh, List.flatMap_singleton] }
  | next k =>
      simp only [connections, Connections.step] at hstep
      split_ifs at hstep with hlive
      refine h.perform (fun j hj => ?_) hstep
      obtain rfl := AsyncQueue.Call.get.inj hj
      exact h.live _ hlive
  | resume k =>
      have hperform : s.perform (.resume k) = some s' := hstep
      exact h.perform (fun j hj => by cases hj) hperform
  | disconnect k =>
      simp only [connections, Connections.step] at hstep
      split_ifs at hstep
      obtain rfl := Option.some.inj hstep
      have hleft : Served { s with live := s.live.erase k } posted delivered :=
        { h with live := fun j hj => h.live j (List.mem_of_mem_erase hj) }
      cases hperform : Connections.perform { s with live := s.live.erase k } (.cancel k) with
      | none =>
          refine ⟨none, ?_⟩
          rw [Option.toList_none, List.append_nil]
          exact (List.append_nil posted).symm ▸ hleft
      | some left => exact hleft.perform (fun j hj => by cases hj) hperform

/-- An action that is not enabled puts nothing. -/
theorem posted_of_none {a : Action} (h : connections.step s a = none) : a.posted = [] := by
  cases a with
  | put event => cases h
  | connect k file => rfl
  | next k => rfl
  | resume k => rfl
  | disconnect k => rfl

/-- **Every run serves**: its events were handed out in the order they were put, each to one
connection, or are in the queue.  By induction on the run, by `Served.step`. -/
theorem served_run (actions : List Action) :
    ∃ delivered, Served (connections.run {} actions) (actions.flatMap Action.posted) delivered := by
  induction actions using List.reverseRecOn with
  | nil =>
      exact ⟨[], {
        items := rfl
        alert := fun h => absurd rfl h
        tasks := List.forall_mem_nil _
        live := List.forall_mem_nil _
        known := List.forall_mem_nil _
        sent := List.forall_mem_nil _ }⟩
  | append_singleton actions a ih =>
      obtain ⟨delivered, hserved⟩ := ih
      rw [System.run_concat, List.flatMap_append, List.flatMap_singleton]
      cases hstep : connections.step (connections.run {} actions) a with
      | none =>
          rw [System.exec_of_none hstep, posted_of_none hstep, List.append_nil]
          exact ⟨delivered, hserved⟩
      | some s' =>
          rw [System.exec_of_step hstep]
          obtain ⟨out, hout⟩ := hserved.step hstep
          exact ⟨_, hout⟩

/-- What a browser makes of a stream: `JSON.parse(ev.data)` for each of its events. -/
def read (stream : List Char) : List (Option Value) :=
  (EventStream.events stream).map fun data => Json.loads (String.ofList data)

theorem unbroken_dumps (event : Value) : EventStream.Unbroken (Json.dumpsPlain event).toList where
  lf := fun h => absurd (Json.isPrintable_of_mem_dumpsPlain event _ h) (by decide)
  cr := fun h => absurd (Json.isPrintable_of_mem_dumpsPlain event _ h) (by decide)

theorem loads_texts {events : List Value} (h : ∀ e ∈ events, e.wellFormed = true) :
    (events.map fun e => (Json.dumpsPlain e).toList).map
      (fun data => Json.loads (String.ofList data)) = events.map some := by
  rw [List.map_map]
  refine List.map_congr_left fun e he => ?_
  rw [Function.comp_apply, String.ofList_toList, Json.loads_dumpsPlain (h e he)]

theorem flatMap_chunk (events : List Value) :
    events.flatMap chunk =
      (events.map fun e => (Json.dumpsPlain e).toList).flatMap EventStream.frame := by
  rw [List.flatMap_map]
  rfl

/-- **A stream of events is read back**, and one that breaks off up to an event. -/
theorem read_cut {events : List Value} (h : ∀ e ∈ events, e.wellFormed = true)
    {received : List Char} (hcut : received <+: events.flatMap chunk) :
    read received <+: events.map some ∧
      (received = events.flatMap chunk → read received = events.map some) := by
  have hunbroken : ∀ data ∈ events.map (fun e => (Json.dumpsPlain e).toList),
      EventStream.Unbroken data :=
    List.forall_mem_map.mpr fun e _ => unbroken_dumps e
  rw [flatMap_chunk] at hcut ⊢
  rw [← loads_texts h]
  refine ⟨(EventStream.events_cut hunbroken hcut).map _, ?_⟩
  rintro rfl
  have hframes := EventStream.events_frames hunbroken []
  rw [List.append_nil] at hframes
  rw [read, hframes]
  exact congrArg _ (List.append_nil _)

theorem wellFormed_cpKey (file : Option (List UInt8)) : (cpKey file).wellFormed = true := rfl

theorem wellFormed_log (message level : String) :
    ∀ e ∈ (logToDashboard message level).posted, e.wellFormed = true :=
  List.forall_mem_singleton.mpr rfl

/-- **Every event is read once at most, by one browser, as it was put.**  In every run the
events put are those handed out, in order and each to one connection, and those that wait; a
browser reads its greeting and the events handed to it, and of a stream that has broken off the
first of them.  While events wait and a browser waits, a browser is about to be served. -/
theorem events_exact (actions : List Action)
    (h : ∀ e ∈ actions.flatMap Action.posted, e.wellFormed = true) :
    ∃ delivered : List (Nat × Value),
      actions.flatMap Action.posted =
        delivered.map Prod.snd ++ (connections.run {} actions).queue.items ∧
      (∀ p ∈ delivered, p.1 ∈ (connections.run {} actions).opened.map Prod.fst) ∧
      (∀ p ∈ (connections.run {} actions).opened,
        read ((connections.run {} actions).sent p.1) =
            (cpKey p.2 :: share p.1 delivered).map some ∧
          ∀ received, received <+: (connections.run {} actions).sent p.1 →
            read received <+: (cpKey p.2 :: share p.1 delivered).map some) ∧
      ((connections.run {} actions).queue.items ≠ [] →
        (connections.run {} actions).queue.getters ≠ [] →
        (connections.run {} actions).queue.woken ≠ []) := by
  obtain ⟨delivered, hserved⟩ := served_run actions
  have hshare : ∀ p : Nat × Option (List UInt8), ∀ e ∈ cpKey p.2 :: share p.1 delivered,
      e.wellFormed = true := by
    refine fun p => List.forall_mem_cons.mpr ⟨wellFormed_cpKey p.2, fun e he => h e ?_⟩
    have hsub : share p.1 delivered ⊆ delivered.map Prod.snd :=
      List.map_subset _ (List.filter_subset_self _)
    rw [hserved.items]
    exact List.mem_append_left _ (hsub he)
  refine ⟨delivered, hserved.items, hserved.known, fun p hp => ?_, hserved.alert.exists_woken⟩
  rw [hserved.sent p hp]
  exact ⟨(read_cut (hshare p) List.prefix_rfl).2 rfl,
    fun received hreceived => (read_cut (hshare p) hreceived).1⟩

/-- Two messages and two browsers: the second waits for a third message. -/
def someStreams : List Action :=
  [logToDashboard "started" "info", .connect 0 none, .next 0, .connect 1 (some [0x0A]), .next 0,
    .next 1, logToDashboard "done" "info", .resume 0]

theorem events_someStreams :
    ∃ delivered : List (Nat × Value),
      someStreams.flatMap Action.posted =
        delivered.map Prod.snd ++ (connections.run {} someStreams).queue.items ∧
      (∀ p ∈ delivered, p.1 ∈ (connections.run {} someStreams).opened.map Prod.fst) ∧
      (∀ p ∈ (connections.run {} someStreams).opened,
        read ((connections.run {} someStreams).sent p.1) =
            (cpKey p.2 :: share p.1 delivered).map some ∧
          ∀ received, received <+: (connections.run {} someStreams).sent p.1 →
            read received <+: (cpKey p.2 :: share p.1 delivered).map some) ∧
      ((connections.run {} someStreams).queue.items ≠ [] →
        (connections.run {} someStreams).queue.getters ≠ [] →
        (connections.run {} someStreams).queue.woken ≠ []) :=
  events_exact someStreams
    (List.forall_mem_cons.mpr ⟨rfl, List.forall_mem_singleton.mpr rfl⟩)

/-! ## The workflows -/

/-- `WorkflowModel`.  A node or an edge is any object. -/
structure Workflow where
  id : String
  name : String
  description : String
  nodes : List (List (String × Value))
  edges : List (List (String × Value))

/-- A request of `POST /api/workflows`: the identifier may be missing. -/
structure WorkflowRequest where
  id : Option String := none
  name : String
  description : String
  nodes : List (List (String × Value))
  edges : List (List (String × Value))

/-- The loop of `save_workflow`: the first entry with the identifier is replaced. -/
def replaceFirst (wf : Workflow) : List Workflow → Option (List Workflow)
  | [] => none
  | existing :: rest =>
      if existing.id = wf.id then some (wf :: rest)
      else (replaceFirst wf rest).map (existing :: ·)

/-- The workflow to save; `hex` is `uuid.uuid4().hex[:8]`. -/
def WorkflowRequest.named (req : WorkflowRequest) (hex : String) : Workflow where
  id := match req.id with
    | some id => if id = "" then "wf-" ++ hex else id
    | none => "wf-" ++ hex
  name := req.name
  description := req.description
  nodes := req.nodes
  edges := req.edges

/-- `save_workflow`: the workflows afterwards, and the answer. -/
def saveWorkflow (workflows : List Workflow) (req : WorkflowRequest) (hex : String) :
    List Workflow × Workflow :=
  let wf := req.named hex
  match replaceFirst wf workflows with
  | some replaced => (replaced, wf)
  | none => (workflows ++ [wf], wf)

/-- A node of a workflow. -/
def node (id type name command : String) : List (String × Value) :=
  [("id", .str id), ("type", .str type), ("name", .str name), ("command", .str command)]

/-- An edge of a workflow. -/
def edge (source target : String) : List (String × Value) :=
  [("source", .str source), ("target", .str target)]

/-- `workflows_db` when the server starts. -/
def initialWorkflows : List Workflow :=
  [{ id := "wf-integrity-check"
     name := "FS Integrity Audit"
     description := "Scans workspace files, generates hashes, and validates policies."
     nodes := [node "n1" "execution" "Scan Files" "bash:ls -la /workspace",
       node "n2" "security" "Audit Hash" "bash:sha256sum /workspace/*",
       node "n3" "control" "Notify Gate" "bash:echo 'Files checked'"]
     edges := [edge "n1" "n2", edge "n2" "n3"] },
   { id := "wf-sys-info"
     name := "Host Telemetry Poll"
     description := "Gathers cross-platform hardware status."
     nodes := [node "np1" "execution" "Check Linux CPU" "bash:cat /proc/cpuinfo",
       node "np2" "execution" "Check Win Proc"
         "powershell:Get-Process | Select-Object -First 5"]
     edges := [] }]

/-- The workflows with their identifiers in front. -/
def entries (workflows : List Workflow) : List (String × Workflow) :=
  workflows.map fun wf => (wf.id, wf)

/-- The workflows after a run of saves. -/
def savedWorkflows (saves : List (WorkflowRequest × String)) : List Workflow :=
  saves.foldl (fun workflows save => (saveWorkflow workflows save.1 save.2).1) initialWorkflows

/-- The same as a dictionary. -/
def savedDict (saves : List (WorkflowRequest × String)) : Dict String Workflow :=
  saves.foldl (fun d save => d.insert (save.1.named save.2).id (save.1.named save.2))
    ⟨entries initialWorkflows, by decide⟩

theorem entries_cons (wf : Workflow) (workflows : List Workflow) :
    entries (wf :: workflows) = (wf.id, wf) :: entries workflows := rfl

theorem replaceFirst_of_notMem {wf : Workflow} {workflows : List Workflow}
    (h : wf.id ∉ (entries workflows).map Prod.fst) : replaceFirst wf workflows = none := by
  induction workflows with
  | nil => rfl
  | cons existing rest ih =>
      obtain ⟨hne, hrest⟩ := List.ne_and_not_mem_of_not_mem_cons h
      rw [replaceFirst, if_neg (Ne.symm hne), ih hrest, Option.map_none]

/-- The first entry with the identifier is the only one. -/
theorem replaceFirst_of_mem {wf : Workflow} {workflows : List Workflow}
    (hnodup : ((entries workflows).map Prod.fst).Nodup)
    (h : wf.id ∈ (entries workflows).map Prod.fst) :
    ∃ replaced, replaceFirst wf workflows = some replaced ∧
      entries replaced =
        (entries workflows).map fun p => if p.1 = wf.id then (p.1, wf) else p := by
  induction workflows with
  | nil => cases h
  | cons existing rest ih =>
      obtain ⟨hfirst, hrest⟩ := List.nodup_cons.mp hnodup
      by_cases heq : existing.id = wf.id
      · refine ⟨wf :: rest, by rw [replaceFirst, if_pos heq], ?_⟩
        have hsame : (entries rest).map (fun p => if p.1 = wf.id then (p.1, wf) else p) =
            entries rest := by
          refine (List.map_congr_left fun p hp => if_neg fun hid => hfirst ?_).trans (List.map_id _)
          dsimp only
          rw [heq, ← hid]
          exact List.mem_map_of_mem hp
        rw [entries_cons, entries_cons, List.map_cons, if_pos heq, heq, hsame]
      · obtain ⟨replaced, hreplaced, hentries⟩ :=
          ih hrest (List.mem_of_ne_of_mem (Ne.symm heq) h)
        refine ⟨existing :: replaced, by rw [replaceFirst, if_neg heq, hreplaced]; rfl, ?_⟩
        rw [entries_cons, entries_cons, List.map_cons, if_neg heq, hentries]

/-- **A save is an assignment to a dictionary.** -/
theorem entries_saveWorkflow {d : Dict String Workflow} {workflows : List Workflow}
    (h : entries workflows = d.items) (req : WorkflowRequest) (hex : String) :
    entries (saveWorkflow workflows req hex).1 =
      (d.insert (req.named hex).id (req.named hex)).items := by
  have hnodup : ((entries workflows).map Prod.fst).Nodup := h ▸ d.nodup
  rw [saveWorkflow, Dict.insert]
  by_cases hmem : (req.named hex).id ∈ d.keys
  · have hlisted : (req.named hex).id ∈ (entries workflows).map Prod.fst := by rwa [h]
    obtain ⟨replaced, hreplaced, hentries⟩ := replaceFirst_of_mem hnodup hlisted
    rw [dif_pos hmem, hreplaced]
    rw [h] at hentries
    exact hentries
  · rw [dif_neg hmem, replaceFirst_of_notMem (by rwa [h])]
    dsimp only
    rw [entries, List.map_append, ← h]
    rfl

/-- **The workflows are a dictionary by identifier**, after every run of saves: no identifier
stands twice, a save under a known one replaces its workflow where it stands, and any other
save goes to the end. -/
theorem workflows_eq_insert (saves : List (WorkflowRequest × String)) :
    entries (savedWorkflows saves) = (savedDict saves).items := by
  induction saves using List.reverseRecOn with
  | nil => rfl
  | append_singleton saves save ih =>
      rw [savedWorkflows, savedDict, List.foldl_append, List.foldl_append]
      exact entries_saveWorkflow ih save.1 save.2

end Dashboard
end Ucser
