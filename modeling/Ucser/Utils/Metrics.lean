import Mathlib.Algebra.Order.Ring.Int
import Mathlib.Data.List.Sort
import Mathlib.Order.MinMax
import Ucser.Lib.Dict
import Ucser.Lib.Window

/-!
# The metrics of a process: `utils/observability/metrics.py`

Counters and windows of latencies under one lock, and the telemetry that feeds them.  Every
method holds the lock for its whole body, so whatever the threads do is a sequence of calls.

* `MetricsCollector`, `Call`, `observe` — the collector and its methods.
* `sinceReset`, `Holds` — the calls since the last `reset`, and what they leave.
* `holds_observe` — **after every sequence of calls a counter is a sum, and a window holds the
  last thousand latencies.**
* `snapshot_exact` — what `get_snapshot` then reports.
* `TelemetryProvider`, `telemetry_accounts` — the counters of the telemetry add up.
-/

namespace Ucser

/-! ## The collector -/

/-- `MetricsCollector`; a latency is any value of an order. -/
structure MetricsCollector (δ : Type) where
  counts : Dict String Int := .empty
  latencies : Dict String (List δ) := .empty

/-- The statistics of a window. -/
structure LatencyStats (δ : Type) where
  avg : δ
  max : δ
  p95 : δ
  count : Nat

/-- What `get_snapshot` reports. -/
structure MetricsSnapshot (δ : Type) where
  counts : Dict String Int
  latencies : List (String × LatencyStats δ)

namespace MetricsCollector

variable {δ : Type}

/-- `increment`. -/
def increment (m : MetricsCollector δ) (name : String) (value : Int := 1) : MetricsCollector δ :=
  { m with counts := m.counts.insert name ((m.counts.get? name).getD 0 + value) }

/-- `record_latency`. -/
def recordLatency (m : MetricsCollector δ) (name : String) (value : δ) : MetricsCollector δ :=
  { m with
    latencies := m.latencies.insert name
      (Window.push 1000 ((m.latencies.get? name).getD []) value) }

/-- `reset`. -/
def reset (_ : MetricsCollector δ) : MetricsCollector δ := {}

/-- A method that changes the collector. -/
inductive Call (δ : Type) where
  | increment (name : String) (value : Int)
  | recordLatency (name : String) (value : δ)
  | reset

/-- A method is called. -/
def call (m : MetricsCollector δ) : Call δ → MetricsCollector δ
  | .increment name value => m.increment name value
  | .recordLatency name value => m.recordLatency name value
  | .reset => m.reset

/-- The collector after a sequence of calls. -/
def observe (calls : List (Call δ)) : MetricsCollector δ := calls.foldl call {}

section Snapshot

variable [LinearOrder δ]

/-- `int(count * 0.95)`, in doubles, for the counts a window can have. -/
def p95Index (count : Nat) : Nat := 19 * count / 20

/-- The entry of a window that is not empty; `mean` is `sum(values) / len(values)`. -/
def statsOf (mean : List δ → δ) : List δ → Option (LatencyStats δ)
  | [] => none
  | first :: rest =>
      let values := first :: rest
      some {
        avg := mean values
        max := rest.foldl max first
        p95 :=
          if 20 ≤ values.length then
            ((values.mergeSort (· ≤ ·))[p95Index values.length]?).getD first
          else values.getLastD first
        count := values.length }

/-- `get_snapshot`. -/
def getSnapshot (mean : List δ → δ) (m : MetricsCollector δ) : MetricsSnapshot δ where
  counts := m.counts
  latencies := m.latencies.items.filterMap fun p => (statsOf mean p.2).map fun stats => (p.1, stats)

end Snapshot

/-! ## What the calls leave -/

/-- The calls since the last `reset`. -/
def sinceReset (calls : List (Call δ)) : List (Call δ) :=
  calls.foldl (fun recent c => match c with | .reset => [] | _ => recent ++ [c]) []

/-- What a call adds to a counter. -/
def Call.added (name : String) : Call δ → Option Int
  | .increment name' value => if name' = name then some value else none
  | _ => none

/-- What a call adds to a window. -/
def Call.latency (name : String) : Call δ → Option δ
  | .recordLatency name' value => if name' = name then some value else none
  | _ => none

/-- What is added to a counter since the last `reset`. -/
def increments (calls : List (Call δ)) (name : String) : List Int :=
  (sinceReset calls).filterMap (Call.added name)

/-- The latencies recorded under a name since the last `reset`. -/
def recorded (calls : List (Call δ)) (name : String) : List δ :=
  (sinceReset calls).filterMap (Call.latency name)

/-- What the calls leave of a list of entries: nothing where there was none. -/
def entry {α β : Type} (f : List α → β) (added : List α) : Option β :=
  if added = [] then none else some (f added)

variable {calls : List (Call δ)} {name : String}

@[simp] theorem sinceReset_increment (calls : List (Call δ)) (name : String) (value : Int) :
    sinceReset (calls ++ [.increment name value]) =
      sinceReset calls ++ [.increment name value] := by
  simp [sinceReset]

@[simp] theorem sinceReset_recordLatency (calls : List (Call δ)) (name : String) (value : δ) :
    sinceReset (calls ++ [.recordLatency name value]) =
      sinceReset calls ++ [.recordLatency name value] := by
  simp [sinceReset]

@[simp] theorem sinceReset_reset (calls : List (Call δ)) :
    sinceReset (calls ++ [.reset]) = [] := by
  simp [sinceReset]

@[simp] theorem entry_nil {α β : Type} (f : List α → β) : entry f [] = none := rfl

@[simp] theorem entry_concat {α β : Type} (f : List α → β) (added : List α) (value : α) :
    entry f (added ++ [value]) = some (f (added ++ [value])) := by
  simp [entry]

theorem getD_entry {α β : Type} (f : List α → β) (added : List α) :
    (entry f added).getD (f []) = f added := by
  unfold entry
  split_ifs with h
  · rw [h]
    rfl
  · rfl

/-- The state of a collector after a sequence of calls. -/
structure Holds (m : MetricsCollector δ) (calls : List (Call δ)) : Prop where
  counts : ∀ name, m.counts.get? name = entry List.sum (increments calls name)
  latencies : ∀ name, m.latencies.get? name =
    entry (fun values => values.rtake 1000) (recorded calls name)

theorem Holds.call {m : MetricsCollector δ} (h : Holds m calls) (c : Call δ) :
    Holds (m.call c) (calls ++ [c]) := by
  cases c with
  | increment name value =>
      constructor
      · intro name'
        simp only [MetricsCollector.call, MetricsCollector.increment, Dict.get?_insert, h.counts,
          increments, sinceReset_increment, List.filterMap_append]
        have hsum := getD_entry List.sum (increments calls name)
        by_cases heq : name' = name
        · subst heq
          simp only [if_pos, List.filterMap_cons, List.filterMap_nil, Call.added, entry_concat,
            List.sum_append, List.sum_singleton]
          exact congrArg (fun n => some (n + value)) hsum
        · simp [heq, Ne.symm heq, Call.added]
      · intro name'
        simp [MetricsCollector.call, MetricsCollector.increment, h.latencies, recorded,
          List.filterMap_cons, Call.latency]
  | recordLatency name value =>
      constructor
      · intro name'
        simp [MetricsCollector.call, MetricsCollector.recordLatency, h.counts, increments,
          List.filterMap_cons, Call.added]
      · intro name'
        simp only [MetricsCollector.call, MetricsCollector.recordLatency, Dict.get?_insert,
          h.latencies, recorded, sinceReset_recordLatency, List.filterMap_append]
        have hwindow := getD_entry (fun values : List δ => values.rtake 1000) (recorded calls name)
        simp only [List.rtake_nil] at hwindow
        by_cases heq : name' = name
        · subst heq
          simp only [if_pos, List.filterMap_cons, List.filterMap_nil, Call.latency, entry_concat]
          rw [← Window.push_rtake]
          exact congrArg (fun values => some (Window.push 1000 values value)) hwindow
        · simp [heq, Ne.symm heq, Call.latency]
  | reset =>
      constructor
      · intro name'
        simp [MetricsCollector.call, MetricsCollector.reset, increments, Dict.empty, Dict.get?]
      · intro name'
        simp [MetricsCollector.call, MetricsCollector.reset, recorded, Dict.empty, Dict.get?]

/-- **What every sequence of calls leaves.**  By induction from its end. -/
theorem holds_observe (calls : List (Call δ)) : Holds (observe calls) calls := by
  induction calls using List.reverseRecOn with
  | nil => exact ⟨fun _ => rfl, fun _ => rfl⟩
  | append_singleton calls c ih =>
      rw [observe, List.foldl_append]
      exact ih.call c

/-! ## What is reported -/

section Report

variable [LinearOrder δ] {mean : List δ → δ} {values : List δ} {stats : LatencyStats δ}

/-- The statistics are those of the values: `p95` is the last value of fewer than twenty; of
more, at most nineteen in twenty are less, and more than that are not greater. -/
structure Describes (mean : List δ → δ) (values : List δ) (stats : LatencyStats δ) : Prop where
  avg : stats.avg = mean values
  count : stats.count = values.length
  max_mem : stats.max ∈ values
  le_max : ∀ v ∈ values, v ≤ stats.max
  p95_mem : stats.p95 ∈ values
  p95_last : values.length < 20 → values.getLast? = some stats.p95
  p95_lt : 20 ≤ values.length → 20 * values.countP (· < stats.p95) ≤ 19 * values.length
  p95_le : 20 ≤ values.length → 19 * values.length < 20 * values.countP (· ≤ stats.p95)

theorem foldl_max_mem (first : δ) (rest : List δ) : rest.foldl max first ∈ first :: rest := by
  induction rest generalizing first with
  | nil => simp
  | cons v rest ih =>
      rw [List.foldl_cons]
      have hmem := ih (max first v)
      rcases max_choice first v with h | h
      · rw [h] at hmem ⊢
        rcases List.mem_cons.mp hmem with heq | hrest
        · simp [heq]
        · simp [hrest]
      · rw [h] at hmem ⊢
        exact List.mem_cons_of_mem _ hmem

theorem le_foldl_max (first : δ) (rest : List δ) :
    ∀ v ∈ first :: rest, v ≤ rest.foldl max first := by
  induction rest generalizing first with
  | nil => simp
  | cons w rest ih =>
      intro v hv
      rw [List.foldl_cons]
      have hmax := ih (max first w) (max first w) List.mem_cons_self
      rcases List.mem_cons.mp hv with rfl | hv
      · exact (le_max_left v w).trans hmax
      · rcases List.mem_cons.mp hv with rfl | hv
        · exact (le_max_right first v).trans hmax
        · exact ih _ v (List.mem_cons_of_mem _ hv)

theorem statsOf_eq_none_iff : statsOf mean values = none ↔ values = [] := by
  cases values with
  | nil => simp [statsOf]
  | cons first rest => simp [statsOf]

/-- Of few values the last one is reported. -/
theorem p95_of_lt (h : statsOf mean values = some stats) (hfew : values.length < 20) :
    values.getLast? = some stats.p95 := by
  cases values with
  | nil => cases h
  | cons first rest =>
      obtain rfl := Option.some.inj h
      dsimp only
      rw [if_neg (by omega), List.getLast?_cons, List.getLastD_cons, List.getLastD_eq_getLast?]

/-- Of twenty or more the one at the place of `p95`, as they are sorted. -/
theorem p95_of_le (h : statsOf mean values = some stats) (hmany : 20 ≤ values.length) :
    ∃ hk : p95Index values.length < (values.mergeSort (· ≤ ·)).length,
      stats.p95 = (values.mergeSort (· ≤ ·))[p95Index values.length] := by
  cases values with
  | nil => cases h
  | cons first rest =>
      have hk : p95Index (first :: rest).length < ((first :: rest).mergeSort (· ≤ ·)).length := by
        rw [List.length_mergeSort, p95Index]
        omega
      obtain rfl := Option.some.inj h
      refine ⟨hk, ?_⟩
      dsimp only
      rw [if_pos hmany, List.getElem?_eq_getElem hk, Option.getD_some]

/-- **The statistics of a window describe it.** -/
theorem describes_statsOf (h : statsOf mean values = some stats) :
    Describes mean values stats := by
  have hperm : (values.mergeSort (· ≤ ·)).Perm values := List.mergeSort_perm _ _
  have hsorted : (values.mergeSort (· ≤ ·)).Pairwise (· ≤ ·) := List.pairwise_mergeSort' _ _
  cases values with
  | nil => cases h
  | cons first rest =>
      have hstats := Option.some.inj h
      constructor
      · rw [← hstats]
      · rw [← hstats]
      · rw [← hstats]
        exact foldl_max_mem first rest
      · rw [← hstats]
        exact le_foldl_max first rest
      · rcases Nat.lt_or_ge (first :: rest).length 20 with hfew | hmany
        · exact List.mem_of_getLast? (p95_of_lt h hfew)
        · obtain ⟨hk, hp95⟩ := p95_of_le h hmany
          rw [hp95]
          exact hperm.subset (List.getElem_mem hk)
      · exact p95_of_lt h
      · intro hmany
        obtain ⟨hk, hp95⟩ := p95_of_le h hmany
        have hrank := Window.countP_lt_sorted hsorted _ hk
        rw [← hp95, hperm.countP_eq, p95Index] at hrank
        omega
      · intro hmany
        obtain ⟨hk, hp95⟩ := p95_of_le h hmany
        have hrank := Window.lt_countP_sorted hsorted _ hk
        rw [← hp95, hperm.countP_eq, p95Index] at hrank
        omega

theorem mem_getSnapshot_iff {m : MetricsCollector δ} :
    (name, stats) ∈ (m.getSnapshot mean).latencies ↔
      ∃ values, m.latencies.get? name = some values ∧ statsOf mean values = some stats := by
  simp only [getSnapshot, List.mem_filterMap, Option.map_eq_some_iff]
  constructor
  · rintro ⟨⟨name', values⟩, hmem, stats', hstats, heq⟩
    obtain ⟨rfl, rfl⟩ := Prod.mk.inj heq
    exact ⟨values, Dict.mem_items_iff.mp hmem, hstats⟩
  · rintro ⟨values, hget, hstats⟩
    exact ⟨(name, values), Dict.mem_items_iff.mpr hget, stats, hstats, rfl⟩

end Report

/-! ## The telemetry -/

/-- A counter, zero where there is none. -/
def counter (m : MetricsCollector δ) (name : String) : Int := (m.counts.get? name).getD 0

/-- The counters of the adapters. -/
def isExecCount (name : String) : Bool := "exec.count.".toList.isPrefixOf name.toList

@[simp] theorem counter_increment (m : MetricsCollector δ) (name name' : String) (value : Int) :
    (m.increment name value).counter name' =
      m.counter name' + if name' = name then value else 0 := by
  unfold counter increment
  rw [Dict.get?_insert]
  by_cases h : name' = name
  · simp [h]
  · simp [h]

@[simp] theorem counter_recordLatency (m : MetricsCollector δ) (name name' : String) (value : δ) :
    (m.recordLatency name value).counter name' = m.counter name' := rfl

/-- What the entries that meet a condition come to. -/
def sumOf (P : String → Bool) (items : List (String × Int)) : Int :=
  ((items.filter fun p => P p.1).map Prod.snd).sum

@[simp] theorem sumOf_nil (P : String → Bool) : sumOf P [] = 0 := rfl

@[simp] theorem sumOf_cons (P : String → Bool) (p : String × Int) (items : List (String × Int)) :
    sumOf P (p :: items) = (if P p.1 then p.2 else 0) + sumOf P items := by
  by_cases h : P p.1
  · simp [sumOf, h]
  · simp [sumOf, h]

@[simp] theorem sumOf_append (P : String → Bool) (items items' : List (String × Int)) :
    sumOf P (items ++ items') = sumOf P items + sumOf P items' := by
  simp [sumOf]

/-- One entry grows.  By induction on the entries, only one of which has the name. -/
theorem sumOf_map (P : String → Bool) {name : String} {old : Int} (value : Int)
    {items : List (String × Int)} (hnodup : (items.map Prod.fst).Nodup)
    (h : items.lookup name = some old) :
    sumOf P (items.map fun p => if p.1 = name then (p.1, old + value) else p) =
      sumOf P items + if P name then value else 0 := by
  induction items with
  | nil => cases h
  | cons p items ih =>
      obtain ⟨hfirst, hrest⟩ := List.nodup_cons.mp hnodup
      obtain ⟨k, v⟩ := p
      rw [Dict.lookup_cons_eq] at h
      by_cases hk : name = k
      · subst hk
        rw [if_pos rfl] at h
        obtain rfl := Option.some.inj h
        have hsame : items.map (fun p => if p.1 = name then (p.1, v + value) else p) = items := by
          refine (List.map_congr_left fun p hp => if_neg fun heq => hfirst ?_).trans (List.map_id _)
          exact List.mem_map.mpr ⟨p, hp, heq⟩
        rw [List.map_cons, if_pos rfl, hsame, sumOf_cons, sumOf_cons]
        by_cases hP : P name
        · simp [hP]
          omega
        · simp [hP]
      · rw [if_neg hk] at h
        rw [List.map_cons, if_neg (Ne.symm hk), sumOf_cons, sumOf_cons, ih hrest h]
        omega

/-- What the entries that meet a condition come to, when one of them grows or is made. -/
theorem sumOf_insert (P : String → Bool) (d : Dict String Int) (name : String) (value : Int) :
    sumOf P (d.insert name ((d.get? name).getD 0 + value)).items =
      sumOf P d.items + if P name then value else 0 := by
  unfold Dict.insert
  by_cases h : name ∈ d.keys
  · obtain ⟨old, hold⟩ := Dict.mem_keys_iff.mp h
    rw [dif_pos h, hold]
    exact sumOf_map P value d.nodup hold
  · rw [dif_neg h, Dict.get?_eq_none_iff.mpr h]
    simp

end MetricsCollector

/-- `TelemetryProvider.emit_execution_metric`: what is known of an execution. -/
structure Emission (δ : Type) where
  ucerId : String
  adapter : String
  durationMs : δ
  success : Bool

namespace TelemetryProvider

variable {δ : Type}

open MetricsCollector

/-- The local aggregation of `emit_execution_metric`. -/
def emitExecutionMetric (m : MetricsCollector δ) (e : Emission δ) : MetricsCollector δ :=
  ((m.increment ("exec.count." ++ e.adapter)).increment
    (if e.success then "exec.success" else "exec.failure")).recordLatency
      ("exec.latency." ++ e.adapter) e.durationMs

/-- What the process does with its collector: an execution is reported, or all is reset. -/
def telemetry (run : List (Option (Emission δ))) : MetricsCollector δ :=
  run.foldl (fun m a => match a with | some e => emitExecutionMetric m e | none => m.reset) {}

/-- The executions reported since the last reset. -/
def emitted (run : List (Option (Emission δ))) : List (Emission δ) :=
  run.foldl (fun es a => match a with | some e => es ++ [e] | none => []) []

/-- What the counters of the adapters come to. -/
def execTotal (m : MetricsCollector δ) : Int := sumOf isExecCount m.counts.items

theorem isExecCount_exec (adapter : String) : isExecCount ("exec.count." ++ adapter) = true := by
  rw [isExecCount, String.toList_append, List.isPrefixOf_iff_prefix]
  exact List.prefix_append _ _

theorem exec_ne {name : String} (h : isExecCount name = false) (adapter : String) :
    name ≠ "exec.count." ++ adapter := by
  rintro rfl
  rw [isExecCount_exec] at h
  cases h

theorem execTotal_increment (m : MetricsCollector δ) (name : String) (value : Int) :
    execTotal (m.increment name value) = execTotal m + if isExecCount name then value else 0 :=
  sumOf_insert isExecCount m.counts name value

/-- The counters of the telemetry, for the executions reported. -/
structure Accounts (m : MetricsCollector δ) (es : List (Emission δ)) : Prop where
  success : m.counter "exec.success" = es.countP (·.success)
  failure : m.counter "exec.failure" = es.countP (!·.success)
  adapters : ∀ adapter, m.counter ("exec.count." ++ adapter) = es.countP (·.adapter = adapter)
  total : execTotal m = es.length

/-- The counter of how an execution ended is not one of an adapter. -/
theorem isExecCount_ending (success : Bool) :
    isExecCount (if success then "exec.success" else "exec.failure") = false := by
  cases success with
  | true => decide
  | false => decide

theorem Accounts.emit {m : MetricsCollector δ} {es : List (Emission δ)} (h : Accounts m es)
    (e : Emission δ) : Accounts (emitExecutionMetric m e) (es ++ [e]) := by
  have hsuccess : isExecCount "exec.success" = false := by decide
  have hfailure : isExecCount "exec.failure" = false := by decide
  constructor
  · simp only [emitExecutionMetric, counter_recordLatency, counter_increment, h.success,
      if_neg (exec_ne hsuccess e.adapter), List.countP_append, List.countP_singleton]
    cases hend : e.success with
    | true => simp
    | false => simp
  · simp only [emitExecutionMetric, counter_recordLatency, counter_increment, h.failure,
      if_neg (exec_ne hfailure e.adapter), List.countP_append, List.countP_singleton]
    cases hend : e.success with
    | true => simp
    | false => simp
  · intro adapter
    have hne := exec_ne (isExecCount_ending e.success) adapter
    simp only [emitExecutionMetric, counter_recordLatency, counter_increment, h.adapters,
      if_neg (Ne.symm hne), String.append_right_inj, List.countP_append, List.countP_singleton]
    by_cases heq : adapter = e.adapter
    · simp [heq]
    · simp [heq, Ne.symm heq]
  · have htotal : execTotal (emitExecutionMetric m e) = execTotal m + 1 := by
      show execTotal ((m.increment ("exec.count." ++ e.adapter)).increment
        (if e.success then "exec.success" else "exec.failure")) = execTotal m + 1
      rw [execTotal_increment, execTotal_increment, isExecCount_exec, isExecCount_ending]
      simp
    rw [htotal, h.total, List.length_append, List.length_singleton]
    omega

/-- **The counters add up.**  After every sequence of reports and resets the counters of how
executions ended and those of the adapters count the executions reported since the last reset:
each of them is counted once under each. -/
theorem telemetry_accounts (run : List (Option (Emission δ))) :
    (telemetry run).counter "exec.success" = (emitted run).countP (·.success) ∧
    (telemetry run).counter "exec.failure" = (emitted run).countP (!·.success) ∧
    (∀ adapter, (telemetry run).counter ("exec.count." ++ adapter) =
      (emitted run).countP (·.adapter = adapter)) ∧
    execTotal (telemetry run) =
      (telemetry run).counter "exec.success" + (telemetry run).counter "exec.failure" := by
  have haccounts : Accounts (telemetry run) (emitted run) := by
    induction run using List.reverseRecOn with
    | nil => exact ⟨rfl, rfl, fun _ => rfl, rfl⟩
    | append_singleton run a ih =>
        rw [telemetry, emitted, List.foldl_append, List.foldl_append]
        cases a with
        | none => exact ⟨rfl, rfl, fun _ => rfl, rfl⟩
        | some e => exact ih.emit e
  refine ⟨haccounts.success, haccounts.failure, haccounts.adapters, ?_⟩
  have hlength : (emitted run).length = _ :=
    List.length_eq_countP_add_countP fun e : Emission δ => e.success
  rw [haccounts.total, haccounts.success, haccounts.failure]
  simp at hlength ⊢
  omega

end TelemetryProvider
end Ucser
