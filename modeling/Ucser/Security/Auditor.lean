import Ucser.Core.Types

/-!
# Auditing Bash commands: `security/auditor.py`

`BashASTAuditor` parses a command with `bashlex`, walks the syntax tree for
commands and redirects, and then searches the lower-cased text for a list of
tokens.  `bashlex` is a package outside the repository: a parameter from command
texts to trees.

* `Node` — the trees, every kind of node with the attribute its children hang on.
* `visitNode`, `audit` — the visitor, which follows `parts` and nothing else, and
  the audit built on it.
* `Node.visited`, `Node.subnodes` — the nodes `parts` leads to, and all nodes.
* `mem_visitNode` — **what the visitor adds** is what it adds at each node that
  `parts` leads to; `mem_audit_capabilities` says what an audit reports.
* `audit_complete_iff` — the commands whose audit misses nothing the tree
  contains: those where every demand is also met along `parts` or by a token.
-/

namespace Ucser

/-- `AuditResult`. -/
structure AuditResult where
  isSafe : Bool
  reasons : List String
  capabilities : Finset Capability
  deriving DecidableEq

namespace Bash

/-! ## Syntax trees -/

/-- A node of a `bashlex` tree. -/
inductive Node where
  /-- A word and the expansions inside it. -/
  | word (word : String) (parts : List Node)
  /-- An assignment in front of a command. -/
  | assignment (word : String) (parts : List Node)
  /-- A node without children: an operator, a pipe, a reserved word, a parameter,
  a tilde, a here-document. -/
  | leaf (kind : String)
  /-- A redirection and, unless it is a descriptor, the word it goes to. -/
  | redirect (output : Option Node)
  /-- A simple command: assignments, words and redirections. -/
  | command (parts : List Node)
  /-- A node with its children in `parts`: a pipeline, a list, an `if`, a
  `while`, an `until`, a `for`, a function. -/
  | branch (kind : String) (parts : List Node)
  /-- A subshell, a brace group or the wrapper of an `if`, `while` or `for`:
  children in `list` and `redirects`. -/
  | compound (list : List Node) (redirects : List Node)
  /-- `$(…)` or backquotes: the child is in `command`. -/
  | commandsubstitution (command : Node)
  /-- `<(…)` or `>(…)`: the child is in `command`. -/
  | processsubstitution (command : Node)
  deriving Inhabited

namespace Node

mutual
/-- A node and all nodes below it, whichever attribute they hang on. -/
def subnodes : Node → List Node
  | word w parts => word w parts :: subnodesList parts
  | assignment w parts => assignment w parts :: subnodesList parts
  | leaf kind => [leaf kind]
  | redirect none => [redirect none]
  | redirect (some output) => redirect (some output) :: subnodes output
  | command parts => command parts :: subnodesList parts
  | branch kind parts => branch kind parts :: subnodesList parts
  | compound list redirects =>
      compound list redirects :: (subnodesList list ++ subnodesList redirects)
  | commandsubstitution c => commandsubstitution c :: subnodes c
  | processsubstitution c => processsubstitution c :: subnodes c

/-- `subnodes` of every node of a list. -/
def subnodesList : List Node → List Node
  | [] => []
  | n :: ns => subnodes n ++ subnodesList ns
end

mutual
/-- A node and the nodes below it that `parts` leads to. -/
def visited : Node → List Node
  | word w parts => word w parts :: visitedList parts
  | assignment w parts => assignment w parts :: visitedList parts
  | command parts => command parts :: visitedList parts
  | branch kind parts => branch kind parts :: visitedList parts
  | leaf kind => [leaf kind]
  | redirect output => [redirect output]
  | compound list redirects => [compound list redirects]
  | commandsubstitution c => [commandsubstitution c]
  | processsubstitution c => [processsubstitution c]

/-- `visited` of every node of a list. -/
def visitedList : List Node → List Node
  | [] => []
  | n :: ns => visited n ++ visitedList ns
end

end Node

/-! ## The visitor -/

/-- `FORBIDDEN_COMMANDS`. -/
def forbiddenCommands : List String := ["rm", "unlink", "shred", "mkfs", "dd"]

/-- The commands the visitor takes to read the file system. -/
def readCommands : List String := ["cat", "ls", "grep", "find", "type", "dir"]

/-- The commands the visitor takes to write to it. -/
def writeCommands : List String :=
  ["touch", "cp", "mv", "mkdir", "rm", "unlink", "shred", "mkfs", "dd"]

/-- The commands the visitor takes to use the network. -/
def networkCommands : List String := ["curl", "wget"]

/-- `caps.add(cap)` under a condition. -/
def addIf (p : Bool) (cap : Capability) (caps : Finset Capability) : Finset Capability :=
  if p then insert cap caps else caps

/-- What a command's name adds. -/
def visitName (name : String) (caps : Finset Capability) : Finset Capability :=
  addIf (networkCommands.contains name) .network
    (addIf (writeCommands.contains name) .writeFs
      (addIf (readCommands.contains name) .fsRead
        (addIf (forbiddenCommands.contains name) .writeFs caps)))

/-- What a command node adds: only its first part is looked at, and only if that
is a word. -/
def visitCommand (parts : List Node) (caps : Finset Capability) : Finset Capability :=
  match parts with
  | .word name _ :: _ => visitName name caps
  | _ => caps

mutual
/-- `_visit_node`.  The reasons it is handed are never added to. -/
def visitNode : Node → Finset Capability → Finset Capability
  | .command parts, caps => visitParts parts (visitCommand parts caps)
  | .redirect _, caps => insert .writeFs caps
  | .word _ parts, caps => visitParts parts caps
  | .assignment _ parts, caps => visitParts parts caps
  | .branch _ parts, caps => visitParts parts caps
  | .leaf _, caps => caps
  | .compound _ _, caps => caps
  | .commandsubstitution _, caps => caps
  | .processsubstitution _, caps => caps

/-- The loop over `parts`. -/
def visitParts : List Node → Finset Capability → Finset Capability
  | [], caps => caps
  | n :: ns, caps => visitParts ns (visitNode n caps)
end

/-! ## The audit -/

/-- The tokens that make a text read the file system. -/
def readTokens : List String := ["cat ", "ls ", "grep ", "find ", "type ", "dir "]

/-- The tokens that make a text write to it. -/
def writeTokens : List String :=
  ["touch ", "cp ", "mv ", "mkdir ", "rm ", "unlink", "shred", "mkfs", "dd"]

/-- The tokens that make a text use the network. -/
def networkTokens : List String :=
  ["curl", "wget", "invoke-webrequest", "invoke-restmethod", "iwr", "irm"]

/-- `any(token in lowered for token in tokens)`. -/
def anyToken (tokens : List String) (lowered : List Char) : Bool :=
  tokens.any (Text.contains lowered)

/-- `BashASTAuditor.audit`. -/
def audit (bashlex : String → Except String (List Node)) (command : String) : AuditResult :=
  match bashlex command with
  | .error e => ⟨false, ["Parse Error: " ++ e], ∅⟩
  | .ok parts =>
      let lowered := Text.lower command
      let caps := visitParts parts {.exec}
      let caps := addIf (anyToken readTokens lowered) .fsRead caps
      let caps := addIf (anyToken writeTokens lowered) .writeFs caps
      let caps := addIf (anyToken networkTokens lowered) .network caps
      ⟨true, [], caps⟩

/-! ## What the visitor adds -/

/-- What the visitor adds at one node. -/
def Node.caps : Node → Finset Capability
  | .command parts => visitCommand parts ∅
  | .redirect _ => {.writeFs}
  | _ => ∅

theorem mem_addIf {p : Bool} {cap c : Capability} {caps : Finset Capability} :
    c ∈ addIf p cap caps ↔ (p = true ∧ c = cap) ∨ c ∈ caps := by
  unfold addIf
  by_cases hp : p = true
  · simp [hp]
  · simp [hp]

theorem mem_visitCommand {parts : List Node} {caps : Finset Capability} {c : Capability} :
    c ∈ visitCommand parts caps ↔ c ∈ visitCommand parts ∅ ∨ c ∈ caps := by
  unfold visitCommand
  split
  · simp only [visitName, mem_addIf, Finset.notMem_empty, or_false]
    tauto
  · simp

theorem exists_mem_append {l l' : List Node} {c : Capability} :
    (∃ m ∈ l ++ l', c ∈ m.caps) ↔ (∃ m ∈ l, c ∈ m.caps) ∨ ∃ m ∈ l', c ∈ m.caps := by
  simp only [List.mem_append, or_and_right, exists_or]

theorem exists_mem_cons {n : Node} {l : List Node} {c : Capability} :
    (∃ m ∈ n :: l, c ∈ m.caps) ↔ c ∈ n.caps ∨ ∃ m ∈ l, c ∈ m.caps := by
  simp only [List.mem_cons, or_and_right, exists_or, exists_eq_left]

mutual
/-- **What the visitor adds** is what it adds at each node `parts` leads to. -/
theorem mem_visitNode : ∀ (n : Node) (caps : Finset Capability) (c : Capability),
    c ∈ visitNode n caps ↔ (∃ m ∈ n.visited, c ∈ m.caps) ∨ c ∈ caps
  | .command parts, caps, c => by
      rw [visitNode, mem_visitParts, mem_visitCommand, Node.visited, exists_mem_cons]
      show _ ↔ (c ∈ visitCommand parts ∅ ∨ _) ∨ _
      rw [or_left_comm, or_assoc]
  | .word w parts, caps, c => by
      rw [visitNode, mem_visitParts, Node.visited, exists_mem_cons]
      simp [Node.caps]
  | .assignment w parts, caps, c => by
      rw [visitNode, mem_visitParts, Node.visited, exists_mem_cons]
      simp [Node.caps]
  | .branch kind parts, caps, c => by
      rw [visitNode, mem_visitParts, Node.visited, exists_mem_cons]
      simp [Node.caps]
  | .redirect output, caps, c => by simp [visitNode, Node.visited, Node.caps]
  | .leaf kind, caps, c => by simp [visitNode, Node.visited, Node.caps]
  | .compound list redirects, caps, c => by simp [visitNode, Node.visited, Node.caps]
  | .commandsubstitution n, caps, c => by simp [visitNode, Node.visited, Node.caps]
  | .processsubstitution n, caps, c => by simp [visitNode, Node.visited, Node.caps]

theorem mem_visitParts : ∀ (ns : List Node) (caps : Finset Capability) (c : Capability),
    c ∈ visitParts ns caps ↔ (∃ m ∈ Node.visitedList ns, c ∈ m.caps) ∨ c ∈ caps
  | [], caps, c => by simp [visitParts, Node.visitedList]
  | n :: ns, caps, c => by
      rw [visitParts, mem_visitParts, mem_visitNode, Node.visitedList, exists_mem_append,
        or_left_comm, or_assoc]
end

/-- The tokens searched for on account of a capability. -/
def tokensOf : Capability → List String
  | .fsRead => readTokens
  | .writeFs => writeTokens
  | .network => networkTokens
  | _ => []

/-- **What an audit reports** of a command that parses: what the visitor adds at
some node `parts` leads to, what a token in the text stands for, and `EXEC`. -/
theorem mem_audit_capabilities {bashlex : String → Except String (List Node)} {command : String}
    {ast : List Node} (h : bashlex command = .ok ast) (c : Capability) :
    c ∈ (audit bashlex command).capabilities ↔
      (∃ m ∈ Node.visitedList ast, c ∈ m.caps) ∨
        anyToken (tokensOf c) (Text.lower command) = true ∨ c = .exec := by
  simp only [audit, h, mem_addIf, mem_visitParts, Finset.mem_singleton]
  cases c <;> simp [tokensOf, anyToken, or_comm]

/-! ## What a complete audit would report -/

/-- The word that names a simple command: the first of its parts that is a word,
past assignments and redirections. -/
def commandWord : List Node → Option String
  | [] => none
  | .word name _ :: _ => some name
  | _ :: parts => commandWord parts

/-- What the name of a command demands. -/
def nameDemands (name : String) : Finset Capability :=
  addIf (["cat", "ls", "grep", "find"].contains name) .fsRead
    (addIf (networkCommands.contains name) .network
      (addIf (writeCommands.contains name) .writeFs ∅))

/-- What a node asks an audit to report: a redirect and a writing command
`WRITE_FS`, a network command `NETWORK`, a reading command `FS_READ`. -/
def Node.demands : Node → Finset Capability
  | .redirect _ => {.writeFs}
  | .command parts => (commandWord parts).elim ∅ nameDemands
  | _ => ∅

/-- An audit that reports whatever some node of the tree, at any depth, demands. -/
def AuditComplete (bashlex : String → Except String (List Node)) (command : String)
    (ast : List Node) : Prop :=
  ∀ m ∈ Node.subnodesList ast, ∀ c ∈ m.demands, c ∈ (audit bashlex command).capabilities

/-- A demand the audit has two ways to meet: at some node `parts` leads to, or by
a token in the text. -/
def Met (command : String) (ast : List Node) (c : Capability) : Prop :=
  (∃ m ∈ Node.visitedList ast, c ∈ m.caps) ∨ anyToken (tokensOf c) (Text.lower command) = true

theorem mem_nameDemands {name : String} {c : Capability} (hc : c ∈ nameDemands name) :
    c ∈ visitName name ∅ ∧ c ≠ .exec := by
  simp only [nameDemands, mem_addIf, Finset.notMem_empty, or_false] at hc
  simp only [visitName, mem_addIf, Finset.notMem_empty, or_false]
  rcases hc with ⟨hname, rfl⟩ | ⟨hname, rfl⟩ | ⟨hname, rfl⟩
  · refine ⟨Or.inr (Or.inr (Or.inl ⟨?_, rfl⟩)), by decide⟩
    rw [List.contains_iff_mem] at hname ⊢
    revert hname
    exact fun hname => List.mem_append_left ["type", "dir"] hname
  · exact ⟨Or.inl ⟨hname, rfl⟩, by decide⟩
  · exact ⟨Or.inr (Or.inl ⟨hname, rfl⟩), by decide⟩

/-- A demand is never `EXEC`, which every audit reports. -/
theorem ne_exec_of_mem_demands {m : Node} {c : Capability} (hc : c ∈ m.demands) : c ≠ .exec := by
  cases m with
  | redirect output =>
      rintro rfl
      exact absurd hc (by simp [Node.demands])
  | command parts =>
      rw [Node.demands] at hc
      cases hw : commandWord parts with
      | none => simp [hw] at hc
      | some name =>
          rw [hw] at hc
          exact (mem_nameDemands hc).2
  | _ => simp [Node.demands] at hc

/-- A redirect, and a command whose name stands first, meet their own demand
wherever the visitor gets to see them. -/
theorem demands_subset_caps {m : Node}
    (h : ∀ parts, m = .command parts → ∃ name inner rest, parts = .word name inner :: rest) :
    m.demands ⊆ m.caps := by
  intro c hc
  cases m with
  | redirect output => exact hc
  | command parts =>
      obtain ⟨name, inner, rest, rfl⟩ := h parts rfl
      exact (mem_nameDemands hc).1
  | _ => simp [Node.demands] at hc

/-- **Where the audit is complete.**  Of a command that parses, the audit reports
everything the tree demands exactly when every demand is also met at some node
`parts` leads to, or by a token in the text. -/
theorem audit_complete_iff {bashlex : String → Except String (List Node)} {command : String}
    {ast : List Node} (h : bashlex command = .ok ast) :
    AuditComplete bashlex command ast ↔
      ∀ m ∈ Node.subnodesList ast, ∀ c ∈ m.demands, Met command ast c := by
  refine forall_congr' fun m => forall_congr' fun _ => forall_congr' fun c => ?_
  refine forall_congr' fun hc => ?_
  rw [mem_audit_capabilities h, ← or_assoc]
  exact or_iff_left (ne_exec_of_mem_demands hc)

/-- `(rm<TAB>x)` as `bashlex` parses it: the command hangs on the subshell's
`list`. -/
def subshell : Node :=
  .compound [.leaf "reservedword", .command [.word "rm" [], .word "x" []], .leaf "reservedword"] []

/-- The audit of `(rm<TAB>x)` does not report `WRITE_FS`: the visitor does not
enter the subshell and no token has a tab in it. -/
theorem audit_subshell_incomplete :
    ¬ AuditComplete (fun _ => .ok [subshell]) "(rm\tx)" [subshell] := by
  intro hcomplete
  have hmem : Node.command [.word "rm" [], .word "x" []] ∈ Node.subnodesList [subshell] := by
    simp [subshell, Node.subnodes, Node.subnodesList]
  have hwrite := hcomplete _ hmem .writeFs (by decide)
  revert hwrite
  decide

/-- The two sides of `audit_complete_iff` on `rm<TAB>x` without the subshell: the
visitor meets the demand at the command itself. -/
theorem audit_complete_simple :
    AuditComplete (fun _ => .ok [.command [.word "rm" [], .word "x" []]]) "rm\tx"
      [.command [.word "rm" [], .word "x" []]] := by
  refine (audit_complete_iff rfl).mpr ?_
  intro m hm c hc
  simp only [Node.subnodesList, Node.subnodes, List.append_nil, List.nil_append,
    List.cons_append, List.mem_cons, List.not_mem_nil, or_false] at hm
  refine Or.inl ⟨.command [.word "rm" [], .word "x" []], by simp [Node.visitedList, Node.visited],
    ?_⟩
  rcases hm with rfl | rfl | rfl
  · exact demands_subset_caps (fun parts hp => ⟨"rm", [], _, (Node.command.inj hp).symm⟩) hc
  · simp [Node.demands] at hc
  · simp [Node.demands] at hc

end Bash
end Ucser
