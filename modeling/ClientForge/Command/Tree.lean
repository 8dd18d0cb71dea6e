import ClientForge.Command.Builder

/-!
# The command tree

Assembling evaluates the command builders that the root reaches, and yields the tree of commands that the
client will have. A builder that reaches itself is a cycle; one that is reached twice on different ways is
not. Assembling also tells which bodies it had to plan.
-/

namespace ClientForge.Command

open ClientForge.Graph ClientForge.Plan

structure Node where
  name : String
  description : String := ""
  /-- The builder that established the command. -/
  method : Method
  /-- Whether the command runs a request. -/
  executable : Bool := false
  http : Option String := none
  options : List CommandOption := []
  children : List Node := []
deriving Repr

namespace Node

/-- The child with a name, in any case. -/
def child (n : Node) (name : String) : Option Node := n.children.find? fun c => Text.foldEq c.name name

/-- The descendant at a path. -/
def find (n : Node) : List String → Option Node
  | [] => some n
  | name :: path => (n.child name).bind (·.find path)

/-- The option with a name. -/
def option? (n : Node) (name : String) : Option CommandOption := n.options.find? (·.name == name)

mutual

/-- The node and all below it, depth first, each with its path. -/
def walk (path : List String) : Node → List (List String × Node)
  | ⟨name, description, method, executable, http, options, children⟩ =>
    (path, ⟨name, description, method, executable, http, options, children⟩) :: walkAll path children

def walkAll (path : List String) : List Node → List (List String × Node)
  | [] => []
  | ⟨name, description, method, executable, http, options, children⟩ :: ns =>
    walk (path ++ [name]) ⟨name, description, method, executable, http, options, children⟩ ++
      walkAll path ns

end

/-- How many commands the tree has. -/
def count (n : Node) : Nat := (n.walk []).length

/-- Adds a child, unless there is one of its name. -/
def add (g : Graph) (n c : Node) : Except Failure Node :=
  if (n.child c.name).isSome then structural (.duplicateCommand n.name c.name) (g.methodName c.method)
  else .ok { n with children := n.children ++ [c] }

/-- The node with a description, unless it has one. -/
def described (n : Node) (text : String) : Node :=
  if n.description.isEmpty then { n with description := text } else n

end Node

/-! ### Assembling -/

/-- Assembling with the methods whose bodies were planned so far, latest first. -/
abbrev Assembly := ExceptT Failure (StateM (List Method))

/-- A result that does not depend on what was planned. -/
def Assembly.of {α : Type} (x : Except Failure α) : Assembly α := ExceptT.mk (pure x)

/-- Executable commands and containers. -/
structure Commands where
  executables : List Node := []
  containers : List Node := []

def Commands.append (a b : Commands) : Commands :=
  ⟨a.executables ++ b.executables, a.containers ++ b.containers⟩

/-- Ways to evaluate the builders that a builder refers to. -/
structure Evaluator where
  command : Method → Assembly Node
  items : Method → Assembly Commands

/-- The body of a builder, which is planned only once. -/
def bodyOf (e : Engine) (m : Method) : Assembly Body := do
  unless (← get).any (·.id == m.id) do modify (m :: ·)
  Assembly.of (e.synthesize m)

section Evaluate

variable (e : Engine) (v : Evaluator)

/-- Adds children one after the other. -/
def addAll (n : Node) (children : List Node) : Assembly Node :=
  Assembly.of (children.foldlM (Node.add e.context.graph) n)

/-- Evaluates the sub-commands in order. Those added directly are children at once. -/
def evaluateSubCommands (direct : Bool) :
    List SubCommand → Node → Commands → Assembly (Node × Commands)
  | [], n, found => pure (n, found)
  | s :: ss, n, found => do
    if s.items then
      let more ← v.items s.method
      evaluateSubCommands direct ss n (found.append more)
    else
      let child ← v.command s.method
      if direct then
        let n ← Assembly.of (n.add e.context.graph child)
        evaluateSubCommands direct ss n found
      else if isExecutable e.context.graph s.method then
        evaluateSubCommands direct ss n (found.append ⟨[child], []⟩)
      else
        evaluateSubCommands direct ss n (found.append ⟨[], [child]⟩)

/-- The order in which commands become children. -/
def Commands.ordered (c : Commands) (sorted : Bool) : List Node :=
  c.executables ++
    if sorted then c.containers.mergeSort fun a b => decide (a.name ≤ b.name) else c.containers

def evaluateAdd (n : Node) (add : AddSubCommands) : Assembly Node := do
  let (n, found) ← evaluateSubCommands e v add.direct add.commands n {}
  addAll e n (found.ordered add.sortContainers)

/-- The command that a builder starts from: one that is used again, or a new one. -/
def establish (m : Method) (init : InitCommand) : Assembly Node :=
  match init.reused with
  | some reused => v.command reused
  | none => pure { name := init.name, method := m }

/-- One operation of a builder's body. Before a command is established there is none. -/
def evaluateStep (m : Method) (n : Option Node) (operation : Operation) : Assembly (Option Node) :=
  match operation, n with
  | .command (.initCommand init), _ =>
    (fun n => some (n.described init.description)) <$> establish v m init
  | .command (.addSubCommands add), some n => some <$> evaluateAdd e v n add
  | .command (.addOption option), some n => pure (some { n with options := n.options ++ [option] })
  | .command (.handler _), some n => pure (some { n with executable := true, http := m.http })
  | .command (.returnItemCommands _), _ =>
    throw (.cause (.itemsNotCommand (e.context.graph.methodName m)))
  | _, n => pure n

/-- The command of a builder, once it is entered. -/
def evaluateCommand (m : Method) : Assembly Node := do
  let body ← bodyOf e m
  match ← body.operations.foldlM (evaluateStep e v m) none with
  | some n => pure n
  | none => throw (.cause (.noCommand (e.context.graph.methodName m)))

/-- The item lists of a body. -/
def itemLists (b : Body) : List ItemCommands :=
  b.operations.filterMap fun
    | .command (.returnItemCommands items) => some items
    | _ => none

/-- A container among items: a command, or items in their turn. -/
def evaluateContainer (m : Method) : Assembly Commands := do
  if returnsItems m then v.items m else pure ⟨[], [← v.command m]⟩

/-- The commands of an item builder, once it is entered. -/
def evaluateItems (m : Method) : Assembly Commands := do
  let body ← bodyOf e m
  (itemLists body).foldlM (fun found items => do
    let executables ← items.executables.mapM v.command
    let containers ← items.containers.mapM (evaluateContainer v)
    pure (containers.foldl Commands.append (found.append ⟨executables, []⟩))) {}

end Evaluate

/-- The builders that are still pending while a builder is evaluated. -/
def inside (pending : List MethodId) (m : Method) : List MethodId := pending.filter (· != m.id)

theorem mem_inside_iff {pending : List MethodId} {m : Method} {id : MethodId} :
    id ∈ inside pending m ↔ id ∈ pending ∧ id ≠ m.id := by
  simp [inside]

theorem length_inside_lt {pending : List MethodId} {m : Method} (h : m.id ∈ pending) :
    (inside pending m).length < pending.length :=
  List.length_filter_lt_length_iff_exists.mpr ⟨m.id, h, by simp⟩

/-- Evaluates builders, each of which may be entered if it is still pending. -/
def evaluator (e : Engine) (pending : List MethodId) : Evaluator :=
  { command := fun m =>
      if _ : m.id ∈ pending then evaluateCommand e (evaluator e (inside pending m)) m
      else throw (.violation .commandCycle (e.context.graph.methodName m))
    items := fun m =>
      if _ : m.id ∈ pending then evaluateItems e (evaluator e (inside pending m)) m
      else throw (.violation .commandCycle (e.context.graph.methodName m)) }
termination_by pending.length
decreasing_by
  all_goals
    rename_i h
    exact length_inside_lt h

/-- Every method of the graph. -/
def methodIds (g : Graph) : List MethodId := g.classes.toList.flatMap fun c => c.methods.map (·.id)

/-- The builders of root commands. -/
def rootBuilders (g : Graph) : List Method :=
  g.allClasses.flatMap fun c => c.methods.filter (isRootBuilder g)

/-- Assembles the command tree from its root. -/
def assemble (e : Engine) : Assembly Node :=
  let g := e.context.graph
  match rootBuilders g with
  | [] => throw (.cause .noRootCommand)
  | [root] => (evaluator e (methodIds g)).command root
  | _ :: second :: _ => throw (.violation .duplicateRoot (g.methodName second))

end ClientForge.Command
