import ClientForge.Proofs.Command.Assembly
import ClientForge.Proofs.Command.Bodies
import Mathlib.Data.List.Basic

/-!
# Siblings in the command tree

No command of an assembled tree has two children whose names differ in case only
(`assemble_siblings_distinct`).

A node grows in few ways: it starts without children, gets a description, options or a handler, and takes in
children one by one. Whatever these ways keep holds of every assembled tree, however its builders refer to
one another; `Kept` lists the ways, and `Kept.assemble` is the induction over the builders entered. Distinct
siblings at every depth are one such property, because a child is added only if no sibling has its name.
-/

namespace ClientForge.Command

open ClientForge.Graph ClientForge.Plan Assembly

/-! ### What growing keeps -/

/-- A property of nodes that no step of assembling takes away. -/
structure Kept (g : Graph) (P : Node → Prop) : Prop where
  fresh : ∀ name m, P { name, method := m }
  described : ∀ n text, P n → P (n.described text)
  option : ∀ n o, P n → P { n with options := n.options ++ [o] }
  handler : ∀ n http, P n → P { n with executable := true, http := http }
  add : ∀ n c n', P n → P c → n.add g c = .ok n' → P n'

/-- A property of all commands in a pair of lists. -/
def Commands.All (P : Node → Prop) (c : Commands) : Prop :=
  (∀ n ∈ c.executables, P n) ∧ ∀ n ∈ c.containers, P n

/-- A property of all that an evaluator gives. -/
structure Evaluator.Gives (v : Evaluator) (P : Node → Prop) : Prop where
  command : ∀ m n, Ends (v.command m) (.ok n) → P n
  items : ∀ m found, Ends (v.items m) (.ok found) → found.All P

theorem Commands.All.append {P : Node → Prop} {a b : Commands} (ha : a.All P) (hb : b.All P) :
    (a.append b).All P := by
  constructor
  · intro n hn
    exact (List.mem_append.mp hn).elim (ha.1 n) (hb.1 n)
  · intro n hn
    exact (List.mem_append.mp hn).elim (ha.2 n) (hb.2 n)

theorem Commands.All.ordered {P : Node → Prop} {c : Commands} (hc : c.All P) (sorted : Bool) :
    ∀ n ∈ c.ordered sorted, P n := by
  intro n hn
  rcases List.mem_append.mp hn with hexec | hcont
  · exact hc.1 n hexec
  · split at hcont
    · exact hc.2 n (List.mem_mergeSort.mp hcont)
    · exact hc.2 n hcont

namespace Kept

variable {e : Engine} {v : Evaluator} {P : Node → Prop}

/-- Children that have a property can be added to a node that has it. -/
theorem addAll (hP : Kept e.context.graph P) {children : List Node} {n n' : Node} (hn : P n)
    (hchildren : ∀ c ∈ children, P c) (h : Ends (addAll e n children) (.ok n')) : P n' := by
  have hfold : children.foldlM (Node.add e.context.graph) n = .ok n' := h.of_of.symm
  clear h
  induction children generalizing n with
  | nil =>
      cases hfold
      exact hn
  | cons c children ih =>
      rw [List.foldlM_cons] at hfold
      cases hadd : n.add e.context.graph c with
      | error f =>
          rw [hadd] at hfold
          cases hfold
      | ok grown =>
          rw [hadd] at hfold
          have hgrown : P grown := hP.add n c grown hn (hchildren c List.mem_cons_self) hadd
          exact ih hgrown (fun d hd => hchildren d (List.mem_cons_of_mem _ hd)) hfold

/-- Sub-commands keep a property of nodes, and so do the commands that they find. -/
theorem evaluateSubCommands (hP : Kept e.context.graph P) (hv : v.Gives P) {direct : Bool}
    {subs : List SubCommand} {n n' : Node} {found found' : Commands} (hn : P n) (hfound : found.All P)
    (h : Ends (evaluateSubCommands e v direct subs n found) (.ok (n', found'))) :
    P n' ∧ found'.All P := by
  induction subs generalizing n found with
  | nil =>
      cases h.of_pure
      exact ⟨hn, hfound⟩
  | cons c subs ih =>
      unfold ClientForge.Command.evaluateSubCommands at h
      split at h
      · obtain ⟨more, hmore, hrest⟩ := h.bind_ok
        exact ih hn (hfound.append (hv.items _ _ hmore)) hrest
      · obtain ⟨child, hchild, hrest⟩ := h.bind_ok
        have hPchild : P child := hv.command _ _ hchild
        split at hrest
        · obtain ⟨grown, hadd, hrest⟩ := hrest.bind_ok
          exact ih (hP.add n child grown hn hPchild hadd.of_of.symm) hfound hrest
        · split at hrest
          · exact ih hn (hfound.append ⟨by simpa using hPchild, by simp⟩) hrest
          · exact ih hn (hfound.append ⟨by simp, by simpa using hPchild⟩) hrest

/-- One operation that adds sub-commands keeps it. -/
theorem evaluateAdd (hP : Kept e.context.graph P) (hv : v.Gives P) {n n' : Node} {add : AddSubCommands}
    (hn : P n) (h : Ends (evaluateAdd e v n add) (.ok n')) : P n' := by
  obtain ⟨⟨grown, found⟩, hsubs, hadd⟩ := h.bind_ok
  obtain ⟨hgrown, hfound⟩ := hP.evaluateSubCommands hv hn ⟨by simp, by simp⟩ hsubs
  exact hP.addAll hgrown (hfound.ordered add.sortContainers) hadd

/-- Every operation keeps it. -/
theorem evaluateStep (hP : Kept e.context.graph P) (hv : v.Gives P) {m : Method}
    {n n' : Option Node} {operation : Operation} (hn : ∀ k ∈ n, P k)
    (h : Ends (evaluateStep e v m n operation) (.ok n')) : ∀ k ∈ n', P k := by
  unfold ClientForge.Command.evaluateStep at h
  split at h
  · rename_i init
    obtain ⟨k, hk, rfl⟩ := h.map_ok
    have hPk : P k := by
      unfold establish at hk
      split at hk
      · exact hv.command _ _ hk
      · cases hk.of_pure
        exact hP.fresh _ _
    simpa using hP.described k init.description hPk
  · obtain ⟨k, hk, rfl⟩ := h.map_ok
    simpa using hP.evaluateAdd hv (hn _ rfl) hk
  · cases h.of_pure
    simpa using hP.option _ _ (hn _ rfl)
  · cases h.of_pure
    simpa using hP.handler _ _ (hn _ rfl)
  · cases h.of_throw
  · cases h.of_pure
    exact hn

/-- A command has it. -/
theorem evaluateCommand (hP : Kept e.context.graph P) (hv : v.Gives P) {m : Method} {n : Node}
    (h : Ends (evaluateCommand e v m) (.ok n)) : P n := by
  obtain ⟨body, _, hrest⟩ := h.bind_ok
  obtain ⟨last, hfold, hlast⟩ := hrest.bind_ok
  have hPlast : ∀ k ∈ last, P k :=
    Ends.foldlM_ok (fun _ _ _ _ hn hstep => hP.evaluateStep hv hn hstep) (by simp) hfold
  cases last with
  | none => cases hlast.of_throw
  | some k =>
      cases hlast.of_pure
      exact hPlast n rfl

/-- The commands of a container have it. -/
theorem evaluateContainer (hv : v.Gives P) {m : Method} {found : Commands}
    (h : Ends (evaluateContainer v m) (.ok found)) : found.All P := by
  unfold ClientForge.Command.evaluateContainer at h
  split at h
  · exact hv.items m found h
  · obtain ⟨n, hn, hpure⟩ := h.bind_ok
    cases hpure.of_pure
    exact ⟨by simp, by simpa using hv.command m n hn⟩

theorem evaluateItems (hv : v.Gives P) {m : Method} {found : Commands}
    (h : Ends (evaluateItems e v m) (.ok found)) : found.All P := by
  obtain ⟨body, _, hfold⟩ := h.bind_ok
  refine Ends.foldlM_ok (P := Commands.All P) ?_ ⟨by simp, by simp⟩ hfold
  intro found items _ found' hfound hstep
  obtain ⟨executables, hexec, hrest⟩ := hstep.bind_ok
  obtain ⟨containers, hcont, hpure⟩ := hrest.bind_ok
  cases hpure.of_pure
  have hexecAll : ∀ n ∈ executables, P n := by
    intro n hn
    obtain ⟨m', _, hm'⟩ := hexec.mapM_ok.2 n hn
    exact hv.command m' n hm'
  have hcontAll : ∀ c ∈ containers, c.All P := by
    intro c hc
    obtain ⟨m', _, hm'⟩ := hcont.mapM_ok.2 c hc
    exact evaluateContainer hv hm'
  exact List.foldlRecOn containers Commands.append
    (hfound.append ⟨hexecAll, by simp⟩) fun acc hacc c hc => hacc.append (hcontAll c hc)

theorem evaluator (hP : Kept e.context.graph P) (pending : List MethodId) :
    (evaluator e pending).Gives P := by
  induction pending using pending_induction with
  | enter pending ih =>
    constructor
    · intro m n h
      by_cases hm : m.id ∈ pending
      · rw [evaluator_command_of_mem hm] at h
        exact hP.evaluateCommand (ih m hm) h
      · rw [evaluator_command_of_notMem hm] at h
        cases h.of_throw
    · intro m found h
      by_cases hm : m.id ∈ pending
      · rw [evaluator_items_of_mem hm] at h
        exact evaluateItems (ih m hm) h
      · rw [evaluator_items_of_notMem hm] at h
        cases h.of_throw

/-- What every step keeps holds of the assembled tree. -/
theorem assemble (hP : Kept e.context.graph P) {tree : Node} (h : Ends (assemble e) (.ok tree)) :
    P tree := by
  simp only [ClientForge.Command.assemble] at h
  split at h
  · cases h.of_throw
  · exact (hP.evaluator _).command _ _ h
  · cases h.of_throw

end Kept

/-! ### Walking through a tree -/

namespace Node

theorem walk_eq (path : List String) (n : Node) :
    n.walk path = (path, n) :: walkAll path n.children := by
  cases n
  rw [walk]

theorem walkAll_eq (path : List String) (ns : List Node) :
    walkAll path ns = ns.flatMap fun n => n.walk (path ++ [n.name]) := by
  induction ns with
  | nil => rfl
  | cons n ns ih =>
      cases n
      rw [walkAll, ih]
      rfl

theorem sizeOf_child_lt {n c : Node} (hc : c ∈ n.children) : sizeOf c < sizeOf n := by
  have := List.sizeOf_lt_of_mem hc
  cases n
  simp only [Node.mk.sizeOf_spec] at *
  omega

/-- The path that a walk starts from does not change where it goes. -/
theorem map_snd_walk (path path' : List String) (n : Node) :
    (n.walk path).map Prod.snd = (n.walk path').map Prod.snd := by
  rw [walk_eq, walk_eq, walkAll_eq, walkAll_eq]
  simp only [List.map_cons, List.map_flatMap, List.cons.injEq, true_and]
  apply List.flatMap_congr
  intro c hc
  have := sizeOf_child_lt hc
  exact map_snd_walk _ _ c
termination_by sizeOf n

/-- A walk comes to the node and to what a walk from one of its children comes to. -/
theorem forall_mem_walk_iff {P : Node → Prop} (path : List String) (n : Node) :
    (∀ p ∈ n.walk path, P p.2) ↔ P n ∧ ∀ c ∈ n.children, ∀ p ∈ c.walk path, P p.2 := by
  have hsnd : ∀ (path' : List String) (k : Node),
      (∀ p ∈ k.walk path', P p.2) ↔ ∀ k' ∈ (k.walk path).map Prod.snd, P k' := by
    intro path' k
    rw [map_snd_walk path path' k, List.forall_mem_map]
  rw [walk_eq, walkAll_eq]
  simp only [List.forall_mem_cons, List.forall_mem_flatMap, hsnd]

end Node

/-! ### Distinct siblings -/

/-- No two children have names that differ in case only. -/
def Node.ChildrenDistinct (n : Node) : Prop :=
  n.children.Pairwise fun a b => Text.foldEq a.name b.name = false

/-- No two siblings have names that differ in case only, at any depth. -/
def Node.SiblingsDistinct (n : Node) : Prop := ∀ p ∈ n.walk [], p.2.ChildrenDistinct

namespace Node

theorem siblingsDistinct_iff {n : Node} :
    n.SiblingsDistinct ↔ n.ChildrenDistinct ∧ ∀ c ∈ n.children, c.SiblingsDistinct :=
  forall_mem_walk_iff [] n

/-- Names of siblings are a matter of children only. -/
theorem SiblingsDistinct.of_children {n n' : Node} (hchildren : n'.children = n.children)
    (h : n.SiblingsDistinct) : n'.SiblingsDistinct := by
  rw [siblingsDistinct_iff] at h ⊢
  rwa [ChildrenDistinct, hchildren]

theorem described_children (n : Node) (text : String) : (n.described text).children = n.children := by
  unfold described
  split <;> rfl

/-- A child is added at the end, and only if no other has its name. -/
theorem add_eq_ok {g : Graph} {n c n' : Node} (h : n.add g c = .ok n') :
    n' = { n with children := n.children ++ [c] } ∧
      ∀ a ∈ n.children, Text.foldEq a.name c.name = false := by
  unfold add at h
  split at h
  · cases h
  · rename_i hnone
    cases h
    refine ⟨rfl, ?_⟩
    simpa [child, List.find?_isSome] using hnone

theorem ChildrenDistinct.add {g : Graph} {n c n' : Node} (hn : n.ChildrenDistinct)
    (h : n.add g c = .ok n') : n'.ChildrenDistinct := by
  obtain ⟨rfl, hother⟩ := add_eq_ok h
  exact List.pairwise_append.mpr ⟨hn, List.pairwise_singleton _ _, by simpa using hother⟩

/-- A child is only added if no sibling has its name. -/
theorem SiblingsDistinct.add {g : Graph} {n c n' : Node} (hn : n.SiblingsDistinct)
    (hc : c.SiblingsDistinct) (h : n.add g c = .ok n') : n'.SiblingsDistinct := by
  rw [siblingsDistinct_iff] at hn ⊢
  refine ⟨hn.1.add h, ?_⟩
  obtain ⟨rfl, _⟩ := add_eq_ok h
  intro d hd
  rcases List.mem_append.mp hd with hd | hd
  · exact hn.2 d hd
  · cases List.mem_singleton.mp hd
    exact hc

theorem kept_siblingsDistinct (g : Graph) : Kept g SiblingsDistinct where
  fresh name m := siblingsDistinct_iff.mpr ⟨.nil, by simp⟩
  described n text := .of_children (described_children n text)
  option _ _ := .of_children rfl
  handler _ _ := .of_children rfl
  add _ _ _ hn hc h := hn.add hc h

end Node

/-- In an assembled tree no two siblings have names that differ in case only, at any depth and whatever
their commands were built from. -/
theorem assemble_siblings_distinct (e : Engine) (planned planned' : List Method) (tree : Node)
    (h : (assemble e).run.run planned = (.ok tree, planned')) :
    ∀ p ∈ tree.walk [],
      p.2.children.Pairwise fun a b => Text.foldEq a.name b.name = false :=
  (Node.kept_siblingsDistinct e.context.graph).assemble ⟨planned, planned', h⟩

/-- The mail of all users starts from the mail of one, and each has sub-commands of its own. -/
theorem mailing_siblings_distinct :
    ∃ tree planned, (assemble (commandEngine Sample.mailing)).run.run [] = (.ok tree, planned) ∧
      ∀ p ∈ tree.walk [], p.2.children.Pairwise fun a b => Text.foldEq a.name b.name = false := by
  obtain ⟨tree, planned, hrun, _⟩ := Sample.assemble_mailing
  exact ⟨tree, planned, hrun, assemble_siblings_distinct _ [] planned tree hrun⟩

end ClientForge.Command
