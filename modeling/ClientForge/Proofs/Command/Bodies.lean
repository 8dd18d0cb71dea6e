import ClientForge.Command.Tree
import ClientForge.Convention.Language
import ClientForge.Proofs.Failure
import ClientForge.Proofs.Graph.Valid
import Mathlib.Logic.Relation

/-!
# Bodies of command builders

What the planned body of a command builder can look like, for all that is proved about assembling and
rendering. A builder is visited for its command or for the commands of its items, and its body says which
builders are visited next (`Visit.next`, `Follows`).

* `Follows.declared`: every builder visited next is a command builder that the graph declares;
* `established_of_synthesize`: sub-commands are added only after the command is established;
* `proper_of_synthesize`: sub-commands are told from items by what their builders return, and those that are
  added directly are not sorted;
* `not_hasCode_of_synthesize`: planning never reports a cycle.
-/

namespace ClientForge.Command

open ClientForge.Graph ClientForge.Plan

/-- The engine for the command line in a context. -/
def commandEngine (c : Context) : Engine := ⟨c, commandHandlers⟩

theorem create_commandHandlers (c : Context) :
    Engine.create (some c) commandHandlers = .ok (commandEngine c) := rfl

/-! ### Visits -/

/-- A way to evaluate a builder: for its command, or for the commands of its items. -/
inductive Visit where
  | command (m : Method)
  | items (m : Method)

namespace Visit

def method : Visit → Method
  | command m => m
  | items m => m

def ofSubCommand (c : SubCommand) : Visit := if c.items then .items c.method else .command c.method

/-- How a container among items is evaluated. -/
def ofContainer (m : Method) : Visit := if returnsItems m then .items m else .command m

/-- The visits that an operation of a command's body makes. -/
def ofOperation : Operation → List Visit
  | .command (.initCommand init) => init.reused.toList.map .command
  | .command (.addSubCommands add) => add.commands.map ofSubCommand
  | _ => []

def ofItems (items : ItemCommands) : List Visit :=
  items.executables.map .command ++ items.containers.map ofContainer

/-- The visits that a body leads to, by the way in which its builder is evaluated. -/
def next (body : Body) : Visit → List Visit
  | command _ => body.operations.flatMap ofOperation
  | items _ => (itemLists body).flatMap ofItems

@[simp]
theorem method_ofSubCommand (c : SubCommand) : (ofSubCommand c).method = c.method := by
  unfold ofSubCommand
  split <;> rfl

@[simp]
theorem method_ofContainer (m : Method) : (ofContainer m).method = m := by
  unfold ofContainer
  split <;> rfl

end Visit

/-- The item commands of a body are those that one of its operations returns. -/
theorem mem_itemLists {body : Body} {items : ItemCommands} :
    items ∈ itemLists body ↔ .command (.returnItemCommands items) ∈ body.operations := by
  unfold itemLists
  rw [List.mem_filterMap]
  constructor
  · rintro ⟨o, ho, heq⟩
    split at heq
    · cases heq
      exact ho
    · cases heq
  · intro h
    exact ⟨_, h, rfl⟩

/-- The evaluation of one builder asks for that of another: its command starts from the other's or gets it as
a sub-command, or its items have it among them. -/
def Follows (e : Engine) (v w : Visit) : Prop :=
  ∃ body, e.synthesize v.method = .ok body ∧ w ∈ v.next body

/-! ### Declared builders -/

/-- A command builder of a class of the graph. -/
def IsDeclared (g : Graph) (m : Method) : Prop := ∃ cls ∈ g.classes, m ∈ cls.commandBuilders

section Declared

variable {g : Graph}

theorem indexerTarget_mem {x : Indexer} {cls : ClassDef} (h : g.indexerTarget x = some cls) :
    cls ∈ g.classes := by
  obtain ⟨t, _, ht⟩ := Option.bind_eq_some_iff.mp h
  exact classOf_mem ht

theorem navigationTarget_mem {m : Method} {cls : ClassDef} (h : navigationTarget g m = some cls) :
    cls ∈ g.classes := by
  obtain ⟨t, _, ht⟩ := Option.bind_eq_some_iff.mp h
  exact classOf_mem ht

theorem parentOf_mem {m : Method} {cls : ClassDef} (h : g.parentOf m = some cls) :
    cls ∈ g.classes := by
  obtain ⟨id, _, hid⟩ := Option.bind_eq_some_iff.mp h
  exact class_mem hid

theorem mem_commandBuilders {cls : ClassDef} {m : Method} :
    m ∈ cls.commandBuilders ↔ m ∈ cls.methods ∧ m.isCommandBuilder = true :=
  List.mem_filter

theorem IsDeclared.isCommandBuilder {m : Method} (h : IsDeclared g m) : m.isCommandBuilder = true := by
  obtain ⟨cls, _, hm⟩ := h
  exact (mem_commandBuilders.mp hm).2

theorem IsDeclared.id_mem {m : Method} (h : IsDeclared g m) : m.id ∈ methodIds g := by
  obtain ⟨cls, hcls, hm⟩ := h
  refine List.mem_flatMap.mpr ⟨cls, Array.mem_toList_iff.mpr hcls, ?_⟩
  exact List.mem_map.mpr ⟨m, (mem_commandBuilders.mp hm).1, rfl⟩

theorem rootBuilders_declared {root : Method} (h : root ∈ rootBuilders g) : IsDeclared g root := by
  obtain ⟨cls, hcls, hroot⟩ := List.mem_flatMap.mp h
  obtain ⟨ns, _, hns⟩ := List.mem_flatMap.mp hcls
  obtain ⟨id, _, hid⟩ := List.mem_filterMap.mp hns
  obtain ⟨hmem, hkind⟩ := List.mem_filter.mp hroot
  exact ⟨cls, class_mem hid, mem_commandBuilders.mpr ⟨hmem, (Bool.and_eq_true_iff.mp hkind).1⟩⟩

theorem indexerMatch_mem {m t : Method} {target : ClassDef} (h : indexerMatch m target = some t) :
    t ∈ target.commandBuilders := by
  have htest := List.find?_some h
  simp only [Bool.and_eq_true] at htest
  exact mem_commandBuilders.mpr ⟨List.mem_of_find?_eq_some h, htest.1.1.1⟩

theorem navigationMatch_mem {cls : ClassDef} {m o : Method} (h : navigationMatch cls m = some o) :
    o ∈ cls.commandBuilders := by
  unfold navigationMatch at h
  split at h
  · cases h
  · have htest := List.find?_some h
    simp only [Bool.and_eq_true] at htest
    have hmem := List.mem_of_find?_eq_some h
    refine mem_commandBuilders.mpr ⟨?_, htest.1.1⟩
    split at hmem
    · exact (List.takeWhile_sublist _).subset hmem
    · exact (List.mem_filter.mp hmem).1

theorem keptOf_subset {group : List Method} {m : Method} (h : m ∈ keptOf group) : m ∈ group := by
  unfold keptOf at h
  split at h
  · exact h
  · split at h
    · exact List.mem_of_mem_take h
    · exact (List.mem_filter.mp h).1

theorem childBuilders_mem {target : ClassDef} {m : Method} (h : m ∈ childBuilders target) :
    m ∈ target.commandBuilders := by
  obtain ⟨group, hgroup, hm⟩ := List.mem_flatMap.mp h
  obtain ⟨key, _, rfl⟩ := List.mem_map.mp hgroup
  have hsorted := (List.mem_filter.mp (keptOf_subset hm)).1
  exact List.mem_mergeSort.mp hsorted

end Declared

/-! ### The shape of a body -/

/-- An operation that neither establishes a command nor gives it any, and returns no items. -/
def IsPlain : Operation → Prop
  | .command (.initCommand _) | .command (.addSubCommands _) | .command (.returnItemCommands _) => False
  | _ => True

/-- A builder of one command: it runs a request, or is neither that of the root nor that of an indexer's
items. -/
def IsSingle (g : Graph) (m : Method) : Prop :=
  m.http.isSome ∨ isRootBuilder g m = false ∧ g.representedIndexer m = none

/-- What the body of a builder can be, by the kind of the builder. A single command has some operations before
and after its sub-commands, and its own sub-commands come from the builder it navigates to. -/
inductive Shape (c : Context) (cls : ClassDef) (m : Method) : List Operation → Prop
  | root (http : m.http = none) (root : isRootBuilder c.graph m = true) :
      Shape c cls m (rootBody cls m).operations
  | items {body : Body} {x : Indexer} (http : m.http = none) (root : isRootBuilder c.graph m = false)
      (indexer : c.graph.representedIndexer m = some x) (items : itemsBody c cls m x = .ok body) :
      Shape c cls m body.operations
  | single {sharing : Sharing} {builders tail : List Operation} {children : List Method}
      (single : IsSingle c.graph m) (shared : shared c cls m = .ok sharing)
      (builders_plain : ∀ o ∈ builders, IsPlain o)
      (children_declared : ∀ child ∈ children, IsDeclared c.graph child)
      (tail_plain : ∀ o ∈ tail, IsPlain o) :
      Shape c cls m (sharing.operations ++ builders ++
        addCommands (children.map (subCommand (some "builder")) ++ sharing.included) ++ tail)

section Shape

variable {c : Context} {cls : ClassDef} {m : Method} {body : Body}

theorem shape_executableBody (h : executableBody c cls m = .ok body) (hm : m.http.isSome) :
    Shape c cls m body.operations := by
  unfold executableBody at h
  split at h
  · cases h
  · rename_i executor _
    obtain ⟨generator, _, h⟩ := bind_eq_ok.mp h
    obtain ⟨sharing, hshared, h⟩ := bind_eq_ok.mp h
    obtain ⟨⟨steps, aliases⟩, _, h⟩ := bind_eq_ok.mp h
    cases h
    let tail : List Operation := (options c generator executor).map (.command <| .addOption ·) ++
      [.command (.handler steps), .command .returnCommand]
    have htail : ∀ o ∈ tail, IsPlain o := by
      intro o ho
      rcases List.mem_append.mp ho with hoption | hend
      · obtain ⟨option, _, rfl⟩ := List.mem_map.mp hoption
        trivial
      · simp only [List.mem_cons, List.not_mem_nil, or_false] at hend
        rcases hend with rfl | rfl <;> trivial
    have hshape : Shape c cls m (sharing.operations ++ [] ++
        addCommands ([].map (subCommand (some "builder")) ++ sharing.included) ++ tail) :=
      .single (Or.inl hm) hshared (by simp) (by simp) htail
    simpa [tail] using hshape

/-- The body of a builder that only navigates has the shape. -/
theorem shape_navigationBody (h : navigationBody c cls m = .ok body)
    (hroot : isRootBuilder c.graph m = false) (hindexer : c.graph.representedIndexer m = none) :
    Shape c cls m body.operations := by
  obtain ⟨sharing, hshared, h⟩ := bind_eq_ok.mp h
  cases h
  refine Shape.single (Or.inr ⟨hroot, hindexer⟩) hshared ?_ ?_ ?_
  · intro o ho
    split at ho
    · split at ho
      · cases ho
      · cases List.mem_singleton.mp ho
        trivial
    · cases ho
  · intro child hchild
    cases htarget : navigationTarget c.graph m with
    | none => simp [htarget] at hchild
    | some target =>
        rw [htarget] at hchild
        exact ⟨target, navigationTarget_mem htarget, childBuilders_mem hchild⟩
  · simp [IsPlain]

theorem shape_commandBuilder (h : commandBuilder c cls m = .ok body) :
    m.isCommandBuilder = true ∧ Shape c cls m body.operations := by
  unfold commandBuilder at h
  split at h
  · cases h
  · rename_i hbuilder
    refine ⟨by simpa using hbuilder, ?_⟩
    split at h
    · rename_i hhttp
      exact shape_executableBody h hhttp
    · rename_i hhttp
      have hnone : m.http = none := by simpa using hhttp
      split at h
      · rename_i hroot
        cases h
        exact .root hnone hroot
      · rename_i hroot
        have hroot : isRootBuilder c.graph m = false := by simpa using hroot
        split at h
        · rename_i x hx
          exact .items hnone hroot hx h
        · rename_i hx
          exact shape_navigationBody h hroot hx

/-- A command builder is planned in the class that is its parent. -/
theorem synthesize_commandBuilder (hm : m.isCommandBuilder = true) :
    (commandEngine c).synthesize m = match c.graph.parentOf m with
      | none => structural .missingParent (c.graph.methodName m)
      | some cls =>
        inContext ("synthesize " ++ m.kind.name ++ " " ++ c.graph.methodName m)
          (commandBuilder c cls m) := by
  have hkind : m.kind = .commandBuilder := by simpa [Method.isCommandBuilder] using hm
  have hhandler : commandHandlers m.kind =
      some { body := commandBuilder, warnings := skippedBuilders } := by
    rw [commandHandlers, Handlers.set, if_pos hkind]
  cases hparent : c.graph.parentOf m <;> simp [Engine.synthesize, commandEngine, hhandler, hparent]

/-- A builder of commands has the body that is planned in its class. -/
theorem synthesize_eq_ok_iff (hm : m.isCommandBuilder = true) :
    (commandEngine c).synthesize m = .ok body ↔
      ∃ cls, c.graph.parentOf m = some cls ∧ commandBuilder c cls m = .ok body := by
  rw [synthesize_commandBuilder hm]
  cases c.graph.parentOf m with
  | none => simp [structural]
  | some cls => simp [inContext, mapError_eq_ok]

/-- Whatever body a builder has is of the shape for its class. -/
theorem shape_of_synthesize (hm : m.isCommandBuilder = true)
    (h : (commandEngine c).synthesize m = .ok body) :
    ∃ cls ∈ c.graph.classes, c.graph.parentOf m = some cls ∧ Shape c cls m body.operations := by
  obtain ⟨cls, hparent, hbody⟩ := (synthesize_eq_ok_iff hm).mp h
  exact ⟨cls, parentOf_mem hparent, hparent, (shape_commandBuilder hbody).2⟩

end Shape

/-! ### What follows from the shape -/

/-- Sub-commands are added only once a command is established. -/
def established : List Operation → Bool
  | [] => true
  | .command (.initCommand _) :: _ => true
  | .command (.addSubCommands _) :: _ => false
  | _ :: operations => established operations

/-- Plain operations make no difference to what is established. -/
theorem established_append_of_plain {before after : List Operation} (h : ∀ o ∈ before, IsPlain o) :
    established (before ++ after) = established after := by
  induction before with
  | nil => rfl
  | cons o before ih =>
      have ho := h o List.mem_cons_self
      rw [List.cons_append, established]
      · exact ih fun o ho => h o (List.mem_cons_of_mem _ ho)
      · rintro init rfl
        exact ho
      · rintro add rfl
        exact ho

theorem IsPlain.ofOperation {o : Operation} (h : IsPlain o) : Visit.ofOperation o = [] := by
  unfold Visit.ofOperation
  split
  · cases h
  · cases h
  · rfl

/-- A command that is reused is one of the same class. -/
theorem ownCommand_reused {c : Context} {cls : ClassDef} {m r : Method}
    (h : r ∈ (ownCommand c cls m).reused) : r ∈ cls.commandBuilders := by
  unfold ownCommand at h
  split at h
  · rename_i n hn
    cases h
    exact navigationMatch_mem hn
  · cases h

/-- The command of a builder is established last of what it shares with the indexer's target. -/
theorem shared_spec {c : Context} {cls : ClassDef} {m : Method} {sharing : Sharing}
    (hcls : cls ∈ c.graph.classes) (h : shared c cls m = .ok sharing) :
    ∃ builders init, sharing.operations = builders ++ [.command (.initCommand init)] ∧
      (∀ o ∈ builders, IsPlain o) ∧ (∀ r ∈ init.reused, IsDeclared c.graph r) ∧
      ∀ s ∈ sharing.included, IsDeclared c.graph s.method ∧ s.items = returnsItems s.method := by
  have hown : ∀ r ∈ (ownCommand c cls m).reused, IsDeclared c.graph r := fun r hr =>
    ⟨cls, hcls, ownCommand_reused hr⟩
  obtain ⟨x, _, h⟩ := bind_eq_ok.mp h
  split at h
  · cases h
    exact ⟨[], _, rfl, by simp, hown, by simp⟩
  · rename_i x target hx
    have htarget : target ∈ c.graph.classes := by
      obtain ⟨x', _, hmap⟩ := Option.bind_eq_some_iff.mp hx
      obtain ⟨target', hx', heq⟩ := Option.map_eq_some_iff.mp hmap
      cases heq
      exact indexerTarget_mem hx'
    split at h
    · cases h
      exact ⟨[], _, rfl, by simp, hown, by simp⟩
    · cases h
      refine ⟨_, _, rfl, ?_, ?_, ?_⟩
      · intro o ho
        split at ho
        · cases List.mem_singleton.mp ho
          trivial
        · cases ho
      · intro r hr
        split at hr
        · rename_i t ht
          cases hr
          exact ⟨target, htarget, indexerMatch_mem ht⟩
        · exact hown r hr
      · intro s hs
        obtain ⟨t, ht, rfl⟩ := List.mem_map.mp hs
        obtain ⟨hmem, htest⟩ := List.mem_filter.mp ht
        simp only [Bool.and_eq_true] at htest
        exact ⟨⟨target, htarget, mem_commandBuilders.mpr ⟨hmem, htest.1.2⟩⟩, rfl⟩

/-- An operation refers to declared builders only, tells those that give items, and does not sort what it adds
directly. -/
def Proper (g : Graph) : Operation → Prop
  | .command (.initCommand init) => ∀ r ∈ init.reused, IsDeclared g r
  | .command (.addSubCommands add) =>
      (∀ s ∈ add.commands, IsDeclared g s.method ∧ s.items = returnsItems s.method) ∧
        (add.direct = true → add.sortContainers = false)
  | .command (.returnItemCommands items) => ∀ t ∈ items.executables ++ items.containers, IsDeclared g t
  | _ => True

theorem IsPlain.proper {g : Graph} {o : Operation} (h : IsPlain o) : Proper g o := by
  unfold Proper
  split
  · cases h
  · cases h
  · cases h
  · trivial

/-- Sub-commands are added properly if they are declared and tell whether they give items. -/
theorem proper_of_mem_addCommands {g : Graph} {subs : List SubCommand} {o : Operation}
    (hsubs : ∀ s ∈ subs, IsDeclared g s.method ∧ s.items = returnsItems s.method)
    (h : o ∈ addCommands subs) : Proper g o := by
  unfold addCommands at h
  split at h
  · cases h
  · cases List.mem_singleton.mp h
    refine ⟨fun s hs => hsubs s ?_, nofun⟩
    rcases List.mem_append.mp hs with hs | hs
    · exact (List.mem_filter.mp hs).1
    · exact (List.mem_filter.mp hs).1

section Consequences

variable {c : Context} {cls : ClassDef} {m : Method} {operations : List Operation}

theorem Shape.established (hcls : cls ∈ c.graph.classes) (h : Shape c cls m operations) :
    established operations = true := by
  cases h with
  | root => rfl
  | items _ _ _ hitems =>
      unfold itemsBody at hitems
      split at hitems
      · cases hitems
      · cases hitems
        split <;> rfl
  | single _ hshared _ _ _ =>
      obtain ⟨before, init, hoperations, hbefore, _⟩ := shared_spec hcls hshared
      simp only [hoperations, List.append_assoc]
      rw [established_append_of_plain hbefore]
      rfl

theorem Shape.proper (hcls : cls ∈ c.graph.classes) (h : Shape c cls m operations) :
    ∀ o ∈ operations, Proper c.graph o := by
  intro o ho
  cases h with
  | root =>
      simp only [rootBody, List.mem_append, List.mem_singleton] at ho
      rcases ho with (rfl | ho) | rfl
      · intro r hr
        cases hr
      · split at ho
        · cases ho
        · cases List.mem_singleton.mp ho
          refine ⟨fun s hs => ?_, fun _ => rfl⟩
          obtain ⟨other, hother, rfl⟩ := List.mem_map.mp hs
          obtain ⟨hmem, htest⟩ := List.mem_filter.mp hother
          simp only [Bool.and_eq_true] at htest
          exact ⟨⟨cls, hcls, mem_commandBuilders.mpr ⟨hmem, htest.2⟩⟩, rfl⟩
      · trivial
  | items _ _ _ hitems =>
      unfold itemsBody at hitems
      split at hitems
      · cases hitems
      · rename_i target htarget
        cases hitems
        rcases List.mem_append.mp ho with ho | ho
        · split at ho
          · cases ho
          · cases List.mem_singleton.mp ho
            trivial
        · cases List.mem_singleton.mp ho
          intro t ht
          have hbuilder : t ∈ itemBuilders cls target := by
            rcases List.mem_append.mp ht with ht | ht
            · exact (List.mem_filter.mp ht).1
            · exact (List.mem_filter.mp ht).1
          exact ⟨target, indexerTarget_mem htarget, (List.mem_filter.mp hbuilder).1⟩
  | single _ hshared hbuilders hchildren htail =>
      obtain ⟨before, init, hoperations, hbefore, hreused, hincluded⟩ := shared_spec hcls hshared
      simp only [hoperations, List.mem_append, List.mem_singleton] at ho
      rcases ho with (((ho | rfl) | ho) | ho) | ho
      · exact (hbefore o ho).proper
      · exact hreused
      · exact (hbuilders o ho).proper
      · refine proper_of_mem_addCommands (fun s hs => ?_) ho
        rcases List.mem_append.mp hs with hs | hs
        · obtain ⟨child, hchild, rfl⟩ := List.mem_map.mp hs
          exact ⟨hchildren child hchild, rfl⟩
        · exact hincluded s hs
      · exact (htail o ho).proper

end Consequences

section Synthesize

variable {c : Context} {m : Method} {body : Body} (hm : m.isCommandBuilder = true)
  (h : (commandEngine c).synthesize m = .ok body)
include hm h

theorem established_of_synthesize : established body.operations = true := by
  obtain ⟨cls, hcls, _, hshape⟩ := shape_of_synthesize hm h
  exact hshape.established hcls

theorem proper_of_synthesize : ∀ o ∈ body.operations, Proper c.graph o := by
  obtain ⟨cls, hcls, _, hshape⟩ := shape_of_synthesize hm h
  exact hshape.proper hcls

/-- A body gives back items at most once. -/
theorem itemLists_of_synthesize : itemLists body = [] ∨ ∃ items, itemLists body = [items] := by
  obtain ⟨cls, hcls, _, hshape⟩ := shape_of_synthesize hm h
  have hnone : (∀ items, .command (.returnItemCommands items) ∉ body.operations) →
      itemLists body = [] := fun hnone =>
    List.eq_nil_iff_forall_not_mem.mpr fun items hitems => hnone items (mem_itemLists.mp hitems)
  unfold itemLists at hnone ⊢
  generalize body.operations = operations at hnone hshape ⊢
  cases hshape with
  | root =>
      refine Or.inl (hnone fun items hitems => ?_)
      simp only [rootBody, List.mem_append, List.mem_singleton] at hitems
      rcases hitems with (hitems | hitems) | hitems
      · cases hitems
      · split at hitems
        · cases hitems
        · cases List.mem_singleton.mp hitems
      · cases hitems
  | items _ _ _ hitems =>
      unfold itemsBody at hitems
      split at hitems
      · cases hitems
      · cases hitems
        exact Or.inr ⟨_, by split <;> rfl⟩
  | single _ hshared hbuilders _ htail =>
      obtain ⟨before, init, hoperations, hbefore, _⟩ := shared_spec hcls hshared
      refine Or.inl (hnone fun items hitems => ?_)
      simp only [hoperations, List.mem_append, List.mem_singleton] at hitems
      rcases hitems with (((hitems | hitems) | hitems) | hitems) | hitems
      · exact hbefore _ hitems
      · cases hitems
      · exact hbuilders _ hitems
      · unfold addCommands at hitems
        split at hitems
        · cases hitems
        · cases List.mem_singleton.mp hitems
      · exact htail _ hitems

end Synthesize

/-- Every builder visited next is one that the graph declares. -/
theorem Follows.declared {c : Context} {v w : Visit} (hv : v.method.isCommandBuilder = true)
    (h : Follows (commandEngine c) v w) : IsDeclared c.graph w.method := by
  obtain ⟨body, hbody, hw⟩ := h
  have hproper := proper_of_synthesize hv hbody
  cases v with
  | command m =>
      obtain ⟨o, ho, hw⟩ := List.mem_flatMap.mp hw
      have hproper := hproper o ho
      unfold Visit.ofOperation at hw
      split at hw
      · obtain ⟨r, hr, rfl⟩ := List.mem_map.mp hw
        exact hproper r (Option.mem_toList.mp hr)
      · obtain ⟨s, hs, rfl⟩ := List.mem_map.mp hw
        rw [Visit.method_ofSubCommand]
        exact (hproper.1 s hs).1
      · cases hw
  | items m =>
      obtain ⟨items, hitems, hw⟩ := List.mem_flatMap.mp hw
      have hproper := hproper _ (mem_itemLists.mp hitems)
      rcases List.mem_append.mp hw with hw | hw
      · obtain ⟨t, ht, rfl⟩ := List.mem_map.mp hw
        exact hproper t (List.mem_append_left _ ht)
      · obtain ⟨t, ht, rfl⟩ := List.mem_map.mp hw
        rw [Visit.method_ofContainer]
        exact hproper t (List.mem_append_right _ ht)

/-! ### Planning reports no cycle -/

section NoCycle

variable {c : Context} {cls : ClassDef} {m : Method} {f : Failure}

/-- A rule that is broken on the way is not the one against cycles. -/
theorem not_hasCode_of_ofViolation {α : Type} {x : Except Violation α}
    (hx : ∀ v, x = .error v → v.rule.code ≠ Rule.commandCycle.code) (h : ofViolation x = .error f) :
    ¬ f.HasCode Rule.commandCycle.code := by
  obtain ⟨v, hv, rfl⟩ := mapError_eq_error.mp h
  rw [Failure.hasCode_cause]
  rintro ⟨v', heq, hcode⟩
  cases heq
  exact hx v hv hcode

/-- A fault that is named directly is not a cycle unless it says so. -/
theorem not_hasCode_of_structural {rule : Rule} {element : String}
    (hrule : rule.code ≠ Rule.commandCycle.code)
    (h : (structural rule element : Except Failure Body) = .error f) :
    ¬ f.HasCode Rule.commandCycle.code := by
  cases h
  rwa [Failure.hasCode_violation]

/-- The steps of a handler fail for other reasons than cycles. -/
theorem not_hasCode_of_handlerSteps {g : Graph} {generator executor : Method}
    (h : handlerSteps g generator executor = .error f) : ¬ f.HasCode Rule.commandCycle.code := by
  have hcheck : checkContentType g generator = .error f := by
    simp only [handlerSteps] at h
    by_cases hneeded : ((executor.parameterOfKind .requestBody).isSome &&
        !(executor.parameterOfKind .requestBody).any (isStreamType ·.type)) = true
    · rw [if_pos hneeded] at h
      rcases bind_eq_error.mp h with hcheck | ⟨_, _, h⟩
      · exact hcheck
      · cases h
    · rw [if_neg hneeded] at h
      cases h
  unfold checkContentType at hcheck
  split at hcheck
  · cases hcheck
  · split at hcheck
    · cases hcheck
    · cases hcheck
      simp [Failure.hasCode_cause]

theorem not_hasCode_of_shared (h : shared c cls m = .error f) :
    ¬ f.HasCode Rule.commandCycle.code := by
  rcases bind_eq_error.mp h with hindexer | ⟨x, _, h⟩
  · exact not_hasCode_of_ofViolation (fun v hv => by simp [rule_of_indexerOf hv, Rule.code]) hindexer
  · split at h
    · cases h
    · split at h <;> cases h

theorem not_hasCode_of_commandBuilder (h : commandBuilder c cls m = .error f) :
    ¬ f.HasCode Rule.commandCycle.code := by
  unfold commandBuilder at h
  split at h
  · exact not_hasCode_of_structural (by decide) h
  · split at h
    · unfold executableBody at h
      split at h
      · exact not_hasCode_of_structural (by decide) h
      · rcases bind_eq_error.mp h with hgenerator | ⟨generator, _, h⟩
        · refine not_hasCode_of_ofViolation (fun v hv => ?_) hgenerator
          rcases rule_of_generatorOf hv with ⟨hrule, -⟩ | hrule | ⟨http, hrule | hrule⟩ <;> simp [hrule, Rule.code]
        rcases bind_eq_error.mp h with hshared | ⟨sharing, _, h⟩
        · exact not_hasCode_of_shared hshared
        rcases bind_eq_error.mp h with hsteps | ⟨steps, _, h⟩
        · exact not_hasCode_of_handlerSteps hsteps
        · cases h
    · split at h
      · cases h
      · split at h
        · unfold itemsBody at h
          split at h
          · exact not_hasCode_of_structural (by decide) h
          · cases h
        · rcases bind_eq_error.mp h with hshared | ⟨sharing, _, h⟩
          · exact not_hasCode_of_shared hshared
          · cases h

/-- No body is missing because of a cycle, which only assembling finds. -/
theorem not_hasCode_of_synthesize (hm : m.isCommandBuilder = true)
    (h : (commandEngine c).synthesize m = .error f) : ¬ f.HasCode Rule.commandCycle.code := by
  rw [synthesize_commandBuilder hm] at h
  split at h
  · exact not_hasCode_of_structural (by decide) h
  · obtain ⟨f', hbody, rfl⟩ := mapError_eq_error.mp h
    rw [Failure.hasCode_within]
    exact not_hasCode_of_commandBuilder hbody

end NoCycle

/-! ### A client to try this on -/

namespace Sample

def member (owner index : Nat) (name : String) (kind : MethodKind) : Method :=
  { id := ⟨⟨owner⟩, index⟩, name, kind, returnType := some (.scalar { name := "Command" }),
    parent := some ⟨owner⟩ }

/-- A request to a class, with the method that prepares it and the builder of its command. -/
def request (owner index : Nat) (name : String) : List Method :=
  [{ member owner index name .requestExecutor with http := some "GET" },
    { member owner (index + 1) ("To" ++ name) .requestGenerator with http := some "GET" },
    { member owner (index + 2) ("Build" ++ name ++ "Command") .commandBuilder with
      http := some "GET", representedMethod := some ⟨⟨owner⟩, index⟩ }]

/-- A property that leads to another class. -/
def way (owner : Nat) (name : String) (target : Nat) : Property :=
  { name, kind := .requestBuilder, parent := some ⟨owner⟩
    type := some (.scalar { name, definition := some (.ofClass ⟨target⟩) }) }

def navigation (owner index : Nat) (name : String) (property : Nat) : Method :=
  { member owner index ("Build" ++ name ++ "Command") .commandBuilder with
    accessedProperty := some ⟨⟨owner⟩, property⟩ }

/-- The only indexer of a class. -/
def item (owner target : Nat) : Indexer :=
  { id := ⟨⟨owner⟩, 0⟩, name := "Item", indexType := { name := "string" }
    returnType := some { name := "Item", definition := some (.ofClass ⟨target⟩) }
    parent := some ⟨owner⟩ }

/-- The builder of the item commands of a class. -/
def items (owner index : Nat) : Method :=
  { member owner index "BuildItemCommand" .commandBuilder with
    returnType := some (.scalar { name := "Command", collection := .list })
    representedIndexer := some ⟨⟨owner⟩, 0⟩ }

def builder (id : Nat) (name : String) (properties : List Property) (indexers : List Indexer)
    (methods : List Method) : ClassDef :=
  { id := ⟨id⟩, name, kind := .requestBuilder, home := some ⟨⟨0⟩, "Sdk"⟩, properties, methods, indexers }

def users : ClassDef :=
  builder 0 "Users" [way 0 "Mail" 2, way 0 "Inbox" 2] [item 0 1]
    ([member 0 0 "Users" .clientConstructor,
      { member 0 1 "BuildRootCommand" .commandBuilder with representedMethod := some ⟨⟨0⟩, 0⟩ },
      navigation 0 2 "Mail" 0, navigation 0 3 "Inbox" 1] ++ request 0 4 "List" ++ [items 0 7])

def user : ClassDef :=
  builder 1 "User" [way 1 "Mail" 3, way 1 "Notes" 4] []
    ([navigation 1 0 "Mail" 0, navigation 1 1 "Notes" 1] ++ request 1 2 "Get")

def graph (classes : List ClassDef) : Graph :=
  { root := { id := ⟨0⟩, name := "Sdk", classes := classes.map (·.id) }, classes := classes.toArray
    enums := #[] }

/-- A client for users, their mail and their notes. Users have mail together and each for itself, so the
commands for it share a name. The mailbox of all is reached in two ways. -/
def mailing : Context :=
  ⟨graph [users, user, builder 2 "Mailbox" [] [] (request 2 0 "Archive"),
      builder 3 "Mail" [] [] (request 3 0 "Send"), builder 4 "Notes" [] [] []],
    Convention.Language.cli.policy, {}⟩

/-- The commands of the mail sample, with their paths. -/
theorem assemble_mailing :
    ∃ tree planned, (assemble (commandEngine mailing)).run.run [] = (.ok tree, planned) ∧
      (tree.walk []).map (·.1) =
        [[], ["mail"], ["mail", "send"], ["mail", "archive"], ["inbox"], ["inbox", "archive"],
          ["list"], ["get"], ["notes"]] := by
  have hpaths : ((assemble (commandEngine mailing)).run.run []).1.toOption.map
      (fun tree => (tree.walk []).map (·.1)) =
        some [[], ["mail"], ["mail", "send"], ["mail", "archive"], ["inbox"], ["inbox", "archive"],
          ["list"], ["get"], ["notes"]] := by
    decide +kernel
  rcases hrun : (assemble (commandEngine mailing)).run.run [] with ⟨_ | tree, planned⟩
  · rw [hrun] at hpaths
    cases hpaths
  · rw [hrun] at hpaths
    exact ⟨tree, planned, rfl, Option.some.inj hpaths⟩

end Sample

end ClientForge.Command
