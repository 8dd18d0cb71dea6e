import ClientForge.Proofs.Command.Cycle
import ClientForge.Proofs.Command.Siblings

/-!
# What an operation attaches

Adding sub-commands to a command, in the assembled tree, as a function of what their builders give.

* `agree_whole`: a builder that is evaluated gives the same whatever is pending, so what it gives can be taken
  from an evaluation from scratch (`whole`);
* `Evaluates.extends`: the children that an operation adds, in order, and that no two of them share a name;
* `evaluated_of_reached`: every operation that adds sub-commands is evaluated where a tree is assembled.
-/

namespace ClientForge.Command

open ClientForge.Graph ClientForge.Plan Assembly Evaluator Relation

/-! ### What builders give -/

/-- What a computation gives, if it succeeds. -/
def Assembly.value {α : Type} (x : Assembly α) : Option α := (x.run.run []).1.toOption

theorem Assembly.Ends.value {α : Type} {x : Assembly α} (hx : Steady x) {a : α} (h : Ends x (.ok a)) :
    x.value = some a := by
  have hrun : Ends x (x.run.run []).1 := ⟨[], (x.run.run []).2, rfl⟩
  rw [Assembly.value, hrun.unique hx h]
  rfl

/-- Evaluates a builder from scratch. -/
def whole (c : Context) : Evaluator := evaluator (commandEngine c) (methodIds c.graph)

section Whole

variable {c : Context} {v : Visit}

/-- What an acyclic visit gives does not depend on what is pending besides the builders it reaches. -/
theorem agree_of_acyclic {pending pending' : List MethodId} (hacyclic : Acyclic (commandEngine c) v)
    (h : ∀ w, ReflTransGen (Follows (commandEngine c)) v w → w.method.id ∈ pending)
    (h' : ∀ w, ReflTransGen (Follows (commandEngine c)) v w → w.method.id ∈ pending') :
    (evaluator (commandEngine c) pending).Agree (evaluator (commandEngine c) pending') v := by
  induction pending using pending_induction generalizing pending' v with
  | enter pending ih =>
    have hmem := h v .refl
    have hmem' := h' v .refl
    have hinside : ∀ {all : List MethodId} {w : Visit}, Follows (commandEngine c) v w →
        (∀ u, ReflTransGen (Follows (commandEngine c)) v u → u.method.id ∈ all) →
        ∀ u, ReflTransGen (Follows (commandEngine c)) w u → u.method.id ∈ inside all v.method := by
      intro all w hw hall u hu
      refine mem_inside_iff.mpr ⟨hall u (hu.head hw), ?_⟩
      exact (hacyclic v u .refl (TransGen.head' hw hu)).symm
    have hnext : ∀ w, Follows (commandEngine c) v w →
        (evaluator (commandEngine c) (inside pending v.method)).Agree
          (evaluator (commandEngine c) (inside pending' v.method)) w := fun w hw =>
      ih v.method hmem (hacyclic.next hw) (hinside hw h) (hinside hw h')
    cases v with
    | command m =>
        rw [Agree, evaluator_command_of_mem (m := m) hmem, evaluator_command_of_mem (m := m) hmem']
        exact evaluateCommand_congr hnext
    | items m =>
        rw [Agree, evaluator_items_of_mem (m := m) hmem, evaluator_items_of_mem (m := m) hmem']
        exact evaluateItems_congr hnext

/-- A visit that succeeds with some builders pending is the same from scratch. -/
theorem agree_whole {pending : List MethodId} (hv : IsDeclared c.graph v.method)
    (h : (evaluator (commandEngine c) pending).Succeeds v) :
    (evaluator (commandEngine c) pending).Agree (whole c) v := by
  apply agree_of_acyclic (acyclic_of_succeeds hv.isCommandBuilder h)
  · intro w hw
    rcases reflTransGen_iff_eq_or_transGen.mp hw with rfl | hw
    · exact Succeeds.mem_pending h
    · exact (mem_inside_iff.mp (mem_inside_of_reached hv.isCommandBuilder h hw)).1
  · intro w hw
    exact (declared_of_reached hv hw).id_mem

theorem steady_whole (c : Context) : (whole c).Steady := evaluator_steady _ _

end Whole

/-! ### Adding children -/

/-- An operation is evaluated: the pair of lists that it collects, and the command with the new children. -/
def Evaluates (e : Engine) (v : Evaluator) (add : AddSubCommands) (n : Node) (found : Commands)
    (n' : Node) : Prop :=
  ∃ n₁, Ends (evaluateSubCommands e v add.direct add.commands n {}) (.ok (n₁, found)) ∧
    Ends (addAll e n₁ (found.ordered add.sortContainers)) (.ok n')

/-- An operation that adds sub-commands finds them first and then adds them. -/
theorem Evaluates.of_evaluateAdd {e : Engine} {v : Evaluator} {add : AddSubCommands} {n n' : Node}
    (h : Ends (evaluateAdd e v n add) (.ok n')) : ∃ found, Evaluates e v add n found n' := by
  obtain ⟨⟨n₁, found⟩, hsubs, hall⟩ := h.bind_ok
  exact ⟨found, n₁, hsubs, hall⟩

/-- A command gets new children after those that it has, and no two of them share a name. -/
structure Extends (n : Node) (new : List Node) (n' : Node) : Prop where
  children : n'.children = n.children ++ new
  distinct : new.Pairwise fun a b => Text.foldEq a.name b.name = false
  apart : ∀ a ∈ n.children, ∀ b ∈ new, Text.foldEq a.name b.name = false

namespace Extends

theorem refl (n : Node) : Extends n [] n := ⟨by simp, .nil, by simp⟩

/-- Extending adds up. -/
theorem trans {n n₁ n₂ : Node} {new new' : List Node} (h : Extends n new n₁)
    (h' : Extends n₁ new' n₂) : Extends n (new ++ new') n₂ := by
  have hapart := h'.apart
  simp only [h.children, List.mem_append] at hapart
  refine ⟨by rw [h'.children, h.children, List.append_assoc], ?_, ?_⟩
  · exact List.pairwise_append.mpr
      ⟨h.distinct, h'.distinct, fun a ha b hb => hapart a (Or.inr ha) b hb⟩
  · intro a ha b hb
    rcases List.mem_append.mp hb with hb | hb
    · exact h.apart a ha b hb
    · exact hapart a (Or.inl ha) b hb

theorem of_add {g : Graph} {n c n' : Node} (h : n.add g c = .ok n') : Extends n [c] n' := by
  obtain ⟨rfl, hother⟩ := Node.add_eq_ok h
  exact ⟨rfl, List.pairwise_singleton _ _, by simpa using hother⟩

/-- Adding children extends a command by them, in order. -/
theorem of_addAll {e : Engine} {n n' : Node} {children : List Node}
    (h : Ends (addAll e n children) (.ok n')) : Extends n children n' := by
  have hfold : children.foldlM (Node.add e.context.graph) n = .ok n' := h.of_of.symm
  clear h
  induction children generalizing n with
  | nil =>
      cases hfold
      exact refl _
  | cons c children ih =>
      rw [List.foldlM_cons] at hfold
      obtain ⟨n₁, hadd, hrest⟩ := bind_eq_ok.mp hfold
      exact (of_add hadd).trans (ih hrest)

end Extends

/-! ### What sub-commands give -/

section Given

variable (c : Context)

/-- The command of a sub-command. -/
def given (s : SubCommand) : List Node := ((whole c).command s.method).value.toList

/-- The commands of a sub-command's items. -/
def givenItems (s : SubCommand) : Commands := ((whole c).items s.method).value.getD {}

/-- A sub-command's share of the executable commands and of the containers, by a test for what is
executable. -/
def share (test : Method → Bool) (s : SubCommand) : Commands :=
  if s.items then givenItems c s else if test s.method then ⟨given c s, []⟩ else ⟨[], given c s⟩

def gathered (test : Method → Bool) (subs : List SubCommand) : Commands :=
  ⟨subs.flatMap fun s => (share c test s).executables, subs.flatMap fun s => (share c test s).containers⟩

/-- The children that an operation adds. Without lists the single commands come first, then all items. -/
def attached (add : AddSubCommands) : List Node :=
  if add.direct then
    (add.commands.filter (!·.items)).flatMap (given c) ++
      (gathered c (isExecutable c.graph) (add.commands.filter (·.items))).ordered add.sortContainers
  else (gathered c (isExecutable c.graph) add.commands).ordered add.sortContainers

end Given

@[simp]
theorem gathered_nil (c : Context) (test : Method → Bool) : gathered c test [] = {} := rfl

@[simp]
theorem gathered_cons (c : Context) (test : Method → Bool) (s : SubCommand) (subs : List SubCommand) :
    gathered c test (s :: subs) = (share c test s).append (gathered c test subs) := rfl

theorem append_assoc (a b d : Commands) : (a.append b).append d = a.append (b.append d) := by
  simp [Commands.append]

theorem append_empty (a : Commands) : a.append {} = a := by
  simp [Commands.append]

theorem empty_append (a : Commands) : Commands.append {} a = a := by
  simp [Commands.append]

section Evaluation

variable {c : Context} {n n' : Node} {found found' : Commands} {subs : List SubCommand}

theorem given_of_ends {s : SubCommand} {child : Node}
    (h : Ends ((whole c).command s.method) (.ok child)) : given c s = [child] := by
  rw [given, h.value ((steady_whole c).command _)]
  rfl

/-- The commands of a sub-command's items are those that evaluating it ends with. -/
theorem givenItems_of_ends {s : SubCommand} {more : Commands}
    (h : Ends ((whole c).items s.method) (.ok more)) : givenItems c s = more := by
  rw [givenItems, h.value ((steady_whole c).items _)]
  rfl

/-- Directly added, single commands become children at once and items are kept. -/
theorem evaluateSubCommands_direct
    (h : Ends (evaluateSubCommands (commandEngine c) (whole c) true subs n found) (.ok (n', found'))) :
    Extends n ((subs.filter (!·.items)).flatMap (given c)) n' ∧
      found' = found.append (gathered c (isExecutable c.graph) (subs.filter (·.items))) := by
  induction subs generalizing n found with
  | nil =>
      cases h.of_pure
      exact ⟨.refl _, (append_empty _).symm⟩
  | cons s subs ih =>
      unfold evaluateSubCommands at h
      split at h
      · rename_i hitems
        obtain ⟨more, hmore, hrest⟩ := h.bind_ok
        obtain ⟨hextends, hfound⟩ := ih hrest
        have hshare : share c (isExecutable c.graph) s = more := by
          rw [share, if_pos hitems, givenItems_of_ends hmore]
        simp only [List.filter_cons, hitems, Bool.not_true, if_true, gathered_cons, hshare]
        refine ⟨hextends, ?_⟩
        rw [hfound, append_assoc]
      · rename_i hitems
        obtain ⟨child, hchild, hrest⟩ := h.bind_ok
        obtain ⟨n₁, hadd, hrest⟩ := hrest.bind_ok
        obtain ⟨hextends, hfound⟩ := ih hrest
        have hfirst := Extends.of_add hadd.of_of.symm
        simp only [List.filter_cons, hitems, Bool.not_false, if_true, List.flatMap_cons,
          given_of_ends hchild]
        exact ⟨hfirst.trans hextends, hfound⟩

/-- Otherwise all that is given is kept in two lists. -/
theorem evaluateSubCommands_grouped
    (h : Ends (evaluateSubCommands (commandEngine c) (whole c) false subs n found) (.ok (n', found'))) :
    n' = n ∧ found' = found.append (gathered c (isExecutable c.graph) subs) := by
  induction subs generalizing n found with
  | nil =>
      cases h.of_pure
      exact ⟨rfl, (append_empty _).symm⟩
  | cons s subs ih =>
      unfold evaluateSubCommands at h
      have hrest : Ends (evaluateSubCommands (commandEngine c) (whole c) false subs n
          (found.append (share c (isExecutable c.graph) s))) (.ok (n', found')) := by
        unfold share
        split at h
        · rename_i hitems
          obtain ⟨more, hmore, hrest⟩ := h.bind_ok
          rwa [if_pos hitems, givenItems_of_ends hmore]
        · rename_i hitems
          obtain ⟨child, hchild, hrest⟩ := h.bind_ok
          rw [if_neg hitems, given_of_ends hchild]
          simp only [Bool.false_eq_true, if_false] at hrest
          change Ends (if isExecutable c.graph s.method then _ else _) _ at hrest
          split at hrest
          · rename_i htest
            rwa [if_pos htest]
          · rename_i htest
            rwa [if_neg htest]
      obtain ⟨hn, hfound⟩ := ih hrest
      exact ⟨hn, by rw [hfound, append_assoc, gathered_cons]⟩

/-- The children that an operation adds, and the groups that it forms if it does not add them directly. -/
theorem Evaluates.extends {add : AddSubCommands}
    (h : Evaluates (commandEngine c) (whole c) add n found n') :
    Extends n (attached c add) n' ∧
      (add.direct = false → found = gathered c (isExecutable c.graph) add.commands) := by
  obtain ⟨n₁, hsubs, hall⟩ := h
  have hall := Extends.of_addAll hall
  unfold attached
  split
  · rename_i hdirect
    rw [hdirect] at hsubs
    obtain ⟨hextends, rfl⟩ := evaluateSubCommands_direct hsubs
    rw [empty_append] at hall
    exact ⟨hextends.trans hall, fun hgrouped => by rw [hdirect] at hgrouped; cases hgrouped⟩
  · rename_i hdirect
    rw [Bool.not_eq_true] at hdirect
    rw [hdirect] at hsubs
    obtain ⟨rfl, rfl⟩ := evaluateSubCommands_grouped hsubs
    rw [empty_append] at hall ⊢
    exact ⟨hall, fun _ => rfl⟩

/-- What is pending does not matter to an operation that is evaluated. -/
theorem Evaluates.of_pending {pending : List MethodId} {add : AddSubCommands}
    (hadd : ∀ s ∈ add.commands, IsDeclared c.graph s.method)
    (h : Evaluates (commandEngine c) (evaluator (commandEngine c) pending) add n found n') :
    Evaluates (commandEngine c) (whole c) add n found n' := by
  obtain ⟨n₁, hsubs, hall⟩ := h
  have hagree : ∀ s ∈ add.commands,
      (evaluator (commandEngine c) pending).Agree (whole c) (.ofSubCommand s) := fun s hs =>
    agree_whole (by rw [Visit.method_ofSubCommand]; exact hadd s hs)
      (succeeds_of_evaluateSubCommands hsubs s hs)
  exact ⟨n₁, by rwa [← evaluateSubCommands_congr hagree], hall⟩

end Evaluation

/-! ### In an assembled tree -/

/-- The operations of a builder that add sub-commands. -/
def additions (c : Context) (m : Method) : List AddSubCommands :=
  match (commandEngine c).synthesize m with
  | .ok body => body.operations.filterMap fun
    | .command (.addSubCommands add) => some add
    | _ => none
  | .error _ => []

/-- Every addition of a builder is an operation of its body. -/
theorem exists_of_mem_additions {c : Context} {m : Method} {add : AddSubCommands}
    (h : add ∈ additions c m) :
    ∃ body, (commandEngine c).synthesize m = .ok body ∧
      .command (.addSubCommands add) ∈ body.operations := by
  unfold additions at h
  split at h
  · rename_i body hbody
    obtain ⟨o, ho, hadd⟩ := List.mem_filterMap.mp h
    refine ⟨body, hbody, ?_⟩
    split at hadd
    · cases hadd
      exact ho
    · cases hadd
  · cases h

/-- Where a tree is assembled, every operation that adds sub-commands is evaluated. -/
theorem evaluated_of_reached {c : Context} {planned planned' : List Method} {tree : Node}
    (h : (assemble (commandEngine c)).run.run planned = (.ok tree, planned')) {root m : Method}
    (hroot : root ∈ rootBuilders c.graph)
    (hreached : ReflTransGen (Follows (commandEngine c)) (.command root) (.command m))
    {add : AddSubCommands} (hadd : add ∈ additions c m) :
    Proper c.graph (.command (.addSubCommands add)) ∧
      ∃ pending n found n',
        Evaluates (commandEngine c) (evaluator (commandEngine c) pending) add n found n' := by
  obtain ⟨body, hbody, hadd⟩ := exists_of_mem_additions hadd
  obtain ⟨root', hroots, hsucceeds⟩ := succeeds_of_assemble h
  rw [hroots, List.mem_singleton] at hroot
  subst hroot
  have hdeclared : IsDeclared c.graph root := rootBuilders_declared (by simp [hroots])
  obtain ⟨hm, pending, hcommand⟩ :=
    succeeds_of_reached (v := .command root) hdeclared.isCommandBuilder hsucceeds hreached
  refine ⟨proper_of_synthesize hm hbody _ hadd, ?_⟩
  have hmem := Succeeds.mem_pending hcommand
  obtain ⟨k, hk⟩ := hcommand
  rw [evaluator_command_of_mem (m := m) hmem] at hk
  obtain ⟨before, after, hstep, hsome⟩ :=
    reached_of_evaluateCommand hk hbody (established_of_synthesize hm hbody) _ hadd
  obtain ⟨n, rfl⟩ := Option.isSome_iff_exists.mp (hsome add rfl)
  obtain ⟨n', hn', _⟩ := Ends.map_ok hstep
  obtain ⟨found, hevaluates⟩ := Evaluates.of_evaluateAdd hn'
  exact ⟨_, n, found, n', hevaluates⟩

end ClientForge.Command
