import ClientForge.Proofs.Command.Assembly
import ClientForge.Proofs.Command.Bodies

/-!
# Evaluating along visits

The evaluation of a builder comes down to the evaluations of the builders that its body leads to.

* `Evaluator.Succeeds.next`: where it succeeds, it succeeds at every builder visited next;
* `Evaluator.Fails.next`: where it reports a cycle, one of them does;
* `evaluateCommand_congr`, `evaluateItems_congr`: it depends on nothing but them.

All three are shown for one operation at a time, and then for the evaluator that enters a builder.
-/

namespace ClientForge.Command

open ClientForge.Graph ClientForge.Plan Assembly

namespace Evaluator

def Succeeds (v : Evaluator) : Visit → Prop
  | .command m => ∃ n, Ends (v.command m) (.ok n)
  | .items m => ∃ found, Ends (v.items m) (.ok found)

def Fails (v : Evaluator) (f : Failure) : Visit → Prop
  | .command m => Ends (v.command m) (.error f)
  | .items m => Ends (v.items m) (.error f)

/-- Two evaluators do the same at a visit. -/
def Agree (v v' : Evaluator) : Visit → Prop
  | .command m => v.command m = v'.command m
  | .items m => v.items m = v'.items m

end Evaluator

open Evaluator

/-- A failure that reports a cycle. -/
def IsCycle (f : Failure) : Prop := f.HasCode Rule.commandCycle.code

/-! ### Where evaluation succeeds -/

section Success

variable {e : Engine} {v : Evaluator} {m : Method}

/-- Sub-commands that are added were all visited with success. -/
theorem succeeds_of_evaluateSubCommands {direct : Bool} {subs : List SubCommand} {n n' : Node}
    {found found' : Commands}
    (h : Ends (evaluateSubCommands e v direct subs n found) (.ok (n', found'))) :
    ∀ s ∈ subs, v.Succeeds (.ofSubCommand s) := by
  induction subs generalizing n found with
  | nil => simp
  | cons s subs ih =>
      have hsplit : v.Succeeds (.ofSubCommand s) ∧ ∃ n found,
          Ends (evaluateSubCommands e v direct subs n found) (.ok (n', found')) := by
        unfold evaluateSubCommands at h
        unfold Visit.ofSubCommand
        split at h
        · rename_i hitems
          obtain ⟨more, hmore, hrest⟩ := h.bind_ok
          rw [if_pos hitems]
          exact ⟨⟨more, hmore⟩, _, _, hrest⟩
        · rename_i hitems
          obtain ⟨child, hchild, hrest⟩ := h.bind_ok
          rw [if_neg hitems]
          refine ⟨⟨child, hchild⟩, ?_⟩
          split at hrest
          · obtain ⟨n₁, _, hrest⟩ := hrest.bind_ok
            exact ⟨_, _, hrest⟩
          · split at hrest <;> exact ⟨_, _, hrest⟩
      obtain ⟨hfirst, n₁, found₁, hrest⟩ := hsplit
      exact List.forall_mem_cons.mpr ⟨hfirst, ih hrest⟩

/-- The same for one operation that adds sub-commands. -/
theorem succeeds_of_evaluateAdd {n n' : Node} {add : AddSubCommands}
    (h : Ends (evaluateAdd e v n add) (.ok n')) :
    ∀ s ∈ add.commands, v.Succeeds (.ofSubCommand s) := by
  obtain ⟨⟨n₁, found⟩, hsubs, _⟩ := h.bind_ok
  exact succeeds_of_evaluateSubCommands hsubs

/-- Once a command is established it stays so. -/
theorem isSome_of_evaluateStep {o : Operation} {n n' : Option Node}
    (h : Ends (evaluateStep e v m n o) (.ok n'))
    (hn : n.isSome ∨ ∃ init, o = .command (.initCommand init)) : n'.isSome := by
  unfold evaluateStep at h
  split at h
  · obtain ⟨_, _, rfl⟩ := h.map_ok
    rfl
  · obtain ⟨_, _, rfl⟩ := h.map_ok
    rfl
  · cases h.of_pure
    rfl
  · cases h.of_pure
    rfl
  · cases h.of_throw
  · rename_i hinit _ _ _ _
    cases h.of_pure
    rcases hn with hn | ⟨init, rfl⟩
    · exact hn
    · exact (hinit init rfl).elim

/-- In an evaluation that succeeds every operation is reached, and the sub-commands are added to a command that
is established. -/
theorem reached_of_foldlM {operations : List Operation} {n n' : Option Node}
    (h : Ends (operations.foldlM (evaluateStep e v m) n) (.ok n'))
    (hn : n.isSome ∨ established operations = true) :
    ∀ o ∈ operations, ∃ k k', Ends (evaluateStep e v m k o) (.ok k') ∧
      ∀ add, o = .command (.addSubCommands add) → k.isSome := by
  induction operations generalizing n with
  | nil => simp
  | cons o operations ih =>
      rw [List.foldlM_cons] at h
      obtain ⟨k, hstep, hrest⟩ := h.bind_ok
      have hadd : ∀ add, o = .command (.addSubCommands add) → n.isSome := by
        rintro add rfl
        rcases hn with hn | hestablished
        · exact hn
        · cases hestablished
      have hk : k.isSome ∨ established operations = true := by
        by_cases hinit : ∃ init, o = .command (.initCommand init)
        · exact Or.inl (isSome_of_evaluateStep hstep (Or.inr hinit))
        · rcases hn with hn | hestablished
          · exact Or.inl (isSome_of_evaluateStep hstep (Or.inl hn))
          · rw [established] at hestablished
            · exact Or.inr hestablished
            · exact fun init heq => hinit ⟨init, heq⟩
            · rintro add rfl
              cases hestablished
      exact List.forall_mem_cons.mpr ⟨⟨n, k, hstep, hadd⟩, ih hrest hk⟩

/-- An operation that succeeds does so at all of its visits, as long as there is a command to add to. -/
theorem succeeds_of_evaluateStep {o : Operation} {n n' : Option Node}
    (h : Ends (evaluateStep e v m n o) (.ok n'))
    (hadd : ∀ add, o = .command (.addSubCommands add) → n.isSome) :
    ∀ w ∈ Visit.ofOperation o, v.Succeeds w := by
  intro w hw
  unfold Visit.ofOperation at hw
  split at hw
  · obtain ⟨r, hr, rfl⟩ := List.mem_map.mp hw
    rw [Option.mem_toList] at hr
    obtain ⟨k, hk, _⟩ := Ends.map_ok h
    rw [establish, hr] at hk
    exact ⟨k, hk⟩
  · obtain ⟨s, hs, rfl⟩ := List.mem_map.mp hw
    obtain ⟨k, rfl⟩ := Option.isSome_iff_exists.mp (hadd _ rfl)
    obtain ⟨k', hk', _⟩ := Ends.map_ok h
    exact succeeds_of_evaluateAdd hk' s hs
  · cases hw

/-- A command that is established got past every operation of its body. -/
theorem reached_of_evaluateCommand {n : Node} {body : Body}
    (h : Ends (evaluateCommand e v m) (.ok n)) (hbody : e.synthesize m = .ok body)
    (hestablished : established body.operations = true) :
    ∀ o ∈ body.operations, ∃ k k', Ends (evaluateStep e v m k o) (.ok k') ∧
      ∀ add, o = .command (.addSubCommands add) → k.isSome := by
  obtain ⟨body', hplanned, h⟩ := h.bind_ok
  have heq := hplanned.of_bodyOf
  rw [hbody] at heq
  cases heq
  obtain ⟨k, hfold, _⟩ := h.bind_ok
  exact reached_of_foldlM hfold (Or.inr hestablished)

/-- A container that gives commands was visited with success. -/
theorem succeeds_of_evaluateContainer {found : Commands}
    (h : Ends (evaluateContainer v m) (.ok found)) : v.Succeeds (.ofContainer m) := by
  unfold evaluateContainer at h
  unfold Visit.ofContainer
  split at h
  · rename_i hitems
    rw [if_pos hitems]
    exact ⟨found, h⟩
  · rename_i hitems
    rw [if_neg hitems]
    obtain ⟨n, hn, _⟩ := h.bind_ok
    exact ⟨n, hn⟩

/-- The items of a builder succeed only if all that they visit does. -/
theorem succeeds_of_evaluateItems {found : Commands} {body : Body}
    (h : Ends (evaluateItems e v m) (.ok found)) (hbody : e.synthesize m = .ok body) :
    ∀ w ∈ Visit.next body (.items m), v.Succeeds w := by
  obtain ⟨body', hplanned, hfold⟩ := h.bind_ok
  have heq := hplanned.of_bodyOf
  rw [hbody] at heq
  cases heq
  intro w hw
  obtain ⟨items, hitems, hw⟩ := List.mem_flatMap.mp hw
  obtain ⟨_, _, hlist⟩ := hfold.foldlM_reached items hitems
  obtain ⟨executables, hexecutables, hlist⟩ := hlist.bind_ok
  obtain ⟨containers, hcontainers, _⟩ := hlist.bind_ok
  rcases List.mem_append.mp hw with hw | hw
  · obtain ⟨t, ht, rfl⟩ := List.mem_map.mp hw
    obtain ⟨n, _, hn⟩ := hexecutables.mapM_ok.1 t ht
    exact ⟨n, hn⟩
  · obtain ⟨t, ht, rfl⟩ := List.mem_map.mp hw
    obtain ⟨more, _, hmore⟩ := hcontainers.mapM_ok.1 t ht
    exact succeeds_of_evaluateContainer hmore

end Success

/-! ### Where a cycle is reported -/

section Failure

variable {e : Engine} {v : Evaluator} {m : Method} {f : Failure} (hf : IsCycle f)
include hf

theorem not_cycle_of_add {g : Graph} {n c : Node} (h : n.add g c = .error f) : False := by
  unfold Node.add at h
  split at h
  · cases h
    have hcode := Failure.hasCode_violation.mp hf
    simp [Rule.code] at hcode
  · cases h

/-- Sub-commands fail with a cycle for one of their visits. -/
theorem fails_of_evaluateSubCommands {direct : Bool} {subs : List SubCommand} {n : Node}
    {found : Commands} (h : Ends (evaluateSubCommands e v direct subs n found) (.error f)) :
    ∃ s ∈ subs, v.Fails f (.ofSubCommand s) := by
  induction subs generalizing n found with
  | nil => cases h.of_pure
  | cons s subs ih =>
      have hsplit : v.Fails f (.ofSubCommand s) ∨ ∃ n found,
          Ends (evaluateSubCommands e v direct subs n found) (.error f) := by
        unfold evaluateSubCommands at h
        unfold Visit.ofSubCommand
        split at h
        · rename_i hitems
          rw [if_pos hitems]
          rcases h.bind_error with hfail | ⟨more, _, hrest⟩
          · exact Or.inl hfail
          · exact Or.inr ⟨_, _, hrest⟩
        · rename_i hitems
          rw [if_neg hitems]
          rcases h.bind_error with hfail | ⟨child, _, hrest⟩
          · exact Or.inl hfail
          · refine Or.inr ?_
            split at hrest
            · rcases hrest.bind_error with hadd | ⟨n₁, _, hrest⟩
              · exact (not_cycle_of_add hf hadd.of_of.symm).elim
              · exact ⟨_, _, hrest⟩
            · split at hrest <;> exact ⟨_, _, hrest⟩
      rcases hsplit with hfirst | ⟨n₁, found₁, hrest⟩
      · exact ⟨s, List.mem_cons_self, hfirst⟩
      · obtain ⟨s', hs', hfail⟩ := ih hrest
        exact ⟨s', List.mem_cons_of_mem _ hs', hfail⟩

theorem not_cycle_of_addAll {n : Node} {children : List Node}
    (h : Ends (addAll e n children) (.error f)) : False := by
  have hfold : children.foldlM (Node.add e.context.graph) n = .error f := h.of_of.symm
  clear h
  induction children generalizing n with
  | nil => cases hfold
  | cons c children ih =>
      rw [List.foldlM_cons] at hfold
      rcases bind_eq_error.mp hfold with hadd | ⟨n', _, hrest⟩
      · exact not_cycle_of_add hf hadd
      · exact ih hrest

/-- An operation fails with a cycle for one of its visits. -/
theorem fails_of_evaluateStep {o : Operation} {n : Option Node}
    (h : Ends (evaluateStep e v m n o) (.error f)) : ∃ w ∈ Visit.ofOperation o, v.Fails f w := by
  unfold evaluateStep at h
  split at h
  · rename_i init _
    have hestablish := h.map_error
    unfold establish at hestablish
    split at hestablish
    · rename_i r hr
      exact ⟨.command r, by simp [Visit.ofOperation, hr], hestablish⟩
    · cases hestablish.of_pure
  · rename_i add n
    rcases h.map_error.bind_error with hsubs | ⟨⟨n₁, found⟩, _, hall⟩
    · obtain ⟨s, hs, hfail⟩ := fails_of_evaluateSubCommands hf hsubs
      exact ⟨_, List.mem_map_of_mem hs, hfail⟩
    · exact (not_cycle_of_addAll hf hall).elim
  · cases h.of_pure
  · cases h.of_pure
  · cases h.of_throw
    obtain ⟨_, heq, _⟩ := Failure.hasCode_cause.mp hf
    cases heq
  · cases h.of_pure

/-- A command whose body is no problem fails with a cycle for one of its visits. -/
theorem fails_of_evaluateCommand (hplan : e.synthesize m ≠ .error f)
    (h : Ends (evaluateCommand e v m) (.error f)) :
    ∃ body, e.synthesize m = .ok body ∧ ∃ w ∈ Visit.next body (.command m), v.Fails f w := by
  rcases h.bind_error with hplanned | ⟨body, hplanned, h⟩
  · exact (hplan hplanned.of_bodyOf.symm).elim
  · refine ⟨body, hplanned.of_bodyOf.symm, ?_⟩
    rcases h.bind_error with hfold | ⟨n, _, hend⟩
    · obtain ⟨_, o, ho, hstep⟩ := hfold.foldlM_error
      obtain ⟨w, hw, hfail⟩ := fails_of_evaluateStep hf hstep
      exact ⟨w, List.mem_flatMap.mpr ⟨o, ho, hw⟩, hfail⟩
    · cases n with
      | none =>
          cases hend.of_throw
          obtain ⟨_, heq, _⟩ := Failure.hasCode_cause.mp hf
          cases heq
      | some n => cases hend.of_pure

omit hf in
theorem fails_of_evaluateContainer (h : Ends (evaluateContainer v m) (.error f)) :
    v.Fails f (.ofContainer m) := by
  unfold evaluateContainer at h
  unfold Visit.ofContainer
  split at h
  · rename_i hitems
    rw [if_pos hitems]
    exact h
  · rename_i hitems
    rw [if_neg hitems]
    rcases h.bind_error with hfail | ⟨n, _, hpure⟩
    · exact hfail
    · cases hpure.of_pure

omit hf in
/-- So do the items of a builder. -/
theorem fails_of_evaluateItems (hplan : e.synthesize m ≠ .error f)
    (h : Ends (evaluateItems e v m) (.error f)) :
    ∃ body, e.synthesize m = .ok body ∧ ∃ w ∈ Visit.next body (.items m), v.Fails f w := by
  rcases h.bind_error with hplanned | ⟨body, hplanned, h⟩
  · exact (hplan hplanned.of_bodyOf.symm).elim
  · refine ⟨body, hplanned.of_bodyOf.symm, ?_⟩
    obtain ⟨_, items, hitems, hlist⟩ := h.foldlM_error
    have hfail : ∃ w ∈ Visit.ofItems items, v.Fails f w := by
      rcases hlist.bind_error with hexecutables | ⟨executables, _, hlist⟩
      · obtain ⟨t, ht, hfail⟩ := hexecutables.mapM_error
        exact ⟨.command t, List.mem_append_left _ (List.mem_map_of_mem ht), hfail⟩
      · rcases hlist.bind_error with hcontainers | ⟨containers, _, hpure⟩
        · obtain ⟨t, ht, hfail⟩ := hcontainers.mapM_error
          exact ⟨.ofContainer t, List.mem_append_right _ (List.mem_map_of_mem ht),
            fails_of_evaluateContainer hfail⟩
        · cases hpure.of_pure
    obtain ⟨w, hw, hfail⟩ := hfail
    exact ⟨w, List.mem_flatMap.mpr ⟨items, hitems, hw⟩, hfail⟩

end Failure

/-! ### What evaluation depends on -/

section Agreement

variable {e : Engine} {v v' : Evaluator} {m : Method}

/-- Steps that are the same at every element are the same along the list. -/
theorem foldlM_congr {α β : Type} {f g : β → α → Assembly β} {xs : List α}
    (h : ∀ a ∈ xs, ∀ b, f b a = g b a) (b : β) : xs.foldlM f b = xs.foldlM g b := by
  induction xs generalizing b with
  | nil => rfl
  | cons a xs ih =>
      rw [List.foldlM_cons, List.foldlM_cons, h a List.mem_cons_self b]
      exact bind_congr (ih fun a ha => h a (List.mem_cons_of_mem _ ha))

theorem mapM_congr {α β : Type} {f g : α → Assembly β} {xs : List α} (h : ∀ a ∈ xs, f a = g a) :
    xs.mapM f = xs.mapM g := by
  induction xs with
  | nil => rfl
  | cons a xs ih =>
      rw [List.mapM_cons, List.mapM_cons, h a List.mem_cons_self,
        ih fun a ha => h a (List.mem_cons_of_mem _ ha)]

/-- What is done with a body only has to be the same for the body that there is. -/
theorem bodyOf_bind_congr {α : Type} {f g : Body → Assembly α}
    (h : ∀ body, e.synthesize m = .ok body → f body = g body) :
    bodyOf e m >>= f = bodyOf e m >>= g := by
  have hrun : ∀ s, (bodyOf e m >>= f).run.run s = (bodyOf e m >>= g).run.run s := by
    intro s
    rw [ExceptT.run_bind, ExceptT.run_bind, StateT.run_bind, StateT.run_bind, run_bodyOf]
    cases hbody : e.synthesize m with
    | ok body =>
        change (f body).run.run _ = (g body).run.run _
        rw [h body hbody]
    | error f => rfl
  exact funext hrun

/-- Sub-commands depend on the evaluator at their own visits only. -/
theorem evaluateSubCommands_congr {direct : Bool} {subs : List SubCommand} {n : Node}
    {found : Commands} (h : ∀ s ∈ subs, v.Agree v' (.ofSubCommand s)) :
    evaluateSubCommands e v direct subs n found = evaluateSubCommands e v' direct subs n found := by
  induction subs generalizing n found with
  | nil => rfl
  | cons s subs ih =>
      obtain ⟨hfirst, hrest⟩ := List.forall_mem_cons.mp h
      unfold Visit.ofSubCommand at hfirst
      unfold evaluateSubCommands
      simp only [ih hrest]
      split
      · rename_i hitems
        rw [if_pos hitems] at hfirst
        rw [show v.items s.method = v'.items s.method from hfirst]
      · rename_i hitems
        rw [if_neg hitems] at hfirst
        rw [show v.command s.method = v'.command s.method from hfirst]

/-- So does one operation that adds sub-commands. -/
theorem evaluateAdd_congr {n : Node} {add : AddSubCommands}
    (h : ∀ s ∈ add.commands, v.Agree v' (.ofSubCommand s)) :
    evaluateAdd e v n add = evaluateAdd e v' n add := by
  unfold evaluateAdd
  rw [evaluateSubCommands_congr h]

/-- So does any other operation. -/
theorem evaluateStep_congr {o : Operation} {n : Option Node}
    (h : ∀ w ∈ Visit.ofOperation o, v.Agree v' w) :
    evaluateStep e v m n o = evaluateStep e v' m n o := by
  unfold evaluateStep
  split
  · rename_i init _
    congr 1
    unfold establish
    split
    · rename_i r hr
      exact h (.command r) (by simp [Visit.ofOperation, hr])
    · rfl
  · rename_i add n
    rw [evaluateAdd_congr fun s hs => h _ (List.mem_map_of_mem hs)]
  all_goals rfl

theorem evaluateCommand_congr (h : ∀ w, Follows e (.command m) w → v.Agree v' w) :
    evaluateCommand e v m = evaluateCommand e v' m := by
  apply bodyOf_bind_congr
  intro body hbody
  have hsteps : ∀ o ∈ body.operations, ∀ n, evaluateStep e v m n o = evaluateStep e v' m n o :=
    fun o ho n => evaluateStep_congr fun w hw =>
      h w ⟨body, hbody, List.mem_flatMap.mpr ⟨o, ho, hw⟩⟩
  rw [foldlM_congr hsteps]

theorem evaluateContainer_congr (h : v.Agree v' (.ofContainer m)) :
    evaluateContainer v m = evaluateContainer v' m := by
  unfold Visit.ofContainer at h
  unfold evaluateContainer
  split
  · rename_i hitems
    rwa [if_pos hitems] at h
  · rename_i hitems
    rw [if_neg hitems] at h
    rw [show v.command m = v'.command m from h]

theorem evaluateItems_congr (h : ∀ w, Follows e (.items m) w → v.Agree v' w) :
    evaluateItems e v m = evaluateItems e v' m := by
  apply bodyOf_bind_congr
  intro body hbody
  apply foldlM_congr
  intro items hitems found
  have hvisit : ∀ w ∈ Visit.ofItems items, v.Agree v' w := fun w hw =>
    h w ⟨body, hbody, List.mem_flatMap.mpr ⟨items, hitems, hw⟩⟩
  have hexecutables : items.executables.mapM v.command = items.executables.mapM v'.command :=
    mapM_congr fun t ht => hvisit (.command t) (List.mem_append_left _ (List.mem_map_of_mem ht))
  have hcontainers : items.containers.mapM (evaluateContainer v) =
      items.containers.mapM (evaluateContainer v') :=
    mapM_congr fun t ht => evaluateContainer_congr
      (hvisit (.ofContainer t) (List.mem_append_right _ (List.mem_map_of_mem ht)))
  rw [hexecutables, hcontainers]

end Agreement

/-! ### Entering a builder -/

section Entering

variable {c : Context} {pending : List MethodId} {v : Visit} {f : Failure}

theorem Evaluator.Succeeds.mem_pending (h : (evaluator (commandEngine c) pending).Succeeds v) :
    v.method.id ∈ pending := by
  apply Decidable.byContradiction
  intro hpending
  cases v with
  | command m =>
      obtain ⟨n, hn⟩ := h
      rw [evaluator_command_of_notMem (m := m) hpending] at hn
      cases hn.of_throw
  | items m =>
      obtain ⟨found, hfound⟩ := h
      rw [evaluator_items_of_notMem (m := m) hpending] at hfound
      cases hfound.of_throw

/-- Where a visit succeeds, so do those that it leads to, with its builder no longer pending. -/
theorem Evaluator.Succeeds.next (hv : v.method.isCommandBuilder = true)
    (h : (evaluator (commandEngine c) pending).Succeeds v) :
    ∀ w, Follows (commandEngine c) v w →
      (evaluator (commandEngine c) (inside pending v.method)).Succeeds w := by
  rintro w ⟨body, hbody, hw⟩
  have hpending := Succeeds.mem_pending h
  cases v with
  | command m =>
      obtain ⟨n, hn⟩ := h
      rw [evaluator_command_of_mem (m := m) hpending] at hn
      obtain ⟨o, ho, hw⟩ := List.mem_flatMap.mp hw
      obtain ⟨k, k', hstep, hadd⟩ :=
        reached_of_evaluateCommand hn hbody (established_of_synthesize hv hbody) o ho
      exact succeeds_of_evaluateStep hstep hadd w hw
  | items m =>
      obtain ⟨found, hfound⟩ := h
      rw [evaluator_items_of_mem (m := m) hpending] at hfound
      exact succeeds_of_evaluateItems hfound hbody w hw

/-- A cycle is reported where a builder is entered that is not pending, and nowhere else. -/
theorem Evaluator.Fails.next (hv : v.method.isCommandBuilder = true) (hf : IsCycle f)
    (hpending : v.method.id ∈ pending) (h : (evaluator (commandEngine c) pending).Fails f v) :
    ∃ w, Follows (commandEngine c) v w ∧
      (evaluator (commandEngine c) (inside pending v.method)).Fails f w := by
  have hplan : (commandEngine c).synthesize v.method ≠ .error f := fun hplan =>
    not_hasCode_of_synthesize hv hplan hf
  cases v with
  | command m =>
      rw [Fails, evaluator_command_of_mem (m := m) hpending] at h
      obtain ⟨body, hbody, w, hw, hfail⟩ := fails_of_evaluateCommand hf hplan h
      exact ⟨w, ⟨body, hbody, hw⟩, hfail⟩
  | items m =>
      rw [Fails, evaluator_items_of_mem (m := m) hpending] at h
      obtain ⟨body, hbody, w, hw, hfail⟩ := fails_of_evaluateItems hplan h
      exact ⟨w, ⟨body, hbody, hw⟩, hfail⟩

end Entering

end ClientForge.Command
