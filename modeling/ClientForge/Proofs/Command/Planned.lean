import ClientForge.Proofs.Command.Assembly
import ClientForge.Proofs.Command.Bodies

/-!
# What assembling plans

Assembling plans the bodies of the builders that it enters, and enters one only on the way from another. `Keeps P x`
says that `x` plans nothing but methods with the property `P`, whether or not it succeeds.

* **`keeps_evaluator`.** From a builder that the graph declares, only such builders are entered.
* **`declared_of_assemble`.** Whatever assembling plans is a command builder that the graph declares.
-/

namespace ClientForge.Command

open ClientForge.Graph ClientForge.Plan Assembly

namespace Assembly

variable {α β : Type} {P : Method → Prop}

/-- Whatever the computation plans has a property, if all that was planned before has it. -/
def Keeps (P : Method → Prop) (x : Assembly α) : Prop := ∀ s, (∀ m ∈ s, P m) → ∀ m ∈ (x.run.run s).2, P m

theorem keeps_pure (a : α) : Keeps P (pure a) := fun _ hs => hs

theorem keeps_throw (f : Failure) : Keeps P (throw f : Assembly α) := fun _ hs => hs

theorem keeps_of (x : Except Failure α) : Keeps P (Assembly.of x) := fun _ hs => hs

/-- Both parts of a computation plan methods with a property. -/
theorem keeps_bind {x : Assembly α} {f : α → Assembly β} (hx : Keeps P x)
    (hf : ∀ a, Ends x (.ok a) → Keeps P (f a)) : Keeps P (x >>= f) := by
  intro s hs
  have hplanned := hx s hs
  rw [ExceptT.run_bind, StateT.run_bind]
  rcases hrun : x.run.run s with ⟨r, t⟩
  rw [hrun] at hplanned
  cases r with
  | ok a => exact hf a ⟨s, t, hrun⟩ t hplanned
  | error e => exact hplanned

theorem keeps_map {x : Assembly α} (f : α → β) (hx : Keeps P x) : Keeps P (f <$> x) := by
  rw [map_eq_pure_bind]
  exact keeps_bind hx fun a _ => keeps_pure (f a)

/-- So do all steps along a list. -/
theorem keeps_foldlM {f : β → α → Assembly β} {xs : List α} (hf : ∀ a ∈ xs, ∀ b, Keeps P (f b a)) (b : β) :
    Keeps P (xs.foldlM f b) := by
  induction xs generalizing b with
  | nil => exact keeps_pure b
  | cons a xs ih =>
      obtain ⟨ha, hxs⟩ := List.forall_mem_cons.mp hf
      rw [List.foldlM_cons]
      exact keeps_bind (ha b) fun c _ => ih hxs c

theorem keeps_mapM {f : α → Assembly β} {xs : List α} (hf : ∀ a ∈ xs, Keeps P (f a)) : Keeps P (xs.mapM f) := by
  induction xs with
  | nil =>
      rw [List.mapM_nil]
      exact keeps_pure []
  | cons a xs ih =>
      obtain ⟨ha, hxs⟩ := List.forall_mem_cons.mp hf
      rw [List.mapM_cons]
      exact keeps_bind ha fun y _ => keeps_bind (ih hxs) fun ys _ => keeps_pure (y :: ys)

end Assembly

theorem keeps_bodyOf {P : Method → Prop} (e : Engine) {m : Method} (hm : P m) : Keeps P (bodyOf e m) := by
  intro s hs
  rw [run_bodyOf]
  dsimp only
  split
  · exact hs
  · exact List.forall_mem_cons.mpr ⟨hm, hs⟩

/-! ### Evaluating -/

/-- Whatever an evaluator plans at a visit has a property. -/
def Evaluator.Keeps (P : Method → Prop) (v : Evaluator) : Visit → Prop
  | .command m => Assembly.Keeps P (v.command m)
  | .items m => Assembly.Keeps P (v.items m)

section Evaluating

variable {P : Method → Prop} {e : Engine} {v : Evaluator} {m : Method}

/-- So do sub-commands, if their visits do. -/
theorem keeps_evaluateSubCommands {direct : Bool} {subs : List SubCommand} (n : Node) (found : Commands)
    (h : ∀ c ∈ subs, v.Keeps P (.ofSubCommand c)) : Keeps P (evaluateSubCommands e v direct subs n found) := by
  induction subs generalizing n found with
  | nil => exact keeps_pure _
  | cons c subs ih =>
      obtain ⟨hc, hsubs⟩ := List.forall_mem_cons.mp h
      unfold evaluateSubCommands
      split
      · next hitems =>
        rw [Visit.ofSubCommand, if_pos hitems] at hc
        exact keeps_bind hc fun more _ => ih n (found.append more) hsubs
      · next hitems =>
        rw [Visit.ofSubCommand, if_neg hitems] at hc
        refine keeps_bind hc fun child _ => ?_
        split
        · exact keeps_bind (keeps_of _) fun n' _ => ih n' found hsubs
        · split
          · exact ih n _ hsubs
          · exact ih n _ hsubs

/-- So does every operation, if its visits do. -/
theorem keeps_evaluateStep {o : Operation} (n : Option Node) (h : ∀ w ∈ Visit.ofOperation o, v.Keeps P w) :
    Keeps P (evaluateStep e v m n o) := by
  unfold evaluateStep
  split
  · next init _ =>
    apply keeps_map
    unfold establish
    split
    · next reused hreused => exact h (.command reused) (by simp [Visit.ofOperation, hreused])
    · exact keeps_pure _
  · next add n =>
    apply keeps_map
    have hsubs : ∀ c ∈ add.commands, v.Keeps P (.ofSubCommand c) := fun c hc => h _ (List.mem_map_of_mem hc)
    exact keeps_bind (keeps_evaluateSubCommands n _ hsubs) fun _ _ => keeps_of _
  · exact keeps_pure _
  · exact keeps_pure _
  · exact keeps_throw _
  · exact keeps_pure _

theorem keeps_evaluateCommand (hm : P m) (h : ∀ w, Follows e (.command m) w → v.Keeps P w) :
    Keeps P (evaluateCommand e v m) := by
  refine keeps_bind (keeps_bodyOf e hm) fun body hbody => ?_
  have hsteps : ∀ o ∈ body.operations, ∀ n, Keeps P (evaluateStep e v m n o) := fun o ho n =>
    keeps_evaluateStep n fun w hw => h w ⟨body, hbody.of_bodyOf.symm, List.mem_flatMap.mpr ⟨o, ho, hw⟩⟩
  refine keeps_bind (keeps_foldlM hsteps none) fun n _ => ?_
  cases n with
  | none => exact keeps_throw _
  | some n => exact keeps_pure n

theorem keeps_evaluateContainer (h : v.Keeps P (.ofContainer m)) : Keeps P (evaluateContainer v m) := by
  unfold evaluateContainer
  unfold Visit.ofContainer at h
  split
  · next hitems =>
    rw [if_pos hitems] at h
    exact h
  · next hitems =>
    rw [if_neg hitems] at h
    exact keeps_bind h fun n _ => keeps_pure _

theorem keeps_evaluateItems (hm : P m) (h : ∀ w, Follows e (.items m) w → v.Keeps P w) :
    Keeps P (evaluateItems e v m) := by
  refine keeps_bind (keeps_bodyOf e hm) fun body hbody => keeps_foldlM (fun items hitems found => ?_) _
  have hnext : ∀ w ∈ Visit.ofItems items, v.Keeps P w := fun w hw =>
    h w ⟨body, hbody.of_bodyOf.symm, List.mem_flatMap.mpr ⟨items, hitems, hw⟩⟩
  obtain ⟨hexecutables, hcontainers⟩ := List.forall_mem_append.mp hnext
  refine keeps_bind (keeps_mapM fun x hx => hexecutables _ (List.mem_map_of_mem hx)) fun executables _ => ?_
  refine keeps_bind (keeps_mapM fun x hx => ?_) fun containers _ => keeps_pure _
  exact keeps_evaluateContainer (hcontainers _ (List.mem_map_of_mem hx))

end Evaluating

section Declared

variable (c : Context)

/-- From a builder that the graph declares, only such builders are entered. -/
theorem keeps_evaluator (pending : List MethodId) {w : Visit} (hw : IsDeclared c.graph w.method) :
    (evaluator (commandEngine c) pending).Keeps (IsDeclared c.graph) w := by
  induction pending using pending_induction generalizing w with
  | enter pending ih =>
    cases w with
    | command m =>
        change Keeps _ ((evaluator _ pending).command m)
        by_cases hm : m.id ∈ pending
        · rw [evaluator_command_of_mem hm]
          exact keeps_evaluateCommand hw fun w hfollows => ih m hm (hfollows.declared hw.isCommandBuilder)
        · rw [evaluator_command_of_notMem hm]
          exact keeps_throw _
    | items m =>
        change Keeps _ ((evaluator _ pending).items m)
        by_cases hm : m.id ∈ pending
        · rw [evaluator_items_of_mem hm]
          exact keeps_evaluateItems hw fun w hfollows => ih m hm (hfollows.declared hw.isCommandBuilder)
        · rw [evaluator_items_of_notMem hm]
          exact keeps_throw _

theorem keeps_assemble : Keeps (IsDeclared c.graph) (assemble (commandEngine c)) := by
  unfold assemble
  dsimp only
  split
  · exact keeps_throw _
  · next root hroot =>
    have hdeclared : IsDeclared c.graph root := rootBuilders_declared (hroot ▸ List.mem_singleton_self root)
    exact keeps_evaluator c _ (w := .command root) hdeclared
  · exact keeps_throw _

/-- Whatever assembling plans is a command builder that the graph declares. -/
theorem declared_of_assemble {m : Method} (hm : m ∈ ((assemble (commandEngine c)).run.run []).2) :
    IsDeclared c.graph m :=
  keeps_assemble c [] (by simp) m hm

end Declared

end ClientForge.Command
