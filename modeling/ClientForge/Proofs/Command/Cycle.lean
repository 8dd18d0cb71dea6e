import ClientForge.Proofs.Command.Visits

/-!
# Cycles of command builders

Assembling enters a builder only while it is not being evaluated already. So it ends, and it reports a cycle
exactly where there is one: a builder that is reached on two ways is evaluated twice, and only one that
reaches itself is refused.

* `boundedEvaluator_agree`: no evaluation goes deeper than there are methods;
* `acyclic_of_succeeds`: where a builder is evaluated, none that it reaches reaches itself;
* `not_fails_of_acyclic`: where no builder reaches itself, no cycle is reported.
-/

namespace ClientForge.Command

open ClientForge.Graph ClientForge.Plan Assembly Evaluator Relation

/-- No builder that is reached from a visit reaches itself. -/
def Acyclic (e : Engine) (v : Visit) : Prop :=
  ∀ u w, ReflTransGen (Follows e) v u → TransGen (Follows e) u w → u.method.id ≠ w.method.id

theorem Acyclic.next {e : Engine} {v w : Visit} (h : Acyclic e v) (hw : Follows e v w) :
    Acyclic e w :=
  fun u u' hu hu' => h u u' (hu.head hw) hu'

section Declared

variable {c : Context} {v w : Visit}

/-- Only declared builders are reached from one that is declared. -/
theorem declared_of_reached (hv : IsDeclared c.graph v.method)
    (h : ReflTransGen (Follows (commandEngine c)) v w) : IsDeclared c.graph w.method := by
  induction h with
  | refl => exact hv
  | tail _ hstep ih => exact hstep.declared ih.isCommandBuilder

end Declared

/-! ### Assembling ends -/

/-- Evaluates builders down to a depth, and leaves what is deeper to another evaluator. A builder may be
entered unless it is active. -/
def boundedEvaluator (e : Engine) (deeper : Evaluator) :
    (depth : Nat) → (active : List MethodId) → Evaluator
  | 0, _ => deeper
  | depth + 1, active =>
    { command := fun m =>
        if m.id ∈ active then throw (.violation .commandCycle (e.context.graph.methodName m))
        else evaluateCommand e (boundedEvaluator e deeper depth (m.id :: active)) m
      items := fun m =>
        if m.id ∈ active then throw (.violation .commandCycle (e.context.graph.methodName m))
        else evaluateItems e (boundedEvaluator e deeper depth (m.id :: active)) m }

/-- Assembles the command tree with a given evaluator. -/
def assembleWith (e : Engine) (v : Evaluator) : Assembly Node :=
  match rootBuilders e.context.graph with
  | [] => throw (.cause .noRootCommand)
  | [root] => v.command root
  | _ :: second :: _ => throw (.violation .duplicateRoot (e.context.graph.methodName second))

/-- The methods of a graph that are not active. -/
def inactive (g : Graph) (active : List MethodId) : List MethodId :=
  (methodIds g).filter fun id => decide (id ∉ active)

/-- The builders that have not been entered. -/
theorem mem_inactive {g : Graph} {active : List MethodId} {id : MethodId} :
    id ∈ inactive g active ↔ id ∈ methodIds g ∧ id ∉ active := by
  simp [inactive]

/-- Entering a builder makes it active. -/
theorem inside_inactive (g : Graph) (active : List MethodId) (m : Method) :
    inside (inactive g active) m = inactive g (m.id :: active) := by
  unfold inside inactive
  rw [List.filter_filter]
  apply List.filter_congr
  intro id _
  rw [Bool.eq_iff_iff]
  simp

/-- An evaluation never goes deeper than there are methods that are not active. -/
theorem boundedEvaluator_agree {c : Context} (deeper : Evaluator) {depth : Nat}
    {active : List MethodId} (hdepth : (inactive c.graph active).length < depth) {v : Visit}
    (hv : IsDeclared c.graph v.method) :
    (boundedEvaluator (commandEngine c) deeper depth active).Agree
      (evaluator (commandEngine c) (inactive c.graph active)) v := by
  induction depth generalizing active v with
  | zero => exact (Nat.not_lt_zero _ hdepth).elim
  | succ depth ih =>
      by_cases hactive : v.method.id ∈ active
      · -- both refuse a builder that is active
        have hnot : v.method.id ∉ inactive c.graph active := fun h => (mem_inactive.mp h).2 hactive
        cases v with
        | command m =>
            rw [Agree, evaluator_command_of_notMem (m := m) hnot]
            exact if_pos hactive
        | items m =>
            rw [Agree, evaluator_items_of_notMem (m := m) hnot]
            exact if_pos hactive
      · have hmem : v.method.id ∈ inactive c.graph active := mem_inactive.mpr ⟨hv.id_mem, hactive⟩
        have hlength := length_inside_lt hmem
        rw [inside_inactive] at hlength
        have hnext : ∀ w, Follows (commandEngine c) v w →
            (boundedEvaluator (commandEngine c) deeper depth (v.method.id :: active)).Agree
              (evaluator (commandEngine c) (inside (inactive c.graph active) v.method)) w := by
          intro w hw
          rw [inside_inactive]
          exact ih (by omega) (hw.declared hv.isCommandBuilder)
        cases v with
        | command m =>
            rw [Agree, evaluator_command_of_mem (m := m) hmem]
            exact (if_neg hactive).trans (evaluateCommand_congr hnext)
        | items m =>
            rw [Agree, evaluator_items_of_mem (m := m) hmem]
            exact (if_neg hactive).trans (evaluateItems_congr hnext)

/-- Assembling depends on the evaluator at the root only. -/
theorem assembleWith_congr {e : Engine} {v v' : Evaluator}
    (h : ∀ root ∈ rootBuilders e.context.graph, v.command root = v'.command root) :
    assembleWith e v = assembleWith e v' := by
  unfold assembleWith
  split
  · rfl
  · rename_i root hroot
    exact h root (by rw [hroot]; exact List.mem_singleton_self root)
  · rfl

/-- A bound on the depth beyond the number of methods makes no difference. -/
theorem assembleWith_boundedEvaluator (c : Context) (deeper : Evaluator) {depth : Nat}
    (hdepth : (methodIds c.graph).length < depth) :
    assembleWith (commandEngine c) (boundedEvaluator (commandEngine c) deeper depth []) =
      assemble (commandEngine c) := by
  have hall : inactive c.graph [] = methodIds c.graph := by simp [inactive]
  have hagree : ∀ root ∈ rootBuilders c.graph,
      (boundedEvaluator (commandEngine c) deeper depth []).command root =
        (evaluator (commandEngine c) (methodIds c.graph)).command root := by
    intro root hroot
    rw [← hall] at hdepth ⊢
    exact boundedEvaluator_agree deeper (v := .command root) hdepth (rootBuilders_declared hroot)
  exact assembleWith_congr hagree

/-! ### Cycles are found -/

section Sound

variable {c : Context} {pending : List MethodId} {v w : Visit}

/-- All that is reached from a visit that succeeds is evaluated, with the builder itself no longer pending. -/
theorem mem_inside_of_reached (hv : v.method.isCommandBuilder = true)
    (h : (evaluator (commandEngine c) pending).Succeeds v)
    (hw : TransGen (Follows (commandEngine c)) v w) : w.method.id ∈ inside pending v.method := by
  induction hw using TransGen.head_induction_on generalizing pending with
  | single hstep => exact Succeeds.mem_pending (h.next hv _ hstep)
  | head hstep _ ih =>
      have hrest := ih (hstep.declared hv).isCommandBuilder (h.next hv _ hstep)
      exact (mem_inside_iff.mp hrest).1

/-- Everything that is reached from a visit that succeeds succeeds. -/
theorem succeeds_of_reached (hv : v.method.isCommandBuilder = true)
    (h : (evaluator (commandEngine c) pending).Succeeds v)
    (hw : ReflTransGen (Follows (commandEngine c)) v w) :
    w.method.isCommandBuilder = true ∧
      ∃ pending, (evaluator (commandEngine c) pending).Succeeds w := by
  induction hw with
  | refl => exact ⟨hv, pending, h⟩
  | tail _ hstep ih =>
      obtain ⟨hu, pending', hsucceeds⟩ := ih
      exact ⟨(hstep.declared hu).isCommandBuilder, _, hsucceeds.next hu _ hstep⟩

/-- A visit that succeeds leads round in no circle. -/
theorem acyclic_of_succeeds (hv : v.method.isCommandBuilder = true)
    (h : (evaluator (commandEngine c) pending).Succeeds v) : Acyclic (commandEngine c) v := by
  intro u w hu hw heq
  obtain ⟨hbuilder, pending', hsucceeds⟩ := succeeds_of_reached hv h hu
  have hinside := mem_inside_of_reached hbuilder hsucceeds hw
  exact (mem_inside_iff.mp hinside).2 heq.symm

end Sound

/-! ### Nothing else is taken for a cycle -/

/-- As long as all that is reached is pending, no cycle is reported. Entering a builder of an acyclic visit
keeps this, since what it reaches is not the builder itself. -/
theorem not_fails_of_acyclic {c : Context} {pending : List MethodId} {v : Visit} {f : Failure}
    (hv : v.method.isCommandBuilder = true) (hacyclic : Acyclic (commandEngine c) v)
    (hpending : ∀ w, ReflTransGen (Follows (commandEngine c)) v w → w.method.id ∈ pending)
    (hf : IsCycle f) : ¬ (evaluator (commandEngine c) pending).Fails f v := by
  induction pending using pending_induction generalizing v with
  | enter pending ih =>
    intro hfail
    have hmem := hpending v .refl
    obtain ⟨w, hw, hfail⟩ := hfail.next hv hf hmem
    have hinside : ∀ u, ReflTransGen (Follows (commandEngine c)) w u →
        u.method.id ∈ inside pending v.method := by
      intro u hu
      refine mem_inside_iff.mpr ⟨hpending u (hu.head hw), ?_⟩
      exact (hacyclic v u .refl (TransGen.head' hw hu)).symm
    exact ih v.method hmem (hw.declared hv).isCommandBuilder (hacyclic.next hw) hinside hfail

/-! ### The command tree -/

section Assemble

variable {c : Context} {planned planned' : List Method}

/-- A tree is assembled from the one root builder. -/
theorem succeeds_of_assemble {tree : Node}
    (h : (assemble (commandEngine c)).run.run planned = (.ok tree, planned')) :
    ∃ root, rootBuilders c.graph = [root] ∧
      (evaluator (commandEngine c) (methodIds c.graph)).Succeeds (.command root) := by
  have hends : Ends (assembleWith (commandEngine c)
      (evaluator (commandEngine c) (methodIds c.graph))) (.ok tree) := ⟨planned, planned', h⟩
  unfold assembleWith at hends
  split at hends
  · cases hends.of_throw
  · rename_i root hroot
    exact ⟨root, hroot, tree, hends⟩
  · cases hends.of_throw

/-- A cycle is found on the way from a root builder. -/
theorem fails_of_assemble {f : Failure} (hf : IsCycle f)
    (h : (assemble (commandEngine c)).run.run planned = (.error f, planned')) :
    ∃ root ∈ rootBuilders c.graph,
      (evaluator (commandEngine c) (methodIds c.graph)).Fails f (.command root) := by
  have hends : Ends (assembleWith (commandEngine c)
      (evaluator (commandEngine c) (methodIds c.graph))) (.error f) := ⟨planned, planned', h⟩
  unfold assembleWith at hends
  split at hends
  · cases hends.of_throw
    obtain ⟨_, heq, _⟩ := Failure.hasCode_cause.mp hf
    cases heq
  · rename_i root hroot
    refine ⟨root, ?_, hends⟩
    rw [show rootBuilders c.graph = [root] from hroot]
    exact List.mem_singleton_self root
  · cases hends.of_throw
    have hcode := Failure.hasCode_violation.mp hf
    simp [Rule.code] at hcode

end Assemble

/-- Assembling ends: its recursion may be cut below as many levels as the graph has methods, whatever is
done there. A tree is returned only if no builder that the root reaches reaches itself, and if none does, no
cycle is reported. -/
theorem assemble_detects_cycles (c : Context) :
    (∀ deeper depth, (methodIds c.graph).length < depth →
      assembleWith (commandEngine c) (boundedEvaluator (commandEngine c) deeper depth []) =
        assemble (commandEngine c)) ∧
    (∀ planned tree planned', (assemble (commandEngine c)).run.run planned = (.ok tree, planned') →
      ∃ root, rootBuilders c.graph = [root] ∧ Acyclic (commandEngine c) (.command root)) ∧
    ((∀ root ∈ rootBuilders c.graph, Acyclic (commandEngine c) (.command root)) →
      ∀ planned f planned', (assemble (commandEngine c)).run.run planned = (.error f, planned') →
        ¬ f.HasCode "command_cycle") := by
  refine ⟨fun deeper depth => assembleWith_boundedEvaluator c deeper, ?_, ?_⟩
  · intro planned tree planned' h
    obtain ⟨root, hroot, hsucceeds⟩ := succeeds_of_assemble h
    have hdeclared : IsDeclared c.graph root := rootBuilders_declared (by simp [hroot])
    exact ⟨root, hroot, acyclic_of_succeeds hdeclared.isCommandBuilder hsucceeds⟩
  · intro hacyclic planned f planned' h hf
    obtain ⟨root, hroot, hfail⟩ := fails_of_assemble hf h
    have hdeclared := rootBuilders_declared hroot
    have hpending : ∀ w, ReflTransGen (Follows (commandEngine c)) (.command root) w →
        w.method.id ∈ methodIds c.graph := fun w hw =>
      (declared_of_reached (v := .command root) hdeclared hw).id_mem
    exact not_fails_of_acyclic (v := .command root) hdeclared.isCommandBuilder (hacyclic root hroot)
      hpending hf hfail

/-- The archive is reached in two ways, and this is no cycle. -/
theorem mailing_has_no_cycle :
    (∃ tree planned, (assemble (commandEngine Sample.mailing)).run.run [] = (.ok tree, planned)) ∧
    (∃ root, rootBuilders Sample.mailing.graph = [root] ∧
      Acyclic (commandEngine Sample.mailing) (.command root)) ∧
    (∀ deeper, assembleWith (commandEngine Sample.mailing)
      (boundedEvaluator (commandEngine Sample.mailing) deeper 20 []) =
        assemble (commandEngine Sample.mailing)) ∧
    ∀ planned f planned',
      (assemble (commandEngine Sample.mailing)).run.run planned = (.error f, planned') →
        ¬ f.HasCode "command_cycle" := by
  obtain ⟨hends, hsound, hcomplete⟩ := assemble_detects_cycles Sample.mailing
  obtain ⟨tree, planned, hrun, _⟩ := Sample.assemble_mailing
  obtain ⟨root, hroot, hacyclic⟩ := hsound [] tree planned hrun
  refine ⟨⟨tree, planned, hrun⟩, ⟨root, hroot, hacyclic⟩, ?_, ?_⟩
  · exact fun deeper => hends deeper 20 (by decide)
  · apply hcomplete
    rw [hroot]
    intro root' hroot'
    cases List.mem_singleton.mp hroot'
    exact hacyclic

end ClientForge.Command
