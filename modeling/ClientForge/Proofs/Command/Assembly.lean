import ClientForge.Command.Tree

/-!
# How assembling ends

An assembly is a computation that can fail and that remembers which bodies it planned. `Ends x r` says that
`x` ends with the result `r` from some such memory, and the lemmas here take a computation apart along its
result: a sequence that succeeds succeeded at every step, and one that fails failed at one of them.

What was planned before has no say in the result: `Steady` holds of every evaluation (`evaluator_steady`), so
an assembly ends in one way only (`Ends.unique`).
-/

namespace ClientForge.Command

open ClientForge.Graph ClientForge.Plan

namespace Assembly

variable {α β γ : Type}

/-- The computation ends with a result, whatever was planned before it. -/
def Ends (x : Assembly α) (r : Except Failure α) : Prop := ∃ s t, x.run.run s = (r, t)

/-! ### Taking a computation apart -/

theorem Ends.of_pure {a : α} {r : Except Failure α} (h : Ends (pure a) r) : r = .ok a := by
  obtain ⟨s, t, hrun⟩ := h
  cases hrun
  rfl

theorem Ends.of_throw {f : Failure} {r : Except Failure α} (h : Ends (throw f) r) :
    r = .error f := by
  obtain ⟨s, t, hrun⟩ := h
  cases hrun
  rfl

theorem Ends.of_of {x r : Except Failure α} (h : Ends (Assembly.of x) r) : r = x := by
  obtain ⟨s, t, hrun⟩ := h
  cases hrun
  rfl

/-- A sequence ends with its second part, or with the failure of the first. -/
theorem Ends.of_bind {x : Assembly α} {f : α → Assembly β} {r : Except Failure β}
    (h : Ends (x >>= f) r) :
    (∃ a, Ends x (.ok a) ∧ Ends (f a) r) ∨ ∃ e, Ends x (.error e) ∧ r = .error e := by
  obtain ⟨s, t, hrun⟩ := h
  rw [ExceptT.run_bind, StateT.run_bind] at hrun
  rcases hx : x.run.run s with ⟨result, u⟩
  rw [hx] at hrun
  cases result with
  | ok a => exact Or.inl ⟨a, ⟨s, u, hx⟩, ⟨u, t, hrun⟩⟩
  | error e =>
      cases hrun
      exact Or.inr ⟨e, ⟨s, u, hx⟩, rfl⟩

/-- What ends well as a whole ends well in both parts. -/
theorem Ends.bind_ok {x : Assembly α} {f : α → Assembly β} {b : β}
    (h : Ends (x >>= f) (.ok b)) : ∃ a, Ends x (.ok a) ∧ Ends (f a) (.ok b) := by
  rcases h.of_bind with found | ⟨e, _, heq⟩
  · exact found
  · cases heq

/-- What fails as a whole fails in the first part or, after it, in the second. -/
theorem Ends.bind_error {x : Assembly α} {f : α → Assembly β} {e : Failure}
    (h : Ends (x >>= f) (.error e)) :
    Ends x (.error e) ∨ ∃ a, Ends x (.ok a) ∧ Ends (f a) (.error e) := by
  rcases h.of_bind with found | ⟨e', hx, heq⟩
  · exact Or.inr found
  · cases heq
    exact Or.inl hx

theorem Ends.map_ok {x : Assembly α} {f : α → β} {b : β} (h : Ends (f <$> x) (.ok b)) :
    ∃ a, Ends x (.ok a) ∧ f a = b := by
  rw [map_eq_pure_bind] at h
  obtain ⟨a, hx, hpure⟩ := h.bind_ok
  cases hpure.of_pure
  exact ⟨a, hx, rfl⟩

theorem Ends.map_error {x : Assembly α} {f : α → β} {e : Failure}
    (h : Ends (f <$> x) (.error e)) : Ends x (.error e) := by
  rw [map_eq_pure_bind] at h
  rcases h.bind_error with hx | ⟨a, _, hpure⟩
  · exact hx
  · cases hpure.of_pure

/-! ### Going through a list -/

/-- A fold that succeeds reached each element and got past it. -/
theorem Ends.foldlM_reached {f : β → α → Assembly β} {xs : List α} {b b' : β}
    (h : Ends (xs.foldlM f b) (.ok b')) : ∀ a ∈ xs, ∃ c d, Ends (f c a) (.ok d) := by
  induction xs generalizing b with
  | nil => simp
  | cons a xs ih =>
      rw [List.foldlM_cons] at h
      obtain ⟨c, hfirst, hrest⟩ := h.bind_ok
      exact List.forall_mem_cons.mpr ⟨⟨b, c, hfirst⟩, ih hrest⟩

/-- What every step of a fold preserves, the fold preserves. -/
theorem Ends.foldlM_ok {f : β → α → Assembly β} {P : β → Prop} {xs : List α}
    (hstep : ∀ b, ∀ a ∈ xs, ∀ b', P b → Ends (f b a) (.ok b') → P b') {b b' : β} (hb : P b)
    (h : Ends (xs.foldlM f b) (.ok b')) : P b' := by
  induction xs generalizing b with
  | nil =>
      cases h.of_pure
      exact hb
  | cons a xs ih =>
      rw [List.foldlM_cons] at h
      obtain ⟨c, hfirst, hrest⟩ := h.bind_ok
      have hc : P c := hstep b a List.mem_cons_self c hb hfirst
      exact ih (fun b a ha => hstep b a (List.mem_cons_of_mem _ ha)) hc hrest

/-- A fold that fails failed at one of its steps. -/
theorem Ends.foldlM_error {f : β → α → Assembly β} {xs : List α} {b : β} {e : Failure}
    (h : Ends (xs.foldlM f b) (.error e)) : ∃ c, ∃ a ∈ xs, Ends (f c a) (.error e) := by
  induction xs generalizing b with
  | nil => cases h.of_pure
  | cons a xs ih =>
      rw [List.foldlM_cons] at h
      rcases h.bind_error with hfirst | ⟨c, _, hrest⟩
      · exact ⟨b, a, List.mem_cons_self, hfirst⟩
      · obtain ⟨d, a', ha', hfail⟩ := ih hrest
        exact ⟨d, a', List.mem_cons_of_mem _ ha', hfail⟩

/-- A map that succeeds gives one result for each element, and no others. -/
theorem Ends.mapM_ok {f : α → Assembly β} {xs : List α} {ys : List β}
    (h : Ends (xs.mapM f) (.ok ys)) :
    (∀ x ∈ xs, ∃ y ∈ ys, Ends (f x) (.ok y)) ∧ ∀ y ∈ ys, ∃ x ∈ xs, Ends (f x) (.ok y) := by
  induction xs generalizing ys with
  | nil =>
      rw [List.mapM_nil] at h
      cases h.of_pure
      simp
  | cons x xs ih =>
      rw [List.mapM_cons] at h
      obtain ⟨y, hfirst, hrest⟩ := h.bind_ok
      obtain ⟨rest, hmapped, hpure⟩ := hrest.bind_ok
      cases hpure.of_pure
      obtain ⟨hxs, hys⟩ := ih hmapped
      constructor
      · rintro x' (_ | ⟨_, hx'⟩)
        · exact ⟨y, List.mem_cons_self, hfirst⟩
        · obtain ⟨y', hy', hend⟩ := hxs x' hx'
          exact ⟨y', List.mem_cons_of_mem _ hy', hend⟩
      · rintro y' (_ | ⟨_, hy'⟩)
        · exact ⟨x, List.mem_cons_self, hfirst⟩
        · obtain ⟨x', hx', hend⟩ := hys y' hy'
          exact ⟨x', List.mem_cons_of_mem _ hx', hend⟩

/-- A list that fails does so at one of its elements. -/
theorem Ends.mapM_error {f : α → Assembly β} {xs : List α} {e : Failure}
    (h : Ends (xs.mapM f) (.error e)) : ∃ x ∈ xs, Ends (f x) (.error e) := by
  induction xs with
  | nil =>
      rw [List.mapM_nil] at h
      cases h.of_pure
  | cons x xs ih =>
      rw [List.mapM_cons] at h
      rcases h.bind_error with hfirst | ⟨y, _, hrest⟩
      · exact ⟨x, List.mem_cons_self, hfirst⟩
      · rcases hrest.bind_error with hmapped | ⟨ys, _, hpure⟩
        · obtain ⟨x', hx', hfail⟩ := ih hmapped
          exact ⟨x', List.mem_cons_of_mem _ hx', hfail⟩
        · cases hpure.of_pure

/-! ### What was planned has no say -/

/-- The computation gives the same result whatever was planned before it. -/
def Steady (x : Assembly α) : Prop := ∀ s t, (x.run.run s).1 = (x.run.run t).1

theorem steady_pure (a : α) : Steady (pure a) := fun _ _ => rfl

theorem steady_throw (f : Failure) : Steady (throw f : Assembly α) := fun _ _ => rfl

theorem steady_of (x : Except Failure α) : Steady (Assembly.of x) := fun _ _ => rfl

theorem steady_bind {x : Assembly α} {f : α → Assembly β} (hx : Steady x)
    (hf : ∀ a, Steady (f a)) : Steady (x >>= f) := by
  intro s t
  have hsame := hx s t
  rw [ExceptT.run_bind, StateT.run_bind, StateT.run_bind]
  rcases hs : x.run.run s with ⟨r, s'⟩
  rcases ht : x.run.run t with ⟨r', t'⟩
  rw [hs, ht] at hsame
  cases hsame
  cases r with
  | ok a => exact hf a s' t'
  | error e => rfl

theorem steady_map {x : Assembly α} (f : α → β) (hx : Steady x) : Steady (f <$> x) := by
  rw [map_eq_pure_bind]
  exact steady_bind hx fun a => steady_pure (f a)

theorem steady_foldlM {f : β → α → Assembly β} (hf : ∀ b a, Steady (f b a)) (xs : List α) (b : β) :
    Steady (xs.foldlM f b) := by
  induction xs generalizing b with
  | nil => exact steady_pure b
  | cons a xs ih =>
      rw [List.foldlM_cons]
      exact steady_bind (hf b a) ih

theorem steady_mapM {f : α → Assembly β} (hf : ∀ a, Steady (f a)) (xs : List α) :
    Steady (xs.mapM f) := by
  induction xs with
  | nil =>
      rw [List.mapM_nil]
      exact steady_pure []
  | cons x xs ih =>
      rw [List.mapM_cons]
      exact steady_bind (hf x) fun y => steady_bind ih fun ys => steady_pure (y :: ys)

theorem Ends.unique {x : Assembly α} (hx : Steady x) {r r' : Except Failure α} (h : Ends x r)
    (h' : Ends x r') : r = r' := by
  obtain ⟨s, t, hrun⟩ := h
  obtain ⟨s', t', hrun'⟩ := h'
  have hsame := hx s s'
  rwa [hrun, hrun'] at hsame

end Assembly

open Assembly

/-- A body is what planning gives, and planning is remembered. -/
theorem run_bodyOf (e : Engine) (m : Method) (s : List Method) :
    (bodyOf e m).run.run s =
      (e.synthesize m, if s.any (·.id == m.id) then s else m :: s) := by
  unfold bodyOf
  rw [ExceptT.run_bind, StateT.run_bind]
  change StateT.run (ExceptT.run (do
    unless s.any (·.id == m.id) do modify (m :: ·)
    Assembly.of (e.synthesize m))) s = _
  cases s.any (·.id == m.id) <;> rfl

/-- Planning the body of a builder while assembling gives what planning it gives anywhere. -/
theorem Assembly.Ends.of_bodyOf {e : Engine} {m : Method} {r : Except Failure Body}
    (h : Ends (bodyOf e m) r) : r = e.synthesize m := by
  obtain ⟨s, t, hrun⟩ := h
  rw [run_bodyOf] at hrun
  exact (Prod.mk.inj hrun).1.symm

theorem steady_bodyOf (e : Engine) (m : Method) : Steady (bodyOf e m) := by
  intro s t
  rw [run_bodyOf, run_bodyOf]

/-! ### Evaluations are steady -/

/-- Every evaluation gives the same result whatever was planned before it. -/
structure Evaluator.Steady (v : Evaluator) : Prop where
  command : ∀ m, Assembly.Steady (v.command m)
  items : ∀ m, Assembly.Steady (v.items m)

section Steady

variable {v : Evaluator} (hv : v.Steady) (e : Engine)
include hv

/-- What was planned before has no say in sub-commands. -/
theorem steady_evaluateSubCommands (direct : Bool) (subs : List SubCommand) (n : Node)
    (found : Commands) : Assembly.Steady (evaluateSubCommands e v direct subs n found) := by
  induction subs generalizing n found with
  | nil => exact steady_pure _
  | cons c subs ih =>
      unfold evaluateSubCommands
      split
      · exact steady_bind (hv.items _) fun more => ih n (found.append more)
      · apply steady_bind (hv.command _)
        intro child
        split
        · exact steady_bind (steady_of _) fun n' => ih n' found
        · split
          · exact ih n _
          · exact ih n _

/-- Nor in any other operation. -/
theorem steady_evaluateStep (m : Method) (n : Option Node) (operation : Operation) :
    Assembly.Steady (evaluateStep e v m n operation) := by
  unfold evaluateStep
  split
  · apply steady_map
    unfold establish
    split
    · exact hv.command _
    · exact steady_pure _
  · apply steady_map
    exact steady_bind (steady_evaluateSubCommands hv e _ _ _ _) fun _ => steady_of _
  · exact steady_pure _
  · exact steady_pure _
  · exact steady_throw _
  · exact steady_pure _

theorem steady_evaluateCommand (m : Method) : Assembly.Steady (evaluateCommand e v m) := by
  apply steady_bind (steady_bodyOf e m)
  intro body
  apply steady_bind (steady_foldlM (steady_evaluateStep hv e m) _ _)
  intro n
  cases n with
  | none => exact steady_throw _
  | some n => exact steady_pure n

theorem steady_evaluateContainer (m : Method) : Assembly.Steady (evaluateContainer v m) := by
  unfold evaluateContainer
  split
  · exact hv.items m
  · exact steady_bind (hv.command m) fun n => steady_pure _

theorem steady_evaluateItems (m : Method) : Assembly.Steady (evaluateItems e v m) := by
  apply steady_bind (steady_bodyOf e m)
  intro body
  apply steady_foldlM
  intro found items
  apply steady_bind (steady_mapM hv.command _)
  intro executables
  exact steady_bind (steady_mapM (steady_evaluateContainer hv) _) fun _ => steady_pure _

end Steady

/-! ### Entering builders -/

section Entering

variable {e : Engine} {pending : List MethodId} {m : Method}

/-- A builder that is pending is evaluated, with itself no longer pending. -/
theorem evaluator_command_of_mem (h : m.id ∈ pending) :
    (evaluator e pending).command m = evaluateCommand e (evaluator e (inside pending m)) m := by
  rw [evaluator]
  simp only [dif_pos h]

/-- A builder that is no longer pending has been met on the way to itself. -/
theorem evaluator_command_of_notMem (h : m.id ∉ pending) :
    (evaluator e pending).command m =
      throw (.violation .commandCycle (e.context.graph.methodName m)) := by
  rw [evaluator]
  simp only [dif_neg h]

/-- The same for the items of a builder that is pending. -/
theorem evaluator_items_of_mem (h : m.id ∈ pending) :
    (evaluator e pending).items m = evaluateItems e (evaluator e (inside pending m)) m := by
  rw [evaluator]
  simp only [dif_pos h]

/-- And for those of one that is not. -/
theorem evaluator_items_of_notMem (h : m.id ∉ pending) :
    (evaluator e pending).items m =
      throw (.violation .commandCycle (e.context.graph.methodName m)) := by
  rw [evaluator]
  simp only [dif_neg h]

end Entering

/-- Assembling recurses on the builders that are still pending inside the one that is entered. -/
theorem pending_induction {P : List MethodId → Prop}
    (enter : ∀ pending, (∀ m : Method, m.id ∈ pending → P (inside pending m)) → P pending)
    (pending : List MethodId) : P pending :=
  enter pending fun m hm =>
    have : (inside pending m).length < pending.length := length_inside_lt hm
    pending_induction enter (inside pending m)
termination_by pending.length

theorem evaluator_steady (e : Engine) (pending : List MethodId) : (evaluator e pending).Steady := by
  induction pending using pending_induction with
  | enter pending ih =>
    constructor
    · intro m
      by_cases h : m.id ∈ pending
      · rw [evaluator_command_of_mem h]
        exact steady_evaluateCommand (ih m h) e m
      · rw [evaluator_command_of_notMem h]
        exact steady_throw _
    · intro m
      by_cases h : m.id ∈ pending
      · rw [evaluator_items_of_mem h]
        exact steady_evaluateItems (ih m h) e m
      · rw [evaluator_items_of_notMem h]
        exact steady_throw _

end ClientForge.Command
