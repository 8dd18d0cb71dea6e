import ClientForge.Run.Generation

/-!
# Sinks that keep step

Two sinks keep step if on related states they have the same outcomes and lead to related states. A run then has the same
results on both, and leaves related states behind (`run_eq_of_matches`).
-/

namespace ClientForge.Output

section Matches

variable {σ τ : Type} (R : σ → τ → Prop)

/-- Two deeds keep step if they have the same outcome and lead from related states to related states. -/
def Deed.Matches (f : Deed σ) (g : Deed τ) : Prop := ∀ x y, R x y → (f x).1 = (g y).1 ∧ R (f x).2 (g y).2

/-- Two sinks keep step if all their deeds do, and both can be cleaned or neither. -/
structure Sink.Matches (s : Sink σ) (s' : Sink τ) : Prop where
  write : ∀ cancelled path content,
    Deed.Matches R (s.write cancelled path content) (s'.write cancelled path content)
  clean : Option.Rel (fun f g => ∀ cancelled, Deed.Matches R (f cancelled) (g cancelled)) s.clean s'.clean

end Matches

end ClientForge.Output

namespace ClientForge.Run

open ClientForge.Output

section Runs

variable {σ τ : Type} {R : σ → τ → Prop} {s : Sink σ} {s' : Sink τ}

/-- Actions keep step on sinks that do. -/
theorem perform_matches (h : Sink.Matches R s s') (cancelled : Bool) (a : Action) :
    Deed.Matches R (a.perform s cancelled) (a.perform s' cancelled) := by
  cases a with
  | write path content => exact h.write cancelled path content
  | clean =>
      intro x y hxy
      have hclean := h.clean
      simp only [Action.perform]
      generalize s.clean = f, s'.clean = g at hclean
      cases hclean with
      | none => exact ⟨rfl, hxy⟩
      | some hdeed =>
          obtain ⟨houtcome, hstate⟩ := hdeed cancelled x y hxy
          exact ⟨congrArg (inContext "clean output") houtcome, hstate⟩

/-- So do actions in a row, which stop at the same one if any fails. -/
theorem performAll_matches (h : Sink.Matches R s s') (cancelled : Bool) (actions : List Action) :
    Deed.Matches R (performAll s cancelled actions) (performAll s' cancelled actions) := by
  induction actions with
  | nil => exact fun x y hxy => ⟨rfl, hxy⟩
  | cons a actions ih =>
      intro x y hxy
      obtain ⟨houtcome, hstate⟩ := perform_matches h cancelled a x y hxy
      simp only [performAll]
      rcases ha : a.perform s cancelled x with ⟨outcome, x'⟩
      rcases ha' : a.perform s' cancelled y with ⟨outcome', y'⟩
      rw [ha, ha'] at houtcome hstate
      obtain rfl : outcome = outcome' := houtcome
      cases outcome with
      | ok _ => exact ih x' y' hstate
      | error failure => exact ⟨rfl, hstate⟩

variable (job : Job) {sinks : (dir : String) → Sink σ} {sinks' : (dir : String) → Sink τ} {x : σ} {y : τ}

/-- A target has the same result on sinks that keep step. -/
theorem runTarget_matches (h : Sink.Matches R s s') (t : Target) (hxy : R x y) :
    (job.runTarget s t x).1 = (job.runTarget s' t y).1 ∧ R (job.runTarget s t x).2 (job.runTarget s' t y).2 := by
  have hcleanable : s.clean.isSome = s'.clean.isSome := by
    have hclean := h.clean
    generalize s.clean = f, s'.clean = g at hclean
    cases hclean <;> rfl
  obtain ⟨houtcome, hstate⟩ := performAll_matches h job.cancelled (job.prepare t).actions x y hxy
  simp only [Job.runTarget, hcleanable, houtcome]
  exact ⟨trivial, hstate⟩

/-- So have targets one after the other. -/
theorem runTargets_matches (h : ∀ dir, Sink.Matches R (sinks dir) (sinks' dir)) (ts : List Target) (hxy : R x y) :
    (job.runTargets sinks ts x).1 = (job.runTargets sinks' ts y).1 ∧
      R (job.runTargets sinks ts x).2 (job.runTargets sinks' ts y).2 := by
  induction ts generalizing x y with
  | nil => exact ⟨rfl, hxy⟩
  | cons t ts ih =>
      obtain ⟨hfirst, hstate⟩ := runTarget_matches job (h t.directory) t hxy
      obtain ⟨hrest, hlast⟩ := ih hstate
      simp only [Job.runTargets, hfirst, hrest]
      exact ⟨trivial, hlast⟩

/-- A job has the same results on sinks that keep step, and leaves related states. -/
theorem run_eq_of_matches (h : ∀ dir, Sink.Matches R (sinks dir) (sinks' dir)) (hxy : R x y) :
    (job.run sinks x).1 = (job.run sinks' y).1 ∧ R (job.run sinks x).2 (job.run sinks' y).2 := by
  obtain ⟨hruns, hstate⟩ := runTargets_matches job h job.targets hxy
  exact ⟨congrArg (Generation.ofRuns job) hruns, hstate⟩

end Runs

end ClientForge.Run
