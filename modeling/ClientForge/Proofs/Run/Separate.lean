import ClientForge.Output.Memory
import ClientForge.Proofs.Run.Matching
import Mathlib.Logic.Function.Basic

/-!
# Targets with sinks of their own

Where every directory has a sink with a state of its own, what is done for one target leaves the states of the
others alone. Every target of a run has a directory of its own (`nodup_directories`), so a run gives each of them
the result and leaves the state that it would have on its own (`runTargets_sink`).
-/

namespace ClientForge.Output

/-- A state for every directory. -/
abbrev Outputs (τ : String → Type) : Type := (dir : String) → τ dir

namespace Outputs

variable {τ : String → Type}

/-- Does something to the state of a directory. -/
def on (dir : String) (deed : Deed (τ dir)) : Deed (Outputs τ) := fun outputs =>
  ((deed (outputs dir)).1, Function.update outputs dir (deed (outputs dir)).2)

/-- The sink of a directory as one on all states. -/
def sink (sinks : (dir : String) → Sink (τ dir)) (dir : String) : Sink (Outputs τ) where
  write cancelled path content := on dir ((sinks dir).write cancelled path content)
  clean := (sinks dir).clean.map fun discard cancelled => on dir (discard cancelled)

end Outputs

/-- Memories are one such family. -/
theorem Memories.sink_eq : Memories.sink = @Outputs.sink (fun _ => Memory) fun _ => Memory.sink := by
  have hon : ∀ dir deed, Memories.on dir deed = @Outputs.on (fun _ => Memory) dir deed := by
    intro dir deed
    funext ms
    refine Prod.ext rfl (funext fun d => ?_)
    by_cases hd : d = dir
    · subst hd
      simp [Memories.on, Outputs.on]
    · simp [Memories.on, Outputs.on, hd]
  funext dir
  simp only [Memories.sink, Outputs.sink, Memory.sink, hon, Option.map_some]

end ClientForge.Output

namespace ClientForge.Run

open ClientForge.Output

section Separate

variable {τ : String → Type} (sinks : (dir : String) → Sink (τ dir)) (job : Job)

/-- The sink of a directory keeps step with its own sink, and the states of the others are what they were. -/
theorem matches_sink (dir : String) (outputs : Outputs τ) :
    Sink.Matches (fun now state => now = Function.update outputs dir state) (Outputs.sink sinks dir) (sinks dir) := by
  have hon (deed : Deed (τ dir)) :
      Deed.Matches (fun now state => now = Function.update outputs dir state) (Outputs.on dir deed) deed := by
    rintro _ state rfl
    simp [Outputs.on]
  refine ⟨fun cancelled path content => hon _, ?_⟩
  simp only [Outputs.sink]
  cases (sinks dir).clean with
  | none => exact .none
  | some discard => exact .some fun cancelled => hon (discard cancelled)

/-- A target touches the state of its own directory only. -/
theorem runTarget_sink (t : Target) (dir : String) (outputs : Outputs τ) :
    job.runTarget (Outputs.sink sinks dir) t outputs =
      ((job.runTarget (sinks dir) t (outputs dir)).1,
        Function.update outputs dir (job.runTarget (sinks dir) t (outputs dir)).2) := by
  obtain ⟨hresult, hstate⟩ := runTarget_matches job (matches_sink sinks dir outputs) t
    (Function.update_eq_self dir outputs).symm
  exact Prod.ext hresult hstate

/-- States of directories without a target stay as they are. -/
theorem runTargets_sink_other {ts : List Target} {dir : String} (h : dir ∉ ts.map (·.directory))
    (outputs : Outputs τ) : (job.runTargets (Outputs.sink sinks) ts outputs).2 dir = outputs dir := by
  induction ts generalizing outputs with
  | nil => rfl
  | cons t ts ih =>
      obtain ⟨ht, hts⟩ : dir ≠ t.directory ∧ dir ∉ ts.map (·.directory) := by simpa using h
      simp only [Job.runTargets, runTarget_sink]
      rw [ih hts, Function.update_of_ne ht]

/-- The result of a target, and the state that it leaves, are what they would be on its own. -/
theorem runTargets_sink {ts : List Target} (hdirs : (ts.map (·.directory)).Nodup) {i : Nat} {t : Target}
    (ht : ts[i]? = some t) (outputs : Outputs τ) :
    (job.runTargets (Outputs.sink sinks) ts outputs).1[i]? =
        some (job.runTarget (sinks t.directory) t (outputs t.directory)).1 ∧
      (job.runTargets (Outputs.sink sinks) ts outputs).2 t.directory =
        (job.runTarget (sinks t.directory) t (outputs t.directory)).2 := by
  induction ts generalizing i outputs with
  | nil => cases ht
  | cons first ts ih =>
      obtain ⟨hfirst, hrest⟩ : first.directory ∉ ts.map (·.directory) ∧ (ts.map (·.directory)).Nodup := by
        simpa using hdirs
      simp only [Job.runTargets, runTarget_sink]
      cases i with
      | zero =>
          cases ht
          refine ⟨rfl, ?_⟩
          rw [runTargets_sink_other sinks job hfirst, Function.update_self]
      | succ i =>
          have hother : t.directory ≠ first.directory := fun heq =>
            hfirst (heq ▸ List.mem_map_of_mem (List.mem_of_getElem? ht))
          have hlater := ih hrest ht (Function.update outputs first.directory
            (job.runTarget (sinks first.directory) first (outputs first.directory)).2)
          simpa only [Function.update_of_ne hother, List.getElem?_cons_succ] using hlater

/-- Every target has a result. -/
theorem length_runTargets {σ : Type} (sinks : (dir : String) → Sink σ) (ts : List Target) (state : σ) :
    (job.runTargets sinks ts state).1.length = ts.length := by
  induction ts generalizing state with
  | nil => rfl
  | cons t ts ih => simp [Job.runTargets, ih]

end Separate

/-! ### Directories -/

/-- Languages that are gathered one by one are gathered once each. -/
theorem nodup_foldl_distinct {seen : List String} (h : seen.Nodup) (xs : List String) :
    (xs.foldl (fun seen x => if seen.contains x then seen else seen ++ [x]) seen).Nodup := by
  induction xs generalizing seen with
  | nil => exact h
  | cons x xs ih =>
      refine ih ?_
      dsimp only
      split
      · exact h
      · next hx =>
        rw [List.nodup_append]
        refine ⟨h, by simp, fun a ha b hb => ?_⟩
        rintro rfl
        exact hx (by simpa [List.mem_singleton.mp hb] using ha)

theorem nodup_settingsTargets (s : Settings) : s.targets.Nodup := by
  unfold Settings.targets
  split
  · simp
  · exact nodup_foldl_distinct List.nodup_nil _

/-- Every target has a directory of its own. -/
theorem nodup_directories (job : Job) : (job.targets.map (·.directory)).Nodup := by
  have hnodup := nodup_settingsTargets job.settings
  unfold Job.targets targetsOf
  split
  · simp
  · simpa [Function.comp_def] using hnodup

end ClientForge.Run
