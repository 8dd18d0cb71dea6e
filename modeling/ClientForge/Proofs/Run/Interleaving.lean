import ClientForge.Proofs.Run.Consistency
import Mathlib.Algebra.BigOperators.Group.Finset.Piecewise
import Mathlib.Algebra.Order.BigOperators.Group.Finset
import Mathlib.Data.Fintype.Basic
import Mathlib.Logic.Relation

/-!
# Targets at the same time

The targets of a run are generated by workers at the same time. Workers begin in the order of the targets, with no more
than a given number at work; each does what is to be done for its target, in order, and notes what became of it. A
`Step` is one thing that one worker does, so the ways in which the work can be interleaved are the sequences of steps.

* **`OnTrack`.** A target's own work and state are always such that it ends as it would on its own.
* **`onTrack_of_step`.** Every step of every worker keeps it so.
* **`targets_isolated`.** However the work is interleaved, it ends, and all results and states are then those of
  generating the targets one after another.
-/

namespace ClientForge.Run

open ClientForge.Output Relation

/-- Where a worker is. -/
inductive Worker where
  | waiting
  /-- At work, with what is still to be done. -/
  | working (rest : List Action)
  /-- Done, with what became of it. -/
  | done (outcome : Except Failure Unit)

namespace Worker

def isWaiting : Worker → Bool
  | waiting => true
  | _ => false

def isWorking : Worker → Bool
  | working _ => true
  | _ => false

def isDone : Worker → Bool
  | done _ => true
  | _ => false

/-- A worker after an action. -/
def after (rest : List Action) : Except Failure Unit → Worker
  | .ok () => working rest
  | .error failure => done (.error failure)

end Worker

/-- Where all workers of a job are, and what is in the directories. -/
structure Situation (job : Job) (τ : String → Type) where
  workers : Fin job.targets.length → Worker
  outputs : Outputs τ

namespace Situation

variable {job : Job} {τ : String → Type} (sinks : (dir : String) → Sink (τ dir))

/-- No worker has begun. -/
def start (init : Outputs τ) : Situation job τ := ⟨fun _ => .waiting, init⟩

/-- All workers are done. -/
def Finished (x : Situation job τ) : Prop := ∀ i, (x.workers i).isDone = true

/-- How many workers are at work. -/
def busy (x : Situation job τ) : Nat := (Finset.univ.filter fun i => (x.workers i).isWorking = true).card

/-- A worker goes on to something else. -/
def move (x : Situation job τ) (i : Fin job.targets.length) (w : Worker) : Situation job τ :=
  { x with workers := Function.update x.workers i w }

/-- A worker performs an action. -/
def act (x : Situation job τ) (i : Fin job.targets.length) (a : Action) (rest : List Action) : Situation job τ :=
  let dir := job.targets[i].directory
  let performed := a.perform (sinks dir) job.cancelled (x.outputs dir)
  { workers := Function.update x.workers i (.after rest performed.1)
    outputs := Function.update x.outputs dir performed.2 }

/-- The result that is noted for a target: nothing until its worker is done. -/
def result (x : Situation job τ) (i : Fin job.targets.length) : TargetResult :=
  match x.workers i with
  | .done outcome =>
    ((job.prepare job.targets[i]).conclude (sinks job.targets[i].directory).clean.isSome outcome).result
  | _ => { language := "", directory := "" }

/-- The report as it stands. -/
def report (x : Situation job τ) : Report := ⟨List.ofFn (x.result sinks)⟩

end Situation

/-- What can happen next, if no more than `limit` workers are at work at a time. -/
inductive Step {job : Job} {τ : String → Type} (sinks : (dir : String) → Sink (τ dir)) (limit : Nat) :
    Situation job τ → Situation job τ → Prop
  /-- The next worker begins, once there is room for it. -/
  | begin {x : Situation job τ} (i : Fin job.targets.length) (hwaiting : x.workers i = .waiting)
      (hturn : ∀ j < i, (x.workers j).isWaiting = false) (hroom : x.busy < limit) :
      Step sinks limit x (x.move i (.working (job.prepare job.targets[i]).actions))
  | act {x : Situation job τ} (i : Fin job.targets.length) (a : Action) (rest : List Action)
      (hworking : x.workers i = .working (a :: rest)) : Step sinks limit x (x.act sinks i a rest)
  | finish {x : Situation job τ} (i : Fin job.targets.length) (hworking : x.workers i = .working []) :
      Step sinks limit x (x.move i (.done (.ok ())))

/-! ### What every step keeps -/

section Steps

variable {job : Job} {τ : String → Type} {sinks : (dir : String) → Sink (τ dir)} {limit : Nat}
  {init : Outputs τ} {x y : Situation job τ}

theorem directory_ne {i j : Fin job.targets.length} (h : i ≠ j) :
    job.targets[i].directory ≠ job.targets[j].directory := by
  have hapart := List.pairwise_iff_get.mp (List.pairwise_map.mp (nodup_directories job))
  rcases lt_or_gt_of_ne h with hlt | hlt
  · exact hapart i j hlt
  · exact (hapart j i hlt).symm

/-- An action of one worker leaves the outputs of other directories as they are. -/
theorem act_of_ne {i : Fin job.targets.length} {dir : String} (h : dir ≠ job.targets[i].directory) (a : Action)
    (rest : List Action) : (x.act sinks i a rest).outputs dir = x.outputs dir :=
  Function.update_of_ne h ..

/-- What becomes of a target on its own. -/
def alone (sinks : (dir : String) → Sink (τ dir)) (job : Job) (init : Outputs τ) (t : Target) :
    Except Failure Unit × τ t.directory :=
  performAll (sinks t.directory) job.cancelled (job.prepare t).actions (init t.directory)

/-- What is left to be done for a target leads from the state of its directory to where it ends on its own. -/
def LeadsOn (sinks : (dir : String) → Sink (τ dir)) (job : Job) (init : Outputs τ) (t : Target)
    (now : τ t.directory) : Worker → Prop
  | .waiting => now = init t.directory
  | .working rest => performAll (sinks t.directory) job.cancelled rest now = alone sinks job init t
  | .done outcome => (outcome, now) = alone sinks job init t

/-- Every target ends as it would on its own, and no other directory is touched. -/
structure OnTrack (sinks : (dir : String) → Sink (τ dir)) (init : Outputs τ) (x : Situation job τ) : Prop where
  targets : ∀ i, LeadsOn sinks job init job.targets[i] (x.outputs job.targets[i].directory) (x.workers i)
  elsewhere : ∀ dir ∉ job.targets.map (·.directory), x.outputs dir = init dir

theorem onTrack_start : OnTrack sinks init (Situation.start init : Situation job τ) where
  targets _ := rfl
  elsewhere _ _ := rfl

/-- A worker that gets on without touching its output stays on track if it still leads on to its result. -/
theorem onTrack_move (h : OnTrack sinks init x) {i : Fin job.targets.length} {w : Worker}
    (hw : LeadsOn sinks job init job.targets[i] (x.outputs job.targets[i].directory) w) :
    OnTrack sinks init (x.move i w) where
  targets j := by
    by_cases hj : j = i
    · subst hj
      simpa [Situation.move] using hw
    · simpa [Situation.move, hj] using h.targets j
  elsewhere := h.elsewhere

/-- The rest of the actions leads on from where the first one leads. -/
theorem leadsOn_after {t : Target} {now : τ t.directory} {a : Action} {rest : List Action}
    (h : LeadsOn sinks job init t now (.working (a :: rest))) :
    LeadsOn sinks job init t (a.perform (sinks t.directory) job.cancelled now).2
      (.after rest (a.perform (sinks t.directory) job.cancelled now).1) := by
  simp only [LeadsOn, performAll] at h
  cases hperformed : a.perform (sinks t.directory) job.cancelled now with
  | mk outcome next =>
    rw [hperformed] at h
    cases outcome with
    | ok _ => exact h
    | error failure => exact h

/-- A worker that performs its next action stays on track, and so do the others, whose outputs are not touched. -/
theorem onTrack_act (h : OnTrack sinks init x) {i : Fin job.targets.length} {a : Action} {rest : List Action}
    (hworking : x.workers i = .working (a :: rest)) : OnTrack sinks init (x.act sinks i a rest) where
  targets j := by
    have hown := h.targets i
    rw [hworking] at hown
    by_cases hj : j = i
    · subst hj
      simpa [Situation.act] using leadsOn_after hown
    · -- the action is in the directory of another target
      rw [act_of_ne (directory_ne hj)]
      simpa [Situation.act, hj] using h.targets j
  elsewhere dir hdir := by
    have hother : dir ≠ job.targets[i].directory := fun heq =>
      hdir (heq ▸ List.mem_map_of_mem (List.getElem_mem _))
    rw [act_of_ne hother, h.elsewhere dir hdir]

theorem onTrack_of_step (h : OnTrack sinks init x) (hstep : Step sinks limit x y) : OnTrack sinks init y := by
  cases hstep with
  | begin i hwaiting hturn hroom =>
      have hown := h.targets i
      rw [hwaiting] at hown
      refine onTrack_move h ?_
      simp only [LeadsOn] at hown ⊢
      rw [hown, alone]
  | act i a rest hworking => exact onTrack_act h hworking
  | finish i hworking =>
      have hown := h.targets i
      rw [hworking] at hown
      exact onTrack_move h hown

theorem onTrack_of_steps (h : ReflTransGen (Step sinks limit) (.start init) x) : OnTrack sinks init x := by
  induction h with
  | refl => exact onTrack_start
  | tail _ hstep ih => exact onTrack_of_step ih hstep

/-! ### Every interleaving ends -/

/-- How much is left for a worker to do at most. -/
def Worker.weight (planned : Nat) : Worker → Nat
  | .waiting => planned + 2
  | .working rest => rest.length + 1
  | .done _ => 0

def Situation.weight (x : Situation job τ) : Nat :=
  ∑ i, (x.workers i).weight (job.prepare job.targets[i]).actions.length

/-- The weight of a state falls with the weight of any worker. -/
theorem weight_move_lt {i : Fin job.targets.length} {w : Worker}
    (h : w.weight (job.prepare job.targets[i]).actions.length <
      (x.workers i).weight (job.prepare job.targets[i]).actions.length) : (x.move i w).weight < x.weight := by
  refine Finset.sum_lt_sum (fun j _ => ?_) ⟨i, Finset.mem_univ i, by simpa [Situation.move] using h⟩
  by_cases hj : j = i
  · subst hj
    simpa [Situation.move] using h.le
  · simp [Situation.move, hj]

theorem weight_lt_of_step (h : Step sinks limit x y) : y.weight < x.weight := by
  cases h with
  | begin i hwaiting hturn hroom => exact weight_move_lt (by simp [hwaiting, Worker.weight])
  | act i a rest hworking =>
      refine weight_move_lt (x := x) (i := i) ?_
      cases (a.perform (sinks job.targets[i].directory) job.cancelled (x.outputs job.targets[i].directory)).1 <;>
        simp [hworking, Worker.after, Worker.weight]
  | finish i hworking => exact weight_move_lt (by simp [hworking, Worker.weight])

/-- No interleaving goes on forever. -/
theorem wellFounded_step (job : Job) (sinks : (dir : String) → Sink (τ dir)) (limit : Nat) :
    WellFounded fun y x : Situation job τ => Step sinks limit x y :=
  Subrelation.wf weight_lt_of_step (measure Situation.weight).wf

theorem exists_step_of_working {i : Fin job.targets.length} (h : (x.workers i).isWorking = true) :
    ∃ y, Step sinks limit x y := by
  cases hworker : x.workers i with
  | waiting => simp [hworker, Worker.isWorking] at h
  | done outcome => simp [hworker, Worker.isWorking] at h
  | working rest =>
      cases rest with
      | nil => exact ⟨_, .finish i hworker⟩
      | cons a rest => exact ⟨_, .act i a rest hworker⟩

/-- As long as a worker is not done, one of them can go on. -/
theorem exists_step (hlimit : 0 < limit) (h : ¬x.Finished) : ∃ y, Step sinks limit x y := by
  by_cases hworking : ∃ i, (x.workers i).isWorking = true
  · obtain ⟨i, hi⟩ := hworking
    exact exists_step_of_working hi
  · have hidle : ∀ i, (x.workers i).isWorking ≠ true := not_exists.mp hworking
    have hroom : x.busy < limit := by
      have hbusy : x.busy = 0 := by
        rw [Situation.busy, Finset.card_eq_zero, Finset.filter_eq_empty_iff]
        exact fun i _ => hidle i
      omega
    -- whoever is neither done nor at work is waiting, and the first of those can begin
    obtain ⟨i, hi⟩ := not_forall.mp h
    have hwaiting : x.workers i = .waiting := by
      cases hworker : x.workers i with
      | waiting => rfl
      | working rest => exact absurd (by simp [hworker, Worker.isWorking]) (hidle i)
      | done outcome => exact absurd (by simp [hworker, Worker.isDone]) hi
    obtain ⟨first, hfirst, hleast⟩ := wellFounded_lt.has_min {i | x.workers i = .waiting} ⟨i, hwaiting⟩
    refine ⟨_, .begin first hfirst (fun j hj => ?_) hroom⟩
    cases hworker : x.workers j with
    | waiting => exact absurd hj (hleast j hworker)
    | working rest => rfl
    | done outcome => rfl

theorem not_step_of_finished (h : x.Finished) : ¬Step sinks limit x y := by
  intro hstep
  cases hstep with
  | begin i hwaiting hturn hroom => simpa [hwaiting, Worker.isDone] using h i
  | act i a rest hworking => simpa [hworking, Worker.isDone] using h i
  | finish i hworking => simpa [hworking, Worker.isDone] using h i

/-! ### Where it ends -/

/-- At the end, every target has the result and the output that it has on its own. -/
theorem result_of_onTrack (h : OnTrack sinks init x) (hfinished : x.Finished) {i : Nat} {t : Target}
    (ht : job.targets[i]? = some t) :
    (x.report sinks).targets[i]? = some (job.runTarget (sinks t.directory) t (init t.directory)).1.result ∧
      x.outputs t.directory = (job.runTarget (sinks t.directory) t (init t.directory)).2 := by
  obtain ⟨hi, rfl⟩ := List.getElem?_eq_some_iff.mp ht
  have hown := h.targets ⟨i, hi⟩
  have hdone := hfinished ⟨i, hi⟩
  rw [Situation.report, List.getElem?_ofFn, dif_pos hi]
  cases hworker : x.workers ⟨i, hi⟩ with
  | waiting => simp [hworker, Worker.isDone] at hdone
  | working rest => simp [hworker, Worker.isDone] at hdone
  | done outcome =>
      simp only [hworker, LeadsOn, alone, Fin.getElem_fin] at hown
      simp only [Situation.result, hworker, Job.runTarget, ← hown, Fin.getElem_fin, and_self]

theorem outputs_of_onTrack (h : OnTrack sinks init x) (hfinished : x.Finished) :
    x.outputs = (job.run (Outputs.sink sinks) init).2 := by
  funext dir
  change _ = (job.runTargets (Outputs.sink sinks) job.targets init).2 dir
  by_cases hdir : dir ∈ job.targets.map (·.directory)
  · obtain ⟨t, ht, rfl⟩ := List.mem_map.mp hdir
    obtain ⟨i, ht⟩ := List.mem_iff_getElem?.mp ht
    rw [(runTargets_sink sinks job (nodup_directories job) ht init).2, (result_of_onTrack h hfinished ht).2]
  · rw [h.elsewhere dir hdir, runTargets_sink_other sinks job hdir]

/-- At the end, the report is that of the targets one after the other. -/
theorem report_of_onTrack (h : OnTrack sinks init x) (hfinished : x.Finished) :
    (x.report sinks).targets = (job.run (Outputs.sink sinks) init).1.report.targets := by
  change _ = (job.runTargets (Outputs.sink sinks) job.targets init).1.map (·.result)
  refine List.ext_getElem? fun i => ?_
  rw [List.getElem?_map]
  cases ht : job.targets[i]? with
  | some t =>
      rw [(runTargets_sink sinks job (nodup_directories job) ht init).1, (result_of_onTrack h hfinished ht).1]
      rfl
  | none =>
      have hlength := List.getElem?_eq_none_iff.mp ht
      rw [List.getElem?_eq_none (by simpa [Situation.report] using hlength),
        List.getElem?_eq_none (by rwa [length_runTargets])]
      rfl

end Steps

/-- Where every directory has a sink of its own, no way of interleaving the work goes on forever, and it stops only
when all workers are done. What is in the directories then, and the report, are those of a run that generates the
targets one after another. Each target has the result, and leaves in its directory, what it would on its own, whatever
becomes of the others. -/
theorem targets_isolated {job : Job} {τ : String → Type} (sinks : (dir : String) → Sink (τ dir)) (init : Outputs τ)
    {limit : Nat} (hlimit : 0 < limit) :
    WellFounded (fun y x : Situation job τ => Step sinks limit x y) ∧
    ∀ x : Situation job τ, ReflTransGen (Step sinks limit) (.start init) x →
      ((∀ y, ¬Step sinks limit x y) ↔ x.Finished) ∧
      (x.Finished →
        x.outputs = (job.run (Outputs.sink sinks) init).2 ∧
        (x.report sinks).targets = (job.run (Outputs.sink sinks) init).1.report.targets ∧
        ∀ (i : Nat) (t : Target), job.targets[i]? = some t →
          (x.report sinks).targets[i]? = some (job.runTarget (sinks t.directory) t (init t.directory)).1.result ∧
          x.outputs t.directory = (job.runTarget (sinks t.directory) t (init t.directory)).2) := by
  refine ⟨wellFounded_step job sinks limit, fun x hsteps => ⟨⟨fun hstuck => ?_, fun h _ => not_step_of_finished h⟩,
    fun hfinished => ?_⟩⟩
  · by_contra hunfinished
    obtain ⟨y, hstep⟩ := exists_step hlimit hunfinished
    exact hstuck y hstep
  · have htrack := onTrack_of_steps hsteps
    exact ⟨outputs_of_onTrack htrack hfinished, report_of_onTrack htrack hfinished, fun _ _ =>
      result_of_onTrack htrack hfinished⟩

open HolderSample in
/-- Two workers at a time: that Go has no type for a property keeps nothing from TypeScript, and Go leaves its directory
as it was. -/
theorem holder_targets_isolated :
    ∃ x : Situation job fun _ => Memory,
      ReflTransGen (Step (fun _ => Memory.sink) 2) (.start fun _ => stale) x ∧ x.Finished ∧
      (x.report fun _ => Memory.sink).targets.map (·.failure.isSome) = [true, false] ∧
      x.outputs "go" = stale ∧
      (x.outputs "typescript").files.map (·.1) = ["apigen-lock.json", "holder.ts", "plain.ts"] := by
  obtain ⟨hends, hall⟩ :=
    @targets_isolated job (fun _ => Memory) (fun _ => Memory.sink) (fun _ => stale) 2 (by decide)
  obtain ⟨x, hsteps, hlast⟩ :=
    hends.has_min {x | ReflTransGen (Step (fun _ => Memory.sink) 2) (.start fun _ => stale) x} ⟨_, .refl⟩
  obtain ⟨hstuck, hend⟩ := hall x hsteps
  have hfinished := hstuck.mp fun y hstep => hlast y (hsteps.tail hstep) hstep
  obtain ⟨houtputs, hreport, -⟩ := hend hfinished
  refine ⟨x, hsteps, hfinished, ?_, ?_, ?_⟩
  · rw [hreport]
    decide +kernel
  · rw [houtputs]
    decide +kernel
  · rw [houtputs]
    decide +kernel

end ClientForge.Run
