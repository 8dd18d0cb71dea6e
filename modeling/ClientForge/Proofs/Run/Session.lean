import ClientForge.Proofs.Output.Writing
import ClientForge.Proofs.Run.Matching
import ClientForge.Run.Session

/-!
# Sessions and their changes

A session goes by a disk that was read beforehand, and its changes are made to the files of the system afterwards, in
the order in which they were noted. Noting them makes no difference: every step of a sink goes by the disk alone
(`Notes`), so a sink that notes its changes keeps step with the one that does not, and so do runs.

* **`matches_notedSink`.** A sink that notes its changes does to the disk what the plain one does.
* **`session_changes`.** A session is its job on the plain sinks with the metrics written at last, and its changes lead
  from the disk that it began with to the one that it ends with.
* **`run_of_not_writes`.** A session that only drafts files and writes no metrics changes nothing.
-/

namespace ClientForge.Output

/-! ### Noting changes -/

namespace TrailAction

variable {α β : Type}

/-- Whether an action goes by the disk alone, and adds its changes to those that are noted. -/
def Notes (x : TrailAction α) : Prop :=
  ∃ course : Disk → Except Failure α × List Change, ∀ t, x.run.run t = ((course t.disk).1, t.after (course t.disk).2)

/-- A result that is settled beforehand changes nothing. -/
theorem notes_of_result (r : Except Failure α) : Notes (ExceptT.mk (pure r)) := by
  refine ⟨fun _ => (r, []), fun t => ?_⟩
  rw [Trail.after_nil]
  rfl

theorem notes_change (changes : List Change) : Notes (change changes) :=
  ⟨fun _ => (.ok (), changes), run_change changes⟩

/-- Actions in a row note what each of them changes, in order. -/
theorem notes_bind {x : TrailAction α} {f : α → TrailAction β} (hx : Notes x) (hf : ∀ a, Notes (f a)) :
    Notes (x >>= f) := by
  obtain ⟨first, hfirst⟩ := hx
  choose second hsecond using hf
  refine ⟨fun d => match first d with
    | (.ok a, changes) => ((second a (d.applyAll changes)).1, changes ++ (second a (d.applyAll changes)).2)
    | (.error failure, changes) => (.error failure, changes), fun t => ?_⟩
  have hrun := hfirst t
  rcases hcourse : first t.disk with ⟨outcome, changes⟩
  rw [hcourse] at hrun
  cases outcome with
  | ok a =>
      rw [run_bind_of_ok hrun, hsecond]
      simp [hcourse, Trail.after]
  | error failure =>
      rw [run_bind_of_error hrun]
      simp [hcourse]

/-- Reading a trail is fine as long as only its disk matters. -/
theorem notes_get {f : Trail → TrailAction α} (hdisk : ∀ t u : Trail, t.disk = u.disk → f t = f u)
    (hf : ∀ t, Notes (f t)) : Notes (get >>= f) := by
  choose course hcourse using hf
  refine ⟨fun d => course ⟨d, []⟩ d, fun t => ?_⟩
  rw [run_get_bind, hdisk t ⟨t.disk, []⟩ rfl, hcourse]

theorem notes_attempt (c : Circumstances) (g : Stage) : Notes (attempt c g) := by
  refine notes_get (fun t u h => by rw [h]) fun t => ?_
  dsimp only
  split
  · exact notes_bind (notes_change _) fun _ => notes_of_result _
  · split
    · exact notes_change _
    · exact notes_of_result _

/-- Removing a file after a failure is noted like any other change. -/
theorem notes_orDiscard {x : TrailAction Unit} (hx : Notes x) (at_ : Place) : Notes (orDiscard at_ x) := by
  obtain ⟨course, hcourse⟩ := hx
  refine ⟨fun d => match course d with
    | (.ok (), changes) => (.ok (), changes)
    | (.error failure, changes) => (.error failure, changes ++ [.remove at_]), fun t => ?_⟩
  have hrun := hcourse t
  rcases hd : course t.disk with ⟨outcome, changes⟩
  rw [hd] at hrun
  cases outcome with
  | ok _ =>
      rw [run_orDiscard_of_ok hrun]
      simp [hd]
  | error failure =>
      rw [run_orDiscard_of_error hrun, Trail.after_after]
      simp [hd]

end TrailAction

open TrailAction

namespace FileSink

variable (s : FileSink) (c : Circumstances)

theorem notes_fillTemporary (temporary : Place) (content : String) : Notes (fillTemporary s c temporary content) := by
  refine notes_bind (notes_attempt c _) fun _ => notes_bind (notes_attempt c _) fun _ =>
    notes_bind (notes_attempt c _) fun _ => ?_
  split
  · exact notes_of_result _
  · exact notes_of_result _

theorem notes_publish (path : String) (temporary full : Place) : Notes (publish s c path temporary full) := by
  unfold publish
  split
  · exact notes_attempt c _
  · refine notes_get (fun t u h => by rw [h]) fun t => ?_
    split
    · exact notes_of_result _
    · exact notes_bind (notes_attempt c _) fun _ => notes_change _

theorem notes_writeTo (path content : String) (place : Place) : Notes (writeTo s c path content place) := by
  refine notes_bind (notes_attempt c _) fun _ => notes_get (fun t u h => by rw [h]) fun t => ?_
  refine notes_bind (notes_attempt c _) fun _ => notes_orDiscard ?_ _
  exact notes_bind (notes_fillTemporary s c _ content) fun _ => notes_publish s c path _ place

/-- Writing a file goes by the disk alone, whatever fails on the way. -/
theorem notes_writing (path content : String) : Notes (writing s c path content) :=
  notes_bind (notes_of_result _) fun _ => notes_bind (notes_of_result _) fun _ => notes_writeTo s c path content _

/-- So does cleaning the root. -/
theorem notes_cleaning (cancelled : Bool) : Notes (cleaning s cancelled) := by
  unfold cleaning
  split
  · -- a failure in front of the rest is the failure alone
    exact notes_of_result _
  · refine notes_get (fun t u h => by rw [h]) fun t => ?_
    dsimp only
    split
    · exact notes_of_result _
    · exact notes_of_result _
    · split
      · exact notes_of_result _
      · exact notes_change _

end FileSink

/-! ### Trails -/

/-- A trail that leads from one disk to another. -/
def Trail.Leads (start : Disk) (t : Trail) (d : Disk) : Prop := t.disk = d ∧ t.disk = start.applyAll t.changes

/-- Changes that are noted as they are made lead on. -/
theorem Trail.Leads.after {start d : Disk} {t : Trail} (h : t.Leads start d) (changes : List Change) :
    (t.after changes).Leads start (d.applyAll changes) := by
  obtain ⟨rfl, hstart⟩ := h
  refine ⟨rfl, ?_⟩
  simp only [Trail.after, Disk.applyAll_append]
  rw [← hstart]

/-- An action that notes its changes keeps step with the same action without the notes. -/
theorem TrailAction.Notes.matches {x : TrailAction Unit} (hx : x.Notes) (start : Disk) :
    Deed.Matches (Trail.Leads start) (fun t => x.run.run t) fun d => x.unnoted.run.run d := by
  obtain ⟨course, hcourse⟩ := hx
  intro t d h
  obtain rfl := h.1
  have hplain : x.unnoted.run.run t.disk = ((course t.disk).1, t.disk.applyAll (course t.disk).2) := by
    change ((x.run.run ⟨t.disk, []⟩).1, (x.run.run ⟨t.disk, []⟩).2.disk) = _
    rw [hcourse]
    rfl
  simp only [hcourse t, hplain]
  exact ⟨trivial, h.after _⟩

/-- A sink that notes its changes does to the disk what the plain one does. -/
theorem FileSink.matches_notedSink (s : FileSink) (start : Disk) :
    Sink.Matches (Trail.Leads start) s.notedSink s.sink where
  write cancelled path content := (notes_writing s (circumstances cancelled path) path content).matches start
  clean := .some fun cancelled => (notes_cleaning s cancelled).matches start

end ClientForge.Output

namespace ClientForge.Run

open ClientForge.Output

/-! ### Sessions -/

section Sessions

variable (f : Flags) (h : Host) (d : Disk)

/-- So does writing the metrics. -/
theorem notes_save (r : Recorder) (path : String) (place : Place) : (r.save path place).Notes := by
  refine TrailAction.notes_get (fun t u h => by rw [h]) fun t => ?_
  dsimp only
  split
  · exact TrailAction.notes_of_result _
  · exact TrailAction.notes_change _
  · exact TrailAction.notes_of_result _
  · exact TrailAction.notes_of_result _

theorem notes_saveMetrics (g : Generation) : (f.saveMetrics h g).Notes := by
  unfold Flags.saveMetrics
  split
  · exact TrailAction.notes_of_result _
  · exact notes_save _ _ _

/-- A session that gets to a job runs it on plain sinks, and then writes the metrics. The disk that it ends with is what
its changes make of the disk that it began with, so making them elsewhere has the same effect there. -/
theorem session_changes :
    (f.run h d).2.disk = d.applyAll (f.run h d).2.changes ∧
    ∀ job, f.job h d = .ok job →
      let plain := job.run (fun dir => (h.sink job.settings dir).sink) d
      let saved := (f.saveMetrics h plain.1).unnoted.run.run plain.2
      (f.run h d).1.lines = plain.1.report.targets.map (·.summary) ∧ (f.run h d).1.log = plain.1.log ∧
        (f.run h d).1.failure = (failureOf saved.1).or plain.1.report.failure ∧ (f.run h d).2.disk = saved.2 := by
  unfold Flags.run
  cases hjob : f.job h d with
  | error failure => exact ⟨rfl, fun job hok => by cases hok⟩
  | ok job =>
      obtain ⟨hresult, hstate⟩ := run_eq_of_matches job
        (fun dir => (h.sink job.settings dir).matches_notedSink d) (x := ⟨d, []⟩) (y := d) ⟨rfl, rfl⟩
      obtain ⟨hsaved, hdisk, hchanges⟩ := (notes_saveMetrics f h _).matches d _ _ hstate
      simp only [hresult] at hsaved hdisk hchanges ⊢
      refine ⟨hchanges, fun job' hok => ?_⟩
      obtain rfl := Except.ok.inj hok
      exact ⟨rfl, rfl, congrArg (fun outcome => (failureOf outcome).or _) hsaved, hdisk⟩

/-- A job writes files if the flags say so. -/
theorem writes_of_job {job : Job} (hjob : f.job h d = .ok job) : job.writes = f.writes := by
  obtain ⟨s, -, hjob⟩ := bind_eq_ok.mp hjob
  obtain ⟨source, -, hjob⟩ := bind_eq_ok.mp hjob
  simp only [Job.create] at hjob
  split at hjob
  · obtain rfl := Except.ok.inj hjob
    rfl
  · cases hjob

/-- Where files are only drafted there is nothing to be done to a sink. -/
theorem actions_prepare_of_not_writes {job : Job} (hwrites : job.writes = false) (t : Target) :
    (job.prepare t).actions = [] := by
  unfold Job.prepare
  split
  · rfl
  · dsimp only
    split
    · rfl
    · simp [Job.actions, hwrites]

/-- Targets that are only drafted leave every state as it is. -/
theorem runTargets_of_not_writes {σ : Type} {job : Job} (hwrites : job.writes = false)
    (sinks : (dir : String) → Sink σ) (ts : List Target) (state : σ) : (job.runTargets sinks ts state).2 = state := by
  induction ts generalizing state with
  | nil => rfl
  | cons t ts ih => simp [Job.runTargets, Job.runTarget, actions_prepare_of_not_writes hwrites, performAll, ih]

/-- A session that only drafts files and writes no metrics changes nothing. -/
theorem run_of_not_writes (hwrites : f.writes = false) (hmetrics : f.metricsFile = "") : (f.run h d).2 = ⟨d, []⟩ := by
  unfold Flags.run
  cases hjob : f.job h d with
  | error failure => rfl
  | ok job =>
      have hstate := runTargets_of_not_writes ((writes_of_job f h d hjob).trans hwrites)
        (fun dir => (h.sink job.settings dir).notedSink) job.targets ⟨d, []⟩
      simp only [Flags.saveMetrics, hmetrics]
      exact hstate

end Sessions

end ClientForge.Run
