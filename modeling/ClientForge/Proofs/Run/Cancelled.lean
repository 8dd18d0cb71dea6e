import ClientForge.Proofs.Output.Below
import ClientForge.Proofs.Render.Completing
import ClientForge.Proofs.Render.Following
import ClientForge.Proofs.Run.Counts

/-!
# Cancelled runs

Whoever is asked to do something for a cancelled run has to notice by itself. Classes are not begun, sinks take no
files, and file sinks remove none. But memory is cleaned without a question. So a run that was cancelled before it began
fails with all of its targets and leaves a disk as it was, and it empties a memory that is to be cleaned if there are
no classes at which to notice, and no enum whose text cannot be formatted.

* **`exists_drafts_iff_of_cancelled`.** Which targets are drafted all the same.
* **`runTarget_of_cancelled`.** What becomes of a target whose sink takes no files.
* **`cancelled_run_keeps_outputs_iff`.** What a cancelled run leaves behind on disks and in memories.
-/

namespace ClientForge.Output

/-! ### Sinks -/

namespace Sink

variable {σ : Type}

/-- Whether a sink takes no files of cancelled runs, and is left as it was. -/
def RefusesLate (s : Sink σ) : Prop :=
  ∀ path content state, ∃ failure, s.write true path content state = (.error failure, state)

/-- What is left of a state when a cancelled run cleans it. -/
def sweptLate (s : Sink σ) (state : σ) : σ :=
  match s.clean with
  | none => state
  | some discard => (discard true state).2

end Sink

theorem checkWrite_of_cancelled (path : String) : ∃ failure, checkWrite true path = .error failure := by
  cases hcheck : checkWrite true path with
  | error failure => exact ⟨failure, rfl⟩
  | ok _ => cases (checkWrite_eq_ok_iff.mp hcheck).2

theorem Memory.refusesLate_sink : Memory.sink.RefusesLate := by
  intro path content m
  obtain ⟨failure, hcheck⟩ := checkWrite_of_cancelled path
  exact ⟨failure, by simp [Memory.sink, Memory.write, hcheck]⟩

theorem Memories.refusesLate_sink (dir : String) : (Memories.sink dir).RefusesLate := by
  intro path content ms
  obtain ⟨failure, hwrite⟩ := Memory.refusesLate_sink path content (ms dir)
  rw [Memories.sink_eq]
  refine ⟨failure, ?_⟩
  change (_, Function.update ms dir (Memory.sink.write true path content (ms dir)).2) = _
  rw [hwrite, Function.update_eq_self]

namespace FileSink

variable (s : FileSink)

theorem refusesLate_sink : s.sink.RefusesLate := by
  intro path content d
  obtain ⟨failure, hcheck⟩ := checkWrite_of_cancelled path
  refine ⟨failure, ?_⟩
  simp only [sink, writeFile, writing, circumstances, hcheck]
  rfl

/-- Where there is something to remove the run is found to be cancelled, and otherwise nothing changes. -/
theorem sweptLate_sink (d : Disk) : s.sink.sweptLate d = d := by
  change ((cleaning s true).run.run ⟨d, []⟩).2.disk = d
  unfold cleaning
  split
  · rfl
  · dsimp only
    rw [run_get_bind]
    split
    · rfl
    · rfl
    · cases d.names (placeOf s.absoluteRoot) with
      | nil => rfl
      | cons name names => rfl

end FileSink

end ClientForge.Output

namespace ClientForge.Render

open ClientForge.Graph ClientForge.Plan ClientForge.Convention

/-! ### Emission -/

section Emission

variable {α β : Type} {r : Renderer} {e : Engine}

/-- All elements have results exactly if each of them has one. -/
theorem exists_run_mapM_iff {f : α → Emission β} {ok : α → Prop}
    (hf : ∀ x before, (∃ y after, (f x).run.run before = (.ok y, after)) ↔ ok x) (xs : List α) (before : List Method) :
    (∃ ys after, (xs.mapM f).run.run before = (.ok ys, after)) ↔ ∀ x ∈ xs, ok x := by
  induction xs generalizing before with
  | nil => exact iff_of_true ⟨[], before, rfl⟩ (List.forall_mem_nil _)
  | cons x xs ih =>
      rw [List.mapM_cons, List.forall_mem_cons]
      constructor
      · rintro ⟨ys, after, h⟩
        obtain ⟨y, middle, hy, h⟩ := run_bind_eq_ok h
        obtain ⟨rest, last, hrest, -⟩ := run_bind_eq_ok h
        exact ⟨(hf x before).mp ⟨y, middle, hy⟩, (ih middle).mp ⟨rest, last, hrest⟩⟩
      · rintro ⟨hx, hxs⟩
        obtain ⟨y, middle, hy⟩ := (hf x before).mpr hx
        obtain ⟨ys, after, hys⟩ := (ih middle).mpr hxs
        refine ⟨y :: ys, after, ?_⟩
        rw [run_bind_of_ok hy, run_bind_of_ok hys]
        rfl

/-- Whether what is made from the page of an element can be formatted. -/
def Formats (r : Renderer) (e : Engine) (d : Definition) : Prop :=
  (r.formatted (fileOf r e d (pageOf r e d).2)).isOk = true

instance (r : Renderer) (e : Engine) (d : Definition) : Decidable (Formats r e d) :=
  inferInstanceAs (Decidable (_ = _))

/-- An element whose script comes to its end has a file exactly if that can be formatted. -/
theorem exists_run_emitElement_iff {d : Definition} (h : (scriptOf r e d).Completes e) (before : List Method) :
    (∃ file after, (emitElement r e d).run.run before = (.ok file, after)) ↔ Formats r e d := by
  obtain ⟨_, page, hpage⟩ := follow_of_completes h (d.home.map (·.id)) (startPage r d)
  have hpage : pageOf r e d = (.ok (), page) := hpage
  unfold Formats
  rw [hpage]
  constructor
  · rintro ⟨file, after, hrun⟩
    obtain ⟨_, hpage', hfile, -⟩ := run_emitElement_eq_ok_iff.mp hrun
    cases hpage.symm.trans hpage'
    rw [hfile]
    rfl
  · intro hok
    cases hfile : r.formatted (fileOf r e d page) with
    | error failure =>
        rw [hfile] at hok
        cases hok
    | ok file => exact ⟨file, _, run_emitElement_eq_ok_iff.mpr ⟨page, hpage, hfile, rfl⟩⟩

/-- A cancelled run emits the files of a graph exactly if there are no classes and all enums can be formatted: enums are
not stopped, and their scripts do not fail. -/
theorem exists_emit_iff_of_cancelled (importPath : String) (format : Formatter) (form : Language) (e : Engine)
    (before : List Method) :
    (∃ files, ((emit (.forLanguage importPath format form) e true).run.run before).1 = .ok files) ↔
      e.context.graph.allClasses = [] ∧
        ∀ x ∈ e.context.graph.allEnums, Formats (.forLanguage importPath format form) e (.ofEnum x) := by
  have henums := exists_run_mapM_iff
    (fun x => exists_run_emitElement_iff (completes_scriptOf_ofEnum importPath format form e x))
    e.context.graph.allEnums before
  rw [← henums]
  unfold emit
  constructor
  · rintro ⟨files, hfiles⟩
    obtain ⟨enums, middle, henums, h⟩ := run_bind_eq_ok (Prod.ext hfiles rfl)
    obtain ⟨classes, _, hclasses, -⟩ := run_bind_eq_ok h
    refine ⟨?_, enums, middle, henums⟩
    cases hall : e.context.graph.allClasses with
    | nil => rfl
    | cons c rest =>
        rw [hall, List.mapM_cons] at hclasses
        cases hclasses
  · rintro ⟨hclasses, enums, middle, henums⟩
    rw [run_bind_of_ok henums, hclasses]
    exact ⟨enums ++ [], rfl⟩

end Emission

end ClientForge.Render

namespace ClientForge.Run

open ClientForge.Graph ClientForge.Plan ClientForge.Convention ClientForge.Output ClientForge.Render

/-! ### Drafting -/

section Drafting

variable {job : Job} {t : Target}

theorem exists_engine_iff : (∃ e, job.engine t = .ok e) ↔ (Language.named t.language).isOk = true := by
  unfold Job.engine
  cases Language.named t.language with
  | error failure =>
      refine iff_of_false ?_ (by simp [Except.isOk, Except.toBool])
      rintro ⟨e, he⟩
      cases he
  | ok l =>
      -- both tables of handlers are complete
      have hhandlers : ∀ form, MethodKind.known.find? (fun kind => (handlersOf form kind).isNone) = none := by
        intro form
        cases form <;> rfl
      refine iff_of_true ⟨⟨⟨job.source.graph, l.policy, job.settings.options⟩, handlersOf (formOf t)⟩, ?_⟩ rfl
      exact bind_eq_ok.mpr ⟨l, rfl, by simp only [Engine.create, hhandlers]⟩

theorem not_assembles_of_allClasses_eq_nil (h : job.source.graph.allClasses = []) (tree : Command.Node) :
    ¬job.Assembles t tree := by
  rintro ⟨e, planned, hengine, hrun⟩
  have hroots : Command.rootBuilders e.context.graph = [] := by
    simp [Command.rootBuilders, graph_of_engine hengine, h]
  unfold Command.assemble at hrun
  simp only [hroots] at hrun
  cases hrun

/-- Whether the texts of all enums can be formatted for a target. -/
def Job.FormatsEnums (job : Job) (t : Target) : Prop :=
  ∀ e, job.engine t = .ok e → ∀ x ∈ job.source.graph.allEnums, Formats (job.renderer t) e (.ofEnum x)

instance (job : Job) (t : Target) : Decidable (job.FormatsEnums t) :=
  match h : job.engine t with
  | .ok e =>
    decidable_of_iff (∀ x ∈ job.source.graph.allEnums, Formats (job.renderer t) e (.ofEnum x))
      ⟨fun hall e' he' => by
        cases h.symm.trans he'
        exact hall, fun hall => hall e h⟩
  | .error _ => isTrue fun e he => by cases h.symm.trans he

/-- Only in Go is there a formatter to refuse a text. -/
theorem formatsEnums_of_form_ne_go (h : formOf t ≠ .go) : job.FormatsEnums t := by
  intro e _ x _
  unfold Formats Job.renderer
  cases hform : formOf t with
  | go => exact absurd hform h
  | _ => rfl

/-- A target of a cancelled run is drafted if its language is known, there are no classes, the texts of all enums can be
formatted, and it is not one for commands, which would miss their root. -/
theorem exists_drafts_iff_of_cancelled (hcancelled : job.cancelled = true) :
    (∃ files, job.Drafts t files) ↔
      (Language.named t.language).isOk = true ∧ formOf t ≠ .cli ∧ job.source.graph.allClasses = [] ∧
        job.FormatsEnums t := by
  have hemits : ∀ e, (∃ files, job.Emits t e files) ↔ e.context.graph.allClasses = [] ∧
      ∀ x ∈ e.context.graph.allEnums, Formats (job.renderer t) e (.ofEnum x) := by
    intro e
    unfold Job.Emits
    rw [hcancelled]
    exact exists_emit_iff_of_cancelled _ _ _ e []
  constructor
  · rintro ⟨files, e, commands, hengine, hcommands, hemit⟩
    obtain ⟨hclasses, henums⟩ := (hemits e).mp ⟨files, hemit⟩
    rw [graph_of_engine hengine] at hclasses henums
    refine ⟨exists_engine_iff.mp ⟨e, hengine⟩, fun hcli => ?_, hclasses, fun e' he' => ?_⟩
    · obtain ⟨tree, htree, -⟩ := (commands_of_commandsOf hengine hcommands).1 hcli
      exact not_assembles_of_allClasses_eq_nil hclasses tree htree
    · cases hengine.symm.trans he'
      exact henums
  · rintro ⟨hnamed, hcli, hclasses, henums⟩
    obtain ⟨e, hengine⟩ := exists_engine_iff.mpr hnamed
    obtain ⟨files, hemit⟩ := (hemits e).mpr (graph_of_engine hengine ▸ ⟨hclasses, henums e hengine⟩)
    exact ⟨files, e, 0, hengine, by simp [commandsOf, hasCommands, hcli], hemit⟩

/-- Whether a target comes as far as cleaning its sink in a cancelled run. -/
def Job.SweepsLate (job : Job) (t : Target) : Prop :=
  job.settings.cleanOutput = true ∧
    (Language.named t.language).isOk = true ∧ formOf t ≠ .cli ∧ job.source.graph.allClasses = [] ∧ job.FormatsEnums t

instance (job : Job) (t : Target) : Decidable (job.SweepsLate t) := inferInstanceAs (Decidable (_ ∧ _))

end Drafting

/-! ### Targets -/

section Targets

variable {σ : Type} {s : Sink σ} {job : Job}

/-- Of a cancelled run, the first file that is to be written is refused, and nothing has changed by then. -/
theorem performAll_writes_of_refusesLate (hs : s.RefusesLate) {files : List (String × String)} (hne : files ≠ [])
    (state : σ) :
    ∃ failure, performAll s true (files.map fun f => .write f.1 f.2) state = (.error failure, state) := by
  cases files with
  | nil => exact absurd rfl hne
  | cons f files =>
      obtain ⟨failure, hwrite⟩ := hs f.1 f.2 state
      exact ⟨failure, by simp [performAll, Action.perform, hwrite]⟩

/-- The first thing that fails is cleaning, or the write after it. -/
theorem performAll_actions_of_refusesLate (hs : s.RefusesLate) (hwrites : job.writes = true) (t : Target)
    (files : List SourceFile) (state : σ) :
    ∃ failure, performAll s true (job.actions t files) state =
      (.error failure, if job.settings.cleanOutput then s.sweptLate state else state) := by
  have hfiles := performAll_writes_of_refusesLate hs (show written job t files ≠ [] by simp [written])
  rw [actions_eq_writes hwrites]
  cases job.settings.cleanOutput with
  | false => exact hfiles state
  | true =>
      cases hclean : s.clean with
      | none => simpa [performAll, Action.perform, Sink.sweptLate, hclean] using hfiles state
      | some discard =>
          rcases hdiscard : discard true state with ⟨_ | _, swept⟩
          · simp only [if_true, List.singleton_append, performAll, Action.perform, Sink.sweptLate, hclean, hdiscard]
            exact ⟨_, rfl⟩
          · simp only [if_true, List.singleton_append, performAll, Action.perform, Sink.sweptLate, hclean, hdiscard]
            exact hfiles swept

/-- In a cancelled run a target fails in any case, and its sink is at most cleaned. -/
theorem runTarget_of_cancelled (hs : s.RefusesLate) (hcancelled : job.cancelled = true) (hwrites : job.writes = true)
    (t : Target) (state : σ) :
    (job.runTarget s t state).1.result.failure ≠ none ∧
      (job.runTarget s t state).2 = if job.SweepsLate t then s.sweptLate state else state := by
  have hdrafted := exists_drafts_iff_of_cancelled (t := t) hcancelled
  rcases cannotDraft_or_drafts job t with ⟨failure, hfailure⟩ | ⟨files, hdrafts⟩
  · obtain ⟨hfailed, hstate, -⟩ : (job.runTarget s t state).1.result.failure = some failure ∧
        (job.runTarget s t state).2 = state ∧ job.calls s t state = [] := runTarget_of_cannotDraft hfailure
    have hnone : ¬∃ files, job.Drafts t files := by
      rintro ⟨files, hdrafts⟩
      cases (prepare_of_cannotDraft hfailure).1.symm.trans (prepare_of_drafts hdrafts).1
    refine ⟨by simp [hfailed], ?_⟩
    rw [hstate, if_neg fun hsweeps => hnone (hdrafted.mpr hsweeps.2)]
  · obtain ⟨outcome, hperformed, hfailed, -⟩ := runTarget_of_drafts hdrafts s state
    obtain ⟨failure, hactions⟩ := performAll_actions_of_refusesLate hs hwrites t files state
    rw [hcancelled, hactions] at hperformed
    obtain ⟨rfl, hstate⟩ := Prod.mk.inj hperformed
    refine ⟨by simp [hfailed, failureOf], hstate.symm.trans ?_⟩
    simp [Job.SweepsLate, hdrafted.mp ⟨files, hdrafts⟩]

end Targets

/-! ### Runs -/

section Runs

variable {σ : Type} {sinks : (directory : String) → Sink σ} {job : Job}

/-- Where sinks take no files of cancelled runs, no target succeeds, if only for its lock file. -/
theorem runTargets_of_cancelled (hs : ∀ dir, (sinks dir).RefusesLate) (hcancelled : job.cancelled = true)
    (hwrites : job.writes = true) (ts : List Target) (state : σ) :
    ∀ r ∈ (job.runTargets sinks ts state).1, r.result.failure ≠ none := by
  induction ts generalizing state with
  | nil => simp [Job.runTargets]
  | cons t ts ih =>
      refine List.forall_mem_cons.mpr ⟨?_, ih _⟩
      exact (runTarget_of_cancelled (hs t.directory) hcancelled hwrites t state).1

/-- Where cleaning changes nothing either, all stays as it was. -/
theorem runTargets_keeps (hs : ∀ dir, (sinks dir).RefusesLate)
    (hswept : ∀ dir state, (sinks dir).sweptLate state = state) (hcancelled : job.cancelled = true)
    (hwrites : job.writes = true) (ts : List Target) (state : σ) :
    (job.runTargets sinks ts state).2 = state := by
  induction ts with
  | nil => rfl
  | cons t ts ih =>
      have hfirst := (runTarget_of_cancelled (hs t.directory) hcancelled hwrites t state).2
      rw [hswept, ite_self] at hfirst
      change (job.runTargets sinks ts (job.runTarget (sinks t.directory) t state).2).2 = state
      rw [hfirst, ih]

/-- Whether a run ends as a cancelled one: it fails for that reason, and all of its targets fail. -/
structure Generation.IsCancelled (g : Generation) (job : Job) : Prop where
  failure : g.failure = some (.cause .cancelled)
  languages : g.report.targets.map (·.language) = job.targets.map (·.language)
  failed : ∀ r ∈ g.report.targets, r.failure ≠ none

/-- The report of a cancelled run, whatever its sinks hold. -/
theorem isCancelled_run (hs : ∀ dir, (sinks dir).RefusesLate) (hcancelled : job.cancelled = true)
    (hwrites : job.writes = true) (state : σ) : (job.run sinks state).1.IsCancelled job where
  failure := if_pos hcancelled
  languages := by
    change ((job.runTargets sinks job.targets state).1.map (·.result)).map (·.language) = _
    rw [List.map_map]
    exact languages_runTargets job.targets state
  failed := List.forall_mem_map.mpr (runTargets_of_cancelled hs hcancelled hwrites job.targets state)

/-- A memory is either emptied or left as it was, and which of the two does not depend on what is in it. -/
theorem memory_of_cancelled (hcancelled : job.cancelled = true) (hwrites : job.writes = true) {t : Target}
    (ht : t ∈ job.targets) (ms : Memories) :
    (job.run Memories.sink ms).2 t.directory = if job.SweepsLate t then {} else ms t.directory := by
  obtain ⟨i, hi⟩ := List.mem_iff_getElem?.mp ht
  have hrun : (job.run Memories.sink ms).2 t.directory = _ :=
    (runTargets_spec job (nodup_directories job) hi ms).2
  rw [hrun, (runTarget_of_cancelled Memory.refusesLate_sink hcancelled hwrites t (ms t.directory)).2]
  rfl

/-- Memories of other directories are none of a run's business. -/
theorem memory_of_no_target {dir : String} (h : dir ∉ job.targets.map (·.directory)) (ms : Memories) :
    (job.run Memories.sink ms).2 dir = ms dir := by
  rw [Memories.sink_eq]
  exact runTargets_sink_other (fun _ => Memory.sink) job h ms

end Runs

/-- A run on a graph that follows the rules ends as a cancelled one if it was cancelled before it began. Below any roots
of a disk everything is as it was, also if the output is to be cleaned. A memory is emptied if it is to be cleaned, the
graph has no classes, the target is in a known language and not for commands, and the texts of all enums can be
formatted, as in every language but Go they can. So all memories are as they were exactly if those of such targets were
empty. -/
theorem cancelled_run_keeps_outputs_iff {settings : Settings} {source : Document.Source} {format : Formatter}
    {version : String} {job : Job}
    (h : Job.create (some settings) (some source) format version true true = .ok job) :
    (∀ (sinks : String → FileSink) (d : Disk),
      (job.run (fun dir => (sinks dir).sink) d).1.IsCancelled job ∧ (job.run (fun dir => (sinks dir).sink) d).2 = d) ∧
    ∀ ms : Memories,
      (job.run Memories.sink ms).1.IsCancelled job ∧
      (∀ t ∈ job.targets,
        (job.run Memories.sink ms).2 t.directory = if job.SweepsLate t then {} else ms t.directory) ∧
      (∀ t, formOf t ≠ .go → job.FormatsEnums t) ∧
      ((job.run Memories.sink ms).2 = ms ↔ ∀ t ∈ job.targets, job.SweepsLate t → ms t.directory = {}) := by
  obtain ⟨hcancelled, hwrites⟩ : job.cancelled = true ∧ job.writes = true := by
    unfold Job.create at h
    dsimp only at h
    split at h
    · cases h
      exact ⟨rfl, rfl⟩
    · cases h
  refine ⟨fun sinks d => ⟨?_, ?_⟩, fun ms => ⟨?_, fun t ht => memory_of_cancelled hcancelled hwrites ht ms,
    fun t => formatsEnums_of_form_ne_go, ?_⟩⟩
  · exact isCancelled_run (fun dir => (sinks dir).refusesLate_sink) hcancelled hwrites d
  · exact runTargets_keeps (fun dir => (sinks dir).refusesLate_sink) (fun dir => (sinks dir).sweptLate_sink) hcancelled
      hwrites job.targets d
  · exact isCancelled_run Memories.refusesLate_sink hcancelled hwrites ms
  · constructor
    · intro hkept t ht hsweeps
      have hmemory := memory_of_cancelled hcancelled hwrites ht ms
      rw [hkept, if_pos hsweeps] at hmemory
      exact hmemory
    · intro hempty
      funext dir
      by_cases hdir : dir ∈ job.targets.map (·.directory)
      · obtain ⟨t, ht, rfl⟩ := List.mem_map.mp hdir
        rw [memory_of_cancelled hcancelled hwrites ht]
        split
        · next hsweeps => exact (hempty t ht hsweeps).symm
        · rfl
      · exact memory_of_no_target hdir ms

namespace CancelledSample

/-- A document without classes. -/
def bare : Document.Source :=
  { graph :=
      { root := { id := ⟨0⟩, name := "Sdk", enums := [⟨0⟩] }, classes := #[]
        enums := #[{ id := ⟨0⟩, name := "3D", home := some ⟨⟨0⟩, "Sdk"⟩ }] }
    hash := "" }

/-- A document with two classes. -/
def filled : Document.Source := (ItemSample.job "UserPart").source

/-- A formatter that can read none of the files, since all of them have something that is called `3D`. -/
def strict : Formatter := fun _ _ => .error "expected 'IDENT', found 3"

def settings (language : String) : Settings := { language, cleanOutput := true }

def job (language : String) (source : Document.Source) : Job :=
  { settings := settings language, source, format := strict, cancelled := true }

def target (language : String) : Target := ⟨language, ""⟩

/-- Memories with a file of an earlier run. -/
def stale : Memories := fun _ => HolderSample.stale

/-- A disk with such a file in the output directory. -/
def disk : Disk := ⟨[(["out"], .directory), (["out", "stale.ts"], .file "" 0o644)]⟩

end CancelledSample

open CancelledSample in
/-- Without classes the file of an earlier run is gone from memory and still there on a disk. With classes it stays in
memory too, and so it does where the only enum cannot be formatted. -/
theorem bare_memory_swept_and_filled_memory_kept :
    (Job.create (some (settings "typescript")) (some bare) strict "" true true = .ok (job "typescript" bare) ∧
      ((job "typescript" bare).run Memories.sink stale).2 "" = {} ∧
      ((job "typescript" bare).run Memories.sink stale).2 ≠ stale ∧
      ((job "typescript" bare).run (fun _ => FileSink.sink { root := "/out" }) disk).2 = disk) ∧
    (Job.create (some (settings "typescript")) (some filled) strict "" true true = .ok (job "typescript" filled) ∧
      ((job "typescript" filled).run Memories.sink stale).1.IsCancelled (job "typescript" filled) ∧
      ((job "typescript" filled).run Memories.sink stale).2 = stale) ∧
    Job.create (some (settings "go")) (some bare) strict "" true true = .ok (job "go" bare) ∧
      ((job "go" bare).run Memories.sink stale).2 = stale := by
  have hcreate (language : String) (source : Document.Source) (h : source.graph.violations = []) :
      Job.create (some (settings language)) (some source) strict "" true true = .ok (job language source) := by
    unfold Job.create
    simp only [h]
    rfl
  have hbare (language : String) := hcreate language bare rfl
  have hfilled := hcreate "typescript" filled rfl
  have hsweeps : (job "typescript" bare).SweepsLate (target "typescript") := by decide +kernel
  have hkeeps : ¬(job "typescript" filled).SweepsLate (target "typescript") := by decide +kernel
  have hrefused : ¬(job "go" bare).SweepsLate (target "go") := by decide +kernel
  obtain ⟨hdisk, hmemories⟩ := cancelled_run_keeps_outputs_iff (hbare "typescript")
  obtain ⟨-, hswept, -, hsame⟩ := hmemories stale
  obtain ⟨hcancelled, -, -, hkept⟩ := (cancelled_run_keeps_outputs_iff hfilled).2 stale
  obtain ⟨-, -, -, hkept'⟩ := (cancelled_run_keeps_outputs_iff (hbare "go")).2 stale
  have htarget (language : String) (source : Document.Source) : (job language source).targets = [target language] := by
    simp [Job.targets, targetsOf, Settings.targets, job, settings, target]
  refine ⟨⟨hbare _, ?_, ?_, (hdisk (fun _ => { root := "/out" }) disk).2⟩, ⟨hfilled, hcancelled, hkept.mpr ?_⟩,
    hbare _, hkept'.mpr ?_⟩
  · exact (hswept (target "typescript") (by simp [htarget])).trans (if_pos hsweeps)
  · rw [ne_eq, hsame]
    intro hempty
    exact absurd (hempty (target "typescript") (by simp [htarget]) hsweeps) (by decide)
  · simp [htarget, hkeeps]
  · simp [htarget, hrefused]

end ClientForge.Run
