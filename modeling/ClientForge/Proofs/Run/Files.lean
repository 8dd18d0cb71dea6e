import ClientForge.Proofs.Failure
import ClientForge.Proofs.Output.Memory
import ClientForge.Proofs.Render.Following
import ClientForge.Proofs.Render.Layout
import ClientForge.Proofs.Run.Separate

/-!
# The files of a run

A run writes the files of each target into a memory of its own, and last the lock file. Paths end in the
extension of the language, so no file is taken for the lock file, but two elements can end up at the same spot.

* **`runTargets_spec`.** What a target leaves in its memory is what it would leave there on its own.
* **`files_kept_apart_iff`.** A target that succeeds leaves a file for each of its units and the lock file exactly
  if all of its elements end up at different spots.
-/

namespace ClientForge.Run

open ClientForge.Graph ClientForge.Plan ClientForge.Convention ClientForge.Output

/-! ### Actions -/

section Actions

variable {cancelled : Bool} {m m' : Memory}

/-- Actions that all succeed can be cut in two at any point. -/
theorem performAll_append {σ : Type} {s : Sink σ} {xs ys : List Action} {state state' : σ}
    (h : performAll s cancelled (xs ++ ys) state = (.ok (), state')) :
    ∃ middle, performAll s cancelled xs state = (.ok (), middle) ∧
      performAll s cancelled ys middle = (.ok (), state') := by
  induction xs generalizing state with
  | nil => exact ⟨state, rfl, h⟩
  | cons a xs ih =>
      simp only [List.cons_append, performAll] at h ⊢
      split at h
      · exact ih h
      · cases h

/-- Files that are all taken are in the memory, later ones in the place of earlier ones. -/
theorem performAll_writes {files : List (String × String)}
    (h : performAll Memory.sink cancelled (files.map fun f => .write f.1 f.2) m = (.ok (), m')) :
    m' = m.putAll files := by
  induction files generalizing m with
  | nil =>
      cases h
      rfl
  | cons f files ih =>
      have hwrite : (Action.write f.1 f.2).perform Memory.sink cancelled m =
          Memory.write cancelled f.1 f.2 m := rfl
      simp only [List.map_cons, performAll, hwrite, Memory.write] at h
      cases hcheck : checkWrite cancelled f.1 with
      | ok _ =>
          simp only [hcheck] at h
          exact ih h
      | error failure =>
          simp only [hcheck] at h
          cases h

end Actions

/-- What a target leaves in its memory, and its result, are what they would be on its own. -/
theorem runTargets_spec (job : Job) {ts : List Target} (hdirs : (ts.map (·.directory)).Nodup) {i : Nat} {t : Target}
    (ht : ts[i]? = some t) (ms : Memories) :
    (job.runTargets Memories.sink ts ms).1[i]? = some (job.runTarget Memory.sink t (ms t.directory)).1 ∧
      (job.runTargets Memories.sink ts ms).2 t.directory = (job.runTarget Memory.sink t (ms t.directory)).2 := by
  rw [Memories.sink_eq]
  exact runTargets_sink (fun _ => Memory.sink) job hdirs ht ms

end ClientForge.Run

namespace ClientForge.Render

open ClientForge.Graph ClientForge.Plan ClientForge.Convention

/-! ### Emission -/

/-- The elements that get files, in the order of the files. -/
def emitted (g : Graph) : List Definition := g.allEnums.map .ofEnum ++ g.allClasses.map .ofClass

section Emission

variable {r : Renderer} {e : Engine} {before after : List Method}

/-- The path of a file comes from its element alone. -/
theorem path_of_emitElement {d : Definition} {file : SourceFile}
    (h : (emitElement r e d).run.run before = (.ok file, after)) :
    file.path = unitPath e.context.policy e.context.graph.root.ref d := by
  obtain ⟨page, -, hfile, -⟩ := run_emitElement_eq_ok_iff.mp h
  exact (formatted_eq_ok_iff.mp hfile).2

/-- That is so for classes, which are not begun once a run is cancelled. -/
theorem path_of_emitClass {cancelled : Bool} {c : ClassDef} {file : SourceFile}
    (h : (emitClass r e cancelled c).run.run before = (.ok file, after)) :
    file.path = unitPath e.context.policy e.context.graph.root.ref (.ofClass c) := by
  unfold emitClass at h
  split at h
  · cases h
  · exact path_of_emitElement h

/-- Where each file has the path of its element, so have all of them, in order. -/
theorem paths_of_mapM {α : Type} {f : α → Emission SourceFile} {path : α → String}
    (hf : ∀ x {before after file}, (f x).run.run before = (.ok file, after) → file.path = path x)
    {xs : List α} {files : List SourceFile} (h : (xs.mapM f).run.run before = (.ok files, after)) :
    files.map (·.path) = xs.map path := by
  induction xs generalizing before files with
  | nil =>
      cases h
      rfl
  | cons x xs ih =>
      rw [List.mapM_cons] at h
      obtain ⟨file, _, hfile, h⟩ := run_bind_eq_ok h
      obtain ⟨rest, _, hrest, h⟩ := run_bind_eq_ok h
      cases h
      rw [List.map_cons, List.map_cons, hf x hfile, ih hrest]

/-- The files of a target have the paths of their elements. -/
theorem paths_of_emit {cancelled : Bool} {files : List SourceFile}
    (h : (emit r e cancelled).run.run before = (.ok files, after)) :
    files.map (·.path) = (emitted e.context.graph).map (unitPath e.context.policy e.context.graph.root.ref) := by
  unfold emit at h
  obtain ⟨enums, _, henums, h⟩ := run_bind_eq_ok h
  obtain ⟨classes, _, hclasses, h⟩ := run_bind_eq_ok h
  cases h
  rw [List.map_append, paths_of_mapM (fun _ _ _ _ => path_of_emitElement) henums,
    paths_of_mapM (fun _ _ _ _ => path_of_emitClass) hclasses]
  simp [emitted, Function.comp_def]

end Emission

end ClientForge.Render

namespace ClientForge.Run

open ClientForge.Graph ClientForge.Plan ClientForge.Convention ClientForge.Output ClientForge.Render

/-! ### The files of a target -/

section Files

variable {job : Job} {t : Target} {e : Engine} {files : List SourceFile}

/-- Whether these are the files that a target emits with an engine. -/
def Job.Emits (job : Job) (t : Target) (e : Engine) (files : List SourceFile) : Prop :=
  ((emit (job.renderer t) e job.cancelled).run.run []).1 = .ok files

/-- The files of a target by path, with the lock file behind them. -/
def written (job : Job) (t : Target) (files : List SourceFile) : List (String × String) :=
  files.map (fun f => (f.path, f.content)) ++ [(Lock.path, (job.lock t.language).text)]

/-- Where the files of all elements end up. -/
def spots (e : Engine) : List Spot :=
  (emitted e.context.graph).map (spot e.context.policy e.context.graph.root.ref)

/-- The engine of a target has the policy of a language, the graph of the document and the options of the settings. -/
theorem exists_policy_of_engine (h : job.engine t = .ok e) :
    ∃ l : Language, e = ⟨⟨job.source.graph, l.policy, job.settings.options⟩, handlersOf (formOf t)⟩ := by
  unfold Job.engine at h
  obtain ⟨l, -, h⟩ := bind_eq_ok.mp h
  unfold Engine.create at h
  dsimp only at h
  split at h
  · cases h
  · cases h
    exact ⟨l, rfl⟩

theorem policy_of_engine (h : job.engine t = .ok e) : ∃ l : Language, e.context.policy = l.policy := by
  obtain ⟨l, rfl⟩ := exists_policy_of_engine h
  exact ⟨l, rfl⟩

theorem graph_of_engine (h : job.engine t = .ok e) : e.context.graph = job.source.graph := by
  obtain ⟨l, rfl⟩ := exists_policy_of_engine h
  rfl

/-- The paths of the files of a target are those of the emitted elements. -/
theorem Job.Emits.paths (h : job.Emits t e files) :
    files.map (·.path) = (emitted e.context.graph).map (unitPath e.context.policy e.context.graph.root.ref) :=
  paths_of_emit (Prod.ext h rfl)

/-- No file replaces another exactly if all elements end up at different spots. -/
theorem nodup_paths_iff (hpolicy : ∃ l : Language, e.context.policy = l.policy) (hemit : job.Emits t e files) :
    (files.map (·.path)).Nodup ↔ (spots e).Nodup := by
  obtain ⟨l, hl⟩ := hpolicy
  rw [hemit.paths, spots, hl]
  simp only [List.Nodup, List.pairwise_map, ne_eq, unitPath_eq_iff]

/-- No element has the path of the lock file. -/
theorem lock_notMem_paths (hpolicy : ∃ l : Language, e.context.policy = l.policy) (hemit : job.Emits t e files) :
    Lock.path ∉ files.map (·.path) := by
  obtain ⟨l, hl⟩ := hpolicy
  rw [hemit.paths, hl]
  intro hmem
  obtain ⟨d, -, hd⟩ := List.mem_map.mp hmem
  have hsuffix := extension_suffix_unitPath l e.context.graph.root.ref d
  rw [hd] at hsuffix
  cases l <;> exact absurd hsuffix (by decide +kernel)

/-- All that is written has paths of its own exactly if the elements end up at different spots: none of them takes
the place of the lock file. -/
theorem nodup_written_iff (hpolicy : ∃ l : Language, e.context.policy = l.policy) (hemit : job.Emits t e files) :
    ((written job t files).map (·.1)).Nodup ↔ (spots e).Nodup := by
  have hwritten : (written job t files).map (·.1) = files.map (·.path) ++ [Lock.path] := by
    simp [written, Function.comp_def]
  rw [← nodup_paths_iff hpolicy hemit, hwritten, ← List.concat_eq_append, List.nodup_concat]
  exact and_iff_right (lock_notMem_paths hpolicy hemit)

/-- Apart from cleaning there is nothing but writing to be done. -/
theorem actions_eq_writes (hwrites : job.writes = true) (t : Target) (files : List SourceFile) :
    job.actions t files =
      (if job.settings.cleanOutput then [.clean] else []) ++
        (written job t files).map fun f => .write f.1 f.2 := by
  simp [Job.actions, hwrites, written, Function.comp_def]

/-- A memory that took everything, whether or not it was cleaned first, holds what was written. -/
theorem performAll_actions {cancelled : Bool} {m : Memory} (hwrites : job.writes = true)
    (h : performAll Memory.sink cancelled (job.actions t files) {} = (.ok (), m)) :
    m = Memory.putAll {} (written job t files) := by
  rw [actions_eq_writes hwrites] at h
  obtain ⟨start, hstart, h⟩ := performAll_append h
  -- what is clean stays clean
  have hempty : start = {} := by
    split at hstart <;> cases hstart <;> rfl
  rw [hempty] at h
  exact performAll_writes h

/-- A draft has all emitted files, or it fails before they are emitted. -/
theorem files_of_draft (hemit : job.Emits t e files) :
    (job.draft t e).files = .ok files ∨ ∃ failure, (job.draft t e).files = .error failure := by
  unfold Job.draft
  dsimp only
  split
  · next failure _ => exact .inr ⟨failure, rfl⟩
  · exact .inl hemit

/-- A target that has not failed counts the emitted files, and writes them. -/
theorem prepare_of_emits (hengine : job.engine t = .ok e) (hemit : job.Emits t e files)
    (hok : (job.prepare t).result.failure = none) :
    (job.prepare t).result.units = files.length ∧ (job.prepare t).actions = job.actions t files := by
  unfold Job.prepare at hok ⊢
  simp only [hengine] at hok ⊢
  rcases files_of_draft hemit with hfiles | ⟨failure, hfiles⟩
  · simp only [hfiles, and_self]
  · simp only [hfiles] at hok
    cases hok

/-- A target that succeeds counts the emitted files, and its memory holds what was written. -/
theorem runTarget_of_emits (hwrites : job.writes = true) (hengine : job.engine t = .ok e)
    (hemit : job.Emits t e files) (hok : (job.runTarget Memory.sink t {}).1.result.failure = none) :
    (job.runTarget Memory.sink t {}).1.result.units = files.length ∧
      (job.runTarget Memory.sink t {}).2 = Memory.putAll {} (written job t files) := by
  unfold Job.runTarget at hok ⊢
  simp only [Prepared.conclude, Option.or_eq_none_iff] at hok ⊢
  obtain ⟨hprepared, houtcome⟩ := hok
  obtain ⟨hunits, hactions⟩ := prepare_of_emits hengine hemit hprepared
  refine ⟨hunits, performAll_actions hwrites (Prod.ext ?_ (by rw [hactions]))⟩
  rw [hactions] at houtcome
  cases hperformed : (performAll Memory.sink job.cancelled (job.actions t files) {}).1 with
  | ok _ => rfl
  | error failure =>
      rw [hperformed] at houtcome
      cases houtcome

end Files

/-! ### The files of a run -/

section Runs

variable {job : Job} {t : Target} {e : Engine} {files : List SourceFile}

/-- The result of a target, by its number, in a run that writes into empty memories. -/
def Job.result? (job : Job) (i : Nat) : Option TargetResult :=
  (job.run Memories.sink fun _ => {}).1.report.targets[i]?

/-- What such a run leaves in the memory of a target. -/
def Job.memory (job : Job) (t : Target) : Memory := (job.run Memories.sink fun _ => {}).2 t.directory

/-- In a run into empty memories, every target has the result and the memory that it has on its own. -/
theorem run_spec {i : Nat} (ht : job.targets[i]? = some t) :
    job.result? i = some (job.runTarget Memory.sink t {}).1.result ∧
      job.memory t = (job.runTarget Memory.sink t {}).2 := by
  obtain ⟨hrun, hmemory⟩ := runTargets_spec job (nodup_directories job) ht fun _ => {}
  refine ⟨?_, hmemory⟩
  change ((job.runTargets Memories.sink job.targets fun _ => {}).1.map (·.result))[i]? = _
  rw [List.getElem?_map, hrun]
  rfl

/-- Whatever a target emits, the paths are distinct exactly if all elements end up at different spots. And where
a run writes into empty memory and the target succeeds, that is exactly when there is a file for each unit and
the lock file; each unit then stands under its path. The lock file is always there. -/
theorem files_kept_apart_iff {i : Nat} (ht : job.targets[i]? = some t) (hengine : job.engine t = .ok e)
    (hemit : job.Emits t e files) :
    ((files.map (·.path)).Nodup ↔ (spots e).Nodup) ∧
      ∀ r, job.result? i = some r → job.writes = true → r.failure = none →
        r.units = files.length ∧
        ((job.memory t).files.length = r.units + 1 ↔ (spots e).Nodup) ∧
        ((spots e).Nodup → ∀ f ∈ files, (job.memory t).get? f.path = some f.content) ∧
        (job.memory t).get? Lock.path = some (job.lock t.language).text := by
  have hpolicy := policy_of_engine hengine
  refine ⟨nodup_paths_iff hpolicy hemit, fun r hr hwrites hok => ?_⟩
  obtain ⟨hresult, hmemory⟩ := run_spec ht
  obtain rfl := Option.some.inj (hresult.symm.trans hr)
  obtain ⟨hunits, hfiles⟩ := runTarget_of_emits hwrites hengine hemit hok
  rw [hmemory, hfiles, hunits, ← nodup_written_iff hpolicy hemit]
  refine ⟨rfl, ?_, fun hnodup f hf => ?_, ?_⟩
  · rw [← Memory.length_putAll_iff]
    simp [written]
  · exact Memory.get?_putAll hnodup (List.mem_append_left _ (List.mem_map_of_mem hf))
  · simp [written, Memory.putAll, Memory.get?_put]

end Runs

namespace ItemSample

/-- A document with two classes. -/
def entry (second : String) : Document.NamespaceEntry :=
  { name := "Sdk", classes := [{ name := "UserItem" }, { name := second }] }

def graph (second : String) : Graph :=
  { root := { id := ⟨0⟩, name := "Sdk", classes := [⟨0⟩, ⟨1⟩] }
    classes :=
      #[{ id := ⟨0⟩, name := "UserItem", home := some ⟨⟨0⟩, "Sdk"⟩ },
        { id := ⟨1⟩, name := second, home := some ⟨⟨0⟩, "Sdk"⟩ }]
    enums := #[] }

def job (second : String) : Job :=
  { settings := { language := "csharp" }, source := { graph := graph second, hash := "" } }

def target : Target := ⟨"csharp", ""⟩

def engine (second : String) : Engine :=
  { context := ⟨graph second, csharpPolicy, (job second).settings.options⟩, handlers := defaultHandlers }

theorem engine_eq (second : String) : (job second).engine target = .ok (engine second) := by
  rfl

def files (second : String) : List SourceFile :=
  ((emit ((job second).renderer target) (engine second) (job second).cancelled).run.run []).1.toOption.getD []

end ItemSample

open ItemSample in
/-- `UserItem` and `UserPart` have files of their own. `UserItem` and `user_item` do not, in a graph that is read
from a document and breaks no rule: two units are reported, and one of them is lost. -/
theorem user_part_has_its_file_and_user_item_does_not :
    (∃ r, (job "UserPart").result? 0 = some r ∧ r.failure = none ∧
      ((files "UserPart").map (·.path)).Nodup ∧ ((job "UserPart").memory target).files.length = r.units + 1) ∧
    Document.graphOf (entry "user_item") = .ok (graph "user_item") ∧ (graph "user_item").violations = [] ∧
    ∃ r, (job "user_item").result? 0 = some r ∧ r.failure = none ∧
      ¬((files "user_item").map (·.path)).Nodup ∧
        ((job "user_item").memory target).files.length ≠ r.units + 1 := by
  have hresult (second : String) (h : ((job second).result? 0).any (·.failure.isNone) = true) :
      ∃ r, (job second).result? 0 = some r ∧ r.failure = none := by
    obtain ⟨r, hr, hnone⟩ := (Option.any_eq_true _ _).mp h
    exact ⟨r, hr, Option.isNone_iff_eq_none.mp hnone⟩
  obtain ⟨part, hpart, hpartok⟩ := hresult "UserPart" (by decide +kernel)
  obtain ⟨item, hitem, hitemok⟩ := hresult "user_item" (by decide +kernel)
  have htarget (second : String) : (job second).targets[0]? = some target := rfl
  have hpartemit : (job "UserPart").Emits target (engine "UserPart") (files "UserPart") := rfl
  have hitememit : (job "user_item").Emits target (engine "user_item") (files "user_item") := rfl
  obtain ⟨hpartpaths, hpartfiles⟩ := files_kept_apart_iff (htarget _) (engine_eq _) hpartemit
  obtain ⟨hitempaths, hitemfiles⟩ := files_kept_apart_iff (htarget _) (engine_eq _) hitememit
  have happart : (spots (engine "UserPart")).Nodup := by decide +kernel
  have hmeet : ¬(spots (engine "user_item")).Nodup := by decide +kernel
  exact ⟨⟨part, hpart, hpartok, hpartpaths.mpr happart, (hpartfiles part hpart rfl hpartok).2.1.mpr happart⟩,
    rfl, rfl, item, hitem, hitemok, mt hitempaths.mp hmeet,
    mt (hitemfiles item hitem rfl hitemok).2.1.mp hmeet⟩

end ClientForge.Run
