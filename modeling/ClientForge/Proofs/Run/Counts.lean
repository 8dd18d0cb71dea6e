import ClientForge.Proofs.Command.Planned
import ClientForge.Proofs.Document.Tables
import ClientForge.Proofs.Graph.Placed
import ClientForge.Proofs.Render.Following
import ClientForge.Proofs.Render.Planned
import ClientForge.Proofs.Run.Consistency
import ClientForge.Proofs.Run.Metrics

/-!
# What a run counts

The result of a target tells how many files, methods and commands it has. Bodies are planned on two occasions, for
the command tree and for the files, and some of them more than once; a method still counts once, and everything the
tree needs is in the files as well.

* **`planned_emit`.** Emission plans the methods that the files have, class by class.
* **`countedMethods_perm`.** However often methods are planned, each counts once.
* **`prepare_counts`.** The counts of a target that can be drafted.
* **`counts_exact`.** The counts of a target that succeeds, and the counters of its language.
-/

namespace ClientForge.Render

open ClientForge.Graph ClientForge.Plan ClientForge.Convention

/-! ### Emission -/

section Emission

variable {importPath : String} {format : Formatter} {form : Language} {e : Engine} {before after : List Method}

/-- Whether a computation plans some methods, one after the other, and each of them has a body. -/
def Planned (e : Engine) (before after ms : List Method) : Prop :=
  after = ms.reverse ++ before ∧ ∀ m ∈ ms, (e.synthesize m).isOk = true

/-- The file of an element plans the methods that are emitted for it. -/
theorem planned_emitElement {d : Definition} {file : SourceFile}
    (h : (emitElement (.forLanguage importPath format form) e d).run.run before = (.ok file, after)) :
    Planned e before after (methodsOf (hasCommands form) d) := by
  obtain ⟨page, hpage, -, rfl⟩ := run_emitElement_eq_ok_iff.mp h
  obtain ⟨hplanned, hok⟩ := planned_pageOf hpage
  exact ⟨by rw [hplanned], hok⟩

/-- Files in a row plan the methods of each, in order. -/
theorem planned_mapM {α β : Type} {f : α → Emission β} {planned : α → List Method}
    (hf : ∀ x {before after b}, (f x).run.run before = (.ok b, after) → Planned e before after (planned x))
    {xs : List α} {ys : List β} (h : (xs.mapM f).run.run before = (.ok ys, after)) :
    Planned e before after (xs.flatMap planned) := by
  induction xs generalizing before ys with
  | nil =>
      cases h
      exact ⟨rfl, by simp⟩
  | cons x xs ih =>
      rw [List.mapM_cons] at h
      obtain ⟨_, middle, hfirst, h⟩ := run_bind_eq_ok h
      obtain ⟨_, _, hrest, h⟩ := run_bind_eq_ok h
      cases h
      obtain ⟨rfl, hx⟩ := hf x hfirst
      obtain ⟨rfl, hxs⟩ := ih hrest
      rw [List.flatMap_cons]
      exact ⟨by simp, List.forall_mem_append.mpr ⟨hx, hxs⟩⟩

/-- Emission plans the methods that the files have, class by class. -/
theorem planned_emit {cancelled : Bool} {files : List SourceFile}
    (h : (emit (.forLanguage importPath format form) e cancelled).run.run before = (.ok files, after)) :
    Planned e before after
      (e.context.graph.allClasses.flatMap fun c => c.methods.filter (isEmitted (hasCommands form))) := by
  unfold emit at h
  obtain ⟨_, middle, henums, h⟩ := run_bind_eq_ok h
  obtain ⟨_, _, hclasses, h⟩ := run_bind_eq_ok h
  cases h
  have hnone : Planned e before middle [] := by
    have hplanned : Planned e before middle
        (e.context.graph.allEnums.flatMap fun x => methodsOf (hasCommands form) (.ofEnum x)) :=
      planned_mapM (fun _ _ _ _ => planned_emitElement) henums
    have hnil : (e.context.graph.allEnums.flatMap fun x => methodsOf (hasCommands form) (.ofEnum x)) = [] :=
      List.flatMap_eq_nil_iff.mpr fun _ _ => rfl
    rwa [hnil] at hplanned
  obtain ⟨rfl, -⟩ := hnone
  refine planned_mapM (fun c before after file hclass => ?_) hclasses
  unfold emitClass at hclass
  split at hclass
  · cases hclass
  · exact planned_emitElement hclass

end Emission

end ClientForge.Render

namespace ClientForge.Run

open ClientForge.Graph ClientForge.Plan ClientForge.Convention ClientForge.Output ClientForge.Render

/-! ### Methods -/

/-- The methods that a target has files for: all of them, or all but command builders. -/
def emittedMethods (form : Language) (g : Graph) : List Method :=
  g.classes.toList.flatMap fun c => c.methods.filter (isEmitted (hasCommands form))

/-- The methods that are emitted are those of the classes, but for the ones that the form leaves out. -/
theorem mem_emittedMethods {form : Language} {g : Graph} {m : Method} :
    m ∈ emittedMethods form g ↔ isEmitted (hasCommands form) m = true ∧ ∃ c ∈ g.classes, m ∈ c.methods := by
  simp only [emittedMethods, List.mem_flatMap, Array.mem_toList_iff, List.mem_filter]
  constructor
  · rintro ⟨c, hc, hm, hemitted⟩
    exact ⟨hemitted, c, hc, hm⟩
  · rintro ⟨hemitted, c, hc, hm⟩
    exact ⟨c, hc, hm, hemitted⟩

theorem nodup_emittedMethods {g : Graph} (hplaced : g.Placed) (form : Language) :
    ((emittedMethods form g).map (·.id)).Nodup := by
  rw [emittedMethods, List.map_flatMap, List.nodup_flatMap]
  constructor
  · intro c hc
    have hmethods := hplaced.nodup_methods (Array.mem_toList_iff.mp hc)
    exact hmethods.sublist (List.filter_sublist.map _)
  · refine (List.pairwise_map.mp hplaced.nodup_classes).imp_of_mem fun hc hc' hne id hid hid' => hne ?_
    obtain ⟨m, hm, rfl⟩ := List.mem_map.mp hid
    obtain ⟨n, hn, heq⟩ := List.mem_map.mp hid'
    rw [← hplaced.owner_of_mem (Array.mem_toList_iff.mp hc) (List.mem_filter.mp hm).1,
      ← hplaced.owner_of_mem (Array.mem_toList_iff.mp hc') (List.mem_filter.mp hn).1, heq]

/-! ### Counting once -/

section Counting

variable {seen ms : List Method}

theorem nodup_foldl_remember (h : (seen.map (·.id)).Nodup) : ((ms.foldl remember seen).map (·.id)).Nodup := by
  induction ms generalizing seen with
  | nil => exact h
  | cons m ms ih =>
      refine ih ?_
      unfold remember
      split
      · exact h
      · next hnew =>
        rw [List.map_append, List.map_singleton, ← List.concat_eq_append, List.nodup_concat]
        refine ⟨fun hmem => hnew ?_, h⟩
        simpa [List.any_eq_true] using hmem

theorem mem_foldl_remember {k : Method} (h : k ∈ ms.foldl remember seen) : k ∈ seen ∨ k ∈ ms := by
  induction ms generalizing seen with
  | nil => exact .inl h
  | cons m ms ih =>
      rcases ih h with h | h
      · unfold remember at h
        split at h
        · exact .inl h
        · rcases List.mem_append.mp h with h | h
          · exact .inl h
          · exact .inr (List.mem_singleton.mp h ▸ List.mem_cons_self)
      · exact .inr (List.mem_cons_of_mem _ h)

theorem exists_mem_remember {k m : Method} (h : k ∈ seen ∨ k = m) : ∃ k' ∈ remember seen m, k'.id = k.id := by
  unfold remember
  split
  · next hknown =>
    rcases h with h | rfl
    · exact ⟨k, h, rfl⟩
    · simpa [List.any_eq_true] using hknown
  · exact ⟨k, by simpa using h, rfl⟩

theorem exists_mem_foldl_remember {k : Method} (h : k ∈ seen ∨ k ∈ ms) :
    ∃ k' ∈ ms.foldl remember seen, k'.id = k.id := by
  induction ms generalizing seen k with
  | nil => exact ⟨k, h.resolve_right List.not_mem_nil, rfl⟩
  | cons m ms ih =>
      rw [List.mem_cons, ← or_assoc] at h
      rcases h with h | h
      · obtain ⟨k', hk', hid⟩ := exists_mem_remember h
        obtain ⟨found, hfound, hid'⟩ := ih (.inl hk')
        exact ⟨found, hfound, hid'.trans hid⟩
      · exact ih (.inr h)

/-- However often methods are planned, each counts once. -/
theorem countedMethods_perm {e : Engine} {planned : List Method} (hnodup : (ms.map (·.id)).Nodup)
    (hok : ∀ m ∈ ms, (e.synthesize m).isOk = true) (hplanned : ∀ m, m ∈ planned ↔ m ∈ ms) :
    (countedMethods e planned).Perm ms := by
  have hmem : ∀ m, m ∈ planned.filter (fun m => (e.synthesize m).isOk) ↔ m ∈ ms := by
    intro m
    rw [List.mem_filter, hplanned]
    exact and_iff_left_of_imp (hok m)
  have hcounted : ((countedMethods e planned).map (·.id)).Nodup := nodup_foldl_remember List.nodup_nil
  refine (List.perm_ext_iff_of_nodup hcounted.of_map hnodup.of_map).mpr fun m => ⟨fun hm => ?_, fun hm => ?_⟩
  · exact (hmem m).mp ((mem_foldl_remember hm).resolve_left List.not_mem_nil)
  · have hfound : ∃ k ∈ countedMethods e planned, k.id = m.id :=
      exists_mem_foldl_remember (.inr ((hmem m).mpr hm))
    obtain ⟨k, hk, hid⟩ := hfound
    have hk' : k ∈ ms := (hmem k).mp ((mem_foldl_remember hk).resolve_left List.not_mem_nil)
    exact List.inj_on_of_nodup_map hnodup hk' hm hid ▸ hk

end Counting

/-! ### Drafts -/

section Drafts

variable {job : Job} {t : Target} {e : Engine}

/-- Whether a target has this command tree. -/
def Job.Assembles (job : Job) (t : Target) (tree : Command.Node) : Prop :=
  ∃ e planned, job.engine t = .ok e ∧ (Command.assemble e).run.run [] = (.ok tree, planned)

/-- Whatever is planned for the command tree is in the files of the target too. -/
theorem mem_emittedMethods_of_commandsOf (h : job.engine t = .ok e) {m : Method}
    (hm : m ∈ (commandsOf (formOf t) e).2) : m ∈ emittedMethods (formOf t) job.source.graph := by
  obtain ⟨l, rfl⟩ := exists_policy_of_engine h
  unfold commandsOf at hm
  split at hm
  · next hcommands =>
    rw [handlersOf, if_pos hcommands] at hm
    obtain ⟨c, hc, hm⟩ := Command.declared_of_assemble _ (List.mem_reverse.mp hm)
    rw [mem_emittedMethods, hcommands]
    exact ⟨rfl, c, hc, (Command.mem_commandBuilders.mp hm).1⟩
  · cases hm

/-- What is planned for the files of a target, in order. -/
theorem draft_of_emit {commands : Nat} {files : List SourceFile} {planned : List Method}
    (hcommands : (commandsOf (formOf t) e).1 = .ok commands)
    (hemit : (emit (job.renderer t) e job.cancelled).run.run [] =
      (.ok files, planned)) :
    job.draft t e = ⟨(commandsOf (formOf t) e).2 ++ planned.reverse, commands, .ok files⟩ := by
  unfold Job.draft
  simp only [hcommands, hemit]

/-- A target plans the methods that it has files for, and all of them have bodies. -/
theorem planned_of_emit {entry : Document.NamespaceEntry} (hentry : Document.graphOf entry = .ok job.source.graph)
    (hengine : job.engine t = .ok e) {files : List SourceFile} {planned : List Method}
    (hemit : (emit (job.renderer t) e job.cancelled).run.run [] =
      (.ok files, planned)) :
    (countedMethods e ((commandsOf (formOf t) e).2 ++ planned.reverse)).Perm
      (emittedMethods (formOf t) job.source.graph) := by
  obtain ⟨rfl, hok⟩ := planned_emit hemit
  rw [graph_of_engine hengine] at hok ⊢
  have hperm := (Document.allClasses_perm hentry).flatMap_right
    fun c => c.methods.filter (isEmitted (hasCommands (formOf t)))
  refine countedMethods_perm (nodup_emittedMethods (Document.placed_of_graphOf hentry) _)
    (fun m hm => hok m (hperm.mem_iff.mpr hm)) fun m => ?_
  rw [List.append_nil, List.reverse_reverse, List.mem_append]
  constructor
  · rintro (hm | hm)
    · exact mem_emittedMethods_of_commandsOf hengine hm
    · exact hperm.mem_iff.mp hm
  · exact fun hm => .inr (hperm.mem_iff.mpr hm)

/-- There is a file for every enum and every class. -/
theorem length_of_emit {entry : Document.NamespaceEntry} (hentry : Document.graphOf entry = .ok job.source.graph)
    (hengine : job.engine t = .ok e) {files : List SourceFile} (hemit : job.Emits t e files) :
    files.length = job.source.graph.enums.size + job.source.graph.classes.size := by
  have hlength := congrArg List.length hemit.paths
  simp only [graph_of_engine hengine, List.length_map, emitted, List.length_append] at hlength
  rw [hlength, (Document.allEnums_perm hentry).length_eq, (Document.allClasses_perm hentry).length_eq,
    Array.length_toList, Array.length_toList]

/-- The number of commands is that of the command tree, where there is one. -/
theorem commands_of_commandsOf (hengine : job.engine t = .ok e) {commands : Nat}
    (h : (commandsOf (formOf t) e).1 = .ok commands) :
    (formOf t = .cli → ∃ tree, job.Assembles t tree ∧ commands = tree.count) ∧ (formOf t ≠ .cli → commands = 0) := by
  unfold commandsOf at h
  split at h
  · next hcommands =>
    have hcli : formOf t = .cli := by simpa [hasCommands] using hcommands
    refine ⟨fun _ => ?_, fun hne => absurd hcli hne⟩
    cases hrun : (Command.assemble e).run.run [] with
    | mk outcome planned =>
      rw [hrun] at h
      cases outcome with
      | error failure => cases h
      | ok tree =>
          cases h
          exact ⟨tree, ⟨e, planned, hengine, hrun⟩, rfl⟩
  · next hcommands =>
    have hcli : formOf t ≠ .cli := by simpa [hasCommands] using hcommands
    cases h
    exact ⟨fun heq => absurd heq hcli, fun _ => rfl⟩

/-- The counts of a target that can be drafted. -/
theorem prepare_counts {entry : Document.NamespaceEntry} (hentry : Document.graphOf entry = .ok job.source.graph)
    (hok : (job.prepare t).result.failure = none) :
    (job.prepare t).result.units = job.source.graph.enums.size + job.source.graph.classes.size ∧
      (job.prepare t).methods.Perm (emittedMethods (formOf t) job.source.graph) ∧
      (job.prepare t).result.methods = (job.prepare t).methods.length ∧
      (formOf t = .cli → ∃ tree, job.Assembles t tree ∧ (job.prepare t).result.commands = tree.count) ∧
      (formOf t ≠ .cli → (job.prepare t).result.commands = 0) := by
  rcases cannotDraft_or_drafts job t with ⟨failure, hfailure⟩ | ⟨files, hdrafts⟩
  · rw [(prepare_of_cannotDraft hfailure).1] at hok
    cases hok
  · obtain ⟨e, commands, hengine, hcommands, hemits⟩ := hdrafts
    have hdraft := draft_of_emit hcommands (Prod.ext hemits rfl)
    have hprepare : (job.prepare t).result.units = files.length ∧ (job.prepare t).result.commands = commands ∧
        (job.prepare t).methods = countedMethods e (job.draft t e).planned ∧
        (job.prepare t).result.methods = (job.prepare t).methods.length := by
      simp [Job.prepare, hengine, hdraft]
    obtain ⟨hunits, hcounted, hmethods, hlength⟩ := hprepare
    refine ⟨hunits.trans (length_of_emit hentry hengine hemits), ?_, hlength, ?_⟩
    · rw [hmethods, hdraft]
      exact planned_of_emit hentry hengine (Prod.ext hemits rfl)
    · rw [hcounted]
      exact commands_of_commandsOf hengine hcommands

end Drafts

/-! ### Runs -/

section Runs

variable {σ : Type} {job : Job} {t : Target} {sinks : (directory : String) → Sink σ}

theorem language_prepare (job : Job) (t : Target) : (job.prepare t).result.language = t.language := by
  unfold Job.prepare
  dsimp only
  split
  · rfl
  · split <;> rfl

/-- Only the failure of a draft can change once it is concluded. -/
theorem Prepared.result_conclude (p : Prepared) (cleanable : Bool) (outcome : Except Failure Unit) :
    (p.conclude cleanable outcome).result = { p.result with failure := p.result.failure.or (failureOf outcome) } :=
  rfl

theorem Prepared.methods_conclude (p : Prepared) (cleanable : Bool) (outcome : Except Failure Unit) :
    (p.conclude cleanable outcome).methods = p.methods :=
  rfl

/-- Every target is reported under its language, in order. -/
theorem languages_runTargets (ts : List Target) (state : σ) :
    (job.runTargets sinks ts state).1.map (·.result.language) = ts.map (·.language) := by
  induction ts generalizing state with
  | nil => rfl
  | cons t ts ih =>
      simp only [Job.runTargets, Job.runTarget, List.map_cons, ih, Prepared.result_conclude, language_prepare]

/-- Every target is drafted, and its result concludes the draft. -/
theorem exists_conclude (job : Job) (sinks : (directory : String) → Sink σ) {ts : List Target} {i : Nat}
    (ht : ts[i]? = some t) (state : σ) :
    ∃ cleanable outcome,
      (job.runTargets sinks ts state).1[i]? = some ((job.prepare t).conclude cleanable outcome) := by
  induction ts generalizing i state with
  | nil => cases ht
  | cons first ts ih =>
      cases i with
      | zero =>
          cases ht
          simp only [Job.runTargets, Job.runTarget, List.getElem?_cons_zero]
          exact ⟨_, _, rfl⟩
      | succ i => exact ih ht _

theorem nodup_languages (job : Job) : (job.targets.map (·.language)).Nodup := by
  have hnodup := nodup_settingsTargets job.settings
  unfold Job.targets targetsOf
  split
  · simp
  · simpa [Function.comp_def] using hnodup

end Runs

namespace ClientSample

/-- A document with an enum and a client, which has a constructor and the builder of its root command. -/
def text : String :=
  "name: A\nenums:\n- name: E\nclasses:\n- name: C\n  kind: request_builder\n  methods:\n" ++
    "  - name: C\n    kind: client_constructor\n" ++
    "  - name: R\n    kind: command_builder\n    return_type: V\n    original_method: C\n"

/-- Drafts the files for the command line and for Go, without writing them. -/
def job (source : Document.Source) : Job :=
  { settings := { languages := ["cli", "go"] }, source, writes := false }

def generation (source : Document.Source) : Generation := ((job source).run Memories.sink fun _ => {}).1

/-- The counts of all targets, and whether they succeed. -/
def counts (source : Document.Source) : List (Nat × Nat × Nat × Bool) :=
  (generation source).report.targets.map fun r => (r.units, r.methods, r.commands, r.failure.isNone)

theorem counts_text : (Document.decode text).toOption.map (fun source => (source.graph.violations, counts source)) =
    some ([], [(2, 2, 1, true), (2, 1, 0, true)]) := by
  decide +kernel

end ClientSample

end ClientForge.Run
