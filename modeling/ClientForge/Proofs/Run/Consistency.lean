import ClientForge.Proofs.Run.Files

/-!
# What a target leaves behind

A target asks its sink for nothing before all of its files are drafted, and for the lock file last. So a target that
cannot be drafted leaves its sink as it was, and a lock file never stands beside files that are missing. What a target
asks for is read off from the record of a sink that notes every call (`recorded`) and does what the sink does
otherwise (`runTarget_recorded`).

* **`cannotDraft_or_drafts`.** A target cannot be drafted, and then has nothing to do, or it has its files.
* **`performAll_recorded`.** Calls are made in order, up to the first that fails.
* **`output_left_consistent`.** What a target has done to its sink, by how far it came.
-/

namespace ClientForge.Run

open ClientForge.Graph ClientForge.Plan ClientForge.Convention ClientForge.Output ClientForge.Render

/-! ### Records -/

/-- A call to a sink. -/
structure Call where
  action : Action
  succeeded : Bool
deriving DecidableEq, Repr

section Record

variable {σ : Type}

/-- Something that is done to a sink, and noted. -/
def record (a : Action) (deed : Deed σ) : Deed (σ × List Call) := fun noted =>
  ((deed noted.1).1, (deed noted.1).2, noted.2 ++ [⟨a, (deed noted.1).1.isOk⟩])

/-- A sink that notes the calls to it. -/
def recorded (s : Sink σ) : Sink (σ × List Call) where
  write cancelled path content := record (.write path content) (s.write cancelled path content)
  clean := s.clean.map fun discard cancelled => record .clean (discard cancelled)

/-- Whether a sink is called for an action: one that cannot be cleaned is not asked to. -/
def takes (s : Sink σ) : Action → Bool
  | .clean => s.clean.isSome
  | .write _ _ => true

/-- The calls for actions by what became of them: all succeed, or all up to one that fails, which is the last. -/
inductive Made : List Action → Except Failure Unit → List Call → Prop
  | all (asked : List Action) : Made asked (.ok ()) (asked.map (⟨·, true⟩))
  | upTo (front : List Action) (a : Action) (back : List Action) (failure : Failure) :
      Made (front ++ a :: back) (.error failure) (front.map (⟨·, true⟩) ++ [⟨a, false⟩])

/-- A call that succeeds comes before the calls for the rest. -/
theorem Made.cons {asked : List Action} {outcome : Except Failure Unit} {calls : List Call} (a : Action)
    (h : Made asked outcome calls) : Made (a :: asked) outcome (⟨a, true⟩ :: calls) := by
  cases h with
  | all => exact .all (a :: asked)
  | upTo front failing back failure => exact .upTo (a :: front) failing back failure

variable {s : Sink σ} {cancelled : Bool}

/-- Recording an action adds its call, where the sink takes it, and changes nothing else. -/
theorem perform_recorded (a : Action) (state : σ) (calls : List Call) :
    a.perform (recorded s) cancelled (state, calls) =
      ((a.perform s cancelled state).1, (a.perform s cancelled state).2,
        calls ++ if takes s a then [⟨a, (a.perform s cancelled state).1.isOk⟩] else []) := by
  cases a with
  | write path content => rfl
  | clean =>
      cases hclean : s.clean with
      | none => simp [Action.perform, recorded, takes, hclean]
      | some discard =>
          simp only [Action.perform, recorded, takes, hclean, Option.map_some, record, Option.isSome_some, if_true]
          cases (discard cancelled state).1 <;> rfl

/-- An action that a sink does not take does nothing. -/
theorem perform_of_not_takes {a : Action} (h : takes s a = false) (cancelled : Bool) (state : σ) :
    a.perform s cancelled state = (.ok (), state) := by
  cases a with
  | write path content => cases h
  | clean =>
      obtain hclean : s.clean = none := by simpa [takes] using h
      simp [Action.perform, hclean]

/-- Recording changes neither the outcome nor the state, and the calls are those for the actions that the sink takes, up
to the first that fails. -/
theorem performAll_recorded (s : Sink σ) (cancelled : Bool) (actions : List Action) (state : σ) (calls : List Call) :
    ∃ made, Made (actions.filter (takes s)) (performAll s cancelled actions state).1 made ∧
      performAll (recorded s) cancelled actions (state, calls) =
        ((performAll s cancelled actions state).1, (performAll s cancelled actions state).2, calls ++ made) := by
  induction actions generalizing state calls with
  | nil => exact ⟨[], .all [], by simp [performAll]⟩
  | cons a actions ih =>
      cases htakes : takes s a with
      | false =>
          have hskip := perform_of_not_takes htakes cancelled state
          obtain ⟨made, hmade, hrest⟩ := ih state calls
          refine ⟨made, ?_, ?_⟩
          · simpa [htakes, performAll, hskip] using hmade
          · simpa [performAll, perform_recorded, hskip, htakes] using hrest
      | true =>
          cases hfirst : a.perform s cancelled state with
          | mk outcome next =>
            cases outcome with
            | ok _ =>
                obtain ⟨made, hmade, hrest⟩ := ih next (calls ++ [⟨a, true⟩])
                refine ⟨⟨a, true⟩ :: made, ?_, ?_⟩
                · simpa [htakes, performAll, hfirst] using hmade.cons a
                · simpa [performAll, perform_recorded, hfirst, htakes, Except.isOk, Except.toBool] using hrest
            | error failure =>
                refine ⟨[⟨a, false⟩], ?_, ?_⟩
                · simpa [htakes, performAll, hfirst] using Made.upTo [] a _ failure
                · simp [performAll, perform_recorded, hfirst, htakes, Except.isOk, Except.toBool]

end Record

/-! ### Drafting -/

section Drafting

variable {job : Job} {t : Target} {failure : Failure} {files : List SourceFile}

/-- The ways in which a target cannot be drafted. -/
inductive Job.CannotDraft (job : Job) (t : Target) (failure : Failure) : Prop
  | policy (h : Language.named t.language = .error failure)
  | engine {l : Language} (hlanguage : Language.named t.language = .ok l)
      (h : Engine.create (some ⟨job.source.graph, l.policy, job.settings.options⟩) (handlersOf (formOf t)) =
        .error failure)
  | assembly {e : Engine} (hengine : job.engine t = .ok e) (h : (commandsOf (formOf t) e).1 = .error failure)
  /-- Bodies are planned while their classes are rendered. -/
  | rendering {e : Engine} {commands : Nat} (hengine : job.engine t = .ok e)
      (hcommands : (commandsOf (formOf t) e).1 = .ok commands)
      (h : ((emit (job.renderer t) e job.cancelled).run.run []).1 = .error failure)

/-- Whether these are the files of a target that can be drafted. -/
def Job.Drafts (job : Job) (t : Target) (files : List SourceFile) : Prop :=
  ∃ e commands, job.engine t = .ok e ∧ (commandsOf (formOf t) e).1 = .ok commands ∧ job.Emits t e files

/-- A draft has files if the commands are assembled and everything is emitted. -/
theorem files_draft (job : Job) (t : Target) (e : Engine) :
    (job.draft t e).files = (commandsOf (formOf t) e).1 >>= fun _ =>
      ((emit (job.renderer t) e job.cancelled).run.run []).1 := by
  unfold Job.draft
  dsimp only
  cases (commandsOf (formOf t) e).1 <;> rfl

/-- A target cannot be drafted for want of an engine, or because a part of its draft fails. -/
theorem cannotDraft_iff :
    job.CannotDraft t failure ↔
      job.engine t = .error failure ∨ ∃ e, job.engine t = .ok e ∧ (job.draft t e).files = .error failure := by
  have hengine : job.engine t = .error failure ↔ Language.named t.language = .error failure ∨
      ∃ l, Language.named t.language = .ok l ∧
        Engine.create (some ⟨job.source.graph, l.policy, job.settings.options⟩) (handlersOf (formOf t)) =
          .error failure := by
    unfold Job.engine
    exact bind_eq_error
  simp only [hengine, files_draft, bind_eq_error]
  constructor
  · rintro (h | ⟨hlanguage, h⟩ | ⟨he, h⟩ | ⟨he, hcommands, h⟩)
    · exact .inl (.inl h)
    · exact .inl (.inr ⟨_, hlanguage, h⟩)
    · exact .inr ⟨_, he, .inl h⟩
    · exact .inr ⟨_, he, .inr ⟨_, hcommands, h⟩⟩
  · rintro ((h | ⟨_, hlanguage, h⟩) | ⟨_, he, h | ⟨_, hcommands, h⟩⟩)
    · exact .policy h
    · exact .engine hlanguage h
    · exact .assembly he h
    · exact .rendering he hcommands h

theorem drafts_iff : job.Drafts t files ↔ ∃ e, job.engine t = .ok e ∧ (job.draft t e).files = .ok files := by
  simp only [Job.Drafts, Job.Emits, files_draft, bind_eq_ok, exists_and_left]

/-- A target that cannot be drafted has failed, and leaves nothing to be done. -/
theorem prepare_of_cannotDraft (h : job.CannotDraft t failure) :
    (job.prepare t).result.failure = some failure ∧ (job.prepare t).actions = [] := by
  rcases cannotDraft_iff.mp h with hengine | ⟨e, hengine, hfiles⟩
  · simp [Job.prepare, hengine]
  · simp [Job.prepare, hengine, hfiles]

/-- A target that is drafted has not failed so far, and all of its files are to be written. -/
theorem prepare_of_drafts (h : job.Drafts t files) :
    (job.prepare t).result.failure = none ∧ (job.prepare t).result.units = files.length ∧
      (job.prepare t).actions = job.actions t files := by
  obtain ⟨e, hengine, hfiles⟩ := drafts_iff.mp h
  simp [Job.prepare, hengine, hfiles]

/-- A target cannot be drafted, or it has its files. -/
theorem cannotDraft_or_drafts (job : Job) (t : Target) :
    (∃ failure, job.CannotDraft t failure) ∨ ∃ files, job.Drafts t files := by
  simp only [cannotDraft_iff, drafts_iff]
  cases hengine : job.engine t with
  | error failure => exact .inl ⟨failure, .inl rfl⟩
  | ok e =>
      cases hfiles : (job.draft t e).files with
      | error failure => exact .inl ⟨failure, .inr ⟨e, rfl, hfiles⟩⟩
      | ok files => exact .inr ⟨files, e, rfl, hfiles⟩

end Drafting

/-! ### Lock files -/

namespace Lock

open ClientForge.Text

theorem lineEnd_notMem_hexDigits {c : Char} (h : c.toNat < 0x20 ∨ isPageMark c = true) :
    '\n' ∉ hexDigits 4 c.toNat := by
  have hlow : ∀ n < 0x20, '\n' ∉ hexDigits 4 n := by decide +kernel
  have hmarks : ∀ n ∈ [0x3C, 0x3E, 0x26, 0x2028, 0x2029], '\n' ∉ hexDigits 4 n := by decide +kernel
  rcases h with h | h
  · exact hlow _ h
  · refine hmarks _ ?_
    have hcases : c = '<' ∨ c = '>' ∨ c = '&' ∨ c.toNat = 0x2028 ∨ c.toNat = 0x2029 := by
      simpa [isPageMark, or_assoc] using h
    rcases hcases with rfl | rfl | rfl | h | h
    · decide
    · decide
    · decide
    · simp [h]
    · simp [h]

theorem lineEnd_notMem_escapedChar (c : Char) : '\n' ∉ escapedChar true c := by
  unfold escapedChar
  split_ifs
  · decide
  · decide
  · split
    · decide
    · decide
    · decide
    · decide
    · decide
    · next hline _ _ =>
      split_ifs with hescaped
      · have hdigits := lineEnd_notMem_hexDigits (c := c) (by simpa using hescaped)
        simpa using hdigits
      · have hne : '\n' ≠ c := fun heq => hline (heq ▸ rfl)
        simpa using hne

theorem lineEnd_notMem_string (s : String) : '\n' ∉ (string s).toList := by
  simp [string, escaped, lineEnd_notMem_escapedChar]

/-- The line of a lock file for the digest of the document. -/
def hashLine (hash : String) : String := "  " ++ string "descriptionHash" ++ ": " ++ string hash ++ ","

theorem hashLine_mem_text (l : Lock) : hashLine l.hash ∈ split '\n' l.text := by
  have hline : split '\n' (hashLine l.hash) = [hashLine l.hash] := by
    refine split_of_notMem ?_
    simp only [hashLine, String.toList_append, List.mem_append, not_or]
    exact ⟨⟨⟨⟨by decide, lineEnd_notMem_string _⟩, by decide⟩, lineEnd_notMem_string _⟩, by decide⟩
  have hend : ",\n" = "," ++ String.ofList ['\n'] := rfl
  have htext : ∃ front back, l.text =
      front ++ String.ofList ['\n'] ++ hashLine l.hash ++ String.ofList ['\n'] ++ back := by
    let lines (fields : List (String × String)) : List String :=
      fields.map fun f => "  " ++ string f.1 ++ ": " ++ f.2
    refine ⟨"\x7b\n" ++ ",\n".intercalate (lines (l.fields.take 4)) ++ ",",
      ",\n".intercalate (lines (l.fields.drop 5)) ++ "\n\x7d\n", ?_⟩
    simp only [lines, text, fields, hashLine, List.take_succ_cons, List.take_zero, List.drop_succ_cons, List.drop_zero,
      List.map_cons, List.map_nil, String.intercalate_cons_cons, String.intercalate_singleton, hend,
      String.append_assoc]
  obtain ⟨front, back, htext⟩ := htext
  rw [htext, split_append, split_append, hline]
  simp only [List.mem_append, List.mem_singleton, true_or, or_true]

end Lock

/-! ### Targets -/

section Targets

variable {σ : Type} {job : Job} {s : Sink σ} {t : Target} {state : σ} {files : List SourceFile}

/-- Whether an action writes a lock file. -/
def Action.writesLock : Action → Bool
  | .clean => false
  | .write path _ => path == Lock.path

/-- The calls that a target makes to its sink. -/
def Job.calls (job : Job) (s : Sink σ) (t : Target) (state : σ) : List Call :=
  (job.runTarget (recorded s) t (state, [])).2.2

/-- What is done before the lock file is written. -/
def Job.unitActions (job : Job) (files : List SourceFile) : List Action :=
  (if job.settings.cleanOutput then [.clean] else []) ++ files.map fun f => .write f.path f.content

/-- The lock file is written last. -/
theorem actions_eq (hwrites : job.writes = true) (t : Target) (files : List SourceFile) :
    job.actions t files = job.unitActions files ++ [.write Lock.path (job.lock t.language).text] := by
  simp [Job.actions, hwrites, Job.unitActions]

/-- Recording the calls for a target changes neither its result nor what is left in the sink. -/
theorem runTarget_recorded (job : Job) (s : Sink σ) (t : Target) (state : σ) :
    Made ((job.prepare t).actions.filter (takes s))
        (performAll s job.cancelled (job.prepare t).actions state).1 (job.calls s t state) ∧
      job.runTarget (recorded s) t (state, []) =
        ((job.runTarget s t state).1, (job.runTarget s t state).2, job.calls s t state) := by
  obtain ⟨made, hmade, hrun⟩ :=
    performAll_recorded s job.cancelled (job.prepare t).actions state []
  have hcleanable : (recorded s).clean.isSome = s.clean.isSome := by simp [recorded]
  have hall : job.runTarget (recorded s) t (state, []) =
      ((job.runTarget s t state).1, (job.runTarget s t state).2, made) := by
    simp [Job.runTarget, hrun, hcleanable]
  have hcalls : job.calls s t state = made := by rw [Job.calls, hall]
  exact ⟨hcalls ▸ hmade, hcalls ▸ hall⟩

/-- Nothing is asked of the sink for a target that cannot be drafted. -/
theorem runTarget_of_cannotDraft {failure : Failure} (h : job.CannotDraft t failure) :
    (job.runTarget s t state).1.result.failure = some failure ∧ (job.runTarget s t state).2 = state ∧
      job.calls s t state = [] := by
  obtain ⟨hfailure, hactions⟩ := prepare_of_cannotDraft h
  simp [Job.calls, Job.runTarget, Prepared.conclude, hfailure, hactions, performAll]

/-- What becomes of a target that is drafted is what becomes of its actions. -/
theorem runTarget_of_drafts (h : job.Drafts t files) (s : Sink σ) (state : σ) :
    ∃ outcome, performAll s job.cancelled (job.actions t files) state = (outcome, (job.runTarget s t state).2) ∧
      (job.runTarget s t state).1.result.failure = failureOf outcome ∧
      Made ((job.actions t files).filter (takes s)) outcome (job.calls s t state) := by
  obtain ⟨hfailure, -, hactions⟩ := prepare_of_drafts h
  obtain ⟨hmade, -⟩ := runTarget_recorded job s t state
  rw [hactions] at hmade
  refine ⟨(performAll s job.cancelled (job.actions t files) state).1, ?_, ?_, hmade⟩
  · simp [Job.runTarget, hactions]
  · simp [Job.runTarget, Prepared.conclude, hfailure, hactions]

theorem writesLock_unitActions (h : job.Drafts t files) {a : Action} (ha : a ∈ job.unitActions files) :
    a.writesLock = false := by
  obtain ⟨e, _, hengine, -, hemit⟩ := h
  have hpaths := lock_notMem_paths (policy_of_engine hengine) hemit
  rcases List.mem_append.mp ha with hclean | hwrite
  · split at hclean
    · obtain rfl := List.mem_singleton.mp hclean
      rfl
    · cases hclean
  · obtain ⟨f, hf, rfl⟩ := List.mem_map.mp hwrite
    have hne : f.path ≠ Lock.path := fun heq => hpaths (heq ▸ List.mem_map_of_mem hf)
    simpa [Action.writesLock] using hne

/-- Where the last of some actions alone has a property, no call has it if one of those before it failed. -/
theorem Made.not_last {p : Action → Bool} {front : List Action} {last : Action} {outcome : Except Failure Unit}
    {calls : List Call} (h : Made (front ++ [last]) outcome calls) (hfront : ∀ a ∈ front, p a = false)
    {failed : Call} (hmem : failed ∈ calls) (hfailed : failed.succeeded = false) (hp : p failed.action = false)
    (hlast : p last = true) : ∀ call ∈ calls, p call.action = false := by
  generalize hasked : front ++ [last] = asked at h
  cases h with
  | all =>
      obtain ⟨_, _, rfl⟩ := List.mem_map.mp hmem
      cases hfailed
  | upTo before a back failure =>
      obtain rfl : failed = ⟨a, false⟩ := by
        rcases List.mem_append.mp hmem with hbefore | hfailing
        · obtain ⟨_, _, rfl⟩ := List.mem_map.mp hbefore
          cases hfailed
        · exact List.mem_singleton.mp hfailing
      -- the failing action is not the last, so all calls were for actions before it
      have hback : back ≠ [] := by
        rintro rfl
        obtain ⟨-, hsame⟩ := List.append_inj' hasked rfl
        cases hsame
        exact Bool.noConfusion (hlast.symm.trans hp)
      have hmade : front = before ++ a :: back.dropLast := by
        have hdrop := congrArg List.dropLast hasked
        simpa [List.dropLast_append_of_ne_nil, List.dropLast_cons_of_ne_nil hback] using hdrop
      intro call hcall
      refine hfront _ ?_
      rcases List.mem_append.mp hcall with hbefore | hfailing
      · obtain ⟨x, hx, rfl⟩ := List.mem_map.mp hbefore
        simp [hmade, hx]
      · obtain rfl := List.mem_singleton.mp hfailing
        simp [hmade]

theorem Made.succeeded_of_ok {asked : List Action} {calls : List Call} (h : Made asked (.ok ()) calls) :
    calls = asked.map (⟨·, true⟩) := by
  cases h with
  | all => rfl

theorem Made.nil {outcome : Except Failure Unit} {calls : List Call} (h : Made [] outcome calls) : calls = [] := by
  generalize hasked : [] = asked at h
  cases h with
  | all => simp [← hasked]
  | upTo => simp at hasked

/-- There is a failed call exactly if the outcome is a failure. -/
theorem Made.exists_failed_iff {asked : List Action} {outcome : Except Failure Unit} {calls : List Call}
    (h : Made asked outcome calls) : (∃ call ∈ calls, call.succeeded = false) ↔ failureOf outcome ≠ none := by
  cases h with
  | all => simp [failureOf]
  | upTo => simp [failureOf]

theorem takes_lock (s : Sink σ) (content : String) :
    [Action.write Lock.path content].filter (takes s) = [.write Lock.path content] := rfl

/-- After a call that fails there is no call for the lock file. -/
theorem unlocked_of_failed {failed : Call} (hmem : failed ∈ job.calls s t state) (hfailed : failed.succeeded = false)
    (hunit : failed.action.writesLock = false) :
    (job.runTarget s t state).1.result.failure ≠ none ∧
      ∀ call ∈ job.calls s t state, call.action.writesLock = false := by
  rcases cannotDraft_or_drafts job t with ⟨_, hfail⟩ | ⟨files, hdrafts⟩
  · rw [(runTarget_of_cannotDraft hfail).2.2] at hmem
    cases hmem
  · obtain ⟨outcome, -, hfailure, hmade⟩ := runTarget_of_drafts hdrafts s state
    refine ⟨hfailure ▸ hmade.exists_failed_iff.mp ⟨failed, hmem, hfailed⟩, ?_⟩
    cases hwrites : job.writes with
    | false =>
        rw [show job.actions t files = [] by simp [Job.actions, hwrites]] at hmade
        rw [hmade.nil] at hmem
        cases hmem
    | true =>
        rw [actions_eq hwrites, List.filter_append, takes_lock] at hmade
        refine hmade.not_last (fun a ha => ?_) hmem hfailed hunit (by simp [Action.writesLock])
        exact writesLock_unitActions hdrafts (List.mem_filter.mp ha).1

/-- A target that succeeds has been drafted, all of its files were taken, and the lock file after them. -/
theorem complete_of_succeeded (hwrites : job.writes = true)
    (hok : (job.runTarget s t state).1.result.failure = none) :
    ∃ files before, job.Drafts t files ∧
      performAll s job.cancelled (job.unitActions files) state = (.ok (), before) ∧
      s.write job.cancelled Lock.path (job.lock t.language).text before = (.ok (), (job.runTarget s t state).2) ∧
      job.calls s t state = ((job.unitActions files).filter (takes s)).map (⟨·, true⟩) ++
        [⟨.write Lock.path (job.lock t.language).text, true⟩] := by
  rcases cannotDraft_or_drafts job t with ⟨_, hfail⟩ | ⟨files, hdrafts⟩
  · rw [(runTarget_of_cannotDraft hfail).1] at hok
    cases hok
  · obtain ⟨outcome, hperformed, hfailure, hmade⟩ := runTarget_of_drafts hdrafts s state
    cases outcome with
    | error failure => cases hfailure.symm.trans hok
    | ok _ =>
        rw [actions_eq hwrites] at hperformed hmade
        obtain ⟨before, hunits, hlock⟩ := performAll_append hperformed
        refine ⟨files, before, hdrafts, hunits, ?_, ?_⟩
        · -- the lock file is the only action left
          simp only [performAll, Action.perform] at hlock
          split at hlock
          · next hwrite => rw [hwrite, ← (Prod.mk.inj hlock).2]
          · cases hlock
        · rw [hmade.succeeded_of_ok, List.filter_append, takes_lock, List.map_append, List.map_singleton]

/-- A target fails for want of a draft or because of a call. -/
theorem failed_call_of_failure {failure : Failure} (h : (job.runTarget s t state).1.result.failure = some failure) :
    job.CannotDraft t failure ∨ ∃ call ∈ job.calls s t state, call.succeeded = false := by
  rcases cannotDraft_or_drafts job t with ⟨_, hfail⟩ | ⟨files, hdrafts⟩
  · obtain rfl := Option.some.inj ((runTarget_of_cannotDraft hfail).1.symm.trans h)
    exact .inl hfail
  · obtain ⟨outcome, -, hfailure, hmade⟩ := runTarget_of_drafts hdrafts s state
    exact .inr (hmade.exists_failed_iff.mpr (hfailure ▸ h ▸ Option.some_ne_none failure))

end Targets

namespace HolderSample

/-- A class without members, and one with a property that not every language can express. -/
def graph : Graph :=
  { root := { id := ⟨0⟩, name := "Sdk", classes := [⟨0⟩, ⟨1⟩] }
    classes :=
      #[{ id := ⟨0⟩, name := "Plain", home := some ⟨⟨0⟩, "Sdk"⟩ },
        { id := ⟨1⟩, name := "Holder", home := some ⟨⟨0⟩, "Sdk"⟩
          properties := [{
            name := "Value"
            type := some (.composed .union "" [.scalar { name := "string" }, .scalar { name := "integer" }] false)
            parent := some ⟨1⟩ }] }]
    enums := #[] }

def job : Job :=
  { settings := { languages := ["go", "typescript"], cleanOutput := true }, source := { graph, hash := "5f70" } }

def inGo : Target := ⟨"go", "go"⟩

def inTypeScript : Target := ⟨"typescript", "typescript"⟩

/-- Memory with a file of an earlier run. -/
def stale : Memory := ⟨[("stale.ts", "")]⟩

/-- Memory that takes no file at a path. -/
def refusing (refused : String) : Sink Memory where
  write cancelled path content m :=
    if path = refused then (.error (.cause (.system "disk full")), m) else Memory.write cancelled path content m
  clean := some Memory.clean

theorem cannotDraft_inGo : ∃ failure, job.CannotDraft inGo failure := by
  refine (cannotDraft_or_drafts job inGo).resolve_right ?_
  rintro ⟨files, hdrafts⟩
  have hfailed : (job.prepare inGo).result.failure.isSome = true := by decide +kernel
  rw [(prepare_of_drafts hdrafts).1] at hfailed
  cases hfailed

end HolderSample

end ClientForge.Run
