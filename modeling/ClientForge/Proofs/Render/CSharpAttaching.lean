import ClientForge.Proofs.Command.Attached
import ClientForge.Proofs.Text.Ordinal
import ClientForge.Render.CSharpCommand

/-!
# The statements that attach sub-commands

What the C# statements for sub-commands do when they are run, in terms of what the assembled tree has for the
builders that they call.

* `callItems_eq`: a call for items gives what the tree has there, unless one of its builders gives items in its
  turn: then its result is no command and cannot be listed;
* `runAll_direct`, `runAll_grouped`: what statements for a list of sub-commands attach if their calls return
  what the tree has.
-/

namespace ClientForge.Render.CSharp

open ClientForge.Graph ClientForge.Plan ClientForge.Command Assembly Evaluator Relation

/-! ### Running statements -/

/-- What calls of command builders return: a command, or a pair of lists. -/
structure Calls where
  command : Method → Option Node
  items : Method → Option Commands

/-- What statements have done so far. -/
structure Progress where
  /-- The pairs of lists that variables hold, latest first. -/
  held : List (String × Commands) := []
  lists : Commands := {}
  /-- The commands that were added, in order. -/
  added : List Node := []

/-- Runs a statement. A call that does not return what the statement needs stops it. -/
def Attachment.run (calls : Calls) (p : Progress) : Attachment → Option Progress
  | .add s => (calls.command s.method).map fun n => { p with added := p.added ++ [n] }
  | .bind items s =>
    (calls.items s.method).map fun found => { p with held := (items, found) :: p.held }
  | .addItems items =>
    (p.held.lookup items).map fun found =>
      { p with added := p.added ++ (found.executables ++ found.containers) }
  | .startLists => some { p with lists := {} }
  | .keepExecutable s =>
    (calls.command s.method).map fun n => { p with lists := p.lists.append ⟨[n], []⟩ }
  | .keepContainer s =>
    (calls.command s.method).map fun n => { p with lists := p.lists.append ⟨[], [n]⟩ }
  | .keepItems items =>
    (p.held.lookup items).map fun found => { p with lists := p.lists.append found }
  | .addExecutables => some { p with added := p.added ++ p.lists.executables }
  | .addContainers sorted =>
    some { p with added := p.added ++
      if sorted then p.lists.containers.mergeSort fun a b => Text.ordinalLe a.name b.name
      else p.lists.containers }

def runAll (calls : Calls) (statements : List Attachment) (p : Progress) : Option Progress :=
  statements.foldlM (Attachment.run calls) p

/-- Commands in one of a pair of lists. -/
def oneList (executable : Bool) (ns : List Node) : Commands :=
  if executable then ⟨ns, []⟩ else ⟨[], ns⟩

/-- Runs the statements for items up to where lists are given back. -/
def runItems (command : Method → Option Node) : List ItemStatement → Commands → Option Commands
  | [], _ => none
  | .start :: rest, _ => runItems command rest {}
  | .list executable m :: rest, found =>
    (command m).bind fun n => runItems command rest (found.append (oneList executable [n]))
  | .giveBack :: _, found => some found

/-- A call for a command. A builder that gives items does not return one. -/
def callCommand (c : Context) (m : Method) : Option Node :=
  if returnsItems m then none else ((whole c).command m).value

/-- The items that a builder gives back. -/
def itemListsOf (c : Context) (m : Method) : List ItemCommands :=
  match (commandEngine c).synthesize m with
  | .ok body => itemLists body
  | .error _ => []

/-- A call for items runs the statements of the builder that give them back. -/
def callItems (c : Context) (m : Method) : Option Commands :=
  runItems (callCommand c) ((itemListsOf c m).flatMap itemStatements) {}

def callsOf (c : Context) : Calls := ⟨callCommand c, callItems c⟩

/-! ### Calls for items -/

section Items

variable {command : Method → Option Node}

/-- Statements that list commands add them to one of the lists. -/
theorem runItems_map_list {ms : List Method} {ns : List Node} (h : ms.map command = ns.map some)
    (executable : Bool) (rest : List ItemStatement) (found : Commands) :
    runItems command (ms.map (.list executable) ++ rest) found =
      runItems command rest (found.append (oneList executable ns)) := by
  induction ms generalizing ns found with
  | nil =>
      cases List.map_eq_nil_iff.mp h.symm
      cases executable <;> simp [oneList, Commands.append]
  | cons m ms ih =>
      obtain ⟨n, ns, rfl, hn, hns⟩ := List.map_eq_cons_iff.mp h.symm
      rw [List.map_cons, List.cons_append, runItems, ← hn, Option.bind_some, ih hns.symm, append_assoc]
      cases executable <;> rfl

/-- The lists are given back if every call returns a command. -/
theorem runItems_of_some {items : ItemCommands} {executables containers : List Node}
    (hexecutables : items.executables.map command = executables.map some)
    (hcontainers : items.containers.map command = containers.map some) (rest : List ItemStatement)
    (found : Commands) :
    runItems command (itemStatements items ++ rest) found = some ⟨executables, containers⟩ := by
  simp only [itemStatements, List.append_assoc, List.cons_append, List.nil_append]
  rw [runItems, runItems_map_list hexecutables, runItems_map_list hcontainers, runItems]
  simp [Commands.append, oneList]

/-- A call that returns no command stops before the lists are given back. -/
theorem runItems_stuck {statements : List ItemStatement} {executable : Bool} {t : Method}
    (hgiven : .giveBack ∉ statements) (ht : .list executable t ∈ statements) (hnone : command t = none)
    (rest : List ItemStatement) (found : Commands) :
    runItems command (statements ++ rest) found = none := by
  induction statements generalizing found with
  | nil => cases ht
  | cons s statements ih =>
      rw [List.mem_cons, not_or] at hgiven
      obtain ⟨hs, hgiven⟩ := hgiven
      rw [List.cons_append]
      cases s with
      | start =>
          rcases List.mem_cons.mp ht with heq | ht
          · cases heq
          · exact ih hgiven ht _
      | list b m =>
          rw [runItems]
          rcases List.mem_cons.mp ht with heq | ht
          · cases heq
            rw [hnone]
            rfl
          · cases command m with
            | none => rfl
            | some n => exact ih hgiven ht _
      | giveBack => exact (hs rfl).elim

/-- If one of the items has no command, the statements do not run. -/
theorem runItems_none {items : ItemCommands} {t : Method}
    (ht : t ∈ items.executables ++ items.containers) (hnone : command t = none)
    (rest : List ItemStatement) (found : Commands) :
    runItems command (itemStatements items ++ rest) found = none := by
  have hlisted : ∃ executable, ItemStatement.list executable t ∈
      [ItemStatement.start] ++ items.executables.map (.list true) ++
        items.containers.map (.list false) := by
    rcases List.mem_append.mp ht with ht | ht
    · exact ⟨true, by simp [ht]⟩
    · exact ⟨false, by simp [ht]⟩
  obtain ⟨executable, hlisted⟩ := hlisted
  rw [itemStatements, List.append_assoc]
  exact runItems_stuck (by simp) hlisted hnone _ _

end Items

/-- A builder of items that lists builders of single commands only. -/
def ListsSingles (c : Context) (m : Method) : Prop :=
  ∃ items ∈ itemListsOf c m, ∀ t ∈ items.executables ++ items.containers, returnsItems t = false

instance (c : Context) (m : Method) : Decidable (ListsSingles c m) :=
  inferInstanceAs (Decidable (∃ items ∈ itemListsOf c m, ∀ t ∈ _, returnsItems t = false))

/-- Steady computations along a list have the values that they end with. -/
theorem map_value_of_mapM {α β : Type} {f : α → Assembly β} (hf : ∀ a, Steady (f a)) {xs : List α}
    {ys : List β} (h : Ends (xs.mapM f) (.ok ys)) : xs.map (fun x => (f x).value) = ys.map some := by
  induction xs generalizing ys with
  | nil =>
      rw [List.mapM_nil] at h
      cases h.of_pure
      rfl
  | cons x xs ih =>
      rw [List.mapM_cons] at h
      obtain ⟨y, hfirst, hrest⟩ := h.bind_ok
      obtain ⟨rest, hmapped, hpure⟩ := hrest.bind_ok
      cases hpure.of_pure
      rw [List.map_cons, List.map_cons, hfirst.value (hf x), ih hmapped]

/-- Containers that are single commands give one container each. -/
theorem containers_of_singles {v : Evaluator} (hv : v.Steady) {ms : List Method}
    (hms : ∀ m ∈ ms, returnsItems m = false) {parts : List Commands} (found : Commands)
    (h : Ends (ms.mapM (evaluateContainer v)) (.ok parts)) :
    ∃ ns, ms.map (fun m => (v.command m).value) = ns.map some ∧
      parts.foldl Commands.append found = found.append ⟨[], ns⟩ := by
  induction ms generalizing parts found with
  | nil =>
      rw [List.mapM_nil] at h
      cases h.of_pure
      exact ⟨[], rfl, (append_empty found).symm⟩
  | cons m ms ih =>
      rw [List.mapM_cons] at h
      obtain ⟨part, hfirst, hrest⟩ := h.bind_ok
      obtain ⟨rest, hmapped, hpure⟩ := hrest.bind_ok
      cases hpure.of_pure
      obtain ⟨hm, hms⟩ := List.forall_mem_cons.mp hms
      rw [evaluateContainer, if_neg (by simp [hm])] at hfirst
      obtain ⟨n, hn, hpart⟩ := hfirst.bind_ok
      cases hpart.of_pure
      obtain ⟨ns, hns, hfold⟩ := ih hms (found.append ⟨[], [n]⟩) hmapped
      refine ⟨n :: ns, ?_, ?_⟩
      · rw [List.map_cons, List.map_cons, hn.value (hv.command m), hns]
      · rw [List.foldl_cons, hfold, append_assoc]
        rfl

/-- The items of a builder are what the body gives back, each evaluated from scratch. -/
theorem evaluateItems_whole {c : Context} {m : Method} (hm : IsDeclared c.graph m) {found : Commands}
    (h : Ends ((whole c).items m) (.ok found)) :
    Ends (evaluateItems (commandEngine c) (whole c) m) (.ok found) := by
  have hv : IsDeclared c.graph (Visit.items m).method := hm
  have hsucceeds : (whole c).Succeeds (.items m) := ⟨found, h⟩
  have hagree : ∀ w, Follows (commandEngine c) (.items m) w →
      (evaluator (commandEngine c) (inside (methodIds c.graph) m)).Agree (whole c) w := fun w hw =>
    agree_whole (hw.declared hv.isCommandBuilder) (hsucceeds.next hv.isCommandBuilder w hw)
  rw [← evaluateItems_congr hagree, ← evaluator_items_of_mem (m := m) (Succeeds.mem_pending hsucceeds)]
  exact h

/-- A call for items gives what the tree has there, or nothing if items are nested. -/
theorem callItems_eq {c : Context} {m : Method} (hm : IsDeclared c.graph m) {found : Commands}
    (h : Ends ((whole c).items m) (.ok found)) :
    (ListsSingles c m → callItems c m = some found) ∧ (¬ ListsSingles c m → callItems c m = none) := by
  obtain ⟨body, hplanned, hfold⟩ := (evaluateItems_whole hm h).bind_ok
  have hbody := hplanned.of_bodyOf.symm
  have hlists : itemListsOf c m = itemLists body := by
    rw [itemListsOf, hbody]
  unfold callItems ListsSingles
  rw [hlists]
  rcases itemLists_of_synthesize hm.isCommandBuilder hbody with hnone | ⟨items, hitems⟩
  · simp [hnone, runItems]
  · rw [hitems, List.flatMap_cons]
    simp only [List.mem_singleton, exists_eq_left]
    constructor
    · intro hsingles
      rw [hitems, List.foldlM_cons] at hfold
      obtain ⟨found', hstep, hend⟩ := hfold.bind_ok
      cases hend.of_pure
      obtain ⟨executables, hexecutables, hstep⟩ := hstep.bind_ok
      obtain ⟨parts, hparts, hpure⟩ := hstep.bind_ok
      cases hpure.of_pure
      have hcall : ∀ ms : List Method, (∀ t ∈ ms, returnsItems t = false) →
          ms.map (callCommand c) = ms.map fun t => ((whole c).command t).value := fun ms hms =>
        List.map_congr_left fun t ht => by simp [callCommand, hms t ht]
      have hlisted := fun t ht => hsingles t (List.mem_append_left _ ht)
      have hcontained := fun t ht => hsingles t (List.mem_append_right _ ht)
      obtain ⟨ns, hns, hfolded⟩ := containers_of_singles (steady_whole c) hcontained
        (Commands.append {} ⟨executables, []⟩) hparts
      rw [runItems_of_some
        ((hcall _ hlisted).trans (map_value_of_mapM (steady_whole c).command hexecutables))
        ((hcall _ hcontained).trans hns), hfolded]
      simp [Commands.append]
    · intro hnested
      simp only [not_forall, Bool.not_eq_false] at hnested
      obtain ⟨t, ht, hreturns⟩ := hnested
      exact runItems_none ht (by simp [callCommand, hreturns]) _ _

/-! ### Statements for a list of sub-commands -/

section RunAll

variable {c : Context} {calls : Calls}

/-- A call returns what the tree has for a sub-command. -/
def Answers (c : Context) (calls : Calls) (s : SubCommand) : Prop :=
  if s.items then calls.items s.method = some (givenItems c s)
  else (calls.command s.method).toList = given c s ∧ given c s ≠ []

/-- What a sub-command adds at its own place. -/
def contribution (c : Context) (s : SubCommand) : List Node :=
  if s.items then (givenItems c s).executables ++ (givenItems c s).containers else given c s

/-- A sub-command without items gives one command. -/
theorem exists_of_answers {s : SubCommand} (hitems : ¬ s.items = true) (h : Answers c calls s) :
    ∃ n, calls.command s.method = some n ∧ given c s = [n] := by
  rw [Answers, if_neg hitems] at h
  cases hcall : calls.command s.method with
  | none =>
      rw [hcall] at h
      exact (h.2 h.1.symm).elim
  | some n =>
      rw [hcall] at h
      exact ⟨n, rfl, h.1.symm⟩

/-- Direct statements add what each sub-command contributes, in order. -/
theorem runAll_direct {subs : List SubCommand} (h : ∀ s ∈ subs, Answers c calls s) (taken : Nat)
    (p : Progress) :
    ∃ held, runAll calls (attachEach true taken subs) p =
      some ⟨held, p.lists, p.added ++ subs.flatMap (contribution c)⟩ := by
  induction subs generalizing taken p with
  | nil => exact ⟨p.held, by simp [runAll, attachEach]⟩
  | cons s subs ih =>
      obtain ⟨hs, hsubs⟩ := List.forall_mem_cons.mp h
      unfold attachEach
      by_cases hitems : s.items = true
      · rw [Answers, if_pos hitems] at hs
        obtain ⟨held, hrest⟩ := ih hsubs (taken + 1)
          ⟨(temporary "cmds" taken, givenItems c s) :: p.held, p.lists,
            p.added ++ ((givenItems c s).executables ++ (givenItems c s).containers)⟩
        refine ⟨held, ?_⟩
        simp only [runAll] at hrest ⊢
        simp [hitems, Attachment.run, hs, hrest, contribution]
      · obtain ⟨n, hcall, hgiven⟩ := exists_of_answers hitems hs
        obtain ⟨held, hrest⟩ := ih hsubs taken ⟨p.held, p.lists, p.added ++ [n]⟩
        refine ⟨held, ?_⟩
        simp only [runAll] at hrest ⊢
        simp [hitems, Attachment.run, hcall, hrest, contribution, hgiven]

/-- Grouped statements put what each sub-command contributes on the lists. -/
theorem runAll_grouped {subs : List SubCommand} (h : ∀ s ∈ subs, Answers c calls s) (taken : Nat)
    (p : Progress) :
    ∃ held, runAll calls (attachEach false taken subs) p =
      some ⟨held, p.lists.append (gathered c (·.http.isSome) subs), p.added⟩ := by
  induction subs generalizing taken p with
  | nil => exact ⟨p.held, by simp [runAll, attachEach, append_empty]⟩
  | cons s subs ih =>
      obtain ⟨hs, hsubs⟩ := List.forall_mem_cons.mp h
      unfold attachEach
      by_cases hitems : s.items = true
      · rw [Answers, if_pos hitems] at hs
        obtain ⟨held, hrest⟩ := ih hsubs (taken + 1)
          ⟨(temporary "cmds" taken, givenItems c s) :: p.held, p.lists.append (givenItems c s), p.added⟩
        refine ⟨held, ?_⟩
        simp only [runAll] at hrest ⊢
        simp [hitems, Attachment.run, hs, hrest, share, append_assoc]
      · obtain ⟨n, hcall, hgiven⟩ := exists_of_answers hitems hs
        by_cases hhttp : s.method.http.isSome = true
        · obtain ⟨held, hrest⟩ := ih hsubs taken ⟨p.held, p.lists.append ⟨[n], []⟩, p.added⟩
          refine ⟨held, ?_⟩
          simp only [runAll] at hrest ⊢
          simp [hitems, hhttp, Attachment.run, hcall, hrest, share, hgiven, append_assoc]
        · obtain ⟨held, hrest⟩ := ih hsubs taken ⟨p.held, p.lists.append ⟨[], [n]⟩, p.added⟩
          refine ⟨held, ?_⟩
          simp only [runAll] at hrest ⊢
          simp [hitems, hhttp, Attachment.run, hcall, hrest, share, hgiven, append_assoc]

/-- A call for items that returns none stops the statements. -/
theorem runAll_none {subs : List SubCommand} {s : SubCommand} (hs : s ∈ subs)
    (hitems : s.items = true) (hnone : calls.items s.method = none) (direct : Bool) (taken : Nat)
    (p : Progress) : runAll calls (attachEach direct taken subs) p = none := by
  induction subs generalizing taken p with
  | nil => cases hs
  | cons s' subs ih =>
      rcases List.mem_cons.mp hs with rfl | hs
      · unfold attachEach
        rw [if_pos hitems]
        simp [runAll, Attachment.run, hnone]
      · have hstop : ∀ before taken', runAll calls (before ++ attachEach direct taken' subs) p = none := by
          intro before taken'
          rw [runAll, List.foldlM_append]
          exact Option.bind_eq_none_iff.mpr fun p' _ => ih hs taken' p'
        unfold attachEach
        split
        · exact hstop _ _
        · exact hstop [_] _

end RunAll

end ClientForge.Render.CSharp
