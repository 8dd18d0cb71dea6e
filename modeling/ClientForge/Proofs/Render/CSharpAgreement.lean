import ClientForge.Proofs.Render.CSharpAttaching

/-!
# The program and the tree

When the commands that the C# statements attach are those that the assembled tree has, in the same groups and
in the same order (`attaches_iff_faithful`). Four things have to come together (`Faithful`):

* items are not nested, as a call for items is no command;
* what is added directly stands in the order in which the tree takes it, single commands before items
  (`map_snd_byRank_iff`);
* a builder that runs a request has its HTTP method itself and not only through the method that it stands for
  (`gathered_eq_iff`);
* code points and code units order the names of containers alike (`ordered_eq_ordinallyOrdered_iff`).
-/

namespace ClientForge.Render.CSharp

open ClientForge.Graph ClientForge.Plan ClientForge.Command Assembly Evaluator Relation

/-! ### Commands with distinct names -/

/-- Of elements with distinct names there is one for each name. -/
theorem eq_of_name_eq {α : Type} {name : α → String} {xs : List α}
    (h : xs.Pairwise fun a b => Text.foldEq (name a) (name b) = false) {a b : α} (ha : a ∈ xs)
    (hb : b ∈ xs) (heq : name a = name b) : a = b := by
  have hforward : xs.Pairwise fun a b => name a = name b → a = b := by
    refine h.imp fun {a b} hne heq => ?_
    rw [heq, Text.foldEq_refl] at hne
    cases hne
  have hbackward : xs.Pairwise (flip fun a b => name a = name b → a = b) :=
    hforward.imp fun {a b} h heq => (h heq.symm).symm
  exact List.Pairwise.forall_of_forall_of_flip (fun _ _ _ => rfl) hforward hbackward ha hb heq

/-- A function that tells the elements of two lists apart tells the lists apart. -/
theorem eq_of_map_eq {α β : Type} {f : α → β} {xs ys : List α}
    (hinj : ∀ x ∈ xs, ∀ y ∈ ys, f x = f y → x = y) (h : xs.map f = ys.map f) : xs = ys := by
  induction xs generalizing ys with
  | nil => exact (List.map_eq_nil_iff.mp h.symm).symm
  | cons x xs ih =>
      obtain ⟨y, ys, rfl, hy, hys⟩ := List.map_eq_cons_iff.mp h.symm
      obtain ⟨hx, hxs⟩ := List.forall_mem_cons.mp hinj
      rw [hx y List.mem_cons_self hy.symm,
        ih (fun x hx y hy => hxs x hx y (List.mem_cons_of_mem _ hy)) hys.symm]

/-! ### Order -/

/-- What sub-commands add, each with its rank in the tree: single commands come first, then the executable
commands of items, then their containers. -/
def ranked (c : Context) (subs : List SubCommand) : List (Nat × Node) :=
  subs.flatMap fun s =>
    if s.items then
      (givenItems c s).executables.map (1, ·) ++ (givenItems c s).containers.map (2, ·)
    else (given c s).map (0, ·)

/-- The elements of a rank. -/
def ofRank (rank : Nat) (xs : List (Nat × Node)) : List (Nat × Node) := xs.filter (·.1 == rank)

theorem map_snd_ranked (c : Context) (subs : List SubCommand) :
    (ranked c subs).map (·.2) = subs.flatMap (contribution c) := by
  unfold ranked
  rw [List.map_flatMap]
  congr 1
  funext s
  unfold contribution
  split <;> simp [Function.comp_def]

theorem rank_le {c : Context} {subs : List SubCommand} {x : Nat × Node} (h : x ∈ ranked c subs) :
    x.1 = 0 ∨ x.1 = 1 ∨ x.1 = 2 := by
  obtain ⟨s, _, hx⟩ := List.mem_flatMap.mp h
  split at hx
  · rcases List.mem_append.mp hx with hx | hx
    · obtain ⟨n, _, rfl⟩ := List.mem_map.mp hx
      exact Or.inr (Or.inl rfl)
    · obtain ⟨n, _, rfl⟩ := List.mem_map.mp hx
      exact Or.inr (Or.inr rfl)
  · obtain ⟨n, _, rfl⟩ := List.mem_map.mp hx
    exact Or.inl rfl

section Ranks

variable (c : Context) (test : Method → Bool) (subs : List SubCommand)

/-- What has a rank comes from some sub-commands, in their order, if this is so for each one. -/
theorem map_snd_ofRank_ranked {rank : Nat} {p : SubCommand → Bool} {f : SubCommand → List Node}
    (h : ∀ s, (ofRank rank (ranked c [s])).map (·.2) = if p s then f s else []) :
    (ofRank rank (ranked c subs)).map (·.2) = (subs.filter p).flatMap f := by
  induction subs with
  | nil => rfl
  | cons s subs ih =>
      have hcons : ranked c (s :: subs) = ranked c [s] ++ ranked c subs := by
        simp [ranked]
      rw [hcons, ofRank, List.filter_append, List.map_append]
      change (ofRank rank (ranked c [s])).map (·.2) ++ (ofRank rank (ranked c subs)).map (·.2) = _
      rw [h, ih]
      cases hp : p s <;> simp [hp]

theorem ofRank_zero_ranked :
    (ofRank 0 (ranked c subs)).map (·.2) = (subs.filter (!·.items)).flatMap (given c) := by
  apply map_snd_ofRank_ranked
  intro s
  cases hitems : s.items <;> simp [ofRank, ranked, hitems, List.filter_map, Function.comp_def]

/-- Among items no test is asked. -/
theorem gathered_items :
    gathered c test (subs.filter (·.items)) =
      ⟨(subs.filter (·.items)).flatMap fun s => (givenItems c s).executables,
        (subs.filter (·.items)).flatMap fun s => (givenItems c s).containers⟩ := by
  have hshare : ∀ s ∈ subs.filter (·.items), share c test s = givenItems c s := fun s hs => by
    rw [share, if_pos (List.mem_filter.mp hs).2]
  unfold gathered
  congr 1 <;> exact List.flatMap_congr fun s hs => by rw [hshare s hs]

/-- The executable items are those of the first rank behind direct commands. -/
theorem ofRank_one_ranked :
    (ofRank 1 (ranked c subs)).map (·.2) =
      (gathered c test (subs.filter (·.items))).executables := by
  rw [gathered_items]
  apply map_snd_ofRank_ranked
  intro s
  cases hitems : s.items <;> simp [ofRank, ranked, hitems, List.filter_map, Function.comp_def]

/-- The containers among the items are of the last rank. -/
theorem ofRank_two_ranked :
    (ofRank 2 (ranked c subs)).map (·.2) =
      (gathered c test (subs.filter (·.items))).containers := by
  rw [gathered_items]
  apply map_snd_ofRank_ranked
  intro s
  cases hitems : s.items <;> simp [ofRank, ranked, hitems, List.filter_map, Function.comp_def]

end Ranks

/-- The elements rank by rank. -/
def byRank (xs : List (Nat × Node)) : List (Nat × Node) := ofRank 0 xs ++ (ofRank 1 xs ++ ofRank 2 xs)

/-- Added directly, the tree takes the commands rank by rank. -/
theorem attached_direct {c : Context} {add : AddSubCommands} (hdirect : add.direct = true)
    (hsorted : add.sortContainers = false) :
    attached c add = (byRank (ranked c add.commands)).map (·.2) := by
  rw [attached, if_pos hdirect, hsorted, byRank, List.map_append, List.map_append,
    ofRank_zero_ranked, ofRank_one_ranked c (isExecutable c.graph),
    ofRank_two_ranked c (isExecutable c.graph)]
  rfl

section ByRank

variable {xs : List (Nat × Node)} (hranks : ∀ x ∈ xs, x.1 = 0 ∨ x.1 = 1 ∨ x.1 = 2)
include hranks

theorem mem_byRank_iff {x : Nat × Node} : x ∈ byRank xs ↔ x ∈ xs := by
  simp only [byRank, ofRank, List.mem_append, List.mem_filter, beq_iff_eq]
  constructor
  · rintro (⟨hx, _⟩ | ⟨hx, _⟩ | ⟨hx, _⟩) <;> exact hx
  · intro hx
    rcases hranks x hx with h | h | h
    · exact Or.inl ⟨hx, h⟩
    · exact Or.inr (Or.inl ⟨hx, h⟩)
    · exact Or.inr (Or.inr ⟨hx, h⟩)

omit hranks in
/-- A list falls apart where a test stops to hold for good. -/
theorem filter_append_of_pairwise {p : Nat × Node → Bool}
    (h : xs.Pairwise fun x y => p y = true → p x = true) :
    xs.filter p ++ xs.filter (!p ·) = xs := by
  induction xs with
  | nil => rfl
  | cons x xs ih =>
      obtain ⟨hx, h⟩ := List.pairwise_cons.mp h
      by_cases hp : p x = true
      · rw [List.filter_cons_of_pos hp, List.filter_cons_of_neg (by simp [hp]), List.cons_append, ih h]
      · have hnone : ∀ y ∈ xs, ¬ p y = true := fun y hy hpy => hp (hx y hy hpy)
        rw [List.filter_cons_of_neg hp, List.filter_eq_nil_iff.mpr hnone,
          List.filter_cons_of_pos (by simpa using hp), List.nil_append,
          List.filter_eq_self.mpr fun y hy => by simpa using hnone y hy]

/-- Elements of ascending rank are in the order of the ranks. -/
theorem byRank_of_pairwise (h : xs.Pairwise (·.1 ≤ ·.1)) : byRank xs = xs := by
  have hone : ofRank 1 xs = (xs.filter fun x => !(x.1 == 0)).filter (·.1 == 1) := by
    rw [List.filter_filter]
    refine List.filter_congr fun x hx => ?_
    rcases hranks x hx with h | h | h <;> simp [h]
  have htwo : ofRank 2 xs = (xs.filter fun x => !(x.1 == 0)).filter fun x => !(x.1 == 1) := by
    rw [List.filter_filter]
    refine List.filter_congr fun x hx => ?_
    rcases hranks x hx with h | h | h <;> simp [h]
  rw [byRank, hone, htwo, filter_append_of_pairwise, ofRank, filter_append_of_pairwise]
  · refine h.imp fun {x y} hle hy => ?_
    simp only [beq_iff_eq] at hy ⊢
    omega
  · refine (h.sublist List.filter_sublist).imp_of_mem fun {x y} hx hy hle hone => ?_
    have hx := (List.mem_filter.mp hx).2
    simp only [Bool.not_eq_true', beq_eq_false_iff_ne, beq_iff_eq] at hx hone ⊢
    omega

omit hranks in
theorem pairwise_byRank : (byRank xs).Pairwise (·.1 ≤ ·.1) := by
  have hrank : ∀ {rank : Nat} {x : Nat × Node}, x ∈ ofRank rank xs → x.1 = rank := fun hx =>
    by simpa using (List.mem_filter.mp hx).2
  have hone : ∀ rank, (ofRank rank xs).Pairwise (·.1 ≤ ·.1) := fun rank =>
    List.pairwise_of_forall_mem_list fun x hx y hy => Nat.le_of_eq ((hrank hx).trans (hrank hy).symm)
  refine List.pairwise_append.mpr ⟨hone 0, List.pairwise_append.mpr ⟨hone 1, hone 2, ?_⟩, ?_⟩
  · intro x hx y hy
    rw [hrank hx, hrank hy]
    decide
  · intro x hx y _
    rw [hrank hx]
    exact Nat.zero_le _

/-- Of distinct names, the commands rank by rank are the commands in their own order if and only if the ranks
ascend. -/
theorem map_snd_byRank_iff
    (hdistinct : ((byRank xs).map (·.2)).Pairwise fun a b => Text.foldEq a.name b.name = false) :
    (byRank xs).map (·.2) = xs.map (·.2) ↔ xs.Pairwise (·.1 ≤ ·.1) := by
  constructor
  · intro heq
    have hname : (byRank xs).Pairwise fun x y => Text.foldEq x.2.name y.2.name = false :=
      List.pairwise_map.mp hdistinct
    have hsame : byRank xs = xs :=
      eq_of_map_eq (fun x hx y hy hxy =>
        eq_of_name_eq hname hx ((mem_byRank_iff hranks).mpr hy) (congrArg Node.name hxy)) heq
    rw [← hsame]
    exact pairwise_byRank
  · intro h
    rw [byRank_of_pairwise hranks h]

end ByRank

/-! ### Grouping -/

section Grouping

variable {c : Context} {subs : List SubCommand}

/-- A command that is given goes to the list that the test puts it on. -/
theorem mem_gathered (test : Method → Bool) {s : SubCommand} (hs : s ∈ subs) (hitems : s.items = false) {n : Node}
    (hn : n ∈ given c s) :
    if test s.method then n ∈ (gathered c test subs).executables
    else n ∈ (gathered c test subs).containers := by
  split <;> rename_i htest <;> refine List.mem_flatMap.mpr ⟨s, hs, ?_⟩
  · simpa [share, hitems, htest] using hn
  · simpa [share, hitems, htest] using hn

/-- Two tests group the commands in the same way if and only if they agree on what is a single command, as no
command is in both groups. -/
theorem gathered_eq_iff {test test' : Method → Bool}
    (hgiven : ∀ s ∈ subs, s.items = false → given c s ≠ [])
    (hapart : ∀ n ∈ (gathered c test subs).executables, n ∉ (gathered c test subs).containers) :
    gathered c test' subs = gathered c test subs ↔
      ∀ s ∈ subs, s.items = false → test s.method = test' s.method := by
  constructor
  · intro heq s hs hitems
    obtain ⟨n, hn⟩ := List.exists_mem_of_ne_nil _ (hgiven s hs hitems)
    have hmem := mem_gathered test hs hitems hn
    have hmem' := mem_gathered test' hs hitems hn
    rw [heq] at hmem'
    cases htest : test s.method <;> cases htest' : test' s.method <;> simp only [htest, htest'] at hmem hmem'
    · rfl
    · exact (hapart n hmem' hmem).elim
    · exact (hapart n hmem hmem').elim
    · rfl
  · intro hagree
    have hshare : ∀ s ∈ subs, share c test' s = share c test s := by
      intro s hs
      unfold share
      split
      · rfl
      · rename_i hitems
        rw [hagree s hs (by simpa using hitems)]
    unfold gathered
    congr 1 <;> exact List.flatMap_congr fun s hs => by rw [hshare s hs]

end Grouping

/-! ### Sorting -/

/-- The order in which the statements add the commands of two lists. -/
def ordinallyOrdered (lists : Commands) (sorted : Bool) : List Node :=
  lists.executables ++
    if sorted then lists.containers.mergeSort fun a b => Text.ordinalLe a.name b.name
    else lists.containers

/-- Of distinct names, no command is both executable and a container. -/
theorem apart_of_ordered {found : Commands} {sorted : Bool}
    (hdistinct : (found.ordered sorted).Pairwise fun a b => Text.foldEq a.name b.name = false) :
    ∀ n ∈ found.executables, n ∉ found.containers := by
  intro n hn hn'
  have hmem : n ∈ if sorted then found.containers.mergeSort fun a b => decide (a.name ≤ b.name)
      else found.containers := by
    split
    · exact List.mem_mergeSort.mpr hn'
    · exact hn'
  have hne := (List.pairwise_append.mp hdistinct).2.2 n hn n hmem
  rw [Text.foldEq_refl] at hne
  cases hne

/-- Containers with distinct names are sorted in the same way if and only if the two orders agree on their
names. -/
theorem ordered_eq_ordinallyOrdered_iff {found : Commands} {sorted : Bool}
    (hdistinct : (found.ordered sorted).Pairwise fun a b => Text.foldEq a.name b.name = false) :
    found.ordered sorted = ordinallyOrdered found sorted ↔
      (sorted = true → ∀ a ∈ found.containers, ∀ b ∈ found.containers,
        decide (a.name ≤ b.name) = Text.ordinalLe a.name b.name) := by
  cases sorted with
  | false => simp [Commands.ordered, ordinallyOrdered]
  | true =>
      simp only [Commands.ordered, ordinallyOrdered, if_true, List.append_cancel_left_eq,
        forall_const] at hdistinct ⊢
      have hsorted := (List.pairwise_append.mp hdistinct).2.1
      have heq : ∀ a ∈ found.containers, ∀ b ∈ found.containers, a.name = b.name → a = b :=
        fun a ha b hb => eq_of_name_eq hsorted (List.mem_mergeSort.mpr ha) (List.mem_mergeSort.mpr hb)
      apply Text.mergeSort_eq_iff
      · intro a b c hab hbc
        simp only [decide_eq_true_eq] at hab hbc ⊢
        exact String.le_trans hab hbc
      · intro a b
        simpa using String.le_total a.name b.name
      · exact fun a b c => Text.ordinalLe_trans
      · exact fun a b => Text.ordinalLe_total a.name b.name
      · intro a ha b hb hab hba
        simp only [decide_eq_true_eq] at hab hba
        exact heq a ha b hb (String.le_antisymm hab hba)
      · exact fun a ha b hb hab hba => heq a ha b hb (Text.eq_of_ordinalLe hab hba)

/-! ### Statements of an operation -/

section Attachments

variable {c : Context} {calls : Calls} {add : AddSubCommands}

/-- Added directly, commands come in the order of the sub-commands. -/
theorem runAll_attachments_direct (hdirect : add.direct = true)
    (h : ∀ s ∈ add.commands, Answers c calls s) (taken : Nat) :
    ∃ held, runAll calls (attachments taken add) {} =
      some ⟨held, {}, add.commands.flatMap (contribution c)⟩ := by
  obtain ⟨held, hrun⟩ := runAll_direct h taken {}
  rw [attachments, if_pos hdirect]
  exact ⟨held, hrun⟩

/-- Added in groups, they come as the two lists are ordered. -/
theorem runAll_attachments_grouped (hdirect : add.direct = false)
    (h : ∀ s ∈ add.commands, Answers c calls s) (taken : Nat) :
    ∃ held, runAll calls (attachments taken add) {} =
      some ⟨held, gathered c (·.http.isSome) add.commands,
        ordinallyOrdered (gathered c (·.http.isSome) add.commands) add.sortContainers⟩ := by
  obtain ⟨held, hrun⟩ := runAll_grouped h taken {}
  refine ⟨held, ?_⟩
  simp only [runAll, empty_append] at hrun
  simp [attachments, hdirect, runAll, Attachment.run, hrun, ordinallyOrdered]

/-- Without items to call, the statements do not run. -/
theorem runAll_attachments_none {s : SubCommand} (hs : s ∈ add.commands) (hitems : s.items = true)
    (hnone : calls.items s.method = none) (taken : Nat) :
    runAll calls (attachments taken add) {} = none := by
  have hstop := runAll_none hs hitems hnone
  unfold attachments
  split
  · exact hstop true taken {}
  · simp only [runAll] at hstop
    simp [runAll, Attachment.run, hstop]

end Attachments

/-- The calls of single commands and of items that list single commands return what the tree has. -/
theorem answers_callsOf {c : Context} {s : SubCommand} (hs : IsDeclared c.graph s.method)
    (hreturns : s.items = returnsItems s.method) (h : (whole c).Succeeds (.ofSubCommand s))
    (hsingles : s.items = true → ListsSingles c s.method) : Answers c (callsOf c) s := by
  unfold Answers
  unfold Visit.ofSubCommand at h
  split
  · rename_i hitems
    rw [if_pos hitems] at h
    obtain ⟨found, hfound⟩ := h
    rw [givenItems_of_ends hfound]
    exact (callItems_eq hs hfound).1 (hsingles hitems)
  · rename_i hitems
    rw [if_neg hitems] at h
    obtain ⟨n, hn⟩ := h
    rw [given_of_ends hn]
    rw [hreturns] at hitems
    simp [callsOf, callCommand, hitems, hn.value ((steady_whole c).command _)]

/-! ### Agreement -/

/-- The statements of an operation attach what the tree has: the same children in the same order, and, unless
they are added directly, in the same two groups. -/
def Attaches (c : Context) (taken : Nat) (add : AddSubCommands) (n : Node) (found : Commands)
    (n' : Node) : Prop :=
  ∃ final, runAll (callsOf c) (attachments taken add) {} = some final ∧
    n'.children = n.children ++ final.added ∧ (add.direct = false → final.lists = found)

/-- What it takes for the statements of an operation to attach what the tree has. -/
structure Faithful (c : Context) (add : AddSubCommands) (found : Commands) : Prop where
  /-- Items are not nested. -/
  singles : ∀ s ∈ add.commands, s.items = true → ListsSingles c s.method
  /-- Single commands are added before items, and executable ones of items before containers. -/
  ascending : add.direct = true → (ranked c add.commands).Pairwise (·.1 ≤ ·.1)
  /-- Whether a single command runs a request shows in its own builder. -/
  classified : add.direct = false → ∀ s ∈ add.commands, s.items = false →
    isExecutable c.graph s.method = s.method.http.isSome
  /-- Code points and code units order the containers alike. -/
  sorted : add.sortContainers = true → ∀ a ∈ found.containers, ∀ b ∈ found.containers,
    decide (a.name ≤ b.name) = Text.ordinalLe a.name b.name

section Attaches

variable {c : Context} {add : AddSubCommands} {n n' : Node} {found : Commands} {taken : Nat}

/-- The statements attach what assembling does if they add the same and leave the same lists. -/
theorem attaches_iff {final : Progress}
    (hrun : runAll (callsOf c) (attachments taken add) {} = some final)
    (hextends : Extends n (attached c add) n') :
    Attaches c taken add n found n' ↔
      attached c add = final.added ∧ (add.direct = false → final.lists = found) := by
  unfold Attaches
  simp only [hrun, Option.some.injEq, exists_eq_left', hextends.children, List.append_cancel_left_eq]

/-- Added directly, commands agree exactly if their ranks ascend. -/
theorem attaches_direct_iff (hdirect : add.direct = true) (hsorted : add.sortContainers = false)
    (hanswers : ∀ s ∈ add.commands, Answers c (callsOf c) s)
    (hextends : Extends n (attached c add) n') :
    Attaches c taken add n found n' ↔ (ranked c add.commands).Pairwise (·.1 ≤ ·.1) := by
  obtain ⟨held, hrun⟩ := runAll_attachments_direct hdirect hanswers taken
  have hdistinct := hextends.distinct
  rw [attaches_iff hrun hextends]
  simp only [hdirect, Bool.true_eq_false, false_implies, and_true]
  rw [attached_direct hdirect hsorted] at hdistinct ⊢
  rw [← map_snd_ranked]
  exact map_snd_byRank_iff (fun _ => rank_le) hdistinct

/-- Added in groups, they agree exactly if both sides take the same ones for executable and sort containers alike. -/
theorem attaches_grouped_iff (hdirect : add.direct = false)
    (hfound : found = gathered c (isExecutable c.graph) add.commands)
    (hanswers : ∀ s ∈ add.commands, Answers c (callsOf c) s)
    (hextends : Extends n (attached c add) n') :
    Attaches c taken add n found n' ↔
      (∀ s ∈ add.commands, s.items = false →
        isExecutable c.graph s.method = s.method.http.isSome) ∧
      (add.sortContainers = true → ∀ a ∈ found.containers, ∀ b ∈ found.containers,
        decide (a.name ≤ b.name) = Text.ordinalLe a.name b.name) := by
  obtain ⟨held, hrun⟩ := runAll_attachments_grouped hdirect hanswers taken
  have hattached : attached c add = found.ordered add.sortContainers := by
    rw [attached, if_neg (by simp [hdirect]), hfound]
  have hdistinct := hextends.distinct
  rw [hattached] at hdistinct
  have hgiven : ∀ s ∈ add.commands, s.items = false → given c s ≠ [] := fun s hs hitems => by
    obtain ⟨child, _, hchild⟩ := exists_of_answers (by simp [hitems]) (hanswers s hs)
    simp [hchild]
  have hclassified : gathered c (·.http.isSome) add.commands = found ↔
      ∀ s ∈ add.commands, s.items = false →
        isExecutable c.graph s.method = s.method.http.isSome := by
    have hapart := apart_of_ordered hdistinct
    rw [hfound] at hapart ⊢
    exact gathered_eq_iff hgiven hapart
  rw [attaches_iff hrun hextends, hattached, ← ordered_eq_ordinallyOrdered_iff hdistinct, ← hclassified]
  simp only [hdirect, true_implies]
  constructor
  · rintro ⟨hsame, hlists⟩
    rw [hlists] at hsame
    exact ⟨hlists, hsame⟩
  · rintro ⟨hlists, hsame⟩
    rw [hlists]
    exact ⟨hsame, rfl⟩

/-- A call for nested items stops the statements. -/
theorem not_attaches_of_nested {s : SubCommand} (hs : s ∈ add.commands) (hitems : s.items = true)
    (hdeclared : IsDeclared c.graph s.method) (hsucceeds : (whole c).Succeeds (.ofSubCommand s))
    (hnested : ¬ ListsSingles c s.method) : ¬ Attaches c taken add n found n' := by
  rw [Visit.ofSubCommand, if_pos hitems] at hsucceeds
  obtain ⟨more, hmore⟩ := hsucceeds
  rintro ⟨final, hrun, _⟩
  rw [runAll_attachments_none hs hitems ((callItems_eq hdeclared hmore).2 hnested) taken] at hrun
  cases hrun

end Attaches

/-! ### Samples -/

namespace Sample

open Command.Sample

/-- A client for users whose items come before their mail. -/
def itemsFirst : Context :=
  ⟨graph [builder 0 "Users" [way 0 "Mail" 2] [item 0 1]
        [member 0 0 "Users" .clientConstructor,
          { member 0 1 "BuildRootCommand" .commandBuilder with representedMethod := some ⟨⟨0⟩, 0⟩ },
          items 0 2, navigation 0 3 "Mail" 0],
      builder 1 "User" [way 1 "Notes" 2] [] [navigation 1 0 "Notes" 0], builder 2 "Mail" [] [] []],
    Convention.Language.cli.policy, {}⟩

theorem assemble_itemsFirst :
    ∃ tree planned, (assemble (commandEngine itemsFirst)).run.run [] = (.ok tree, planned) := by
  have hok : ((assemble (commandEngine itemsFirst)).run.run []).1.toOption.isSome = true := by
    decide +kernel
  rcases hrun : (assemble (commandEngine itemsFirst)).run.run [] with ⟨_ | tree, planned⟩
  · rw [hrun] at hok
    cases hok
  · exact ⟨tree, planned, rfl⟩

/-- The root of the mailing client adds single commands first, then those of users, of which none is nested. -/
theorem mailing_ascending :
    ∃ root ∈ rootBuilders mailing.graph, ∃ add ∈ additions mailing root,
      add.direct = true ∧ add.sortContainers = false ∧
        (∀ s ∈ add.commands, s.items = true → ListsSingles mailing s.method) ∧
        (ranked mailing add.commands).Pairwise (·.1 ≤ ·.1) := by
  decide +kernel

/-- A sample whose items come before direct commands. -/
theorem itemsFirst_not_ascending :
    ∃ root ∈ rootBuilders itemsFirst.graph, ∃ add ∈ additions itemsFirst root,
      add.direct = true ∧ ¬ (ranked itemsFirst add.commands).Pairwise (·.1 ≤ ·.1) := by
  decide +kernel

end Sample

/-! ### The theorem -/

/-- Wherever a tree is assembled, every operation that adds sub-commands and is reached from the root is
evaluated, and its statements attach what the tree has if and only if the operation is faithful. -/
theorem attaches_iff_faithful {c : Context} {planned planned' : List Method} {tree : Node}
    (h : (assemble (commandEngine c)).run.run planned = (.ok tree, planned')) {root m : Method}
    (hroot : root ∈ rootBuilders c.graph)
    (hreached : ReflTransGen (Follows (commandEngine c)) (.command root) (.command m))
    {add : AddSubCommands} (hadd : add ∈ additions c m) (taken : Nat) :
    (∃ pending n found n',
      Evaluates (commandEngine c) (evaluator (commandEngine c) pending) add n found n') ∧
    ∀ pending n found n',
      Evaluates (commandEngine c) (evaluator (commandEngine c) pending) add n found n' →
        (Attaches c taken add n found n' ↔ Faithful c add found) := by
  obtain ⟨⟨hsubs, hunsorted⟩, hevaluated⟩ := evaluated_of_reached h hroot hreached hadd
  refine ⟨hevaluated, ?_⟩
  intro pending n found n' hevaluates
  have hevaluates := hevaluates.of_pending fun s hs => (hsubs s hs).1
  obtain ⟨hextends, hfound⟩ := hevaluates.extends
  have hsucceeds : ∀ s ∈ add.commands, (whole c).Succeeds (.ofSubCommand s) := by
    obtain ⟨n₁, hcollected, _⟩ := hevaluates
    exact succeeds_of_evaluateSubCommands hcollected
  by_cases hsingles : ∀ s ∈ add.commands, s.items = true → ListsSingles c s.method
  · have hanswers : ∀ s ∈ add.commands, Answers c (callsOf c) s := fun s hs =>
      answers_callsOf (hsubs s hs).1 (hsubs s hs).2 (hsucceeds s hs) (hsingles s hs)
    cases hdirect : add.direct with
    | true =>
        rw [attaches_direct_iff hdirect (hunsorted hdirect) hanswers hextends]
        refine ⟨fun hranks => ⟨hsingles, fun _ => hranks, ?_, ?_⟩, fun hfaithful =>
          hfaithful.ascending hdirect⟩
        · simp [hdirect]
        · simp [hunsorted hdirect]
    | false =>
        rw [attaches_grouped_iff hdirect (hfound hdirect) hanswers hextends]
        refine ⟨fun ⟨hclassified, hsorted⟩ => ⟨hsingles, ?_, fun _ => hclassified, hsorted⟩,
          fun hfaithful => ⟨hfaithful.classified hdirect, hfaithful.sorted⟩⟩
        simp [hdirect]
  · refine ⟨fun hattaches => ?_, fun hfaithful => (hsingles hfaithful.singles).elim⟩
    simp only [not_forall] at hsingles
    obtain ⟨s, hs, hitems, hnested⟩ := hsingles
    exact (not_attaches_of_nested hs hitems (hsubs s hs).1 (hsucceeds s hs) hnested hattaches).elim

open Command.Sample Sample

/-- The root of the mailing client is built as the tree has it. Where items come first it is not: they are
added first, and the tree has them last. -/
theorem mailing_attaches_and_itemsFirst_does_not :
    (∃ root ∈ rootBuilders mailing.graph, ∃ add ∈ additions mailing root, ∃ pending n found n',
      Evaluates (commandEngine mailing) (evaluator (commandEngine mailing) pending) add n found n' ∧
        Attaches mailing 0 add n found n') ∧
    ∃ root ∈ rootBuilders itemsFirst.graph, ∃ add ∈ additions itemsFirst root, ∃ pending n found n',
      Evaluates (commandEngine itemsFirst) (evaluator (commandEngine itemsFirst) pending) add n found n' ∧
        ¬ Attaches itemsFirst 0 add n found n' := by
  constructor
  · obtain ⟨tree, planned, hrun, _⟩ := assemble_mailing
    obtain ⟨root, hroot, add, hadd, hdirect, hunsorted, hsingles, hranks⟩ := mailing_ascending
    obtain ⟨⟨pending, n, found, n', hevaluates⟩, hiff⟩ :=
      attaches_iff_faithful hrun hroot .refl hadd 0
    have hfaithful : Faithful mailing add found :=
      ⟨hsingles, fun _ => hranks, by simp [hdirect], by simp [hunsorted]⟩
    exact ⟨root, hroot, add, hadd, pending, n, found, n', hevaluates,
      (hiff pending n found n' hevaluates).mpr hfaithful⟩
  · obtain ⟨tree, planned, hrun⟩ := assemble_itemsFirst
    obtain ⟨root, hroot, add, hadd, hdirect, hranks⟩ := itemsFirst_not_ascending
    obtain ⟨⟨pending, n, found, n', hevaluates⟩, hiff⟩ :=
      attaches_iff_faithful hrun hroot .refl hadd 0
    exact ⟨root, hroot, add, hadd, pending, n, found, n', hevaluates, fun hattaches =>
      hranks (((hiff pending n found n' hevaluates).mp hattaches).ascending hdirect)⟩

end ClientForge.Render.CSharp
