import ClientForge.Proofs.Command.Cycle
import ClientForge.Proofs.Command.Siblings
import Mathlib.Data.List.Nodup

/-!
# Names of options

Of the values that a request needs only the first of each name gets an option, and then come the options for
the answer, whatever their names. A command that starts from that of another builder has the other's options
too. So the options of a command have different names in some trees only.

* `nodup_options_iff`: when the options of one request have different names;
* `built_of_visited`: the options of a command are those of the builders it was made by, one after the other;
* **`option_names_distinct_iff`.** When the options of a command in an assembled tree have different names.
-/

namespace ClientForge.Command

open ClientForge.Graph ClientForge.Plan Assembly Evaluator Relation

/-! ### Options of a request -/

def optionNames (os : List CommandOption) : List String := os.map (·.name)

/-- No value that a request needs goes by the name of an option for its answer. -/
def AnswerApart (c : Context) (generator executor : Method) : Prop :=
  ∀ q ∈ optionParameters generator executor, Text.isBlankText q.name = false →
    (parameterOption c q).name ∉ optionNames (outputOptions executor)

instance (c : Context) (generator executor : Method) : Decidable (AnswerApart c generator executor) :=
  inferInstanceAs (Decidable (∀ q ∈ optionParameters generator executor, _ → _))

section Request

/-- Making options distinct loses no name but those that were seen before. -/
theorem mem_distinctOptions_iff {seen : List String} {os : List CommandOption} {name : String} :
    name ∈ optionNames (distinctOptions seen os) ↔ name ∈ optionNames os ∧ name ∉ seen := by
  induction os generalizing seen with
  | nil => simp [distinctOptions, optionNames]
  | cons o os ih =>
      unfold optionNames at ih ⊢
      unfold distinctOptions
      by_cases hseen : o.name ∈ seen
      · rw [if_pos (by simpa using hseen), ih, List.map_cons, List.mem_cons]
        constructor
        · exact fun h => ⟨.inr h.1, h.2⟩
        · rintro ⟨rfl | h, hnot⟩
          · exact absurd hseen hnot
          · exact ⟨h, hnot⟩
      · rw [if_neg (by simpa using hseen), List.map_cons, List.map_cons, List.mem_cons, List.mem_cons, ih,
          List.mem_cons]
        by_cases hname : name = o.name
        · simp [hname, hseen]
        · simp [hname]

theorem nodup_distinctOptions (seen : List String) (os : List CommandOption) :
    (optionNames (distinctOptions seen os)).Nodup := by
  induction os generalizing seen with
  | nil => exact List.nodup_nil
  | cons o os ih =>
      unfold distinctOptions
      split
      · exact ih seen
      · refine List.nodup_cons.mpr ⟨fun hmem => ?_, ih _⟩
        exact (mem_distinctOptions_iff.mp hmem).2 List.mem_cons_self

theorem nodup_outputOptions (executor : Method) : (optionNames (outputOptions executor)).Nodup := by
  unfold outputOptions
  split
  · decide
  · decide
  · decide
  · split <;> decide

/-- The options of a request have different names exactly if those for its answer keep apart. -/
theorem nodup_options_iff (c : Context) (generator executor : Method) :
    (optionNames (options c generator executor)).Nodup ↔ AnswerApart c generator executor := by
  have hnames : optionNames (options c generator executor) =
      optionNames (distinctOptions [] (((optionParameters generator executor).filter
        (!Text.isBlankText ·.name)).map (parameterOption c))) ++ optionNames (outputOptions executor) :=
    List.map_append
  rw [hnames, List.nodup_append, and_iff_right (nodup_distinctOptions _ _), and_iff_right (nodup_outputOptions _)]
  constructor
  · intro hdisjoint q hq hblank hmem
    refine hdisjoint _ (mem_distinctOptions_iff.mpr ⟨?_, List.not_mem_nil⟩) _ hmem rfl
    exact List.mem_map_of_mem (List.mem_map_of_mem (List.mem_filter.mpr ⟨hq, by simp [hblank]⟩))
  · intro hapart a ha b hb heq
    obtain ⟨o, ho, rfl⟩ := List.mem_map.mp (mem_distinctOptions_iff.mp ha).1
    obtain ⟨q, hq, rfl⟩ := List.mem_map.mp ho
    obtain ⟨hmem, hblank⟩ := List.mem_filter.mp hq
    exact hapart q hmem (by simpa using hblank) (heq ▸ hb)

end Request

/-! ### Options of the builders of a command -/

/-- The generator and the executor of the request that a builder runs. -/
def requestOf (g : Graph) (m : Method) : Option (Method × Method) :=
  if m.http.isSome then
    (g.representedMethod m).bind fun executor => (g.generatorOf m).toOption.map (·, executor)
  else none

/-- The options that a builder adds to its command. -/
def ownOptions (c : Context) (m : Method) : List CommandOption :=
  (requestOf c.graph m).toList.flatMap fun request => options c request.1 request.2

/-- The builders that a command is made by: one that creates it, and others that each start from the command
of the one before. -/
inductive Origin (c : Context) : Method → List Method → Prop
  | fresh {m : Method} {body : Body} {init : InitCommand}
      (planned : (commandEngine c).synthesize m = .ok body)
      (opened : .command (.initCommand init) ∈ body.operations) (new : init.reused = none) : Origin c m [m]
  | again {m reused : Method} {body : Body} {init : InitCommand} {chain : List Method}
      (planned : (commandEngine c).synthesize m = .ok body)
      (opened : .command (.initCommand init) ∈ body.operations) (old : init.reused = some reused)
      (origin : Origin c reused chain) : Origin c m (chain ++ [m])

/-- No two of the builders of a command add options of one name, and each keeps those for its answer apart. -/
def OptionsApart (c : Context) (chain : List Method) : Prop :=
  (∀ m ∈ chain, ∀ request ∈ requestOf c.graph m, AnswerApart c request.1 request.2) ∧
    chain.Pairwise fun m n => List.Disjoint (optionNames (ownOptions c m)) (optionNames (ownOptions c n))

/-- The builders of a command give it options of distinct names exactly if they keep them apart. -/
theorem nodup_chain_iff (c : Context) (chain : List Method) :
    (optionNames (chain.flatMap (ownOptions c))).Nodup ↔ OptionsApart c chain := by
  have hown : ∀ m, (optionNames (ownOptions c m)).Nodup ↔
      ∀ request ∈ requestOf c.graph m, AnswerApart c request.1 request.2 := by
    intro m
    unfold ownOptions
    cases requestOf c.graph m with
    | none => simp [optionNames]
    | some request => simp [nodup_options_iff]
  have hnames : optionNames (chain.flatMap (ownOptions c)) = chain.flatMap fun m => optionNames (ownOptions c m) :=
    List.map_flatMap
  rw [hnames, List.nodup_flatMap]
  exact and_congr_left fun _ => forall₂_congr fun m _ => hown m

/-! ### What is planned for a command -/

/-- The option that an operation adds. -/
def addedOption : Operation → List CommandOption
  | .command (.addOption o) => [o]
  | _ => []

def Establishes : Operation → Prop
  | .command (.initCommand _) => True
  | _ => False

/-- An operation that neither establishes a command nor adds an option. -/
def IsSilent (o : Operation) : Prop := ¬Establishes o ∧ addedOption o = []

theorem silent_of_mem_addCommands {subs : List SubCommand} {o : Operation} (h : o ∈ addCommands subs) :
    IsSilent o := by
  unfold addCommands at h
  split at h
  · cases h
  · cases List.mem_singleton.mp h
    exact ⟨id, rfl⟩

/-- A command is established once, and what comes then adds the options of its builder. -/
def OpensOnce (c : Context) (m : Method) (operations : List Operation) : Prop :=
  ∃ before init rest, operations = before ++ .command (.initCommand init) :: rest ∧
    (∀ o ∈ before, IsPlain o) ∧ (∀ o ∈ rest, ¬Establishes o) ∧ rest.flatMap addedOption = ownOptions c m

section Opening

variable {c : Context} {cls : ClassDef} {m : Method} {body : Body} {rest : List Operation}

/-- A command that is established first opens once. -/
theorem opens_of_shared {sharing : Sharing} (hcls : cls ∈ c.graph.classes) (hshared : shared c cls m = .ok sharing)
    (hrest : (∀ o ∈ rest, ¬Establishes o) ∧ rest.flatMap addedOption = ownOptions c m) :
    OpensOnce c m (sharing.operations ++ rest) := by
  obtain ⟨before, init, hoperations, hbefore, _⟩ := shared_spec hcls hshared
  exact ⟨before, init, rest, by rw [hoperations, List.append_assoc]; rfl, hbefore, hrest⟩

/-- A builder without a request adds no options. -/
theorem ownOptions_of_silent (hhttp : m.http = none) (hrest : ∀ o ∈ rest, IsSilent o) :
    (∀ o ∈ rest, ¬Establishes o) ∧ rest.flatMap addedOption = ownOptions c m := by
  refine ⟨fun o ho => (hrest o ho).1, ?_⟩
  rw [List.flatMap_eq_nil_iff.mpr fun o ho => (hrest o ho).2]
  simp [ownOptions, requestOf, hhttp]

/-- A builder that runs a request opens its command once, with its options. -/
theorem opens_executableBody (hcls : cls ∈ c.graph.classes) (hhttp : m.http.isSome)
    (h : executableBody c cls m = .ok body) : OpensOnce c m body.operations := by
  unfold executableBody at h
  split at h
  · cases h
  · rename_i executor hexecutor
    obtain ⟨generator, hgenerator, h⟩ := bind_eq_ok.mp h
    obtain ⟨sharing, hshared, h⟩ := bind_eq_ok.mp h
    obtain ⟨⟨steps, aliases⟩, _, h⟩ := bind_eq_ok.mp h
    cases h
    have hown : ownOptions c m = options c generator executor := by
      have hrepresented := (Option.filter_eq_some_iff.mp hexecutor).1
      have hgenerator := mapError_eq_ok.mp hgenerator
      simp [ownOptions, requestOf, hhttp, hrepresented, hgenerator, Except.toOption]
    dsimp only
    rw [List.append_assoc, List.append_assoc]
    apply opens_of_shared hcls hshared
    constructor
    · intro o ho
      simp only [List.mem_append, List.mem_map, List.mem_cons, List.not_mem_nil, or_false] at ho
      rcases ho with ho | ⟨option, _, rfl⟩ | rfl | rfl
      · exact (silent_of_mem_addCommands ho).1
      · exact id
      · exact id
      · exact id
    · have hsilent : (addCommands sharing.included).flatMap addedOption = [] :=
        List.flatMap_eq_nil_iff.mpr fun o ho => (silent_of_mem_addCommands ho).2
      have hoptions : ((options c generator executor).map fun o => .command (.addOption o)).flatMap addedOption =
          options c generator executor := by
        rw [List.flatMap_map]
        exact List.flatMap_singleton' _
      rw [hown, List.flatMap_append, List.flatMap_append, hsilent, hoptions]
      simp [addedOption]

/-- A builder that navigates opens its command once, without options. -/
theorem opens_navigationBody (hcls : cls ∈ c.graph.classes) (hhttp : m.http = none)
    (h : navigationBody c cls m = .ok body) : OpensOnce c m body.operations := by
  obtain ⟨sharing, hshared, h⟩ := bind_eq_ok.mp h
  cases h
  dsimp only
  rw [List.append_assoc, List.append_assoc]
  refine opens_of_shared hcls hshared (ownOptions_of_silent hhttp ?_)
  intro o ho
  simp only [List.mem_append, List.mem_singleton] at ho
  rcases ho with ho | ho | rfl
  · split at ho
    · split at ho
      · cases ho
      · cases List.mem_singleton.mp ho
        exact ⟨id, rfl⟩
    · cases ho
  · exact silent_of_mem_addCommands ho
  · exact ⟨id, rfl⟩

theorem opens_rootBody (hhttp : m.http = none) : OpensOnce c m (rootBody cls m).operations := by
  refine ⟨[], _, _, rfl, by simp, ownOptions_of_silent hhttp ?_⟩
  intro o ho
  rcases List.mem_append.mp ho with ho | ho
  · split at ho
    · cases ho
    · cases List.mem_singleton.mp ho
      exact ⟨id, rfl⟩
  · cases List.mem_singleton.mp ho
    exact ⟨id, rfl⟩

/-- Every planned body opens a command, unless it gives back the commands of items. -/
theorem opens_of_synthesize (hm : m.isCommandBuilder = true) (h : (commandEngine c).synthesize m = .ok body)
    (hitems : ∀ items, .command (.returnItemCommands items) ∉ body.operations) : OpensOnce c m body.operations := by
  obtain ⟨cls, hparent, h⟩ := (synthesize_eq_ok_iff hm).mp h
  have hcls := parentOf_mem hparent
  unfold commandBuilder at h
  rw [if_neg (by simp [hm])] at h
  split at h
  · rename_i hhttp
    exact opens_executableBody hcls hhttp h
  · rename_i hhttp
    have hnone : m.http = none := by simpa using hhttp
    split at h
    · cases h
      exact opens_rootBody hnone
    · split at h
      · unfold itemsBody at h
        split at h
        · cases h
        · cases h
          exact absurd (List.mem_append_right _ (List.mem_singleton_self _)) (hitems _)
      · exact opens_navigationBody hcls hnone h

end Opening

/-! ### How a command grows -/

/-- A builder that is evaluated on the way from the root. -/
def Visited (c : Context) (v : Visit) : Prop :=
  ∃ root ∈ rootBuilders c.graph, ReflTransGen (Follows (commandEngine c)) (.command root) v

/-- A command is made by the builders that one starts from: the first of them created it, and it has the options
of all. -/
def Made (c : Context) (m : Method) (n : Node) : Prop :=
  ∃ chain, Origin c m chain ∧ chain.head? = some n.method ∧ n.options = chain.flatMap (ownOptions c)

/-- Every command of a tree is made by a builder that is visited. -/
def MadeThroughout (c : Context) (n : Node) : Prop :=
  ∀ p ∈ n.walk [], ∃ m, Visited c (.command m) ∧ Made c m p.2

/-- What evaluating a builder gives. -/
structure Built (c : Context) (m : Method) (n : Node) : Prop where
  made : Made c m n
  children : ∀ child ∈ n.children, MadeThroughout c child

/-- A command keeps what it is and has while it gets options and children. -/
structure Grows (c : Context) (n : Node) (os : List CommandOption) (n' : Node) : Prop where
  method : n'.method = n.method
  options : n'.options = n.options ++ os
  children : (∀ child ∈ n.children, MadeThroughout c child) → ∀ child ∈ n'.children, MadeThroughout c child

/-- An evaluator gives what the builders that are visited make. -/
structure Evaluator.Builds (c : Context) (v : Evaluator) : Prop where
  command : ∀ m n, Visited c (.command m) → Ends (v.command m) (.ok n) → Built c m n
  items : ∀ m found, Visited c (.items m) → Ends (v.items m) (.ok found) → found.All (MadeThroughout c)

section Growing

variable {c : Context} {v : Evaluator} {m : Method}

theorem Visited.next {u w : Visit} (h : Visited c u) (hw : Follows (commandEngine c) u w) : Visited c w := by
  obtain ⟨root, hroot, hreached⟩ := h
  exact ⟨root, hroot, hreached.tail hw⟩

theorem Visited.isCommandBuilder {u : Visit} (h : Visited c u) : u.method.isCommandBuilder = true := by
  obtain ⟨root, hroot, hreached⟩ := h
  exact (declared_of_reached (rootBuilders_declared hroot) hreached).isCommandBuilder

theorem Built.throughout {n : Node} (hm : Visited c (.command m)) (h : Built c m n) : MadeThroughout c n :=
  (Node.forall_mem_walk_iff (P := fun k => ∃ m, Visited c (.command m) ∧ Made c m k) [] n).mpr
    ⟨⟨m, hm, h.made⟩, h.children⟩

theorem Grows.refl (n : Node) : Grows c n [] n := ⟨rfl, by simp, id⟩

/-- Growing adds up. -/
theorem Grows.trans {n n₁ n₂ : Node} {os os' : List CommandOption} (h : Grows c n os n₁) (h' : Grows c n₁ os' n₂) :
    Grows c n (os ++ os') n₂ :=
  ⟨h'.method.trans h.method, by rw [h'.options, h.options, List.append_assoc], h'.children ∘ h.children⟩

/-- A command grows by a child without getting options. -/
theorem Grows.of_add {g : Graph} {n child n' : Node} (hchild : MadeThroughout c child)
    (h : n.add g child = .ok n') : Grows c n [] n' := by
  obtain ⟨rfl, _⟩ := Node.add_eq_ok h
  refine ⟨rfl, by simp, fun hn d hd => ?_⟩
  rcases List.mem_append.mp hd with hd | hd
  · exact hn d hd
  · exact List.mem_singleton.mp hd ▸ hchild

/-- So it does by several children. -/
theorem grows_addAll {e : Engine} {children : List Node} {n n' : Node}
    (hchildren : ∀ child ∈ children, MadeThroughout c child) (h : Ends (addAll e n children) (.ok n')) :
    Grows c n [] n' := by
  have hfold : children.foldlM (Node.add e.context.graph) n = .ok n' := h.of_of.symm
  clear h
  induction children generalizing n with
  | nil =>
      cases hfold
      exact .refl _
  | cons child children ih =>
      obtain ⟨hchild, hchildren⟩ := List.forall_mem_cons.mp hchildren
      rw [List.foldlM_cons] at hfold
      obtain ⟨n₁, hadd, hrest⟩ := bind_eq_ok.mp hfold
      exact (Grows.of_add hchild hadd).trans (ih hchildren hrest)

/-- Sub-commands make a command grow by children that are made by visited builders, and so are those they give. -/
theorem grows_evaluateSubCommands (hv : v.Builds c) {e : Engine} {direct : Bool} {subs : List SubCommand}
    {n n' : Node} {found found' : Commands} (hsubs : ∀ s ∈ subs, Visited c (.ofSubCommand s))
    (hfound : found.All (MadeThroughout c))
    (h : Ends (evaluateSubCommands e v direct subs n found) (.ok (n', found'))) :
    Grows c n [] n' ∧ found'.All (MadeThroughout c) := by
  induction subs generalizing n found with
  | nil =>
      cases h.of_pure
      exact ⟨.refl _, hfound⟩
  | cons s subs ih =>
      obtain ⟨hs, hsubs⟩ := List.forall_mem_cons.mp hsubs
      unfold Visit.ofSubCommand at hs
      unfold evaluateSubCommands at h
      by_cases hitems : s.items = true
      · rw [if_pos hitems] at h hs
        obtain ⟨more, hmore, hrest⟩ := h.bind_ok
        exact ih hsubs (hfound.append (hv.items _ _ hs hmore)) hrest
      · rw [if_neg hitems] at h hs
        obtain ⟨child, hchild, hrest⟩ := h.bind_ok
        have hmade : MadeThroughout c child := (hv.command _ _ hs hchild).throughout hs
        split at hrest
        · obtain ⟨n₁, hadd, hrest⟩ := hrest.bind_ok
          obtain ⟨hgrows, hfound'⟩ := ih hsubs hfound hrest
          exact ⟨(Grows.of_add hmade hadd.of_of.symm).trans hgrows, hfound'⟩
        · split at hrest
          · exact ih hsubs (hfound.append ⟨by simpa using hmade, by simp⟩) hrest
          · exact ih hsubs (hfound.append ⟨by simp, by simpa using hmade⟩) hrest

theorem grows_described (n : Node) (text : String) : Grows c n [] (n.described text) := by
  unfold Node.described
  split
  · exact ⟨rfl, by simp, id⟩
  · exact .refl n

/-- One operation on a command that is established. -/
theorem grows_evaluateStep (hv : v.Builds c) {e : Engine} {o : Operation} {n : Node} {n' : Option Node}
    (ho : ¬Establishes o) (hvisits : ∀ w ∈ Visit.ofOperation o, Visited c w)
    (h : Ends (evaluateStep e v m (some n) o) (.ok n')) : ∃ k, n' = some k ∧ Grows c n (addedOption o) k := by
  unfold evaluateStep at h
  split at h
  · exact absurd trivial ho
  · rename_i add k hk
    cases hk
    obtain ⟨k, hk, rfl⟩ := h.map_ok
    obtain ⟨⟨n₁, found⟩, hsubs, hall⟩ := hk.bind_ok
    have hadd : ∀ s ∈ add.commands, Visited c (.ofSubCommand s) := fun s hs =>
      hvisits _ (List.mem_map_of_mem hs)
    obtain ⟨hgrows, hfound⟩ := grows_evaluateSubCommands hv hadd ⟨by simp, by simp⟩ hsubs
    exact ⟨k, rfl, hgrows.trans (grows_addAll (hfound.ordered add.sortContainers) hall)⟩
  · rename_i option k hk
    cases hk
    cases h.of_pure
    exact ⟨_, rfl, rfl, rfl, id⟩
  · rename_i k hk
    cases hk
    cases h.of_pure
    exact ⟨_, rfl, rfl, by simp [addedOption], id⟩
  · cases h.of_throw
  · rename_i o _ _ _ _ _ hoption _
    cases h.of_pure
    have hnone : addedOption o = [] := by
      unfold addedOption
      split
      · exact (hoption _ n rfl rfl).elim
      · rfl
    exact ⟨n, rfl, hnone ▸ .refl n⟩

/-- Once a command is established, all operations make it grow by their options. -/
theorem grows_foldlM (hv : v.Builds c) {e : Engine} {operations : List Operation} {n : Node} {n' : Option Node}
    (hoperations : ∀ o ∈ operations, ¬Establishes o)
    (hvisits : ∀ o ∈ operations, ∀ w ∈ Visit.ofOperation o, Visited c w)
    (h : Ends (operations.foldlM (evaluateStep e v m) (some n)) (.ok n')) :
    ∃ k, n' = some k ∧ Grows c n (operations.flatMap addedOption) k := by
  induction operations generalizing n with
  | nil =>
      cases h.of_pure
      exact ⟨n, rfl, .refl n⟩
  | cons o operations ih =>
      obtain ⟨ho, hoperations⟩ := List.forall_mem_cons.mp hoperations
      obtain ⟨hvisit, hvisits⟩ := List.forall_mem_cons.mp hvisits
      rw [List.foldlM_cons] at h
      obtain ⟨first, hstep, hrest⟩ := h.bind_ok
      obtain ⟨n₁, rfl, hgrows⟩ := grows_evaluateStep hv ho hvisit hstep
      obtain ⟨k, rfl, hgrown⟩ := ih hoperations hvisits hrest
      exact ⟨k, rfl, hgrows.trans hgrown⟩

/-- Without a command plain operations do nothing. -/
theorem foldlM_none {e : Engine} {operations : List Operation} {n : Option Node} (hplain : ∀ o ∈ operations, IsPlain o)
    (h : Ends (operations.foldlM (evaluateStep e v m) none) (.ok n)) : n = none := by
  refine Ends.foldlM_ok (P := (· = none)) ?_ rfl h
  rintro _ o ho n' rfl hstep
  unfold evaluateStep at hstep
  split at hstep
  · exact (hplain _ ho).elim
  · contradiction
  · contradiction
  · contradiction
  · cases hstep.of_throw
  · cases hstep.of_pure
    rfl

/-- The command that a builder starts from has the options of the builders before. -/
theorem origin_of_establish (hv : v.Builds c) (hm : Visited c (.command m)) {body : Body} {init : InitCommand}
    {n : Node} (hbody : (commandEngine c).synthesize m = .ok body)
    (hopened : .command (.initCommand init) ∈ body.operations) (h : Ends (establish v m init) (.ok n)) :
    ∃ chain, Origin c m (chain ++ [m]) ∧ (chain ++ [m]).head? = some n.method ∧
      n.options = chain.flatMap (ownOptions c) ∧ ∀ child ∈ n.children, MadeThroughout c child := by
  unfold establish at h
  split at h
  · rename_i reused hreused
    have hnext : Follows (commandEngine c) (.command m) (.command reused) :=
      ⟨body, hbody, List.mem_flatMap.mpr ⟨_, hopened, by simp [Visit.ofOperation, hreused]⟩⟩
    obtain ⟨⟨chain, horigin, hhead, hoptions⟩, hchildren⟩ := hv.command reused n (hm.next hnext) h
    exact ⟨chain, .again hbody hopened hreused horigin, by simp [hhead], hoptions, hchildren⟩
  · rename_i hnew
    cases h.of_pure
    exact ⟨[], .fresh hbody hopened hnew, rfl, rfl, by simp⟩

/-- Evaluating a builder that is visited gives the command that its chain of builders makes. -/
theorem built_evaluateCommand (hv : v.Builds c) (hm : Visited c (.command m)) {n : Node}
    (h : Ends (evaluateCommand (commandEngine c) v m) (.ok n)) : Built c m n := by
  obtain ⟨body, hbody, hrest⟩ := h.bind_ok
  obtain ⟨last, hfold, hlast⟩ := hrest.bind_ok
  have hbody := hbody.of_bodyOf.symm
  have hitems : ∀ items, .command (.returnItemCommands items) ∉ body.operations := by
    intro items hmem
    obtain ⟨k, k', hstep⟩ := hfold.foldlM_reached _ hmem
    cases hstep.of_throw
  obtain ⟨before, init, rest, hoperations, hbefore, hquiet, hown⟩ :=
    opens_of_synthesize (m := m) hm.isCommandBuilder hbody hitems
  have hopened : .command (.initCommand init) ∈ body.operations := by simp [hoperations]
  have hvisits : ∀ o ∈ rest, ∀ w ∈ Visit.ofOperation o, Visited c w := fun o ho w hw =>
    hm.next ⟨body, hbody, List.mem_flatMap.mpr ⟨o, by simp [hoperations, ho], hw⟩⟩
  rw [hoperations, List.foldlM_append] at hfold
  obtain ⟨start, hstart, hfold⟩ := hfold.bind_ok
  cases foldlM_none hbefore hstart
  rw [List.foldlM_cons] at hfold
  obtain ⟨opened, hopen, hfold⟩ := hfold.bind_ok
  obtain ⟨n₀, hn₀, rfl⟩ := Ends.map_ok hopen
  obtain ⟨chain, horigin, hhead, hoptions, hchildren⟩ := origin_of_establish hv hm hbody hopened hn₀
  obtain ⟨k, rfl, hgrows⟩ := grows_foldlM hv hquiet hvisits hfold
  have hgrows := (grows_described n₀ init.description).trans hgrows
  cases hlast.of_pure
  refine ⟨⟨chain ++ [m], horigin, hhead.trans (congrArg some hgrows.method.symm), ?_⟩, hgrows.children hchildren⟩
  rw [hgrows.options, hoptions, hown, List.flatMap_append]
  simp

/-- The commands of items are made by builders that are visited. -/
theorem made_evaluateItems (hv : v.Builds c) (hm : Visited c (.items m)) {found : Commands}
    (h : Ends (evaluateItems (commandEngine c) v m) (.ok found)) : found.All (MadeThroughout c) := by
  obtain ⟨body, hbody, hfold⟩ := h.bind_ok
  have hbody := hbody.of_bodyOf.symm
  refine Ends.foldlM_ok (P := Commands.All (MadeThroughout c)) ?_ ⟨by simp, by simp⟩ hfold
  intro found items hitems found' hfound hstep
  have hvisits : ∀ w ∈ Visit.ofItems items, Visited c w := fun w hw =>
    hm.next ⟨body, hbody, List.mem_flatMap.mpr ⟨items, hitems, hw⟩⟩
  obtain ⟨hexecVisits, hcontVisits⟩ := List.forall_mem_append.mp hvisits
  obtain ⟨executables, hexec, hrest⟩ := hstep.bind_ok
  obtain ⟨containers, hcont, hpure⟩ := hrest.bind_ok
  cases hpure.of_pure
  have hexecAll : ∀ n ∈ executables, MadeThroughout c n := by
    intro n hn
    obtain ⟨t, ht, hend⟩ := hexec.mapM_ok.2 n hn
    have hvisited := hexecVisits _ (List.mem_map_of_mem ht)
    exact (hv.command t n hvisited hend).throughout hvisited
  have hcontAll : ∀ more ∈ containers, more.All (MadeThroughout c) := by
    intro more hmore
    obtain ⟨t, ht, hend⟩ := hcont.mapM_ok.2 more hmore
    have hvisited := hcontVisits _ (List.mem_map_of_mem ht)
    unfold Visit.ofContainer at hvisited
    unfold evaluateContainer at hend
    by_cases hlists : returnsItems t = true
    · rw [if_pos hlists] at hend hvisited
      exact hv.items t more hvisited hend
    · rw [if_neg hlists] at hend hvisited
      obtain ⟨n, hn, hpure⟩ := hend.bind_ok
      cases hpure.of_pure
      exact ⟨by simp, by simpa using (hv.command t n hvisited hn).throughout hvisited⟩
  exact List.foldlRecOn containers Commands.append (hfound.append ⟨hexecAll, by simp⟩)
    fun acc hacc more hmore => hacc.append (hcontAll more hmore)

theorem builds_evaluator (c : Context) (pending : List MethodId) :
    (evaluator (commandEngine c) pending).Builds c := by
  induction pending using pending_induction with
  | enter pending ih =>
    constructor
    · intro m n hm h
      by_cases hmem : m.id ∈ pending
      · rw [evaluator_command_of_mem hmem] at h
        exact built_evaluateCommand (ih m hmem) hm h
      · rw [evaluator_command_of_notMem hmem] at h
        cases h.of_throw
    · intro m found hm h
      by_cases hmem : m.id ∈ pending
      · rw [evaluator_items_of_mem hmem] at h
        exact made_evaluateItems (ih m hmem) hm h
      · rw [evaluator_items_of_notMem hmem] at h
        cases h.of_throw

theorem madeThroughout_assemble {tree : Node} (h : Ends (assemble (commandEngine c)) (.ok tree)) :
    MadeThroughout c tree := by
  simp only [assemble] at h
  split at h
  · cases h.of_throw
  · rename_i root hroots
    have hroot : Visited c (.command root) :=
      ⟨root, by rw [show rootBuilders c.graph = [root] from hroots]; exact List.mem_singleton_self root, .refl⟩
    exact ((builds_evaluator c _).command root tree hroot h).throughout hroot
  · cases h.of_throw

end Growing

/-- The options of a command in an assembled tree are those of the builders that made it, and they have different
names exactly if no builder adds one that another has added, and none has a parameter with the name of an option
for the answer. -/
theorem option_names_distinct_iff (c : Context) (planned planned' : List Method) (tree : Node)
    (h : (assemble (commandEngine c)).run.run planned = (.ok tree, planned')) :
    ∀ p ∈ tree.walk [], ∃ m chain, Visited c (.command m) ∧ Origin c m chain ∧ chain.head? = some p.2.method ∧
      p.2.options = chain.flatMap (ownOptions c) ∧
      ((p.2.options.map (·.name)).Nodup ↔ OptionsApart c chain) := by
  intro p hp
  obtain ⟨m, hm, chain, horigin, hhead, hoptions⟩ := madeThroughout_assemble ⟨planned, planned', h⟩ p hp
  refine ⟨m, chain, hm, horigin, hhead, hoptions, ?_⟩
  rw [hoptions]
  exact nodup_chain_iff c chain

namespace OptionSample

open Sample

/-- A request for users that asks for a value in its query. -/
def search (parameter : String) : List Method :=
  let users : TypeExpr := .scalar { name := "Users", definition := some (.ofClass ⟨0⟩) }
  let asked : Parameter :=
    { id := ⟨⟨⟨0⟩, 3⟩, 0⟩, name := parameter, kind := .queryParameter, type := .scalar { name := "string" } }
  [{ member 0 2 "Find" .requestExecutor with http := some "GET", returnType := some users },
    { member 0 3 "ToFind" .requestGenerator with http := some "GET", parameters := [asked] },
    { member 0 4 "BuildFindCommand" .commandBuilder with
      http := some "GET", representedMethod := some ⟨⟨0⟩, 2⟩ }]

def searching (parameter : String) : Context :=
  ⟨graph [builder 0 "Users" [] []
      ([member 0 0 "Users" .clientConstructor,
        { member 0 1 "BuildRootCommand" .commandBuilder with representedMethod := some ⟨⟨0⟩, 0⟩ }] ++
        search parameter)],
    Convention.Language.cli.policy, {}⟩

/-- The names of the options at every command. -/
def namesIn (tree : Node) : List (List String) := (tree.walk []).map fun p => p.2.options.map (·.name)

/-- A sample has a tree if its names are known. -/
theorem assemble_searching (parameter : String) {names : List (List String)}
    (h : ((assemble (commandEngine (searching parameter))).run.run []).1.toOption.map namesIn = some names) :
    ∃ tree planned, (assemble (commandEngine (searching parameter))).run.run [] = (.ok tree, planned) ∧
      namesIn tree = names := by
  rcases hrun : (assemble (commandEngine (searching parameter))).run.run [] with ⟨_ | tree, planned⟩
  · rw [hrun] at h
    cases h
  · rw [hrun] at h
    exact ⟨tree, planned, rfl, Option.some.inj h⟩

end OptionSample

open OptionSample in
/-- The value `Top` of a search has an option of its own. The value `Output` does not keep apart from the option
for the format of the answer. -/
theorem top_keeps_apart_and_output_does_not :
    (∃ tree planned, (assemble (commandEngine (searching "Top"))).run.run [] = (.ok tree, planned) ∧
      namesIn tree = [[], ["top", "output", "query"]] ∧
      ∀ p ∈ tree.walk [], ∃ m chain, Origin (searching "Top") m chain ∧ OptionsApart (searching "Top") chain) ∧
    ∃ tree planned, (assemble (commandEngine (searching "Output"))).run.run [] = (.ok tree, planned) ∧
      namesIn tree = [[], ["output", "output", "query"]] ∧
      ∃ p ∈ tree.walk [], ∃ m chain, Origin (searching "Output") m chain ∧ chain.head? = some p.2.method ∧
        ¬OptionsApart (searching "Output") chain := by
  constructor
  · have hfound : ((assemble (commandEngine (searching "Top"))).run.run []).1.toOption.map namesIn =
        some [[], ["top", "output", "query"]] := by decide +kernel
    obtain ⟨tree, planned, hrun, hnames⟩ := assemble_searching "Top" hfound
    refine ⟨tree, planned, hrun, hnames, fun p hp => ?_⟩
    obtain ⟨m, chain, _, horigin, _, _, hiff⟩ := option_names_distinct_iff _ [] planned tree hrun p hp
    have hmem : p.2.options.map (·.name) ∈ namesIn tree := List.mem_map_of_mem hp
    refine ⟨m, chain, horigin, hiff.mp ?_⟩
    rw [hnames] at hmem
    exact (by decide : ∀ names ∈ [[], ["top", "output", "query"]], names.Nodup) _ hmem
  · have hfound : ((assemble (commandEngine (searching "Output"))).run.run []).1.toOption.map namesIn =
        some [[], ["output", "output", "query"]] := by decide +kernel
    obtain ⟨tree, planned, hrun, hnames⟩ := assemble_searching "Output" hfound
    have hmem : ["output", "output", "query"] ∈ namesIn tree := by simp [hnames]
    obtain ⟨p, hp, hoptions⟩ := List.mem_map.mp hmem
    obtain ⟨m, chain, _, horigin, hhead, _, hiff⟩ := option_names_distinct_iff _ [] planned tree hrun p hp
    refine ⟨tree, planned, hrun, hnames, p, hp, m, chain, horigin, hhead, mt hiff.mpr ?_⟩
    rw [hoptions]
    decide

end ClientForge.Command
