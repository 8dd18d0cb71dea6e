import ClientForge.Proofs.Command.Bodies
import ClientForge.Proofs.Graph.Placed
import Mathlib.Logic.Basic

/-!
# Where the commands of an indexer's target go

The builders of an indexer's target are listed as item commands of the class that has the indexer, unless a
builder of that class has the same name; then they are taken over by it. Whether a name is taken and whether
there is a builder to take it over are two tests, and only where they agree is every command there once.

* `listings_of_items`: the item commands list a builder once, or not at all if its name is taken;
* `takeovers_of_shape`: a single command takes over the builders of its own name, each once;
* `listedOnce_iff`, `takenOver_iff`: in a valid graph the two tests decide where a builder goes.
-/

namespace ClientForge.Command

open ClientForge.Graph ClientForge.Plan

/-! ### Counting -/

/-- How often the item commands of a body list a builder. -/
def listings (t : Method) (body : Body) : Nat :=
  ((itemLists body).flatMap fun items => items.executables ++ items.containers).countP (·.id == t.id)

/-- Whether a sub-command is that of a builder, reached through the indexer. -/
def isThroughIndexer (x : Indexer) (t : Method) (s : SubCommand) : Bool :=
  s.builder == some (indexerVariable x) && s.method.id == t.id

/-- How often an operation takes a builder over: its command is started from the builder's, or gets it as a
sub-command through the indexer. -/
def takeoversIn (x : Indexer) (t : Method) : Operation → Nat
  | .command (.initCommand init) =>
    if init.source == .fromIndexer && init.reused.any (·.id == t.id) then 1 else 0
  | .command (.addSubCommands add) => add.commands.countP (isThroughIndexer x t)
  | _ => 0

def takeovers (x : Indexer) (t : Method) : List Operation → Nat
  | [] => 0
  | o :: operations => takeoversIn x t o + takeovers x t operations

section Counting

variable {x : Indexer} {t : Method}

/-- Takeovers of both parts add up. -/
theorem takeovers_append (before after : List Operation) :
    takeovers x t (before ++ after) = takeovers x t before + takeovers x t after := by
  induction before with
  | nil => simp [takeovers]
  | cons o before ih => simp [takeovers, ih, Nat.add_assoc]

theorem takeovers_of_plain {operations : List Operation} (h : ∀ o ∈ operations, IsPlain o) :
    takeovers x t operations = 0 := by
  induction operations with
  | nil => rfl
  | cons o operations ih =>
      obtain ⟨hplain, hrest⟩ := List.forall_mem_cons.mp h
      have hfirst : takeoversIn x t o = 0 := by
        unfold takeoversIn
        split
        · cases hplain
        · cases hplain
        · rfl
      rw [takeovers, hfirst, Nat.zero_add]
      exact ih hrest

/-- The order in which sub-commands are added does not matter. -/
theorem takeovers_addCommands (subs : List SubCommand) :
    takeovers x t (addCommands subs) = subs.countP (isThroughIndexer x t) := by
  unfold addCommands
  split
  · rename_i hempty
    rw [List.isEmpty_iff.mp hempty]
    rfl
  · have hsplit := List.countP_eq_countP_filter_add subs (isThroughIndexer x t) (·.items)
    simp only [takeovers, takeoversIn, List.countP_append]
    omega

/-- Of methods with distinct identities a test accepts each at most once. -/
theorem countP_filter_id {ms : List Method} (hnodup : (ms.map (·.id)).Nodup) (ht : t ∈ ms)
    (p : Method → Bool) : (ms.filter p).countP (·.id == t.id) = if p t then 1 else 0 := by
  induction ms with
  | nil => cases ht
  | cons m ms ih =>
      rw [List.map_cons, List.nodup_cons] at hnodup
      rcases List.mem_cons.mp ht with rfl | ht
      · have hrest : (ms.filter p).countP (·.id == t.id) = 0 := by
          rw [List.countP_eq_zero]
          intro n hn heq
          refine hnodup.1 (List.mem_map.mpr ⟨n, (List.mem_filter.mp hn).1, by simpa using heq⟩)
        by_cases hp : p t <;> simp [hp, hrest]
      · have hne : m.id ≠ t.id := fun heq =>
          hnodup.1 (heq ▸ List.mem_map_of_mem ht)
        rw [← ih hnodup.2 ht]
        by_cases hp : p m <;> simp [hp, hne]

end Counting

/-- The variable of an indexer is not the one for a builder that is navigated to. -/
theorem indexerVariable_ne (x : Indexer) : indexerVariable x ≠ "builder" := by
  intro h
  have hlist : (Text.Casing.camel.apply x.name).toList ++ "Builder".toList = "builder".toList := by
    rw [← String.toList_append]
    exact congrArg String.toList h
  have hlength := congrArg List.length hlist
  rw [List.length_append] at hlength
  have hempty : (Text.Casing.camel.apply x.name).toList = [] :=
    List.eq_nil_of_length_eq_zero (Nat.add_right_cancel (hlength.trans (Nat.zero_add 7).symm))
  rw [hempty] at hlist
  exact absurd hlist (by decide)

/-! ### Taking over -/

section TakingOver

variable {c : Context} {cls target : ClassDef} {x : Indexer} {m t : Method}

/-- The builders of the target under a name, but for the one whose command is used again. -/
theorem countP_included (hnodup : (target.methods.map (·.id)).Nodup) (ht : t ∈ target.commandBuilders)
    (matched : Option Method) :
    ((target.methods.filter fun n =>
        some n.id != matched.map (·.id) && n.isCommandBuilder && sameName n m).map
          (subCommand (some (indexerVariable x)))).countP (isThroughIndexer x t) =
      if matched.map (·.id) ≠ some t.id ∧ sameName t m then 1 else 0 := by
  obtain ⟨hmem, hbuilder⟩ := mem_commandBuilders.mp ht
  rw [List.countP_map]
  have hid : isThroughIndexer x t ∘ subCommand (some (indexerVariable x)) = (·.id == t.id) := by
    funext n
    simp [isThroughIndexer, subCommand]
  rw [hid, countP_filter_id hnodup hmem]
  simp only [hbuilder, Bool.and_true, Bool.and_eq_true, bne_iff_ne, ne_eq,
    eq_comm (a := matched.map (·.id))]

theorem takeoversIn_ownCommand : takeoversIn x t (.command (.initCommand (ownCommand c cls m))) = 0 := by
  unfold ownCommand
  split <;> rfl

/-- What is shared with the indexer's target takes over each of its builders of the same name, once. -/
theorem takeovers_of_shared {sharing : Sharing} (hplaced : c.graph.Placed)
    (hindexer : c.graph.indexerOf cls = .ok (some x))
    (htarget : c.graph.indexerTarget x = some target) (ht : t ∈ target.commandBuilders)
    (h : shared c cls m = .ok sharing) :
    takeovers x t sharing.operations + sharing.included.countP (isThroughIndexer x t) =
      if hasName m ∧ sameName t m then 1 else 0 := by
  have hmem := indexerTarget_mem htarget
  have hnodup := hplaced.nodup_methods hmem
  obtain ⟨x', hx', h⟩ := bind_eq_ok.mp h
  rw [hindexer] at hx'
  cases hx'
  simp only [Option.bind_some, htarget, Option.map_some] at h
  split at h
  · rename_i hname
    cases h
    have hname : hasName m = false := by simpa using hname
    simp [takeovers, takeoversIn_ownCommand, hname]
  · rename_i hname
    cases h
    have hname : hasName m = true := by simpa using hname
    have hbuilders : ∀ b : Bool, takeovers x t
        (if b then [builderLocal cls m (indexerVariable x) target] else []) = 0 := by
      intro b
      cases b <;> rfl
    simp only [takeovers_append, hbuilders, countP_included hnodup ht, hname, true_and]
    cases hmatched : indexerMatch m target with
    | none => simp [takeovers, takeoversIn_ownCommand]
    | some n =>
        have hsame := List.find?_some hmatched
        simp only [Bool.and_eq_true] at hsame
        by_cases hid : n.id = t.id
        · -- the builder whose command is used again is not included once more
          have heq : n = t := hplaced.method_ext hmem (mem_commandBuilders.mp (indexerMatch_mem hmatched)).1
            (mem_commandBuilders.mp ht).1 hid
          cases heq
          simp [takeovers, takeoversIn, hsame.2]
        · simp [takeovers, takeoversIn, hid]

/-- A single command takes over the builders of the target that have its name, and no others. -/
theorem takeovers_of_shape {operations : List Operation} (hplaced : c.graph.Placed)
    (hindexer : c.graph.indexerOf cls = .ok (some x))
    (htarget : c.graph.indexerTarget x = some target) (ht : t ∈ target.commandBuilders)
    (hsingle : IsSingle c.graph m) (h : Shape c cls m operations) :
    takeovers x t operations = if hasName m ∧ sameName t m then 1 else 0 := by
  cases h with
  | root hhttp hroot => simp [IsSingle, hhttp, hroot] at hsingle
  | items hhttp _ hindexed _ => simp [IsSingle, hhttp, hindexed] at hsingle
  | single _ hshared hbuilders _ htail =>
      have hchildren : ∀ children : List Method,
          (children.map (subCommand (some "builder"))).countP (isThroughIndexer x t) = 0 := by
        intro children
        rw [List.countP_eq_zero]
        intro s hs
        obtain ⟨child, _, rfl⟩ := List.mem_map.mp hs
        simp [isThroughIndexer, subCommand, (indexerVariable_ne x).symm]
      rw [← takeovers_of_shared hplaced hindexer htarget ht hshared]
      simp only [takeovers_append, takeovers_addCommands, takeovers_of_plain hbuilders,
        takeovers_of_plain htail, List.countP_append, hchildren]
      omega

/-- Roots and item builders take nothing over. -/
theorem takeovers_of_shape_eq_zero {operations : List Operation}
    (hsingle : ¬ IsSingle c.graph m) (h : Shape c cls m operations) : takeovers x t operations = 0 := by
  cases h with
  | root =>
      have hothers : ∀ others : List Method,
          (others.map (subCommand none)).countP (isThroughIndexer x t) = 0 := by
        intro others
        rw [List.countP_eq_zero]
        intro s hs
        obtain ⟨other, _, rfl⟩ := List.mem_map.mp hs
        simp [isThroughIndexer, subCommand]
      simp only [rootBody, takeovers_append]
      split <;> simp [takeovers, takeoversIn, hothers]
  | items _ _ _ hitems =>
      unfold itemsBody at hitems
      split at hitems
      · cases hitems
      · cases hitems
        split <;> rfl
  | single hsingle' => exact (hsingle hsingle').elim

end TakingOver

/-! ### Listing -/

/-- A builder of a class has the name of another, in lower case. -/
def NameTaken (cls : ClassDef) (t : Method) : Prop :=
  ∃ o ∈ cls.commandBuilders, hasName o ∧ Text.lower o.simpleName = Text.lower t.simpleName

/-- A builder of a class has a single command under the name of another but for case, and can be planned. -/
def HasHeir (c : Context) (cls : ClassDef) (t : Method) : Prop :=
  ∃ m ∈ cls.commandBuilders, IsSingle c.graph m ∧ hasName m ∧ sameName t m ∧
    ∃ body, (commandEngine c).synthesize m = .ok body

/-- A builder of the indexer's target is listed once, unless its name is taken. -/
theorem countP_itemBuilders {cls target : ClassDef} {t : Method}
    (hnodup : (target.methods.map (·.id)).Nodup) (ht : t ∈ target.commandBuilders) :
    (NameTaken cls t → (itemBuilders cls target).countP (·.id == t.id) = 0) ∧
      (¬ NameTaken cls t → (itemBuilders cls target).countP (·.id == t.id) = 1) := by
  have hbuilders : (target.commandBuilders.map (·.id)).Nodup :=
    hnodup.sublist (List.filter_sublist.map _)
  have htaken : (((cls.commandBuilders.filter hasName).map fun o => Text.lower o.simpleName).contains
      (Text.lower t.simpleName)) = true ↔ NameTaken cls t := by
    simp [NameTaken, and_assoc]
  unfold itemBuilders
  rw [countP_filter_id hbuilders ht, ← htaken]
  constructor
  · intro h
    exact if_neg (by rw [h]; decide)
  · intro h
    exact if_pos (by rw [Bool.eq_false_iff.mpr h]; rfl)

/-- The item commands list a builder of the target once, or not at all if its name is taken. -/
theorem listings_of_items {c : Context} {cls target : ClassDef} {x : Indexer} {m t : Method}
    (hplaced : c.graph.Placed) (htarget : c.graph.indexerTarget x = some target)
    (ht : t ∈ target.commandBuilders) :
    ∃ body, itemsBody c cls m x = .ok body ∧
      (NameTaken cls t → listings t body = 0) ∧ (¬ NameTaken cls t → listings t body = 1) := by
  have hnodup := hplaced.nodup_methods (indexerTarget_mem htarget)
  have hbody : ∃ body, itemsBody c cls m x = .ok body ∧
      listings t body = (itemBuilders cls target).countP (·.id == t.id) := by
    simp only [itemsBody, htarget]
    refine ⟨_, rfl, ?_⟩
    have hsplit := List.countP_eq_countP_filter_add (itemBuilders cls target) (·.id == t.id)
      (·.http.isSome)
    simp only [Option.not_isSome] at hsplit
    rw [hsplit, ← List.countP_append]
    unfold listings itemLists
    split <;> simp [builderLocal]
  obtain ⟨body, hbody, hcount⟩ := hbody
  refine ⟨body, hbody, ?_⟩
  rw [hcount]
  exact countP_itemBuilders hnodup ht

/-! ### Exactly once -/

/-- The item commands list a builder once, and no builder of the class takes it over. -/
def ListedOnce (c : Context) (cls : ClassDef) (x : Indexer) (items t : Method) : Prop :=
  (∃ body, (commandEngine c).synthesize items = .ok body ∧ listings t body = 1) ∧
    ∀ m ∈ cls.commandBuilders, ∀ body, (commandEngine c).synthesize m = .ok body →
      takeovers x t body.operations = 0

/-- The item commands do not list a builder, and another builder of its name takes it over once. -/
def TakenOver (c : Context) (cls : ClassDef) (x : Indexer) (items t : Method) : Prop :=
  (∃ body, (commandEngine c).synthesize items = .ok body ∧ listings t body = 0) ∧
    ∃ m ∈ cls.commandBuilders, m.id ≠ items.id ∧ sameName t m ∧
      ∃ body, (commandEngine c).synthesize m = .ok body ∧ takeovers x t body.operations = 1

section Reachable

variable {c : Context} {cls target : ClassDef} {x : Indexer} {items t : Method}
  (hplaced : c.graph.Placed) (hvalid : c.graph.violations = []) (hcls : cls ∈ c.graph.allClasses)
  (hindexers : c.graph.declaredIndexers cls = [x])
  (htarget : c.graph.indexerTarget x = some target) (ht : t ∈ target.commandBuilders)

include hplaced hvalid hcls in
/-- In a valid graph the body of a builder has the shape for the class that lists it. -/
theorem shape_of_valid {m : Method} {body : Body} (hm : m ∈ cls.commandBuilders)
    (h : (commandEngine c).synthesize m = .ok body) : Shape c cls m body.operations := by
  obtain ⟨hmem, hbuilder⟩ := mem_commandBuilders.mp hm
  obtain ⟨cls', _, hparent, hshape⟩ := shape_of_synthesize hbuilder h
  rw [parentOf_of_valid hplaced hvalid hcls hmem] at hparent
  cases hparent
  exact hshape

include hplaced hvalid hcls hindexers htarget ht in
/-- A planned builder of a class takes over what has its name, and it is a single command that does so. -/
theorem takeovers_of_synthesize {m : Method} {body : Body} (hm : m ∈ cls.commandBuilders)
    (h : (commandEngine c).synthesize m = .ok body) :
    (IsSingle c.graph m ∧ hasName m ∧ sameName t m → takeovers x t body.operations = 1) ∧
      (¬ (IsSingle c.graph m ∧ hasName m ∧ sameName t m) → takeovers x t body.operations = 0) := by
  have hshape := shape_of_valid hplaced hvalid hcls hm h
  have hindexer : c.graph.indexerOf cls = .ok (some x) := by
    unfold Graph.indexerOf
    rw [hindexers]
  by_cases hsingle : IsSingle c.graph m
  · rw [takeovers_of_shape hplaced hindexer htarget ht hsingle hshape]
    constructor
    · rintro ⟨_, hname⟩
      exact if_pos hname
    · intro hnot
      exact if_neg fun hname => hnot ⟨hsingle, hname⟩
  · refine ⟨fun h => (hsingle h.1).elim, fun _ => ?_⟩
    exact takeovers_of_shape_eq_zero hsingle hshape

include hplaced hvalid hcls htarget ht in
/-- The item commands of a valid graph can be planned. -/
theorem listings_of_synthesize (hitems : items ∈ cls.commandBuilders)
    (hindexed : c.graph.representedIndexer items = some x) (hhttp : items.http = none) :
    ¬ IsSingle c.graph items ∧ ∃ body, (commandEngine c).synthesize items = .ok body ∧
      (NameTaken cls t → listings t body = 0) ∧ (¬ NameTaken cls t → listings t body = 1) := by
  obtain ⟨hmem, hbuilder⟩ := mem_commandBuilders.mp hitems
  have hroot : isRootBuilder c.graph items = false := by
    -- a builder of items that is also the root would name two sources
    have hsources := commandSources_of_valid hvalid hcls hitems
    have hsome : items.representedIndexer.isSome := by
      obtain ⟨id, hid, _⟩ := Option.bind_eq_some_iff.mp hindexed
      simp [hid]
    unfold isRootBuilder
    cases hany : (c.graph.representedMethod items).any (·.kind == .clientConstructor) with
    | false => simp
    | true =>
        simp only [commandSources, hsome, hany, if_true] at hsources
        omega
  refine ⟨by simp [IsSingle, hhttp, hindexed], ?_⟩
  have hlisted : ∃ body, itemsBody c cls items x = .ok body ∧
      (NameTaken cls t → listings t body = 0) ∧ (¬ NameTaken cls t → listings t body = 1) :=
    listings_of_items hplaced htarget ht
  obtain ⟨body, hbody, hlistings⟩ := hlisted
  refine ⟨body, ?_, hlistings⟩
  rw [synthesize_eq_ok_iff hbuilder]
  refine ⟨cls, parentOf_of_valid hplaced hvalid hcls hmem, ?_⟩
  simp [commandBuilder, hbuilder, hhttp, hroot, hindexed, hbody]

section Iff

variable (hitems : items ∈ cls.commandBuilders)
  (hindexed : c.graph.representedIndexer items = some x) (hhttp : items.http = none)
include hplaced hvalid hcls hindexers htarget ht hitems hindexed hhttp

theorem listedOnce_iff :
    ListedOnce c cls x items t ↔ ¬ NameTaken cls t ∧ ¬ HasHeir c cls t := by
  obtain ⟨_, body, hbody, hzero, hone⟩ :=
    listings_of_synthesize hplaced hvalid hcls htarget ht hitems hindexed hhttp
  constructor
  · rintro ⟨⟨body', hbody', hlisted⟩, hnone⟩
    cases hbody.symm.trans hbody'
    refine ⟨fun htaken => by simp [hzero htaken] at hlisted, ?_⟩
    rintro ⟨m, hm, hsingle, hname, hsame, bodyₘ, hbodyₘ⟩
    have hheir := takeovers_of_synthesize hplaced hvalid hcls hindexers htarget ht hm hbodyₘ
    have hcount := hnone m hm bodyₘ hbodyₘ
    simp [hheir.1 ⟨hsingle, hname, hsame⟩] at hcount
  · rintro ⟨htaken, hheir⟩
    refine ⟨⟨body, hbody, hone htaken⟩, fun m hm bodyₘ hbodyₘ => ?_⟩
    apply (takeovers_of_synthesize hplaced hvalid hcls hindexers htarget ht hm hbodyₘ).2
    rintro ⟨hsingle, hname, hsame⟩
    exact hheir ⟨m, hm, hsingle, hname, hsame, bodyₘ, hbodyₘ⟩

theorem takenOver_iff :
    TakenOver c cls x items t ↔ NameTaken cls t ∧ HasHeir c cls t := by
  obtain ⟨hnot, body, hbody, hzero, hone⟩ :=
    listings_of_synthesize hplaced hvalid hcls htarget ht hitems hindexed hhttp
  constructor
  · rintro ⟨⟨body', hbody', hlisted⟩, m, hm, _, _, bodyₘ, hbodyₘ, hcount⟩
    cases hbody.symm.trans hbody'
    constructor
    · by_cases htaken : NameTaken cls t
      · exact htaken
      · simp [hone htaken] at hlisted
    · have hheir := takeovers_of_synthesize hplaced hvalid hcls hindexers htarget ht hm hbodyₘ
      by_cases hall : IsSingle c.graph m ∧ hasName m ∧ sameName t m
      · exact ⟨m, hm, hall.1, hall.2.1, hall.2.2, bodyₘ, hbodyₘ⟩
      · simp [hheir.2 hall] at hcount
  · rintro ⟨htaken, m, hm, hsingle, hname, hsame, bodyₘ, hbodyₘ⟩
    refine ⟨⟨body, hbody, hzero htaken⟩, m, hm, ?_, hsame, bodyₘ, hbodyₘ, ?_⟩
    · intro hid
      have heq : m = items := hplaced.method_ext (mem_classes_of_mem_allClasses hcls)
        (mem_commandBuilders.mp hm).1 (mem_commandBuilders.mp hitems).1 hid
      cases heq
      exact hnot hsingle
    · exact (takeovers_of_synthesize hplaced hvalid hcls hindexers htarget ht hm hbodyₘ).1
        ⟨hsingle, hname, hsame⟩

end Iff

end Reachable

/-- In a valid graph every builder of the target of a class's only indexer is reachable exactly once, listed
among the items or taken over, if and only if a builder of the class has its name just when one of them can
take it over. Otherwise it is reachable twice, or dropped: by the builder of the items itself or that of the
root, which have a name and take nothing over, or by a name that only one of the two ways to compare calls
the same. -/
theorem indexed_command_reachable_once_iff {c : Context} {cls target : ClassDef} {x : Indexer}
    {items t : Method} (hplaced : c.graph.Placed) (hvalid : c.graph.violations = [])
    (hcls : cls ∈ c.graph.allClasses) (hindexers : c.graph.declaredIndexers cls = [x])
    (htarget : c.graph.indexerTarget x = some target) (hitems : items ∈ cls.commandBuilders)
    (hindexed : c.graph.representedIndexer items = some x) (hhttp : items.http = none)
    (ht : t ∈ target.commandBuilders) :
    Xor (ListedOnce c cls x items t) (TakenOver c cls x items t) ↔
      (NameTaken cls t ↔ HasHeir c cls t) := by
  rw [listedOnce_iff hplaced hvalid hcls hindexers htarget ht hitems hindexed hhttp,
    takenOver_iff hplaced hvalid hcls hindexers htarget ht hitems hindexed hhttp]
  by_cases htaken : NameTaken cls t <;> by_cases hheir : HasHeir c cls t <;>
    simp [Xor, htaken, hheir]

namespace Sample

def nestedUsers : ClassDef := builder 0 "Users" [] [item 0 1] [items 0 0]

def nestedUser : ClassDef := builder 1 "User" [] [item 1 2] [items 1 0]

/-- A client whose items have items of their own. -/
def nested : Context :=
  ⟨graph [nestedUsers, nestedUser, builder 2 "Part" [] [] []], Convention.Language.cli.policy, {}⟩

theorem hasHeir_mail : HasHeir mailing users (navigation 1 0 "Mail" 0) := by
  refine ⟨navigation 0 2 "Mail" 0, ?_, Or.inr ⟨rfl, rfl⟩, by decide, by decide, _, rfl⟩
  exact mem_commandBuilders.mpr ⟨by simp [users, builder], rfl⟩

theorem nameTaken_mail : NameTaken users (navigation 1 0 "Mail" 0) :=
  ⟨navigation 0 2 "Mail" 0, mem_commandBuilders.mpr ⟨by simp [users, builder], rfl⟩, by decide, rfl⟩

theorem nameTaken_items : NameTaken nestedUsers (items 1 0) :=
  ⟨items 0 0, List.mem_singleton_self _, by decide, rfl⟩

theorem not_hasHeir_items : ¬ HasHeir nested nestedUsers (items 1 0) := by
  rintro ⟨m, hm, hsingle, _⟩
  cases List.mem_singleton.mp hm
  rcases hsingle with hhttp | ⟨_, hindexer⟩
  · cases hhttp
  · cases hindexer

end Sample

open Sample

/-- The mail of a user is taken over by the mail of all users, but the items of a user are dropped: the
builder of the users' items has their name. -/
theorem mail_reachable_once_and_nested_items_dropped :
    Xor (ListedOnce mailing users (item 0 1) (items 0 7) (navigation 1 0 "Mail" 0))
      (TakenOver mailing users (item 0 1) (items 0 7) (navigation 1 0 "Mail" 0)) ∧
    ¬ Xor (ListedOnce nested nestedUsers (item 0 1) (items 0 0) (items 1 0))
      (TakenOver nested nestedUsers (item 0 1) (items 0 0) (items 1 0)) := by
  constructor
  · have hcls : users ∈ mailing.graph.allClasses := mem_allClasses_of_root List.mem_cons_self rfl
    have hitems : items 0 7 ∈ users.commandBuilders :=
      mem_commandBuilders.mpr ⟨by simp [users, builder], rfl⟩
    have hmail : navigation 1 0 "Mail" 0 ∈ user.commandBuilders :=
      mem_commandBuilders.mpr ⟨by simp [user, builder], rfl⟩
    exact (indexed_command_reachable_once_iff (by decide +kernel) (by decide +kernel) hcls rfl rfl
      hitems rfl rfl hmail).mpr ⟨fun _ => hasHeir_mail, fun _ => nameTaken_mail⟩
  · have hcls : nestedUsers ∈ nested.graph.allClasses := mem_allClasses_of_root List.mem_cons_self rfl
    have hnested : items 1 0 ∈ nestedUser.commandBuilders := List.mem_singleton_self _
    rw [indexed_command_reachable_once_iff (by decide +kernel) (by decide +kernel) hcls rfl rfl
      (List.mem_singleton_self _) rfl rfl hnested]
    exact fun hagree => not_hasHeir_items (hagree.mp nameTaken_items)

end ClientForge.Command
