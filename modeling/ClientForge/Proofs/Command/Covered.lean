import ClientForge.Proofs.Command.Bodies
import ClientForge.Proofs.Graph.Placed

/-!
# Navigations that are left out

Where a navigation leads, the builders of one name that navigate themselves are left out if there are others: a command
of their name is meant to start from theirs. Which builders are left out and from where a command starts is decided in
two places, and they do not always agree. A builder of items starts from no command, nor does one without a name, and a
command that finds a container of its name in the indexer's target starts from there.

* **`reuses_iff`.** From where the command of a builder starts.
* **`chain_iff`.** A builder without such a container leads to the first navigation of its name, and no further.
* **`skipped_navigation_covered_iff`.** Which navigations that are left out are still there as the start of a command.
-/

namespace ClientForge.Command

open ClientForge.Graph ClientForge.Plan Relation

/-! ### Builders of one name -/

section Group

variable {cls : ClassDef} {m n : Method}

/-- Of a group in which some do not navigate exactly those are kept. -/
theorem mem_keptOf_iff {group : List Method} (h : ∃ k ∈ group, k.accessedProperty = none) :
    m ∈ keptOf group ↔ m ∈ group ∧ m.accessedProperty = none := by
  obtain ⟨k, hk, hother⟩ := h
  unfold keptOf
  split
  · next only =>
    rw [List.mem_singleton] at hk ⊢
    subst hk
    constructor
    · rintro rfl
      exact ⟨rfl, hother⟩
    · exact And.left
  · split
    · next hnone =>
      have hkept : k ∈ group.filter (·.accessedProperty.isNone) := List.mem_filter.mpr ⟨hk, by simp [hother]⟩
      rw [hnone] at hkept
      cases hkept
    · rw [List.mem_filter, Option.isNone_iff_eq_none]

theorem mem_methodsOfKind : m ∈ cls.methodsOfKind .commandBuilder ↔ m ∈ cls.commandBuilders :=
  List.mem_mergeSort

/-- Each builder is kept or left out among those of its name. -/
theorem mem_childBuilders :
    m ∈ childBuilders cls ↔
      m ∈ keptOf ((cls.methodsOfKind .commandBuilder).filter (groupKey · == groupKey m)) := by
  unfold childBuilders groupByName
  rw [List.mem_flatMap]
  constructor
  · rintro ⟨group, hgroup, hm⟩
    obtain ⟨key, -, rfl⟩ := List.mem_map.mp hgroup
    have hkey := (List.mem_filter.mp (keptOf_subset hm)).2
    rwa [beq_iff_eq.mp hkey]
  · intro hm
    have hmem := (List.mem_filter.mp (keptOf_subset hm)).1
    exact ⟨_, List.mem_map.mpr ⟨groupKey m, List.mem_eraseDups.mpr (List.mem_map_of_mem hmem), rfl⟩, hm⟩

/-- Under a name that is not only navigated under, navigations are left out. -/
theorem mem_childBuilders_iff
    (h : ∃ k ∈ cls.commandBuilders, groupKey k = groupKey m ∧ k.accessedProperty = none) :
    m ∈ childBuilders cls ↔ m ∈ cls.commandBuilders ∧ m.accessedProperty = none := by
  obtain ⟨k, hk, hkey, hother⟩ := h
  have hgroup : k ∈ (cls.methodsOfKind .commandBuilder).filter (groupKey · == groupKey m) :=
    List.mem_filter.mpr ⟨mem_methodsOfKind.mpr hk, beq_iff_eq.mpr hkey⟩
  rw [mem_childBuilders, mem_keptOf_iff ⟨k, hgroup, hother⟩, List.mem_filter, mem_methodsOfKind]
  simp

end Group

/-! ### From where a command starts -/

/-- The target of the indexer of a class. -/
def indexed? (g : Graph) (cls : ClassDef) : Option ClassDef :=
  match g.indexerOf cls with
  | .ok x => x.bind g.indexerTarget
  | .error _ => none

/-- The container of the indexer's target that a command starts from. -/
def container? (g : Graph) (cls : ClassDef) (m : Method) : Option Method :=
  if hasName m then (indexed? g cls).bind (indexerMatch m) else none

/-- The builder whose command a single command starts from. -/
def reused? (g : Graph) (cls : ClassDef) (m : Method) : Option Method :=
  (container? g cls m).or (navigationMatch cls m)

/-- The command of a builder starts from that of another. -/
def Reuses (c : Context) (m n : Method) : Prop :=
  ∃ body init, (commandEngine c).synthesize m = .ok body ∧ .command (.initCommand init) ∈ body.operations ∧
    init.reused = some n

/-- A command is said to start from where its builder finds one. -/
structure StartsAsFound (g : Graph) (cls : ClassDef) (m : Method) (init : InitCommand) : Prop where
  reused : init.reused = reused? g cls m
  source : init.source = .fromNavigation ↔ container? g cls m = none ∧ (navigationMatch cls m).isSome = true

section Reuse

variable {c : Context} {cls : ClassDef} {m n : Method}

theorem startsAsFound_ownCommand (h : container? c.graph cls m = none) :
    StartsAsFound c.graph cls m (ownCommand c cls m) := by
  unfold ownCommand
  split
  · next hmatch => exact ⟨by simp [reused?, h, hmatch], by simp [h, hmatch]⟩
  · next hmatch => exact ⟨by simp [reused?, h, hmatch, freshCommand], by simp [hmatch, freshCommand]⟩

/-- A command is established after plain operations, from what was found for it. -/
theorem init_of_shared {sharing : Sharing} (h : shared c cls m = .ok sharing) :
    ∃ builders init, sharing.operations = builders ++ [.command (.initCommand init)] ∧
      (∀ o ∈ builders, IsPlain o) ∧ StartsAsFound c.graph cls m init := by
  obtain ⟨x, hx, h⟩ := bind_eq_ok.mp h
  have hindexer : c.graph.indexerOf cls = .ok x := mapError_eq_ok.mp hx
  split at h
  · next hnone =>
    cases h
    have htarget : x.bind c.graph.indexerTarget = none := by
      cases x with
      | none => rfl
      | some x => simpa using hnone
    exact ⟨[], _, rfl, by simp, startsAsFound_ownCommand (by simp [container?, indexed?, hindexer, htarget])⟩
  · next x' target hsome =>
    obtain ⟨x, rfl, hmap⟩ := Option.bind_eq_some_iff.mp hsome
    obtain ⟨target, htarget, heq⟩ := Option.map_eq_some_iff.mp hmap
    cases heq
    have hindexed : indexed? c.graph cls = some target := by simp [indexed?, hindexer, htarget]
    split at h
    · next hname =>
      cases h
      have hname : hasName m = false := by simpa using hname
      exact ⟨[], _, rfl, by simp, startsAsFound_ownCommand (by simp [container?, hname])⟩
    · next hname =>
      cases h
      refine ⟨_, _, rfl, ?_, ?_⟩
      · intro o ho
        split at ho
        · cases List.mem_singleton.mp ho
          trivial
        · cases ho
      · have hcontainer : container? c.graph cls m = indexerMatch m target := by
          have hname : hasName m = true := by simpa using hname
          simp [container?, hindexed, hname]
        split
        · next hmatch => exact ⟨by simp [reused?, hcontainer, hmatch], by simp [hcontainer, hmatch]⟩
        · next hmatch => exact startsAsFound_ownCommand (hcontainer.trans hmatch)

/-- Only single commands start from others. -/
theorem init_of_shape {operations : List Operation} (h : Shape c cls m operations) {init : InitCommand}
    (hinit : .command (.initCommand init) ∈ operations) :
    init.source = .root ∧ init.reused = none ∨ IsSingle c.graph m ∧ StartsAsFound c.graph cls m init := by
  cases h with
  | root =>
      simp only [rootBody, List.mem_append, List.mem_singleton] at hinit
      rcases hinit with (hinit | hinit) | hinit
      · cases hinit
        exact .inl ⟨rfl, rfl⟩
      · split at hinit
        · cases hinit
        · cases List.mem_singleton.mp hinit
      · cases hinit
  | items _ _ _ hitems =>
      unfold itemsBody at hitems
      split at hitems
      · cases hitems
      · cases hitems
        rcases List.mem_append.mp hinit with hinit | hinit
        · split at hinit
          · cases hinit
          · cases List.mem_singleton.mp hinit
        · cases List.mem_singleton.mp hinit
  | single hsingle hshared hbuilders _ htail =>
      obtain ⟨before, init', hoperations, hbefore, hfound⟩ := init_of_shared hshared
      simp only [hoperations, List.mem_append, List.mem_singleton] at hinit
      rcases hinit with (((hinit | hinit) | hinit) | hinit) | hinit
      · exact absurd hinit fun hinit => hbefore _ hinit
      · cases hinit
        exact .inr ⟨hsingle, hfound⟩
      · exact absurd hinit fun hinit => hbuilders _ hinit
      · unfold addCommands at hinit
        split at hinit
        · cases hinit
        · cases List.mem_singleton.mp hinit
      · exact absurd hinit fun hinit => htail _ hinit

/-- The body of a single command establishes it from what was found. -/
theorem exists_init_of_shape {operations : List Operation} (h : Shape c cls m operations)
    (hsingle : IsSingle c.graph m) :
    ∃ init, .command (.initCommand init) ∈ operations ∧ StartsAsFound c.graph cls m init := by
  cases h with
  | root hhttp hroot => simp [IsSingle, hhttp, hroot] at hsingle
  | items hhttp _ hindexed => simp [IsSingle, hhttp, hindexed] at hsingle
  | single _ hshared =>
      obtain ⟨before, init, hoperations, -, hfound⟩ := init_of_shared hshared
      exact ⟨init, by simp [hoperations], hfound⟩

/-- The body of a builder has the shape for its class. -/
theorem shape_of_parent {body : Body} (hm : m.isCommandBuilder = true) (hparent : c.graph.parentOf m = some cls)
    (hbody : (commandEngine c).synthesize m = .ok body) : Shape c cls m body.operations := by
  obtain ⟨cls', -, hparent', hshape⟩ := shape_of_synthesize hm hbody
  rwa [Option.some.inj (hparent.symm.trans hparent')]

/-- A builder starts from another's command exactly if it can be planned, has a single command, and finds that one. -/
theorem reuses_iff (hm : m.isCommandBuilder = true) (hparent : c.graph.parentOf m = some cls) :
    Reuses c m n ↔
      (∃ body, (commandEngine c).synthesize m = .ok body) ∧ IsSingle c.graph m ∧ reused? c.graph cls m = some n := by
  constructor
  · rintro ⟨body, init, hbody, hinit, hreused⟩
    rcases init_of_shape (shape_of_parent hm hparent hbody) hinit with ⟨-, hnone⟩ | ⟨hsingle, hfound⟩
    · cases hnone.symm.trans hreused
    · exact ⟨⟨body, hbody⟩, hsingle, hfound.reused.symm.trans hreused⟩
  · rintro ⟨⟨body, hbody⟩, hsingle, hreused⟩
    obtain ⟨init, hinit, hfound⟩ := exists_init_of_shape (shape_of_parent hm hparent hbody) hsingle
    exact ⟨body, init, hbody, hinit, hfound.reused.trans hreused⟩

end Reuse

/-! ### Who comes first -/

/-- A method of a list that is the first of some kind. -/
def IsFirst (ms : List Method) (P : Method → Prop) (m : Method) : Prop :=
  ∃ before after, ms = before ++ m :: after ∧ P m ∧ ∀ o ∈ before, ¬P o

/-- A navigation under the name of a builder. -/
def NavigatesAs (k o : Method) : Prop :=
  o.isCommandBuilder = true ∧ o.accessedProperty.isSome = true ∧ sameName o k = true

/-- A container under the name of a builder. -/
def ContainsAs (k t : Method) : Prop :=
  t.isCommandBuilder = true ∧ returnsItems t = false ∧ t.http = none ∧ sameName t k = true

section First

variable {g : Graph} {cls target : ClassDef} {k n : Method}

/-- Finding is being the first. -/
theorem find?_eq_some_iff_isFirst {ms : List Method} {p : Method → Bool} {P : Method → Prop}
    (hp : ∀ m ∈ ms, p m = true ↔ P m) : ms.find? p = some n ↔ IsFirst ms P n := by
  rw [List.find?_eq_some_iff_append]
  constructor
  · rintro ⟨hn, before, after, rfl, hbefore⟩
    refine ⟨before, after, rfl, (hp n (by simp)).mp hn, fun o ho hP => ?_⟩
    simpa [(hp o (by simp [ho])).mpr hP] using hbefore o ho
  · rintro ⟨before, after, rfl, hn, hbefore⟩
    refine ⟨(hp n (by simp)).mpr hn, before, after, rfl, fun o ho => ?_⟩
    simpa using fun hpo => hbefore o ho ((hp o (by simp [ho])).mp hpo)

theorem indexerMatch_eq_some_iff : indexerMatch k target = some n ↔ IsFirst target.methods (ContainsAs k) n :=
  find?_eq_some_iff_isFirst fun m _ => by simp [ContainsAs, and_assoc]

theorem indexerMatch_eq_none_iff : indexerMatch k target = none ↔ ∀ t ∈ target.methods, ¬ContainsAs k t := by
  simp [indexerMatch, List.find?_eq_none, ContainsAs, and_assoc]

theorem NavigatesAs.ne (h : NavigatesAs k n) (hother : k.accessedProperty = none) : n ≠ k := by
  rintro rfl
  have hnavigates := h.2.1
  simp [hother] at hnavigates

/-- What a builder finds navigates under its name, and stands in front of it if it navigates itself. -/
theorem found_of_navigationMatch (h : navigationMatch cls k = some n) :
    NavigatesAs k n ∧ (k.accessedProperty.isSome = true → n ∈ cls.methods.takeWhile (·.id != k.id)) := by
  unfold navigationMatch at h
  split at h
  · cases h
  · refine ⟨by simpa [NavigatesAs, and_assoc] using List.find?_some h, fun hnavigates => ?_⟩
    simp only [hnavigates, if_true] at h
    exact List.mem_of_find?_eq_some h

/-- In front of one that passes a test, the first to pass is the first of all, unless that is the one itself. -/
theorem find?_takeWhile_eq_some_iff {ms : List Method} {p : Method → Bool} (hk : k ∈ ms) (hp : p k = true)
    (hext : ∀ o ∈ ms, o.id = k.id → o = k) :
    (ms.takeWhile (·.id != k.id)).find? p = some n ↔ n ≠ k ∧ ms.find? p = some n := by
  induction ms with
  | nil => cases hk
  | cons o ms ih =>
      by_cases hid : o.id = k.id
      · rw [hext o List.mem_cons_self hid, List.takeWhile_cons_of_neg (by simp), List.find?_cons_of_pos hp]
        simp [eq_comm]
      · have hne : o ≠ k := fun heq => hid (congrArg Method.id heq)
        rw [List.takeWhile_cons_of_pos (by simpa using hid)]
        cases ho : p o with
        | true =>
            rw [List.find?_cons_of_pos ho, List.find?_cons_of_pos ho, Option.some.injEq]
            refine ⟨?_, And.right⟩
            rintro rfl
            exact ⟨hne, rfl⟩
        | false =>
            have hlater : k ∈ ms := (List.mem_cons.mp hk).resolve_left hne.symm
            rw [List.find?_cons_of_neg (by simp [ho]), List.find?_cons_of_neg (by simp [ho])]
            exact ih hlater fun o ho => hext o (List.mem_cons_of_mem _ ho)

/-- A builder finds the first navigation of its name in the class, unless it is that one itself. -/
theorem navigationMatch_eq_some_iff (hplaced : g.Placed) (hcls : cls ∈ g.classes) (hk : k ∈ cls.commandBuilders) :
    navigationMatch cls k = some n ↔ hasName k = true ∧ n ≠ k ∧ IsFirst cls.methods (NavigatesAs k) n := by
  obtain ⟨hmem, hbuilder⟩ := mem_commandBuilders.mp hk
  have hext : ∀ o ∈ cls.methods, o.id = k.id → o = k := fun o ho hid => hplaced.method_ext hcls ho hmem hid
  cases hname : hasName k with
  | false => simp [navigationMatch, hname]
  | true =>
      simp only [navigationMatch, hname, Bool.not_true, Bool.false_eq_true, if_false, true_and]
      cases hproperty : k.accessedProperty with
      | none =>
          have hne : IsFirst cls.methods (NavigatesAs k) n → n ≠ k := by
            rintro ⟨_, _, _, hnavigates, -⟩
            exact hnavigates.ne hproperty
          rw [and_iff_right_of_imp hne, if_neg (by simp), List.find?_filter]
          refine find?_eq_some_iff_isFirst fun o ho => ?_
          by_cases hid : o.id = k.id
          · rw [hext o ho hid]
            simp [NavigatesAs, hproperty]
          · simp [NavigatesAs, hid, and_assoc]
      | some property =>
          have hself : sameName k k = true := Text.foldEq_refl _
          rw [if_pos (by simp), find?_takeWhile_eq_some_iff hmem (by simp [hbuilder, hproperty, hself]) hext]
          refine and_congr_right' (find?_eq_some_iff_isFirst fun o _ => ?_)
          simp [NavigatesAs, and_assoc]

/-- The container of a builder is the first under its name in what the indexer leads to. -/
theorem container?_eq_some_iff :
    container? g cls k = some n ↔
      hasName k = true ∧ ∃ target, indexed? g cls = some target ∧ IsFirst target.methods (ContainsAs k) n := by
  cases hname : hasName k <;> simp [container?, hname, Option.bind_eq_some_iff, indexerMatch_eq_some_iff]

/-- There is none where nothing that the indexer leads to is a container under the name. -/
theorem container?_eq_none_iff (hname : hasName k = true) :
    container? g cls k = none ↔ ∀ target, indexed? g cls = some target → ∀ t ∈ target.methods, ¬ContainsAs k t := by
  simp [container?, hname, Option.bind_eq_none_iff, indexerMatch_eq_none_iff]

end First

/-! ### Chains -/

section Chain

variable {c : Context} {cls : ClassDef} {k f n : Method}

/-- What comes before the first that ends the search. -/
theorem mem_before_of_mem_takeWhile {ms before after : List Method} {p : Method → Bool}
    (hms : ms = before ++ f :: after) (hf : p f = false) {o : Method} (ho : o ∈ ms.takeWhile p) : o ∈ before := by
  rw [hms, List.takeWhile_append] at ho
  split at ho
  · simpa [hf] using ho
  · exact (List.takeWhile_sublist p).subset ho

/-- The first navigation of a name starts from no other command, if there is no container of that name. -/
theorem reused?_eq_none (hname : hasName k = true) (hcontainer : container? c.graph cls k = none)
    (hfirst : IsFirst cls.methods (NavigatesAs k) f) : reused? c.graph cls f = none := by
  obtain ⟨before, after, hmethods, ⟨-, hnavigates, hsame⟩, hbefore⟩ := hfirst
  have hcontainer' : container? c.graph cls f = none := by
    cases hf : container? c.graph cls f with
    | none => rfl
    | some t =>
        obtain ⟨-, target, htarget, beforeₜ, afterₜ, hmethodsₜ, ⟨hbuilder, hsingle, hhttp, hsameₜ⟩, -⟩ :=
          container?_eq_some_iff.mp hf
        have hmem : t ∈ target.methods := by simp [hmethodsₜ]
        exact absurd ⟨hbuilder, hsingle, hhttp, Text.foldEq_trans hsameₜ hsame⟩
          ((container?_eq_none_iff hname).mp hcontainer target htarget t hmem)
  have hsiblings : navigationMatch cls f = none := by
    cases hmatch : navigationMatch cls f with
    | none => rfl
    | some o =>
        obtain ⟨⟨hbuilder, hnavigatesₒ, hsameₒ⟩, hfront⟩ := found_of_navigationMatch hmatch
        have ho : o ∈ before := mem_before_of_mem_takeWhile hmethods (by simp) (hfront hnavigates)
        exact absurd ⟨hbuilder, hnavigatesₒ, Text.foldEq_trans hsameₒ hsame⟩ (hbefore o ho)
  rw [reused?, hcontainer', hsiblings]
  rfl

/-- A builder is on the way to a navigation of its class: it has a single command and a name, can be planned, and either
finds no container of its name and this navigation first, or finds a container that is on the way in turn. -/
structure LeadsTo (c : Context) (cls : ClassDef) (k n : Method) : Prop where
  single : IsSingle c.graph k
  named : hasName k = true
  planned : ∃ body, (commandEngine c).synthesize k = .ok body
  source :
    (∀ target, indexed? c.graph cls = some target → ∀ t ∈ target.methods, ¬ContainsAs k t) ∧
        IsFirst cls.methods (NavigatesAs k) n ∨
      ∃ target t, indexed? c.graph cls = some target ∧ IsFirst target.methods (ContainsAs k) t ∧
        (t = n ∨ TransGen (Reuses c) t n)

variable (hplaced : c.graph.Placed) (hcls : cls ∈ c.graph.classes)
  (hparent : ∀ m ∈ cls.commandBuilders, c.graph.parentOf m = some cls) (hk : k ∈ cls.commandBuilders)
  (hother : k.accessedProperty = none)
include hplaced hcls hparent hk hother

/-- Chains of commands from a builder that does not navigate itself. -/
theorem chain_iff : TransGen (Reuses c) k n ↔ LeadsTo c cls k n := by
  have hbuilder := (mem_commandBuilders.mp hk).2
  have hstep {r : Method} := reuses_iff (n := r) hbuilder (hparent k hk)
  have hnavigation {r : Method} := navigationMatch_eq_some_iff (n := r) hplaced hcls hk
  constructor
  · intro hchain
    obtain ⟨r, hkr, hrn⟩ := TransGen.head'_iff.mp hchain
    obtain ⟨hplanned, hsingle, hreused⟩ := hstep.mp hkr
    cases hcontainer : container? c.graph cls k with
    | some t =>
        rw [reused?, hcontainer] at hreused
        cases hreused
        obtain ⟨hname, target, htarget, hfirst⟩ := container?_eq_some_iff.mp hcontainer
        have hleads : r = n ∨ _ := (reflTransGen_iff_eq_or_transGen.mp hrn).imp_left Eq.symm
        exact ⟨hsingle, hname, hplanned, .inr ⟨target, r, htarget, hfirst, hleads⟩⟩
    | none =>
        rw [reused?, hcontainer] at hreused
        obtain ⟨hname, -, hfirst⟩ := hnavigation.mp hreused
        refine ⟨hsingle, hname, hplanned, .inl ⟨(container?_eq_none_iff hname).mp hcontainer, ?_⟩⟩
        -- the chain ends here: the first navigation starts from no other command
        rcases ReflTransGen.cases_head hrn with rfl | ⟨r', hrr', -⟩
        · exact hfirst
        · have hr := navigationMatch_mem hreused
          have hreused' := ((reuses_iff (mem_commandBuilders.mp hr).2 (hparent r hr)).mp hrr').2.2
          rw [reused?_eq_none hname hcontainer hfirst] at hreused'
          cases hreused'
  · rintro ⟨hsingle, hname, hplanned, ⟨hnone, hfirst⟩ | ⟨target, t, htarget, hfirst, hrest⟩⟩
    · have hcontainer := (container?_eq_none_iff hname).mpr hnone
      refine .single (hstep.mpr ⟨hplanned, hsingle, ?_⟩)
      rw [reused?, hcontainer]
      obtain ⟨_, _, _, hnavigates, -⟩ := id hfirst
      exact hnavigation.mpr ⟨hname, hnavigates.ne hother, hfirst⟩
    · have hcontainer := container?_eq_some_iff.mpr ⟨hname, target, htarget, hfirst⟩
      have hkt : Reuses c k t := hstep.mpr ⟨hplanned, hsingle, by rw [reused?, hcontainer]; rfl⟩
      rcases hrest with rfl | hrest
      · exact .single hkt
      · exact .head hkt hrest

end Chain

/-- A navigation of a class that has the name of a builder which does not navigate is left out where a navigation leads
to the class. It is still there, as the start of a chain of commands from a builder that is kept, exactly if one of
these leads to it. -/
theorem skipped_navigation_covered_iff {c : Context} {cls : ClassDef} {n : Method} (hplaced : c.graph.Placed)
    (hcls : cls ∈ c.graph.classes) (hparent : ∀ m ∈ cls.commandBuilders, c.graph.parentOf m = some cls)
    (hnavigates : n.accessedProperty.isSome = true)
    (hfavoured : ∃ k ∈ cls.commandBuilders, groupKey k = groupKey n ∧ k.accessedProperty = none) :
    n ∉ childBuilders cls ∧
    ((∃ k ∈ childBuilders cls, groupKey k = groupKey n ∧ TransGen (Reuses c) k n) ↔
      ∃ k ∈ cls.commandBuilders, groupKey k = groupKey n ∧ k.accessedProperty = none ∧ LeadsTo c cls k n) := by
  constructor
  · intro hkept
    have hother := ((mem_childBuilders_iff hfavoured).mp hkept).2
    simp [hother] at hnavigates
  · have hkept {k : Method} (hkey : groupKey k = groupKey n) :
        k ∈ childBuilders cls ↔ k ∈ cls.commandBuilders ∧ k.accessedProperty = none :=
      mem_childBuilders_iff (hkey ▸ hfavoured)
    constructor
    · rintro ⟨k, hk, hkey, hchain⟩
      obtain ⟨hbuilder, hother⟩ := (hkept hkey).mp hk
      exact ⟨k, hbuilder, hkey, hother, (chain_iff hplaced hcls hparent hbuilder hother).mp hchain⟩
    · rintro ⟨k, hbuilder, hkey, hother, hleads⟩
      exact ⟨k, (hkept hkey).mpr ⟨hbuilder, hother⟩, hkey,
        (chain_iff hplaced hcls hparent hbuilder hother).mpr hleads⟩

namespace Sample

def messages : ClassDef :=
  builder 0 "Messages" [way 0 "List" 1] [] (request 0 0 "List" ++ [navigation 0 3 "List" 0])

/-- The builder of the command that lists messages. -/
def list : Method :=
  { member 0 2 "BuildListCommand" .commandBuilder with
    http := some "GET", representedMethod := some ⟨⟨0⟩, 0⟩ }

/-- A client that lists messages, and has more to do with the list. -/
def listing : Context :=
  ⟨graph [messages, builder 1 "Lists" [] [] (request 1 0 "Get")], Convention.Language.cli.policy, {}⟩

def itemMessages : ClassDef :=
  builder 0 "Messages" [way 0 "Item" 1] [item 0 2] [items 0 0, navigation 0 1 "Item" 0]

/-- A client for single messages that has another class under the name of the indexer. -/
def indexing : Context :=
  ⟨graph [itemMessages, builder 1 "Items" [] [] (request 1 0 "Get"), builder 2 "Message" [] [] (request 2 0 "Count")],
    Convention.Language.cli.policy, {}⟩

theorem exists_synthesize_list : ∃ body, (commandEngine listing).synthesize list = .ok body :=
  exists_ok_of_isSome (by decide +kernel)

end Sample

open Sample

/-- The command that lists messages starts from the navigation to the list, but the navigation to the items is dropped
for the builder of the messages' items. -/
theorem list_covered_and_items_not :
    (∃ k ∈ childBuilders messages, groupKey k = groupKey (navigation 0 3 "List" 0) ∧
      TransGen (Reuses listing) k (navigation 0 3 "List" 0)) ∧
    ¬∃ k ∈ childBuilders itemMessages, groupKey k = groupKey (navigation 0 1 "Item" 0) ∧
      TransGen (Reuses indexing) k (navigation 0 1 "Item" 0) := by
  constructor
  · have hlist : list ∈ messages.commandBuilders :=
      mem_commandBuilders.mpr ⟨by simp [messages, builder, request, list], rfl⟩
    have hparent : ∀ m ∈ messages.commandBuilders, listing.graph.parentOf m = some messages := by
      intro m hm
      have hmem := (mem_commandBuilders.mp hm).1
      simp only [messages, builder, request, List.mem_append, List.mem_cons, List.not_mem_nil, or_false] at hmem
      rcases hmem with (rfl | rfl | rfl) | rfl <;> rfl
    have hfirst : IsFirst messages.methods (NavigatesAs list) (navigation 0 3 "List" 0) :=
      ⟨request 0 0 "List", [], rfl, ⟨rfl, rfl, by decide⟩, by simp [NavigatesAs, request, member]⟩
    refine (skipped_navigation_covered_iff (n := navigation 0 3 "List" 0) (by decide +kernel) (by simp [listing, graph])
      hparent rfl ⟨_, hlist, rfl, rfl⟩).2.mpr ⟨_, hlist, rfl, rfl, ?_⟩
    have hindexed : indexed? listing.graph messages = none := Option.isNone_iff_eq_none.mp (by decide +kernel)
    exact ⟨.inl rfl, by decide, exists_synthesize_list, .inl ⟨by simp [hindexed], hfirst⟩⟩
  · have hbuilders : itemMessages.commandBuilders = [items 0 0, navigation 0 1 "Item" 0] := rfl
    have hparent : ∀ m ∈ itemMessages.commandBuilders, indexing.graph.parentOf m = some itemMessages := by
      intro m hm
      simp only [hbuilders, List.mem_cons, List.not_mem_nil, or_false] at hm
      rcases hm with rfl | rfl <;> rfl
    rw [(skipped_navigation_covered_iff (n := navigation 0 1 "Item" 0) (by decide +kernel) (by simp [indexing, graph])
      hparent rfl ⟨items 0 0, by simp [hbuilders], rfl, rfl⟩).2]
    rintro ⟨k, hk, -, hother, hleads⟩
    simp only [hbuilders, List.mem_cons, List.not_mem_nil, or_false] at hk
    rcases hk with rfl | rfl
    · rcases hleads.single with hhttp | ⟨-, hindexer⟩
      · cases hhttp
      · cases hindexer
    · cases hother

end ClientForge.Command
