import ClientForge.Proofs.Command.Covered
import Mathlib.Order.WellFounded

/-!
# Links between siblings

A command may start from that of a sibling that navigates under its name. A builder that navigates itself looks only at
those in front of it, and any other at the whole class, so neither the place in the class nor the kind of a builder
alone goes down along such links. Together they do (`linkRank`): navigations stand at their place, and all others behind
them.

* **`linkRank_lt_of_navigationMatch`.** A link leads down.
* **`grounded_of_navigationMatch`.** So following links ends, and all that is reached navigates under the same name.
* **`sibling_reuse_grounded`.** This holds of the links that builders find, and of those that their bodies take.
-/

namespace ClientForge.Command

open ClientForge.Graph ClientForge.Plan Relation

/-! ### Links -/

/-- A builder of a class finds, among the methods of its parent, the sibling whose command it could start from. -/
def FindsSibling (g : Graph) (cls : ClassDef) (m n : Method) : Prop :=
  m ∈ cls.commandBuilders ∧ ∃ parent, g.parentOf m = some parent ∧ navigationMatch parent m = some n

/-- The body of a builder of a class takes the command of a sibling. -/
def TakesSibling (c : Context) (cls : ClassDef) (m n : Method) : Prop :=
  m ∈ cls.commandBuilders ∧ ∃ body init, (commandEngine c).synthesize m = .ok body ∧
    .command (.initCommand init) ∈ body.operations ∧ init.source = .fromNavigation ∧ init.reused = some n

/-- Following links from a builder ends at one that has none. -/
structure EndsAt (link : Method → Method → Prop) (m r : Method) : Prop where
  reached : ReflTransGen link m r
  last : ∀ n, ¬link r n

/-- Links between the builders of a class can be followed to an end. Where there is one to follow, it is another
builder, which navigates under the same name. -/
structure Grounded (cls : ClassDef) (link : Method → Method → Prop) : Prop where
  wellFounded : WellFounded (Function.swap link)
  acyclic : ∀ m, ¬TransGen link m m
  ends : ∀ m, ∃! r, EndsAt link m r
  navigates : ∀ m n r, link m n → EndsAt link m r → r ∈ cls.methods ∧ r ≠ m ∧ NavigatesAs m r

section Links

variable {c : Context} {cls : ClassDef} {m n : Method}

/-- A builder finds the sibling that navigates under its name. -/
theorem findsSibling_iff (hparent : ∀ m ∈ cls.commandBuilders, c.graph.parentOf m = some cls) :
    FindsSibling c.graph cls m n ↔ m ∈ cls.commandBuilders ∧ navigationMatch cls m = some n := by
  refine and_congr_right fun hm => ?_
  simp [hparent m hm]

/-- A link is taken if the builder has a single command, can be planned, and finds no container of its name. -/
theorem takesSibling_iff (hparent : ∀ m ∈ cls.commandBuilders, c.graph.parentOf m = some cls) :
    TakesSibling c cls m n ↔
      FindsSibling c.graph cls m n ∧ IsSingle c.graph m ∧ container? c.graph cls m = none ∧
        ∃ body, (commandEngine c).synthesize m = .ok body := by
  rw [findsSibling_iff hparent, and_assoc]
  refine and_congr_right fun hm => ?_
  have hshape {body : Body} (hbody : (commandEngine c).synthesize m = .ok body) : Shape c cls m body.operations :=
    shape_of_parent (mem_commandBuilders.mp hm).2 (hparent m hm) hbody
  constructor
  · rintro ⟨body, init, hbody, hinit, hsource, hreused⟩
    rcases init_of_shape (hshape hbody) hinit with ⟨hroot, -⟩ | ⟨hsingle, hfound⟩
    · cases hroot.symm.trans hsource
    · have hcontainer := (hfound.source.mp hsource).1
      rw [hfound.reused, reused?, hcontainer] at hreused
      exact ⟨hreused, hsingle, hcontainer, body, hbody⟩
  · rintro ⟨hmatch, hsingle, hcontainer, body, hbody⟩
    obtain ⟨init, hinit, hfound⟩ := exists_init_of_shape (hshape hbody) hsingle
    refine ⟨body, init, hbody, hinit, hfound.source.mpr ⟨hcontainer, by simp [hmatch]⟩, ?_⟩
    rw [hfound.reused, reused?, hcontainer]
    exact hmatch

end Links

/-! ### Links lead down -/

/-- Where a builder stands in the order of links: navigations at their place in the class, all others behind them. -/
def linkRank (cls : ClassDef) (m : Method) : Nat :=
  if m.accessedProperty.isSome then cls.methods.findIdx (·.id == m.id) else cls.methods.length

section Rank

variable {cls : ClassDef} {m n : Method}

/-- What comes before a method has a smaller number. -/
theorem findIdx_lt_of_mem_takeWhile {ms : List Method} (h : n ∈ ms.takeWhile (·.id != m.id)) :
    ms.findIdx (·.id == n.id) < ms.findIdx (·.id == m.id) := by
  induction ms with
  | nil => cases h
  | cons o ms ih =>
      by_cases hm : o.id = m.id
      · rw [List.takeWhile_cons_of_neg (by simp [hm])] at h
        cases h
      · rw [List.takeWhile_cons_of_pos (by simpa using hm)] at h
        rw [List.findIdx_cons, List.findIdx_cons, beq_false_of_ne hm, cond_false]
        rcases List.mem_cons.mp h with rfl | hrest
        · simp
        · cases o.id == n.id with
          | true => simp
          | false => simpa using ih hrest

theorem linkRank_lt_of_navigationMatch (h : navigationMatch cls m = some n) : linkRank cls n < linkRank cls m := by
  obtain ⟨⟨-, hnavigates, -⟩, hfront⟩ := found_of_navigationMatch h
  rw [linkRank, if_pos hnavigates, linkRank]
  split
  · next hself =>
    -- a navigation finds only what stands in front of it
    exact findIdx_lt_of_mem_takeWhile (hfront hself)
  · -- all others may find a navigation behind them, but stand behind every place in the order of links
    have hmem := (mem_commandBuilders.mp (navigationMatch_mem h)).1
    exact List.findIdx_lt_length_of_exists ⟨n, hmem, by simp⟩

end Rank

/-! ### Following links -/

section Follow

variable {cls : ClassDef} {link : Method → Method → Prop} {m n r : Method}

theorem EndsAt.transGen (h : EndsAt link m r) (hn : link m n) : TransGen link m r := by
  rcases reflTransGen_iff_eq_or_transGen.mp h.reached with rfl | hreached
  · exact absurd hn (h.last n)
  · exact hreached

theorem EndsAt.unique {r' : Method} (hunique : Relator.RightUnique link) (h : EndsAt link m r)
    (h' : EndsAt link m r') : r = r' := by
  rcases ReflTransGen.total_of_right_unique hunique h.reached h'.reached with hr | hr
  · rcases hr.cases_head with heq | ⟨n, hn, -⟩
    · exact heq
    · exact absurd hn (h.last n)
  · rcases hr.cases_head with heq | ⟨n, hn, -⟩
    · exact heq.symm
    · exact absurd hn (h'.last n)

theorem exists_endsAt (hwf : WellFounded (Function.swap link)) (m : Method) : ∃ r, EndsAt link m r := by
  obtain ⟨r, hreached, hleast⟩ := hwf.has_min {r | ReflTransGen link m r} ⟨m, .refl⟩
  exact ⟨r, hreached, fun n hn => hleast n (ReflTransGen.tail hreached hn) hn⟩

variable (hlink : ∀ m n, link m n → navigationMatch cls m = some n)
include hlink

/-- All that is reached stands before the builder and navigates under its name. -/
theorem navigates_of_reached (h : TransGen link m r) :
    linkRank cls r < linkRank cls m ∧ r ∈ cls.methods ∧ NavigatesAs m r := by
  induction h with
  | single hstep =>
      have hmatch := hlink _ _ hstep
      exact ⟨linkRank_lt_of_navigationMatch hmatch, (mem_commandBuilders.mp (navigationMatch_mem hmatch)).1,
        (found_of_navigationMatch hmatch).1⟩
  | tail _ hstep ih =>
      have hmatch := hlink _ _ hstep
      obtain ⟨hrank, -, -, -, hsame⟩ := ih
      obtain ⟨hbuilder, hnavigates, hsame'⟩ := (found_of_navigationMatch hmatch).1
      refine ⟨Nat.lt_trans (linkRank_lt_of_navigationMatch hmatch) hrank,
        (mem_commandBuilders.mp (navigationMatch_mem hmatch)).1, hbuilder, hnavigates, ?_⟩
      exact Text.foldEq_trans hsame' hsame

theorem grounded_of_navigationMatch : Grounded cls link := by
  have hwf : WellFounded (Function.swap link) :=
    Subrelation.wf (fun h => linkRank_lt_of_navigationMatch (hlink _ _ h)) (InvImage.wf (linkRank cls) wellFounded_lt)
  have hunique : Relator.RightUnique link := fun m n n' hn hn' =>
    Option.some.inj ((hlink m n hn).symm.trans (hlink m n' hn'))
  refine ⟨hwf, ?_, ?_, ?_⟩
  · intro m hcycle
    exact Nat.lt_irrefl _ (navigates_of_reached hlink hcycle).1
  · intro m
    obtain ⟨r, hr⟩ := exists_endsAt hwf m
    exact ⟨r, hr, fun r' hr' => hr'.unique hunique hr⟩
  · intro m n r hn hr
    obtain ⟨hrank, hmem, hnavigates⟩ := navigates_of_reached hlink (hr.transGen hn)
    refine ⟨hmem, ?_, hnavigates⟩
    rintro rfl
    exact Nat.lt_irrefl _ hrank

end Follow

/-- In a class that is the parent of its builders, the links between siblings go round in no circle and can be followed
to an end. Where there is a link to follow, the end is another builder that navigates under the same name. This holds of
the links that builders find, which lead to the first navigation of their name, and of those among them that bodies
take. -/
theorem sibling_reuse_grounded {c : Context} {cls : ClassDef}
    (hparent : ∀ m ∈ cls.commandBuilders, c.graph.parentOf m = some cls) :
    Grounded cls (FindsSibling c.graph cls) ∧ Grounded cls (TakesSibling c cls) ∧
    (∀ m n, TakesSibling c cls m n ↔
      FindsSibling c.graph cls m n ∧ IsSingle c.graph m ∧ container? c.graph cls m = none ∧
        ∃ body, (commandEngine c).synthesize m = .ok body) ∧
    (c.graph.Placed → ∀ m n, FindsSibling c.graph cls m n ↔
      m ∈ cls.commandBuilders ∧ hasName m = true ∧ n ≠ m ∧ IsFirst cls.methods (NavigatesAs m) n) := by
  refine ⟨?_, ?_, fun m n => takesSibling_iff hparent, ?_⟩
  · exact grounded_of_navigationMatch fun m n hfinds => ((findsSibling_iff hparent).mp hfinds).2
  · refine grounded_of_navigationMatch fun m n htakes => ?_
    have hfinds := ((takesSibling_iff hparent).mp htakes).1
    exact ((findsSibling_iff hparent).mp hfinds).2
  · intro hplaced m n
    rw [findsSibling_iff hparent]
    refine and_congr_right fun hm => ?_
    exact navigationMatch_eq_some_iff hplaced (parentOf_mem (hparent m hm)) hm

namespace Sample

/-- Messages with three builders of one name: one lists them, and two navigate. -/
def relisted : ClassDef :=
  builder 0 "Messages" [way 0 "List" 1, way 0 "Lists" 1] []
    (request 0 0 "List" ++ [navigation 0 3 "List" 0, navigation 0 4 "LIST" 1])

def relisting : Context :=
  ⟨graph [relisted, builder 1 "Lists" [] [] (request 1 0 "Get")], Convention.Language.cli.policy, {}⟩

/-- The navigation that stands in front. -/
def front : Method := navigation 0 3 "List" 0

/-- The navigation behind it, whose name is the same but for case. -/
def behind : Method := navigation 0 4 "LIST" 1

theorem commandBuilders_relisted : relisted.commandBuilders = [list, front, behind] := rfl

theorem parentOf_relisted : ∀ m ∈ relisted.commandBuilders, relisting.graph.parentOf m = some relisted := by
  intro m hm
  simp only [commandBuilders_relisted, List.mem_cons, List.not_mem_nil, or_false] at hm
  rcases hm with rfl | rfl | rfl <;> rfl

theorem isFirst_front {m : Method} (h : sameName front m = true) : IsFirst relisted.methods (NavigatesAs m) front :=
  ⟨request 0 0 "List", [behind], rfl, ⟨rfl, rfl, h⟩, by simp [NavigatesAs, request, member]⟩

/-- Both builders of the sample have bodies. -/
theorem exists_synthesize_relisted {m : Method} (h : m = list ∨ m = behind) :
    ∃ body, (commandEngine relisting).synthesize m = .ok body := by
  have hplanned : ((commandEngine relisting).synthesize list).toOption.isSome = true ∧
      ((commandEngine relisting).synthesize behind).toOption.isSome = true := by decide +kernel
  rcases h with rfl | rfl
  · exact exists_ok_of_isSome hplanned.1
  · exact exists_ok_of_isSome hplanned.2

end Sample

open Sample

/-- The command that lists messages and that of the navigation behind both start from the navigation in front, and this
one starts from no other. -/
theorem lists_end_at_front :
    (∀ m ∈ relisted.commandBuilders, relisting.graph.parentOf m = some relisted) ∧ relisting.graph.Placed ∧
    EndsAt (TakesSibling relisting relisted) list front ∧ EndsAt (TakesSibling relisting relisted) behind front ∧
    front ≠ behind ∧ NavigatesAs behind front := by
  have hplaced : relisting.graph.Placed := by decide +kernel
  obtain ⟨-, hgrounded, htakes, hfinds⟩ := sibling_reuse_grounded parentOf_relisted
  have hcontainer (m : Method) : container? relisting.graph relisted m = none := by
    have hindexed : indexed? relisting.graph relisted = none := Option.isNone_iff_eq_none.mp (by decide +kernel)
    simp [container?, hindexed]
  have hstart {m : Method} (hm : m = list ∨ m = behind) : TakesSibling relisting relisted m front := by
    have hfound : FindsSibling relisting.graph relisted m front := by
      rw [hfinds hplaced]
      rcases hm with rfl | rfl
      all_goals
        exact ⟨by simp [commandBuilders_relisted], by decide, fun heq => absurd (congrArg (·.id.index) heq) (by decide),
          isFirst_front (by decide)⟩
    have hsingle : IsSingle relisting.graph m := by
      rcases hm with rfl | rfl
      · exact .inl rfl
      · exact .inr ⟨rfl, rfl⟩
    exact (htakes m front).mpr ⟨hfound, hsingle, hcontainer m, exists_synthesize_relisted hm⟩
  have hlast (n : Method) : ¬TakesSibling relisting relisted front n := by
    intro hn
    have hnone : navigationMatch relisted front = none := Option.isNone_iff_eq_none.mp (by decide +kernel)
    have hmatch := ((findsSibling_iff parentOf_relisted).mp ((htakes front n).mp hn).1).2
    cases hnone.symm.trans hmatch
  have hend {m : Method} (hm : m = list ∨ m = behind) : EndsAt (TakesSibling relisting relisted) m front :=
    ⟨.single (hstart hm), hlast⟩
  obtain ⟨-, hne, hnavigates⟩ := hgrounded.navigates behind front front (hstart (.inr rfl)) (hend (.inr rfl))
  exact ⟨parentOf_relisted, hplaced, hend (.inl rfl), hend (.inr rfl), hne, hnavigates⟩

end ClientForge.Command
