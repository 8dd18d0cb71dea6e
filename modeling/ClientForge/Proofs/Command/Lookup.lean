import ClientForge.Proofs.Command.Siblings

/-!
# Looking commands up

A walk comes to the places of a tree in order, each once, and gives the names on the way to each. Looking up goes the
other way, from names to a node. Siblings have distinct names, without regard to case. So the names on the way tell
every place of an assembled tree from the others, and looking them up leads back to where the walk was.

* **`enumerates_positions`.** The places that a walk comes to, for any tree.
* **`pairwise_walk`, `find_of_mem_walk`, `exists_of_find`.** Where siblings are distinct, ways are distinct, every way
  is found, and nothing else is.
* **`find_inverts_walk`.** All of this for assembled trees.
-/

namespace ClientForge.Command

open ClientForge.Graph ClientForge.Plan

/-- Two ways with the same names without regard to case. -/
def SameWay (path other : List String) : Prop := List.Forall₂ (fun s t => Text.foldEq s t = true) path other

instance (path other : List String) : Decidable (SameWay path other) :=
  inferInstanceAs (Decidable (List.Forall₂ _ path other))

theorem SameWay.refl (path : List String) : SameWay path path :=
  List.forall₂_same.mpr fun s _ => Text.foldEq_refl s

namespace Node

/-! ### Places -/

/-- What is at a place, given by the numbers of the children on the way, with their names. -/
def at? (n : Node) : List Nat → Option (List String × Node)
  | [] => some ([], n)
  | i :: place => n.children[i]?.bind fun c => (c.at? place).map fun v => (c.name :: v.1, v.2)

mutual

/-- The places of a tree, each before those below it. -/
def positions : Node → List (List Nat)
  | ⟨_, _, _, _, _, _, children⟩ => [] :: positionsFrom 0 children

/-- The places in some children, the first of which has a given number. -/
def positionsFrom (i : Nat) : List Node → List (List Nat)
  | [] => []
  | ⟨name, description, method, executable, http, options, children⟩ :: ns =>
    (positions ⟨name, description, method, executable, http, options, children⟩).map (i :: ·) ++
      positionsFrom (i + 1) ns

end

/-- The positions in siblings begin with the number of the sibling. -/
theorem positionsFrom_eq (i : Nat) (ns : List Node) :
    positionsFrom i ns = (ns.zipIdx i).flatMap fun x => x.1.positions.map (x.2 :: ·) := by
  induction ns generalizing i with
  | nil => rfl
  | cons n ns ih =>
      cases n
      rw [positionsFrom, ih]
      rfl

theorem positions_eq (n : Node) :
    n.positions = [] :: n.children.zipIdx.flatMap fun x => x.1.positions.map (x.2 :: ·) := by
  rw [← positionsFrom_eq]
  cases n
  rw [positions]

/-- A child is found under its number. -/
theorem child_of_mem_zipIdx {n : Node} {x : Node × Nat} (hx : x ∈ n.children.zipIdx) :
    n.children[x.2]? = some x.1 ∧ x.1 ∈ n.children := by
  have hchild := List.mk_mem_zipIdx_iff_getElem?.mp (show (x.1, x.2) ∈ n.children.zipIdx from hx)
  exact ⟨hchild, List.mem_of_getElem? hchild⟩

theorem mem_positions_iff {n : Node} {place : List Nat} : place ∈ n.positions ↔ (n.at? place).isSome = true := by
  induction place generalizing n with
  | nil =>
      rw [positions_eq]
      simp [at?]
  | cons i place ih =>
      rw [positions_eq]
      constructor
      · intro h
        obtain ⟨x, hx, hplace⟩ := List.mem_flatMap.mp ((List.mem_cons.mp h).resolve_left (List.cons_ne_nil _ _))
        obtain ⟨rest, hrest, heq⟩ := List.mem_map.mp hplace
        cases heq
        simpa [at?, (child_of_mem_zipIdx hx).1] using ih.mp hrest
      · intro h
        cases hchild : n.children[i]? with
        | none => simp [at?, hchild] at h
        | some c =>
            have hplace : (c.at? place).isSome = true := by simpa [at?, hchild] using h
            exact List.mem_cons_of_mem _ (List.mem_flatMap.mpr ⟨(c, i), List.mk_mem_zipIdx_iff_getElem?.mpr hchild,
              List.mem_map_of_mem (ih.mpr hplace)⟩)

/-- No place comes after one below it, or twice. -/
theorem pairwise_positions (n : Node) : n.positions.Pairwise fun place later => ¬later <+: place := by
  rw [positions_eq, List.pairwise_cons, List.pairwise_flatMap]
  refine ⟨fun later hlater => ?_, fun x hx => ?_, ?_⟩
  · obtain ⟨x, _, hplace⟩ := List.mem_flatMap.mp hlater
    obtain ⟨rest, _, rfl⟩ := List.mem_map.mp hplace
    simp
  · have := sizeOf_child_lt (child_of_mem_zipIdx hx).2
    simpa [List.pairwise_map, List.cons_prefix_cons] using pairwise_positions x.1
  · have hnumbers : n.children.zipIdx.Pairwise fun x y => x.2 < y.2 := by
      rw [← List.pairwise_map (f := Prod.snd) (R := (· < ·)), List.zipIdx_map_snd]
      exact List.pairwise_lt_range'
    refine hnumbers.imp fun {x y} hlt place hplace later hlater hprefix => ?_
    obtain ⟨_, _, rfl⟩ := List.mem_map.mp hplace
    obtain ⟨_, _, rfl⟩ := List.mem_map.mp hlater
    have := (List.cons_prefix_cons.mp hprefix).1
    omega
termination_by sizeOf n

/-! ### Walks -/

/-- What a walk comes to below a child, seen from its parent. -/
def fromParent (c : Node) (v : List String × Node) : List String × Node := (c.name :: v.1, v.2)

/-- A walk that starts with a path comes to the same places with the path in front. -/
theorem walk_eq_map (path : List String) (n : Node) :
    n.walk path = (n.walk []).map fun v => (path ++ v.1, v.2) := by
  rw [walk_eq, walk_eq [], walkAll_eq, walkAll_eq, List.map_cons, List.map_flatMap, List.append_nil]
  refine congrArg _ (List.flatMap_congr fun c hc => ?_)
  have := sizeOf_child_lt hc
  rw [walk_eq_map (path ++ [c.name]) c, walk_eq_map ([] ++ [c.name]) c, List.map_map]
  simp [Function.comp_def]
termination_by sizeOf n

theorem walk_nil_eq (n : Node) :
    n.walk [] = ([], n) :: n.children.flatMap fun c => (c.walk []).map c.fromParent := by
  rw [walk_eq, walkAll_eq]
  refine congrArg _ (List.flatMap_congr fun c _ => ?_)
  rw [walk_eq_map]
  rfl

/-- A walk meets the node itself and everything below its children. -/
theorem mem_walk_iff {n : Node} {v : List String × Node} :
    v ∈ n.walk [] ↔ v = ([], n) ∨ ∃ c ∈ n.children, ∃ w ∈ c.walk [], c.fromParent w = v := by
  rw [walk_nil_eq]
  simp [List.mem_flatMap]

/-- The places of a tree in the order in which a walk comes to them. -/
structure Enumerates (n : Node) (order : List (List Nat)) : Prop where
  nodup : order.Nodup
  mem_iff : ∀ place, place ∈ order ↔ (n.at? place).isSome = true
  /-- Parents come before their children. -/
  downward : order.Pairwise fun place later => ¬later <+: place
  visits : order.map n.at? = (n.walk []).map some

theorem map_at?_positions (n : Node) : n.positions.map n.at? = (n.walk []).map some := by
  have hbelow : ∀ x ∈ n.children.zipIdx, (x.1.positions.map (x.2 :: ·)).map n.at? =
      ((x.1.walk []).map x.1.fromParent).map some := by
    intro x hx
    have := sizeOf_child_lt (child_of_mem_zipIdx hx).2
    have hchild : ∀ place, n.at? (x.2 :: place) = (x.1.at? place).map x.1.fromParent := by
      intro place
      rw [at?, (child_of_mem_zipIdx hx).1]
      rfl
    calc (x.1.positions.map (x.2 :: ·)).map n.at?
        = (x.1.positions.map x.1.at?).map (Option.map x.1.fromParent) := by simp [hchild]
      _ = ((x.1.walk []).map some).map (Option.map x.1.fromParent) := by rw [map_at?_positions x.1]
      _ = ((x.1.walk []).map x.1.fromParent).map some := by simp
  rw [positions_eq, walk_nil_eq, List.map_cons, List.map_cons, List.map_flatMap, List.map_flatMap,
    List.flatMap_congr hbelow, ← List.flatMap_map Prod.fst fun c : Node => ((c.walk []).map c.fromParent).map some,
    List.zipIdx_map_fst]
  rfl
termination_by sizeOf n

theorem enumerates_positions (n : Node) : n.Enumerates n.positions where
  nodup := (pairwise_positions n).imp fun {place later} hbelow (heq : place = later) =>
    hbelow (heq ▸ List.prefix_refl place)
  mem_iff _ := mem_positions_iff
  downward := pairwise_positions n
  visits := map_at?_positions n

/-! ### Finding -/

/-- Where names are distinct, a child is found by its name in any case. -/
theorem child_of_foldEq {n c : Node} {name : String} (h : n.ChildrenDistinct) (hc : c ∈ n.children)
    (hname : Text.foldEq c.name name = true) : n.child name = some c := by
  obtain ⟨front, back, hsplit⟩ := List.append_of_mem hc
  refine List.find?_eq_some_iff_append.mpr ⟨hname, front, back, hsplit, fun a ha => ?_⟩
  have hdistinct : Text.foldEq a.name c.name = false := by
    rw [ChildrenDistinct, hsplit, List.pairwise_append] at h
    exact h.2.2 a ha c List.mem_cons_self
  rw [Bool.not_eq_true']
  by_contra hsame
  rw [Text.foldEq_trans (Bool.not_eq_false _ ▸ hsame) ((Text.foldEq_comm _ _).trans hname)] at hdistinct
  cases hdistinct

/-- Where siblings are distinct, every command is found by its path, whatever the case of its letters. -/
theorem find_of_mem_walk {n : Node} (h : n.SiblingsDistinct) {v : List String × Node} (hv : v ∈ n.walk [])
    {path : List String} (hpath : SameWay v.1 path) : n.find path = some v.2 := by
  induction path generalizing n v with
  | nil =>
      rcases mem_walk_iff.mp hv with rfl | ⟨c, _, w, _, rfl⟩
      · rfl
      · cases hpath
  | cons name path ih =>
      rcases mem_walk_iff.mp hv with rfl | ⟨c, hc, w, hw, rfl⟩
      · cases hpath
      · obtain ⟨hname, hrest⟩ := List.forall₂_cons.mp hpath
        obtain ⟨hchildren, hbelow⟩ := siblingsDistinct_iff.mp h
        rw [find, child_of_foldEq hchildren hc hname]
        exact ih (v := w) (hbelow c hc) hw hrest

theorem exists_of_find {n d : Node} {path : List String} (h : n.find path = some d) :
    ∃ v ∈ n.walk [], SameWay v.1 path ∧ v.2 = d := by
  induction path generalizing n with
  | nil =>
      exact ⟨([], n), mem_walk_iff.mpr (.inl rfl), .nil, Option.some.inj h⟩
  | cons name path ih =>
      obtain ⟨c, hchild, hfind⟩ := Option.bind_eq_some_iff.mp h
      obtain ⟨w, hw, hsame, rfl⟩ := ih hfind
      exact ⟨c.fromParent w, mem_walk_iff.mpr (.inr ⟨c, List.mem_of_find?_eq_some hchild, w, hw, rfl⟩),
        .cons (List.find?_some (p := fun c : Node => Text.foldEq c.name name) hchild) hsame, rfl⟩

/-- Every way is told from the others by its names. -/
theorem pairwise_walk {n : Node} (h : n.SiblingsDistinct) :
    (n.walk []).Pairwise fun v w => ¬SameWay v.1 w.1 := by
  obtain ⟨hchildren, hbelow⟩ := siblingsDistinct_iff.mp h
  rw [walk_nil_eq, List.pairwise_cons, List.pairwise_flatMap]
  refine ⟨fun w hw hsame => ?_, fun c hc => ?_, hchildren.imp fun {c d} hdistinct v hv w hw hsame => ?_⟩
  · obtain ⟨c, _, hw⟩ := List.mem_flatMap.mp hw
    obtain ⟨w, _, rfl⟩ := List.mem_map.mp hw
    cases hsame
  · have := sizeOf_child_lt hc
    refine List.pairwise_map.mpr ((pairwise_walk (hbelow c hc)).imp fun hne hsame => ?_)
    exact hne (List.forall₂_cons.mp hsame).2
  · obtain ⟨v, _, rfl⟩ := List.mem_map.mp hv
    obtain ⟨w, _, rfl⟩ := List.mem_map.mp hw
    rw [(List.forall₂_cons.mp hsame).1] at hdistinct
    cases hdistinct
termination_by sizeOf n

end Node

/-- A walk through an assembled tree comes to every place once, and to parents before their children. Its ways are
distinct without regard to case. Looking one of them up, in any case, leads to the node that the walk came to, and
looking up anything else leads nowhere. -/
theorem find_inverts_walk (e : Engine) (planned planned' : List Method) (tree : Node)
    (h : (assemble e).run.run planned = (.ok tree, planned')) :
    (∃ order, tree.Enumerates order) ∧
    (tree.walk []).Pairwise (fun v w => ¬SameWay v.1 w.1) ∧
    (∀ v ∈ tree.walk [], tree.find v.1 = some v.2 ∧ ∀ path, SameWay v.1 path → tree.find path = some v.2) ∧
    ∀ path, (∀ v ∈ tree.walk [], ¬SameWay v.1 path) → tree.find path = none := by
  have hdistinct := (Node.kept_siblingsDistinct e.context.graph).assemble ⟨planned, planned', h⟩
  refine ⟨⟨_, tree.enumerates_positions⟩, Node.pairwise_walk hdistinct, fun v hv => ?_, fun path hnone => ?_⟩
  · exact ⟨Node.find_of_mem_walk hdistinct hv (.refl _), fun _ => Node.find_of_mem_walk hdistinct hv⟩
  · refine Option.eq_none_iff_forall_not_mem.mpr fun d hd => ?_
    obtain ⟨v, hv, hsame, _⟩ := Node.exists_of_find hd
    exact hnone v hv hsame

/-- The archive of the inbox is found under any case, and the inbox has no sending. -/
theorem mailing_lookups :
    ∃ tree planned, (assemble (commandEngine Sample.mailing)).run.run [] = (.ok tree, planned) ∧
      (∃ order, tree.Enumerates order) ∧
      (∃ v ∈ tree.walk [], v.1 = ["inbox", "archive"] ∧ tree.find ["Inbox", "ARCHIVE"] = some v.2) ∧
      tree.find ["inbox", "send"] = none := by
  obtain ⟨tree, planned, hrun, hpaths⟩ := Sample.assemble_mailing
  obtain ⟨horder, _, hfound, hnone⟩ := find_inverts_walk _ [] planned tree hrun
  refine ⟨tree, planned, hrun, horder, ?_, hnone _ fun v hv => ?_⟩
  · have harchive : ["inbox", "archive"] ∈ (tree.walk []).map (·.1) := by rw [hpaths]; decide
    obtain ⟨v, hv, hway⟩ := List.mem_map.mp harchive
    exact ⟨v, hv, hway, (hfound v hv).2 _ (by rw [hway]; decide)⟩
  · have hway : v.1 ∈ (tree.walk []).map (·.1) := List.mem_map_of_mem hv
    rw [hpaths] at hway
    have hother : ∀ way ∈ [[], ["mail"], ["mail", "send"], ["mail", "archive"], ["inbox"], ["inbox", "archive"],
        ["list"], ["get"], ["notes"]], ¬SameWay way ["inbox", "send"] := by decide
    exact hother _ hway

end ClientForge.Command
