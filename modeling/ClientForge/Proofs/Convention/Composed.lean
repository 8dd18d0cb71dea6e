import ClientForge.Proofs.Convention.Grammar
import Mathlib.Data.List.Nodup

/-!
# What composed types are read as

The members of a composed type are written one after the other with signs between them, and without parentheses.
So the text of an intersection of unions is read as a union of intersections.

* **`translate_eq`.** What is written for a type, in terms of its shape.
* **`meaning_eq`.** What a type means, in terms of the clauses of its shape.
* **`denotes_iff_covers`.** The two agree exactly if each run of the text has all of a clause in it.
* **`composed_type_denoted_iff`.** All of this about types.
-/

namespace ClientForge.Convention

open ClientForge.Graph Grammar

/-- What the type that a reference refers to is called. -/
def refName (g : Graph) (r : TypeRef) : String :=
  match r.definition.bind g.definition? with
  | some d => typescriptPolicy.typeName d.name
  | none => typescriptPolicy.scalarName r.name

/-! ### What types mean -/

namespace Grammar.Interpretation

variable {V : Type} (I : Interpretation V) (g : Graph)

/-- What can be null too, if it is nullable. -/
def orNull (nullable : Bool) (values : Set V) : Set V := if nullable then values ∪ I.word "null" else values

/-- The values of what a reference refers to, or the arrays of them. -/
def reference (r : TypeRef) : Set V :=
  if r.isCollection then I.array (I.word (refName g r)) else I.word (refName g r)

mutual

/-- The values of a type. -/
def meaning : TypeExpr → Set V
  | .scalar r => I.orNull r.nullable (I.reference g r)
  | .composed form _ members nullable => I.orNull nullable (meaningOf form members)

/-- The values of one member or of all members. -/
def meaningOf : Composition → List TypeExpr → Set V
  | .union, [] => ∅
  | .union, t :: ts => meaning t ∪ meaningOf .union ts
  | .intersection, [] => Set.univ
  | .intersection, t :: ts => meaning t ∩ meaningOf .intersection ts

end

end Grammar.Interpretation

mutual

/-- Whether a type is built from references by words, with at least one member in each composed type. -/
def Readable (g : Graph) : TypeExpr → Prop
  | .scalar r => IsWord (refName g r)
  | .composed _ _ members _ => members ≠ [] ∧ ReadableAll g members

def ReadableAll (g : Graph) : List TypeExpr → Prop
  | [] => True
  | t :: ts => Readable g t ∧ ReadableAll g ts

end

/-! ### Shapes -/

/-- A type as it is composed of atoms. -/
inductive Shape where
  | atom (a : Atom)
  | both (form : Composition) (left right : Shape)
deriving DecidableEq, Repr

namespace Shape

/-- What is written for a shape. -/
def chain : Shape → Chain
  | .atom a => ⟨a, []⟩
  | .both form x y => x.chain.append form y.chain

/-- The alternatives that a shape stands for. -/
def clauses : Shape → List (List Atom)
  | .atom a => [[a]]
  | .both .union x y => x.clauses ++ y.clauses
  | .both .intersection x y => x.clauses.flatMap fun q => y.clauses.map (q ++ ·)

/-- How many signs of unions are written for a shape. -/
def bars : Shape → Nat
  | .atom _ => 0
  | .both .union x y => x.bars + y.bars + 1
  | .both .intersection x y => x.bars + y.bars

/-- Whether no sign of a union is written within an intersection. -/
def Tidy : Shape → Prop
  | .atom _ => True
  | .both .union x y => x.Tidy ∧ y.Tidy
  | .both .intersection x y => x.bars = 0 ∧ y.bars = 0

def orNull (nullable : Bool) (x : Shape) : Shape := if nullable then .both .union x (.atom ⟨"null", false⟩) else x

end Shape

mutual

/-- The shape of a type. A single member stands for itself. -/
def shape (g : Graph) : TypeExpr → Shape
  | .scalar r => .orNull r.nullable (.atom ⟨refName g r, r.isCollection⟩)
  | .composed form _ members nullable => .orNull nullable (shapeOf g form members)

def shapeOf (g : Graph) (form : Composition) : List TypeExpr → Shape
  | [] => .atom ⟨"", false⟩
  | [t] => shape g t
  | t :: u :: us => .both form (shape g t) (shapeOf g form (u :: us))

end

/-! ### What is written -/

section Written

variable (g : Graph)

/-- The name of a definition without qualification. -/
def plainName (d : Definition) : Except Failure String := pure (typescriptPolicy.typeName d.name)

theorem text_atom (a : Atom) : (Shape.atom a).chain.text = a.text := by
  simp [Shape.chain, Chain.text, Chain.tailText]

/-- A shape that may be null has the mark for it behind its text. -/
theorem text_orNull (nullable : Bool) (x : Shape) :
    (x.orNull nullable).chain.text = if nullable then NullableMark.orNull.apply x.chain.text else x.chain.text := by
  cases nullable with
  | false => rfl
  | true =>
      simp only [Shape.orNull, if_true, Shape.chain, Chain.text_append, NullableMark.apply]
      rw [String.append_assoc]
      rfl

/-- The text of a composed type is that of its parts with the sign between them. -/
theorem text_shapeOf (form : Composition) (ts : List TypeExpr) :
    (shapeOf g form ts).chain.text = (signText form).intercalate (ts.map fun t => (shape g t).chain.text) := by
  induction ts with
  | nil => rfl
  | cons t ts ih =>
      cases ts with
      | nil => rw [shapeOf, List.map_singleton, String.intercalate_singleton]
      | cons u us =>
          rw [shapeOf, Shape.chain, Chain.text_append, ih]
          exact String.intercalate_cons_cons.symm

theorem translateRef_eq (r : TypeRef) :
    translateRef g typescriptPolicy plainName r = .ok (shape g (.scalar r)).chain.text := by
  have hdecorate : typescriptPolicy.decorate r (refName g r) = (shape g (.scalar r)).chain.text := by
    rw [shape, text_orNull, text_atom]
    obtain ⟨name, definition, collection, nullable⟩ := r
    cases collection <;> rfl
  rw [← hdecorate]
  unfold translateRef refName plainName
  cases r.definition.bind g.definition? <;> rfl

mutual

theorem translate_eq : ∀ t : TypeExpr, translate g typescriptPolicy plainName t = .ok (shape g t).chain.text
  | .scalar r => by
      rw [translate]
      exact translateRef_eq g r
  | .composed form name members nullable => by
      rw [translate, translateAll_eq members, shape, text_orNull, text_shapeOf]
      cases form <;> rfl

/-- The parts of a composed type are written as their shapes are. -/
theorem translateAll_eq : ∀ ts : List TypeExpr,
    translateAll g typescriptPolicy plainName ts = .ok (ts.map fun t => (shape g t).chain.text)
  | [] => rfl
  | t :: ts => by
      rw [translateAll, translate_eq t, translateAll_eq ts]
      rfl

end

/-- The mark for null is a name, too. -/
theorem isWord_orNull (nullable : Bool) {x : Shape} (h : ∀ a ∈ x.chain.atoms, IsWord a.name) :
    ∀ a ∈ (x.orNull nullable).chain.atoms, IsWord a.name := by
  cases nullable with
  | false => exact h
  | true =>
      have hnull : IsWord "null" := by decide
      simp only [Shape.orNull, if_true, Shape.chain, Chain.atoms_append]
      exact List.forall_mem_append.mpr ⟨h, by simpa [Chain.atoms] using hnull⟩

mutual

theorem isWord_of_readable : ∀ {t : TypeExpr}, Readable g t → ∀ a ∈ (shape g t).chain.atoms, IsWord a.name
  | .scalar r, h => by
      have hname : IsWord (refName g r) := h
      rw [shape]
      exact isWord_orNull r.nullable (by simpa [Shape.chain, Chain.atoms] using hname)
  | .composed form name members nullable, h => by
      rw [shape]
      exact isWord_orNull nullable (isWord_of_readableAll h.1 h.2)

/-- The atoms of readable types are names. -/
theorem isWord_of_readableAll : ∀ {ts : List TypeExpr} {form : Composition}, ts ≠ [] → ReadableAll g ts →
    ∀ a ∈ (shapeOf g form ts).chain.atoms, IsWord a.name
  | [], _, h, _ => absurd rfl h
  | [t], form, _, h => by
      rw [shapeOf]
      exact isWord_of_readable h.1
  | t :: u :: us, form, _, h => by
      rw [shapeOf, Shape.chain, Chain.atoms_append]
      exact List.forall_mem_append.mpr ⟨isWord_of_readable h.1, isWord_of_readableAll (by simp) h.2⟩

end

end Written

/-! ### What is meant -/

section Meant

variable {V : Type} (I : Interpretation V) (g : Graph)

/-- The values of a shape. -/
def Shape.values (x : Shape) : Set V := I.runs x.clauses

theorem values_union (x y : Shape) : (Shape.both .union x y).values I = x.values I ∪ y.values I := by
  exact I.runs_append x.clauses y.clauses

theorem values_intersection (x y : Shape) :
    (Shape.both .intersection x y).values I = x.values I ∩ y.values I := by
  ext v
  simp only [Shape.values, Shape.clauses, Interpretation.runs]
  constructor
  · rintro ⟨r, hr, hv⟩
    obtain ⟨q, hq, hr⟩ := List.mem_flatMap.mp hr
    obtain ⟨q', hq', rfl⟩ := List.mem_map.mp hr
    rw [Interpretation.run_append] at hv
    exact ⟨⟨q, hq, hv.1⟩, ⟨q', hq', hv.2⟩⟩
  · rintro ⟨⟨q, hq, hv⟩, ⟨q', hq', hv'⟩⟩
    refine ⟨q ++ q', List.mem_flatMap.mpr ⟨q, hq, List.mem_map_of_mem hq'⟩, ?_⟩
    rw [Interpretation.run_append]
    exact ⟨hv, hv'⟩

theorem values_atom (a : Atom) : (Shape.atom a).values I = I.atom a := by
  simp [Shape.values, Shape.clauses]

theorem values_orNull (nullable : Bool) (x : Shape) :
    (x.orNull nullable).values I = I.orNull nullable (x.values I) := by
  cases nullable with
  | false => rfl
  | true =>
      have hnull : I.atom ⟨"null", false⟩ = I.word "null" := rfl
      simp [Shape.orNull, Interpretation.orNull, values_union, values_atom, hnull]

mutual

theorem meaning_eq : ∀ {t : TypeExpr}, Readable g t → I.meaning g t = (shape g t).values I
  | .scalar r, _ => by
      have hatom : I.atom ⟨refName g r, r.isCollection⟩ = I.reference g r := by
        unfold Interpretation.atom Atom.tree Interpretation.reference
        split <;> rfl
      rw [Interpretation.meaning, shape, values_orNull, values_atom, hatom]
  | .composed form name members nullable, h => by
      rw [Interpretation.meaning, shape, values_orNull, meaningOf_eq h.1 h.2]

/-- Readable types mean what their shape does. -/
theorem meaningOf_eq : ∀ {ts : List TypeExpr} {form : Composition}, ts ≠ [] → ReadableAll g ts →
    I.meaningOf g form ts = (shapeOf g form ts).values I
  | [], _, h, _ => absurd rfl h
  | [t], .union, _, h => by
      simp only [Interpretation.meaningOf, shapeOf, Set.union_empty]
      exact meaning_eq h.1
  | [t], .intersection, _, h => by
      simp only [Interpretation.meaningOf, shapeOf, Set.inter_univ]
      exact meaning_eq h.1
  | t :: u :: us, .union, _, h => by
      rw [Interpretation.meaningOf, shapeOf, values_union, meaning_eq h.1, meaningOf_eq (by simp) h.2]
  | t :: u :: us, .intersection, _, h => by
      rw [Interpretation.meaningOf, shapeOf, values_intersection, meaning_eq h.1, meaningOf_eq (by simp) h.2]

end

end Meant

/-! ### Runs of composed chains -/

/-- The runs of two chains with the sign of an intersection between them: the last run of the first goes on with
the first run of the second. -/
def glue : List (List Atom) → List (List Atom) → List (List Atom)
  | [], ss => ss
  | [r], [] => [r]
  | [r], s :: ss => (r ++ s) :: ss
  | r :: r' :: rs, ss => r :: glue (r' :: rs) ss

section Glue

variable {r s : List Atom} {rs ss : List (List Atom)}

theorem glue_cons (h : rs ≠ []) : glue (r :: rs) ss = r :: glue rs ss := by
  cases rs with
  | nil => exact absurd rfl h
  | cons r' rs => rfl

theorem length_glue (hr : rs ≠ []) (hs : ss ≠ []) : (glue rs ss).length + 1 = rs.length + ss.length := by
  fun_induction glue rs ss with
  | case1 => exact absurd rfl hr
  | case2 => exact absurd rfl hs
  | case3 r s ss =>
      simp only [List.length_cons, List.length_nil]
      omega
  | case4 r r' rs ss ih =>
      have := ih (by simp) hs
      simp only [List.length_cons] at this ⊢
      omega

/-- For two runs there is one with at most their atoms. -/
theorem exists_mem_glue (hr : r ∈ rs) (hs : s ∈ ss) : ∃ x ∈ glue rs ss, x ⊆ r ++ s := by
  fun_induction glue rs ss with
  | case1 => cases hr
  | case2 => cases hs
  | case3 r' s' ss =>
      obtain rfl := List.mem_singleton.mp hr
      rcases List.mem_cons.mp hs with rfl | hs
      · exact ⟨r ++ s, List.mem_cons_self, List.Subset.refl _⟩
      · exact ⟨s, List.mem_cons_of_mem _ hs, List.subset_append_right r s⟩
  | case4 first r' rs ss ih =>
      rcases List.mem_cons.mp hr with rfl | hr
      · exact ⟨r, List.mem_cons_self, List.subset_append_left r s⟩
      · obtain ⟨x, hx, hsub⟩ := ih hr hs
        exact ⟨x, List.mem_cons_of_mem _ hx, hsub⟩

/-- All runs but the last of the first chain stay as they are. -/
theorem head_mem_glue (h : rs ≠ []) : r ∈ glue (r :: rs) ss := by
  rw [glue_cons h]
  exact List.mem_cons_self

/-- All runs but the first of the second chain stay as they are. -/
theorem mem_glue_of_mem_tail (hr : rs ≠ []) {x : List Atom} (hx : x ∈ ss) : x ∈ glue rs (s :: ss) := by
  induction rs with
  | nil => exact absurd rfl hr
  | cons r rs ih =>
      cases rs with
      | nil => exact List.mem_cons_of_mem _ hx
      | cons r' rs => exact List.mem_cons_of_mem _ (ih (by simp))

end Glue

namespace Grammar.Chain

theorem runsBehind_ne_nil (r : List Atom) (rest : List (Composition × Atom)) : runsBehind r rest ≠ [] := by
  induction rest generalizing r with
  | nil => simp [runsBehind]
  | cons b rest ih =>
      obtain ⟨form, b⟩ := b
      cases form with
      | union => simp [runsBehind]
      | intersection => exact ih (r ++ [b])

theorem runs_ne_nil (c : Chain) : c.runs ≠ [] := runsBehind_ne_nil _ _

/-- What stands before a chain is glued to its first run. -/
theorem runsBehind_append (r s : List Atom) (rest : List (Composition × Atom)) :
    runsBehind (r ++ s) rest = glue [r] (runsBehind s rest) := by
  induction rest generalizing s with
  | nil => rfl
  | cons b rest ih =>
      obtain ⟨form, b⟩ := b
      cases form with
      | union => rfl
      | intersection => rw [runsBehind, runsBehind, List.append_assoc, ih]

/-- The sign of a union ends a run. -/
theorem runsBehind_union (r : List Atom) (xs : List (Composition × Atom)) (a : Atom)
    (ys : List (Composition × Atom)) :
    runsBehind r (xs ++ (.union, a) :: ys) = runsBehind r xs ++ runsBehind [a] ys := by
  induction xs generalizing r with
  | nil => rfl
  | cons b xs ih =>
      obtain ⟨form, b⟩ := b
      cases form with
      | union => simp [runsBehind, ih]
      | intersection => simp [runsBehind, ih]

/-- The sign of an intersection goes on with a run. -/
theorem runsBehind_intersection (r : List Atom) (xs : List (Composition × Atom)) (a : Atom)
    (ys : List (Composition × Atom)) :
    runsBehind r (xs ++ (.intersection, a) :: ys) = glue (runsBehind r xs) (runsBehind [a] ys) := by
  induction xs generalizing r with
  | nil => exact runsBehind_append r [a] ys
  | cons b xs ih =>
      obtain ⟨form, b⟩ := b
      cases form with
      | union =>
          rw [List.cons_append, runsBehind, runsBehind, ih, glue_cons (runsBehind_ne_nil _ _)]
      | intersection => rw [List.cons_append, runsBehind, runsBehind, ih]

theorem runs_union (c d : Chain) : (c.append .union d).runs = c.runs ++ d.runs :=
  runsBehind_union _ _ _ _

theorem runs_intersection (c d : Chain) : (c.append .intersection d).runs = glue c.runs d.runs :=
  runsBehind_intersection _ _ _ _

/-- Runs are made of the atoms of the chain. -/
theorem mem_of_mem_runsBehind {r x : List Atom} {rest : List (Composition × Atom)} {a : Atom}
    (hx : x ∈ runsBehind r rest) (ha : a ∈ x) : a ∈ r ∨ a ∈ rest.map (·.2) := by
  induction rest generalizing r with
  | nil =>
      obtain rfl := List.mem_singleton.mp hx
      exact .inl ha
  | cons b rest ih =>
      obtain ⟨form, b⟩ := b
      cases form with
      | union =>
          rcases List.mem_cons.mp hx with rfl | hx
          · exact .inl ha
          · rcases ih hx with h | h
            · exact .inr (by simpa using .inl (List.mem_singleton.mp h))
            · exact .inr (List.mem_cons_of_mem _ h)
      | intersection =>
          rcases ih hx with h | h
          · rcases List.mem_append.mp h with h | h
            · exact .inl h
            · exact .inr (by simpa using .inl (List.mem_singleton.mp h))
          · exact .inr (List.mem_cons_of_mem _ h)

theorem mem_atoms_of_mem_runs {c : Chain} {r : List Atom} (hr : r ∈ c.runs) : r ⊆ c.atoms := by
  intro a ha
  rcases mem_of_mem_runsBehind hr ha with h | h
  · exact List.mem_cons.mpr (.inl (List.mem_singleton.mp h))
  · exact List.mem_cons_of_mem _ h

end Grammar.Chain

/-! ### Texts that mean what they should -/

theorem append_subset_append {q₁ q₂ r₁ r₂ : List Atom} (h₁ : q₁ ⊆ r₁) (h₂ : q₂ ⊆ r₂) :
    q₁ ++ q₂ ⊆ r₁ ++ r₂ :=
  List.append_subset.mpr ⟨List.subset_append_of_subset_left r₂ h₁, List.subset_append_of_subset_right r₁ h₂⟩

namespace Shape

variable {x y : Shape}

/-- Whether each run of what is written has all of a clause in it. -/
def Covers (x : Shape) : Prop := ∀ r ∈ x.chain.runs, ∃ q ∈ x.clauses, q ⊆ r

instance (x : Shape) : Decidable x.Covers :=
  inferInstanceAs (Decidable (∀ r ∈ x.chain.runs, ∃ q ∈ x.clauses, ∀ a ∈ q, a ∈ r))

theorem runs_both_union (x y : Shape) : (both .union x y).chain.runs = x.chain.runs ++ y.chain.runs :=
  Chain.runs_union x.chain y.chain

theorem runs_both_intersection (x y : Shape) :
    (both .intersection x y).chain.runs = glue x.chain.runs y.chain.runs :=
  Chain.runs_intersection x.chain y.chain

theorem length_runs (x : Shape) : x.chain.runs.length = x.bars + 1 := by
  induction x with
  | atom a => rfl
  | both form x y ihx ihy =>
      cases form with
      | union =>
          rw [runs_both_union, List.length_append, ihx, ihy, bars]
          omega
      | intersection =>
          have := length_glue x.chain.runs_ne_nil y.chain.runs_ne_nil
          rw [runs_both_intersection, bars]
          omega

/-- The clauses of an intersection are made of one clause of each part. -/
theorem mem_clauses_intersection {q : List Atom} :
    q ∈ (both .intersection x y).clauses ↔ ∃ q₁ ∈ x.clauses, ∃ q₂ ∈ y.clauses, q₁ ++ q₂ = q := by
  simp [clauses]

/-- Each clause has all of a run in it. -/
theorem exists_run_of_mem_clauses {q : List Atom} (h : q ∈ x.clauses) : ∃ r ∈ x.chain.runs, r ⊆ q := by
  induction x generalizing q with
  | atom a => exact ⟨q, h, List.Subset.refl q⟩
  | both form x y ihx ihy =>
      cases form with
      | union =>
          rw [runs_both_union]
          rcases List.mem_append.mp h with h | h
          · obtain ⟨r, hr, hsub⟩ := ihx h
            exact ⟨r, List.mem_append_left _ hr, hsub⟩
          · obtain ⟨r, hr, hsub⟩ := ihy h
            exact ⟨r, List.mem_append_right _ hr, hsub⟩
      | intersection =>
          obtain ⟨q₁, hq₁, q₂, hq₂, rfl⟩ := mem_clauses_intersection.mp h
          obtain ⟨r₁, hr₁, hsub₁⟩ := ihx hq₁
          obtain ⟨r₂, hr₂, hsub₂⟩ := ihy hq₂
          obtain ⟨r, hr, hsub⟩ := exists_mem_glue hr₁ hr₂
          rw [runs_both_intersection]
          exact ⟨r, hr, List.Subset.trans hsub (append_subset_append hsub₁ hsub₂)⟩

theorem clauses_subset_atoms {q : List Atom} (h : q ∈ x.clauses) : q ⊆ x.chain.atoms := by
  induction x generalizing q with
  | atom a =>
      obtain rfl := List.mem_singleton.mp h
      exact List.Subset.refl _
  | both form x y ihx ihy =>
      rw [chain, Chain.atoms_append]
      cases form with
      | union =>
          rcases List.mem_append.mp h with h | h
          · exact List.Subset.trans (ihx h) (List.subset_append_left _ _)
          · exact List.Subset.trans (ihy h) (List.subset_append_right _ _)
      | intersection =>
          obtain ⟨q₁, hq₁, q₂, hq₂, rfl⟩ := mem_clauses_intersection.mp h
          exact append_subset_append (ihx hq₁) (ihy hq₂)

theorem ne_nil_of_mem_clauses {q : List Atom} (h : q ∈ x.clauses) : q ≠ [] := by
  induction x generalizing q with
  | atom a =>
      obtain rfl := List.mem_singleton.mp h
      simp
  | both form x y ihx ihy =>
      cases form with
      | union =>
          rcases List.mem_append.mp h with h | h
          · exact ihx h
          · exact ihy h
      | intersection =>
          obtain ⟨q₁, hq₁, q₂, hq₂, rfl⟩ := mem_clauses_intersection.mp h
          simp [ihx hq₁]

theorem tidy_of_bars (h : x.bars = 0) : x.Tidy := by
  cases x with
  | atom a => trivial
  | both form x y =>
      cases form with
      | union => simp [bars] at h
      | intersection => simpa [bars, Tidy] using h

theorem run_of_bars (h : x.bars = 0) : ∃ r, x.chain.runs = [r] := by
  rw [← List.length_eq_one_iff, length_runs, h]

theorem covers_of_tidy (h : x.Tidy) : x.Covers := by
  induction x with
  | atom a => exact fun r hr => ⟨r, hr, List.Subset.refl r⟩
  | both form x y ihx ihy =>
      intro r hr
      cases form with
      | union =>
          rw [runs_both_union] at hr
          rcases List.mem_append.mp hr with hr | hr
          · obtain ⟨q, hq, hsub⟩ := ihx h.1 r hr
            exact ⟨q, List.mem_append_left _ hq, hsub⟩
          · obtain ⟨q, hq, hsub⟩ := ihy h.2 r hr
            exact ⟨q, List.mem_append_right _ hq, hsub⟩
      | intersection =>
          obtain ⟨r₁, hr₁⟩ := run_of_bars h.1
          obtain ⟨r₂, hr₂⟩ := run_of_bars h.2
          rw [runs_both_intersection, hr₁, hr₂] at hr
          obtain rfl := List.mem_singleton.mp hr
          obtain ⟨q₁, hq₁, hsub₁⟩ := ihx (tidy_of_bars h.1) r₁ (by rw [hr₁]; exact List.mem_cons_self)
          obtain ⟨q₂, hq₂, hsub₂⟩ := ihy (tidy_of_bars h.2) r₂ (by rw [hr₂]; exact List.mem_cons_self)
          exact ⟨q₁ ++ q₂, mem_clauses_intersection.mpr ⟨q₁, hq₁, q₂, hq₂, rfl⟩,
            append_subset_append hsub₁ hsub₂⟩

/-- A clause is not within the atoms of another shape, if no atom occurs twice. -/
theorem not_subset_of_disjoint {q r : List Atom} (hq : q ∈ x.clauses) (hr : r ⊆ y.chain.atoms)
    (h : List.Disjoint x.chain.atoms y.chain.atoms) : ¬q ⊆ r := by
  intro hsub
  obtain ⟨a, ha⟩ := List.exists_mem_of_ne_nil q (ne_nil_of_mem_clauses hq)
  exact h (clauses_subset_atoms hq ha) (hr (hsub ha))

section Disjoint

variable (hdisjoint : List.Disjoint x.chain.atoms y.chain.atoms)
include hdisjoint

theorem covers_of_union (h : (both .union x y).Covers) : x.Covers ∧ y.Covers := by
  unfold Covers at h
  rw [runs_both_union] at h
  refine ⟨fun r hr => ?_, fun r hr => ?_⟩
  · obtain ⟨q, hq, hsub⟩ := h r (List.mem_append_left _ hr)
    refine ⟨q, (List.mem_append.mp hq).resolve_right fun hy => ?_, hsub⟩
    exact not_subset_of_disjoint hy (Chain.mem_atoms_of_mem_runs hr) (List.disjoint_comm.mp hdisjoint) hsub
  · obtain ⟨q, hq, hsub⟩ := h r (List.mem_append_right _ hr)
    refine ⟨q, (List.mem_append.mp hq).resolve_left fun hx => ?_, hsub⟩
    exact not_subset_of_disjoint hx (Chain.mem_atoms_of_mem_runs hr) hdisjoint hsub

/-- A run of an intersection reaches into both of its sides. -/
theorem bars_of_intersection (h : (both .intersection x y).Covers) : x.bars = 0 ∧ y.bars = 0 := by
  have hparts (r : List Atom) (hr : r ∈ glue x.chain.runs y.chain.runs) :
      ¬r ⊆ x.chain.atoms ∧ ¬r ⊆ y.chain.atoms := by
    rw [← runs_both_intersection] at hr
    obtain ⟨q, hq, hsub⟩ := h r hr
    obtain ⟨q₁, hq₁, q₂, hq₂, rfl⟩ := mem_clauses_intersection.mp hq
    obtain ⟨hsub₁, hsub₂⟩ := List.append_subset.mp hsub
    exact ⟨fun hx => not_subset_of_disjoint hq₂ hx (List.disjoint_comm.mp hdisjoint) hsub₂,
      fun hy => not_subset_of_disjoint hq₁ hy hdisjoint hsub₁⟩
  have hx := length_runs x
  have hy := length_runs y
  constructor
  · -- otherwise the first run of the left side ends before the right side
    by_contra hbars
    obtain ⟨r, rs, hrs⟩ := List.exists_cons_of_ne_nil x.chain.runs_ne_nil
    have hne : rs ≠ [] := by
      rintro rfl
      rw [hrs, List.length_singleton] at hx
      omega
    refine (hparts r ?_).1 (Chain.mem_atoms_of_mem_runs (by rw [hrs]; exact List.mem_cons_self))
    rw [hrs]
    exact head_mem_glue hne
  · -- otherwise the second run of the right side starts behind the left side
    by_contra hbars
    obtain ⟨s, ss, hss⟩ := List.exists_cons_of_ne_nil y.chain.runs_ne_nil
    have hne : ss ≠ [] := by
      rintro rfl
      rw [hss, List.length_singleton] at hy
      omega
    obtain ⟨s', hs'⟩ := List.exists_mem_of_ne_nil ss hne
    refine (hparts s' ?_).2 (Chain.mem_atoms_of_mem_runs (by rw [hss]; exact List.mem_cons_of_mem _ hs'))
    rw [hss]
    exact mem_glue_of_mem_tail x.chain.runs_ne_nil hs'

end Disjoint

theorem tidy_of_covers (hnodup : x.chain.atoms.Nodup) (h : x.Covers) : x.Tidy := by
  induction x with
  | atom a => trivial
  | both form x y ihx ihy =>
      rw [chain, Chain.atoms_append] at hnodup
      obtain ⟨hx, hy, hdisjoint⟩ := List.nodup_append'.mp hnodup
      cases form with
      | union =>
          obtain ⟨hcx, hcy⟩ := covers_of_union hdisjoint h
          exact ⟨ihx hx hcx, ihy hy hcy⟩
      | intersection => exact bars_of_intersection hdisjoint h

end Shape

/-! ### Interpretations that tell runs apart -/

/-- An interpretation in which nothing but the atoms of a run has a certain value. The other values tell the names
apart, so that arrays of them can be told apart as well. -/
def pointed (r : List Atom) : Interpretation (Option String) where
  word name := {v | v = some name ∨ v = none ∧ ⟨name, false⟩ ∈ r}
  array values := {v | v = none ∧ ∃ name, some name ∈ values ∧ ⟨name, true⟩ ∈ r}

theorem none_mem_atom (r : List Atom) (a : Atom) : none ∈ (pointed r).atom a ↔ a ∈ r := by
  obtain ⟨name, isArray⟩ := a
  cases isArray with
  | false => simp [Interpretation.atom, Atom.tree, Interpretation.values, pointed]
  | true => simp [Interpretation.atom, Atom.tree, Interpretation.values, pointed]

theorem none_mem_runs {r : List Atom} {qs : List (List Atom)} :
    none ∈ (pointed r).runs qs ↔ ∃ q ∈ qs, q ⊆ r := by
  simp only [Interpretation.runs, Interpretation.run]
  constructor
  · rintro ⟨q, hq, h⟩
    exact ⟨q, hq, fun a ha => (none_mem_atom r a).mp (h a ha)⟩
  · rintro ⟨q, hq, h⟩
    exact ⟨q, hq, fun a ha => (none_mem_atom r a).mpr (h ha)⟩

theorem run_mono {V : Type} (I : Interpretation V) {q r : List Atom} (h : q ⊆ r) : I.run r ⊆ I.run q :=
  fun _ hv a ha => hv a (h ha)

/-- What is written applies wherever the type does. -/
theorem values_subset_values_tree {V : Type} (I : Interpretation V) (x : Shape) :
    x.values I ⊆ I.values x.chain.tree := by
  rw [Chain.values_tree]
  rintro v ⟨q, hq, hv⟩
  obtain ⟨r, hr, hsub⟩ := Shape.exists_run_of_mem_clauses hq
  exact ⟨r, hr, run_mono I hsub hv⟩

theorem denotes_iff_covers (x : Shape) :
    (∀ (V : Type) (I : Interpretation V), I.values x.chain.tree = x.values I) ↔ x.Covers := by
  constructor
  · intro h r hr
    have hwritten : none ∈ (pointed r).values x.chain.tree := by
      rw [Chain.values_tree]
      exact none_mem_runs.mpr ⟨r, hr, List.Subset.refl r⟩
    rw [h] at hwritten
    exact none_mem_runs.mp hwritten
  · intro h V I
    refine Set.Subset.antisymm ?_ (values_subset_values_tree I x)
    rw [Chain.values_tree]
    rintro v ⟨r, hr, hv⟩
    obtain ⟨q, hq, hsub⟩ := h r hr
    exact ⟨q, hq, run_mono I hsub hv⟩

/-! ### Types -/

/-- Whether a tree means what a type does, whatever the names stand for. -/
def Denotes (g : Graph) (x : Tree) (t : TypeExpr) : Prop :=
  ∀ (V : Type) (I : Interpretation V), I.values x = I.meaning g t

/-- Every type is written as a text that can be read and that applies wherever the type does. It applies nowhere
else, so that the text denotes the type, exactly if each run of it has all of a clause of the type in it. That is
the case if no sign of a union is written within an intersection, and only then if no name occurs twice. -/
theorem composed_type_denoted_iff (g : Graph) {t : TypeExpr} (h : Readable g t) :
    ∃ text x, typescriptPolicy.translate g (some t) = .ok text ∧ read text = some x ∧
      (∀ (V : Type) (I : Interpretation V), I.meaning g t ⊆ I.values x) ∧
      (Denotes g x t ↔ ∀ r ∈ (shape g t).chain.runs, ∃ q ∈ (shape g t).clauses, q ⊆ r) ∧
      ((shape g t).Tidy → Denotes g x t) ∧
      ((shape g t).chain.atoms.Nodup → Denotes g x t → (shape g t).Tidy) := by
  have hdenotes : Denotes g (shape g t).chain.tree t ↔ (shape g t).Covers := by
    rw [← denotes_iff_covers]
    simp only [Denotes, meaning_eq _ g h]
  refine ⟨(shape g t).chain.text, (shape g t).chain.tree, translate_eq g t, read_text (isWord_of_readable g h),
    fun V I => ?_, hdenotes, fun htidy => ?_, fun hnodup hmeans => ?_⟩
  · rw [meaning_eq I g h]
    exact values_subset_values_tree I (shape g t)
  · exact hdenotes.mpr (Shape.covers_of_tidy htidy)
  · exact Shape.tidy_of_covers hnodup (hdenotes.mp hmeans)

namespace ScalarSample

def graph : Graph := { root := { id := ⟨0⟩, name := "Sdk" }, classes := #[], enums := #[] }

def text : TypeExpr := .scalar { name := "string" }

def number : TypeExpr := .scalar { name := "integer" }

def flag : TypeExpr := .scalar { name := "boolean" }

/-- A text, or what is a number and a flag at once, or null. -/
def tidy : TypeExpr := .composed .union "" [text, .composed .intersection "" [number, flag] false] true

/-- A text that is a number or a flag at once. -/
def untidy : TypeExpr := .composed .intersection "" [text, .composed .union "" [number, flag] false] false

theorem isWord_scalars :
    IsWord (refName graph { name := "string" }) ∧ IsWord (refName graph { name := "integer" }) ∧
      IsWord (refName graph { name := "boolean" }) := by
  decide +kernel

theorem readable_tidy : Readable graph tidy := by
  obtain ⟨htext, hnumber, hflag⟩ := isWord_scalars
  exact ⟨by simp, htext, ⟨by simp, hnumber, hflag, trivial⟩, trivial⟩

theorem readable_untidy : Readable graph untidy := by
  obtain ⟨htext, hnumber, hflag⟩ := isWord_scalars
  exact ⟨by simp, htext, ⟨by simp, hnumber, hflag, trivial⟩, trivial⟩

end ScalarSample

open ScalarSample in
/-- A union of an intersection is read as it is meant. An intersection of a union is not. -/
theorem tidy_type_denoted_and_untidy_not :
    (∃ x, typescriptPolicy.translate graph (some tidy) = .ok "string | number & boolean | null" ∧
      read "string | number & boolean | null" = some x ∧ Denotes graph x tidy) ∧
    ∃ x, typescriptPolicy.translate graph (some untidy) = .ok "string & number | boolean" ∧
      read "string & number | boolean" = some x ∧ ¬Denotes graph x untidy := by
  have hshape : (shape graph tidy).Tidy := by
    exact ⟨⟨trivial, rfl, rfl⟩, trivial⟩
  have huntidy : ¬(shape graph untidy).Covers := by
    decide +kernel
  have htidytext : typescriptPolicy.translate graph (some tidy) = .ok "string | number & boolean | null" := by
    rfl
  have huntidytext : typescriptPolicy.translate graph (some untidy) = .ok "string & number | boolean" := by
    rfl
  obtain ⟨text, x, htext, hread, -, -, hdenotes, -⟩ := composed_type_denoted_iff graph readable_tidy
  obtain ⟨text', x', htext', hread', -, hiff, -, -⟩ := composed_type_denoted_iff graph readable_untidy
  obtain rfl := Except.ok.inj (htidytext.symm.trans htext)
  obtain rfl := Except.ok.inj (huntidytext.symm.trans htext')
  exact ⟨⟨x, htext, hread, hdenotes hshape⟩, ⟨x', htext', hread', mt hiff.mp huntidy⟩⟩

end ClientForge.Convention
