import ClientForge.Proofs.Render.Asking

/-!
# What scripts plan

Which methods a script asks bodies for can be read off it, like the elements that it names: whichever names and
bodies it is given, it asks for the same methods in the same order. `Script.Plans` says which, as far as the script
does not fail, and one rule for each step finds them part by part.

* **`plans_classScript`.** The script of a TypeScript class plans its methods, one after another, but for command
  builders.
-/

namespace ClientForge.Render

open ClientForge.Graph ClientForge.Plan ClientForge.Convention

/-- Whether a script asks for the bodies of methods in a given order, and of no others, unless it fails on the
way. -/
def Script.Plans {α : Type} (e : Engine) : Script α → List Method → Prop
  | done _, ms => ms = []
  | fail _, _ => True
  | write _ next, ms => next.Plans e ms
  | need _ next, ms => next.Plans e ms
  | name _ next, ms => ∀ spelling, (next spelling).Plans e ms
  | plan m next, ms => ∃ rest, ms = m :: rest ∧ ∀ body, e.synthesize m = .ok body → (next body).Plans e rest

/-! ### Steps -/

section Steps

variable {e : Engine} {α β : Type} {ms : List Method}

@[simp]
theorem plans_pure (a : α) : (pure a : Script α).Plans e [] := rfl

@[simp]
theorem plans_throw (failure : Failure) : (throw failure : Script α).Plans e ms := trivial

@[simp]
theorem plans_line (text : String) : (line text).Plans e [] := rfl

@[simp]
theorem plans_blank : blank.Plans e [] := rfl

@[simp]
theorem plans_need (item : String) : (need item).Plans e [] := rfl

@[simp]
theorem plans_nameOf (d : Definition) : (nameOf d).Plans e [] := fun _ => rfl

@[simp]
theorem plans_className (c : ClassDef) : (className c).Plans e [] := fun _ => rfl

@[simp]
theorem plans_lines (texts : List String) : (lines texts).Plans e [] := by
  induction texts with
  | nil => rfl
  | cons text texts ih => exact ih

@[simp]
theorem plans_needAll (items : List String) : (needAll items).Plans e [] := by
  induction items with
  | nil => rfl
  | cons item items ih => exact ih

theorem plans_planOf (m : Method) : (planOf m).Plans e [m] := ⟨[], rfl, fun _ _ => rfl⟩

/-- A script plans what its two parts plan, one after the other. -/
theorem plans_bind {s : Script α} {f : α → Script β} {ms' : List Method} (hs : s.Plans e ms)
    (hf : ∀ a, s.Returns e a → (f a).Plans e ms') : (s >>= f).Plans e (ms ++ ms') := by
  change (s.bind f).Plans e _
  induction s generalizing ms with
  | done a =>
      obtain rfl : ms = [] := hs
      exact hf a rfl
  | fail failure => trivial
  | write stroke next ih => exact ih hs hf
  | need item next ih => exact ih hs hf
  | name d next ih => exact fun spelling => ih spelling (hs spelling) fun a ha => hf a ⟨spelling, ha⟩
  | plan m next ih =>
      obtain ⟨rest, rfl, hrest⟩ := hs
      exact ⟨rest ++ ms', rfl, fun body hbody => ih body (hrest body hbody) fun a ha => hf a ⟨body, hbody, ha⟩⟩

/-- What plans nothing has parts that plan nothing. -/
@[simp]
theorem plans_bind_nil {s : Script α} {f : α → Script β} :
    (s >>= f).Plans e [] ↔ s.Plans e [] ∧ ∀ a, s.Returns e a → (f a).Plans e [] := by
  refine ⟨fun h => ?_, fun h => plans_bind h.1 h.2⟩
  change (s.bind f).Plans e [] at h
  induction s with
  | done a => exact ⟨rfl, fun _ ha => ha ▸ h⟩
  | fail failure => exact ⟨trivial, fun _ ha => ha.elim⟩
  | write stroke next ih => exact ih h
  | need item next ih => exact ih h
  | name d next ih =>
      refine ⟨fun spelling => (ih spelling (h spelling)).1, ?_⟩
      rintro a ⟨spelling, ha⟩
      exact (ih spelling (h spelling)).2 a ha
  | plan m next ih =>
      obtain ⟨rest, hrest, -⟩ := h
      cases hrest

@[simp]
theorem plans_within {context : String} {s : Script α} : (s.within context).Plans e ms ↔ s.Plans e ms := by
  unfold Script.within
  induction s generalizing ms with
  | done | fail => rfl
  | write stroke next ih => exact ih
  | need item next ih => exact ih
  | name d next ih => exact forall_congr' fun spelling => ih spelling
  | plan m next ih =>
      exact exists_congr fun rest => and_congr_right fun _ => forall_congr' fun body => imp_congr_right fun _ => ih body

/-- What comes before may plan nothing. -/
theorem plans_after {s : Script α} {f : α → Script β} (hs : s.Plans e [])
    (hf : ∀ a, s.Returns e a → (f a).Plans e ms) : (s >>= f).Plans e ms := plans_bind hs hf

theorem plans_before {s : Script α} {f : α → Script β} (hs : s.Plans e ms) (hf : ∀ a, (f a).Plans e []) :
    (s >>= f).Plans e ms := by
  have h := plans_bind hs fun a _ => hf a
  rwa [List.append_nil] at h

/-- A block plans what is in it. -/
theorem plans_block {opening closing : String} {body : Script Unit} (h : body.Plans e ms) :
    (block opening closing body).Plans e ms := by
  have hindented : (indented body).Plans e ms := plans_after rfl fun _ _ => plans_before h fun _ => rfl
  exact plans_after rfl fun _ _ => plans_before hindented fun _ => rfl

@[simp]
theorem plans_indented_nil {body : Script Unit} : (indented body).Plans e [] ↔ body.Plans e [] := by
  simp [indented, Script.Plans, Script.Returns]

@[simp]
theorem plans_block_nil {opening closing : String} {body : Script Unit} :
    (block opening closing body).Plans e [] ↔ body.Plans e [] := by
  simp [block, line, Script.Plans, Script.Returns]

@[simp]
theorem plans_only {condition : Bool} {s : Script Unit} :
    (only condition s).Plans e [] ↔ (condition = true → s.Plans e []) := by
  unfold only
  split <;> simp [*, Script.Plans]

@[simp]
theorem plans_ite {p : Prop} [Decidable p] {s t : Script α} :
    (if p then s else t).Plans e ms ↔ (p → s.Plans e ms) ∧ (¬p → t.Plans e ms) := by
  split <;> simp [*]

/-- A loop plans what each round plans, in order. -/
theorem plans_each {xs : List α} {f : α → Script Unit} {planned : α → List Method}
    (h : ∀ x, (f x).Plans e (planned x)) : (each xs f).Plans e (xs.flatMap planned) := by
  induction xs with
  | nil => rfl
  | cons x xs ih => exact plans_bind (h x) fun _ _ => ih

/-- Methods are planned in the order in which they are run through. -/
theorem plans_each_method {f : Method → Script Unit} (h : ∀ m, (f m).Plans e [m]) (ms : List Method) :
    (each ms f).Plans e ms := by
  have heach : (each ms f).Plans e (ms.flatMap ([·])) := plans_each h
  rwa [List.flatMap_singleton'] at heach

@[simp]
theorem plans_each_nil {xs : List α} {f : α → Script Unit} (h : ∀ x, (f x).Plans e []) :
    (each xs f).Plans e [] := by
  induction xs with
  | nil => rfl
  | cons x xs ih => exact plans_bind_nil.mpr ⟨h x, fun _ _ => ih⟩

@[simp]
theorem plans_collect {xs : List α} {f : α → Script String} (h : ∀ x, (f x).Plans e []) :
    (collect xs f).Plans e [] := by
  induction xs with
  | nil => rfl
  | cons x xs ih =>
      exact plans_bind_nil.mpr ⟨h x, fun _ _ => plans_bind_nil.mpr ⟨ih, fun _ _ => rfl⟩⟩

end Steps

/-! ### Types and bodies -/

section Types

variable {e : Engine} (c : Context)

@[simp]
theorem plans_definitionName (t : TypeRef) : (definitionName c t).Plans e [] := by
  unfold definitionName
  split <;> simp

theorem plans_translateRef (t : TypeRef) :
    (translateRef (m := Script) c.graph c.policy nameOf t).Plans e [] := by
  unfold translateRef
  split <;> simp

mutual

theorem plans_translate : ∀ t : TypeExpr,
    (Convention.translate (m := Script) c.graph c.policy nameOf t).Plans e []
  | .scalar ref => by
      unfold Convention.translate
      exact plans_translateRef c ref
  | .composed form name members nullable => by
      have hmembers := plans_translateAll members
      unfold Convention.translate
      split <;> simp [hmembers]

theorem plans_translateAll : ∀ ts : List TypeExpr,
    (translateAll (m := Script) c.graph c.policy nameOf ts).Plans e []
  | [] => by simp [translateAll]
  | t :: ts => by
      have ht := plans_translate t
      have hts := plans_translateAll ts
      simp [translateAll, ht, hts]

end

@[simp]
theorem plans_typeText (t : Option TypeExpr) : (typeText c t).Plans e [] := by
  cases t with
  | none => exact plans_pure _
  | some t => exact plans_translate c t

@[simp]
theorem plans_refText (t : TypeRef) : (refText c t).Plans e [] := plans_typeText c _

theorem plans_atSite {m : Method} {f : Site → Script Unit} (h : ∀ s, (f s).Plans e []) :
    (atSite c m f).Plans e [m] := by
  refine plans_bind (plans_planOf m) fun body _ => ?_
  split
  · exact h _
  · exact plans_throw _

end Types

-- From here on the rules above are all there is to know.
attribute [irreducible] Script.Plans

/-! ### TypeScript -/

namespace TypeScript

section Types

variable {e : Engine} (c : Context)

@[simp]
theorem plans_runtime (name : String) : (runtime name).Plans e [] := by
  simp [runtime]

@[simp]
theorem plans_typeOf (t : Option TypeExpr) : (typeOf c t).Plans e [] := by
  unfold typeOf
  split <;> simp

@[simp]
theorem plans_typeOfRef (t : TypeRef) : (typeOfRef c t).Plans e [] := plans_typeOf c _

@[simp]
theorem plans_propertyType (p : Property) : (propertyType c p).Plans e [] := by
  unfold propertyType
  split <;> simp

@[simp]
theorem plans_parameterType (p : Parameter) : (parameterType c p).Plans e [] := by
  unfold parameterType
  split
  case h_7 => split <;> simp
  all_goals simp

end Types

section Operations

variable {e : Engine} (s : Site)

@[simp]
theorem plans_factory (c : Option ClassDef) : (factory s c).Plans e [] := by
  cases c <;> simp [factory]

@[simp]
theorem plans_readValue (slot : ValueSlot) : (readValue s slot).Plans e [] := by
  unfold readValue
  dsimp only
  split <;> simp

@[simp]
theorem plans_resultArgument (t : TypeRef) : (resultArgument s t).Plans e [] := by
  unfold resultArgument
  split <;> simp

theorem plans_operation (op : Operation) : (operation s op).Plans e [] := by
  cases op with
  | configureRequest config type queries options headers =>
      cases type <;> simp [operation, configureRequest]
  | assignDefault q value enum => cases enum <;> simp [operation]
  | discriminatorSwitch cases fallback =>
      simp [operation, discriminatorSwitch]
  | readProperty q backing key => cases backing <;> simp [operation]
  | writeProperty q value backing key => cases backing <;> simp [operation]
  | _ => simp [operation, fieldMap, errorTable, send, setEntries, constructBuilder, mapQueryName]

end Operations

section Classes

variable {e : Engine} (c : Context)

theorem plans_enumScript (x : Enum) : (enumScript c x).Plans e [] := by
  simp [enumScript]

@[simp]
theorem plans_propertyScript (q : Property) : (propertyScript c q).Plans e [] := by
  simp [propertyScript]

@[simp]
theorem plans_signature (s : Site) : (signature s).Plans e [] := by
  unfold signature
  refine plans_bind_nil.mpr ⟨plans_collect fun q => by simp [parameterText], fun parameters _ => ?_⟩
  dsimp only
  split
  case h_7 =>
    refine plans_bind_nil.mpr ⟨plans_typeOf _ _, fun result _ => ?_⟩
    split <;> simp
  all_goals simp

theorem plans_methodScript (m : Method) : (methodScript c m).Plans e [m] := by
  refine plans_atSite c fun s => ?_
  have hprologue : (prologue s).Plans e [] := by
    unfold prologue
    dsimp only
    split <;> simp
  have hepilogue : (epilogue s).Plans e [] := by
    unfold epilogue
    split <;> simp
  simp [plans_operation, hprologue, hepilogue]

theorem plans_classScript (cls : ClassDef) :
    (classScript c cls).Plans e (cls.methods.filter (isEmitted false)) := by
  have hmethods : (each (cls.methods.filter (isEmitted false)) (methodScript c)).Plans e
      (cls.methods.filter (isEmitted false)) := plans_each_method (plans_methodScript c) _
  have hclass : ∀ opening, (do
      lines (comment c.policy cls.documentation)
      block opening "\x7d" do
        each cls.properties (propertyScript c)
        each (cls.methods.filter (isEmitted false)) (methodScript c)).Plans e
      (cls.methods.filter (isEmitted false)) := fun opening =>
    plans_after (plans_lines _) fun _ _ =>
      plans_block (plans_after (plans_each_nil (plans_propertyScript c)) fun _ _ => hmethods)
  unfold classScript
  refine plans_after (plans_collect (plans_typeOfRef c)) fun base _ =>
    plans_after (plans_collect (plans_typeOfRef c)) fun implemented _ => ?_
  dsimp only
  split
  · exact plans_after (plans_runtime _) fun _ _ => plans_after (plans_pure _) fun _ _ => hclass _
  · exact plans_after (plans_pure _) fun _ _ => hclass _

end Classes

end TypeScript

end ClientForge.Render
