import ClientForge.Proofs.Plan.Defaults
import ClientForge.Proofs.Plan.Elements
import ClientForge.Proofs.Render.Following
import ClientForge.Proofs.Text.Pascal

/-!
# The adapter that requests go through

A constructor keeps the adapter that it is given in a member of the object, and requests take it from a member again.
C# and Go look the member up both times. TypeScript looks it up where it is assigned only: requests take it from a
member with a fixed name.

* `Script.WritesFirst`: what a script writes before everything else, on any page. `Script.First` reads it off the
  script, with one rule for each step;
* `forward_assigns`, `use_takes`: the member that a constructor assigns, and the one that a request takes;
* **`adapter_used_is_adapter_stored_iff`.** Both are the same member, except for adapters in TypeScript that have
  another name.
-/

namespace ClientForge

namespace Plan

open ClientForge.Graph

/-! ### Constructors take over the adapter -/

section Constructors

variable {c : Context} {cls : ClassDef} {m : Method} {q : Property} {p : Parameter}

/-- The adapter is forwarded where the class keeps one and the method is given one. -/
theorem mem_forwardOperations_iff : .forwardParameter q p ∈ forwardOperations cls m ↔
    cls.propertyOfKind .requestAdapter = some q ∧ m.parameterOfKind .requestAdapter = some p := by
  unfold forwardOperations
  split
  · next property parameter hproperty hparameter =>
    simp only [List.mem_singleton, Operation.forwardParameter.injEq, hproperty, hparameter, Option.some.injEq, eq_comm]
  · next hmissing =>
    simp only [List.not_mem_nil, false_iff, not_and]
    exact fun hproperty hparameter => hmissing q p hproperty hparameter

/-- A constructor forwards its adapter to the property for it, and nothing else to anywhere: forwarding is a phase of
its own. -/
theorem forward_mem_constructor_iff {body : Body} (h : constructor c cls m = .ok body) :
    .forwardParameter q p ∈ body.operations ↔
      cls.propertyOfKind .requestAdapter = some q ∧ m.parameterOfKind .requestAdapter = some p := by
  have hother {phase : Phase} {operations : List Operation} (hphase : AllIn phase operations)
      (hne : phase ≠ .forwarding) : .forwardParameter q p ∉ operations := by
    intro hmem
    exact hne (Option.some_inj.mp (hphase _ hmem)).symm
  have hclient : .forwardParameter q p ∉
      (if m.kind == .clientConstructor then clientOperations c.options cls m else []) := by
    split
    · exact hother (allIn_clientOperations cls m c.options) (by decide)
    · exact List.not_mem_nil
  cases h
  simp only [List.mem_append, hother (allIn_defaults c cls) (by decide),
    hother (allIn_seedOperations cls m) (by decide), hclient, false_or, or_false]
  exact mem_forwardOperations_iff

/-- Constructors have the default handler, whether or not there is a command line. -/
theorem handlers_of_isConstructor {e : Engine} (he : e.IsStandard) (hkind : m.kind.isConstructor = true) :
    e.handlers m.kind = defaultHandlers m.kind := by
  rcases he with he | he <;> rw [he]
  have hne : m.kind ≠ .commandBuilder := by
    intro heq
    rw [heq] at hkind
    cases hkind
  exact if_neg hne

end Constructors

end Plan

namespace Render

open ClientForge.Graph ClientForge.Plan ClientForge.Convention

/-! ### What a script writes first -/

namespace Script

variable {α β : Type}

/-- On every page, the first thing that a script writes is a line that passes a test. -/
def WritesFirst (s : Script α) (p : String → Prop) : Prop :=
  ∀ (e : Engine) (place : Option NamespaceId) (page : Page),
    ∃ text, p text ∧ (page.writer.line text).written <:+ (s.follow e place page).2.writer.written

/-- Whether the first line of a script passes a test, whichever names the script is given. A script that writes nothing
has to come to something that passes another test. -/
def First (p : String → Prop) (q : α → Prop) : Script α → Prop
  | done value => q value
  | fail _ => False
  | write (.line text) _ => p text
  | write _ _ => False
  | need _ next => next.First p q
  | name _ next => ∀ spelling, (next spelling).First p q
  | plan _ _ => False

/-- Whether a script comes to its end and writes nothing. -/
def Quiet (s : Script α) : Prop := s.First (fun _ => False) fun _ => True

end Script

section Pages

variable {α : Type} {e : Engine} {place : Option NamespaceId}

theorem writesFirst_of_first {s : Script α} {p : String → Prop} (h : s.First p fun _ => False) : s.WritesFirst p := by
  intro e place page
  induction s generalizing page with
  | done value => cases h
  | fail failure => cases h
  | write stroke next ih =>
      cases stroke with
      | line text => exact ⟨text, h, written_follow next (page.write (.line text))⟩
      | blank | indent | dedent => cases h
  | need item next ih => exact writer_need page item ▸ ih h (page.need item)
  | name d next ih =>
      exact writer_name page e.context.policy d ▸ ih _ (h _) (page.name e.context.policy place d).2
  | plan m next ih => cases h

/-- A script has one first line, which passes all tests that the first line passes. -/
theorem Script.WritesFirst.and {s : Script α} {p q : String → Prop} (hp : s.WritesFirst p) (hq : s.WritesFirst q)
    (e : Engine) : ∃ text, p text ∧ q text := by
  obtain ⟨text, htext, hwritten⟩ := hp e none ⟨⟨"", 0, []⟩, {}, [], [], none, []⟩
  obtain ⟨text', htext', hwritten'⟩ := hq e none ⟨⟨"", 0, []⟩, {}, [], [], none, []⟩
  have hsame := (List.suffix_of_suffix_length_le hwritten hwritten' le_rfl).eq_of_length rfl
  have hline := (List.cons.inj hsame).1
  rw [String.append_left_inj, String.append_right_inj] at hline
  exact ⟨text, htext, hline ▸ htext'⟩

end Pages

/-! ### Rules -/

section Rules

variable {α β : Type} {p : String → Prop} {q : α → Prop} {r : β → Prop}

@[simp]
theorem first_line {text : String} {q : Unit → Prop} : (line text).First p q ↔ p text := Iff.rfl

@[simp]
theorem first_bind {s : Script α} {f : α → Script β} :
    (s >>= f).First p r ↔ s.First p fun a => (f a).First p r := by
  change (s.bind f).First p r ↔ _
  induction s with
  | done value => exact Iff.rfl
  | fail failure => exact Iff.rfl
  | write stroke next ih => cases stroke <;> exact Iff.rfl
  | need item next ih => exact ih
  | name d next ih => exact forall_congr' fun spelling => ih spelling
  | plan m next ih => exact Iff.rfl

@[simp]
theorem first_block {opening closing : String} {body : Script Unit} {q : Unit → Prop} :
    (block opening closing body).First p q ↔ p opening := by
  simp [block]

/-- A weaker test on the first line is passed as well. -/
theorem Script.First.imp {p' : String → Prop} {q' : α → Prop} {s : Script α} (h : s.First p q)
    (hp : ∀ text, p text → p' text) (hq : ∀ a, q a → q' a) : s.First p' q' := by
  induction s with
  | done value => exact hq _ h
  | fail failure => exact h
  | write stroke next ih =>
      cases stroke with
      | line text => exact hp _ h
      | blank | indent | dedent => exact h
  | need item next ih => exact ih h
  | name d next ih => exact fun spelling => ih spelling (h spelling)
  | plan m next ih => exact h

/-- After a script that writes nothing, the first line is the one of what follows. -/
theorem first_bind_of_quiet {s : Script α} {f : α → Script β} (hs : s.Quiet) (hf : ∀ a, (f a).First p r) :
    (s >>= f).First p r :=
  first_bind.mpr (hs.imp (fun _ => False.elim) fun a _ => hf a)

theorem quiet_bind {s : Script α} {f : α → Script β} (hs : s.Quiet) (hf : ∀ a, (f a).Quiet) : (s >>= f).Quiet :=
  first_bind_of_quiet hs hf

theorem quiet_pure (a : α) : (pure a : Script α).Quiet := trivial

theorem quiet_nameOf (d : Definition) : (nameOf d).Quiet := fun _ => trivial

theorem quiet_needAll (items : List String) : (needAll items).Quiet := by
  induction items with
  | nil => exact quiet_pure ()
  | cons item items ih => exact ih

theorem quiet_collect {xs : List α} {f : α → Script String} (h : ∀ x, (f x).Quiet) : (collect xs f).Quiet := by
  induction xs with
  | nil => exact quiet_pure []
  | cons x xs ih => exact quiet_bind (h x) fun text => quiet_bind ih fun texts => quiet_pure (text :: texts)

end Rules

/-! ### Names and types are asked for without writing -/

section Types

variable (c : Context)

theorem quiet_className (cls : ClassDef) : (className cls).Quiet := quiet_nameOf _

theorem quiet_definitionName (t : TypeRef) : (definitionName c t).Quiet := by
  unfold definitionName
  split
  · exact quiet_nameOf _
  · exact quiet_pure _

/-- A type that is not composed can always be written. -/
theorem quiet_typeText (t : Option TypeRef) : (typeText c (t.map .scalar)).Quiet := by
  cases t with
  | none => exact quiet_pure _
  | some t =>
      unfold typeText translate?
      simp only [Option.map_some, Convention.translate, translateRef]
      split
      · exact quiet_bind (quiet_nameOf _) fun name => quiet_pure _
      · exact quiet_pure _

theorem CSharp.quiet_factory (s : Site) (cls : Option ClassDef) : (CSharp.factory s cls).Quiet := by
  cases cls with
  | none => exact quiet_pure _
  | some cls => exact quiet_bind (quiet_className cls) fun name => quiet_pure _

theorem TypeScript.quiet_factory (s : Site) (cls : Option ClassDef) : (TypeScript.factory s cls).Quiet := by
  cases cls with
  | none => exact quiet_pure _
  | some cls => exact quiet_bind (quiet_className cls) fun name => quiet_pure _

theorem TypeScript.quiet_typeOfRef (t : TypeRef) : (TypeScript.typeOfRef c t).Quiet := by
  unfold TypeScript.typeOfRef TypeScript.typeOf
  split
  · split
    · exact quiet_pure _
    · refine quiet_bind (quiet_typeText c (some t)) fun name => quiet_bind ?_ fun _ => quiet_pure name
      unfold only
      split
      · exact quiet_needAll [_]
      · exact quiet_pure ()
  · exact quiet_typeText c (some t)

theorem TypeScript.quiet_resultArgument (s : Site) (t : TypeRef) : (TypeScript.resultArgument s t).Quiet := by
  unfold TypeScript.resultArgument
  split
  · exact TypeScript.quiet_factory s _
  · exact quiet_bind (TypeScript.quiet_typeOfRef s.context t) fun name => quiet_pure _

theorem Go.quiet_factoryOf (cls : Option ClassDef) : (Go.factoryOf cls).Quiet := by
  cases cls with
  | none => exact quiet_pure _
  | some cls => exact quiet_bind (quiet_className cls) fun name => quiet_pure _

theorem Go.quiet_scalar (name : String) : (Go.scalar c name).Quiet :=
  quiet_bind (quiet_needAll _) fun _ => quiet_pure _

theorem Go.quiet_refType (t : TypeRef) : (Go.refType c t).Quiet := by
  unfold Go.refType
  split
  · exact quiet_pure _
  · split
    · exact quiet_bind (quiet_className _) fun name => quiet_pure _
    · dsimp only
      split
      · exact quiet_bind (quiet_definitionName c t) fun name => quiet_pure _
      · exact quiet_bind (Go.quiet_scalar c t.name) fun name => quiet_pure _

end Types

/-! ### The member that holds the adapter -/

/-- What an operation of a request needs the adapter for. -/
inductive AdapterUse where
  | structured (content : Content) (type : TypeRef)
  | scalar (content : Content) (type : TypeExpr)
  | send (x : Send)

def AdapterUse.operation : AdapterUse → Operation
  | structured content type => .setStructuredContent content type
  | scalar content type => .setScalarContent content type
  | send x => .send x

/-- The statements for an operation. -/
def operationScript (l : Language) (s : Site) (giveUp : String) (op : Operation) : Script Unit :=
  match l with
  | .csharp | .cli => CSharp.operation s op
  | .typescript => TypeScript.operation s op
  | .go => Go.operation ⟨s, giveUp⟩ none op

/-- A member of an object. In C# the object goes without saying. -/
def memberText (l : Language) (object name : String) : String :=
  match l with
  | .csharp | .cli => name
  | .typescript | .go => object ++ "." ++ name

/-- The object that a method belongs to. -/
def ownObject : Language → String
  | .go => "m"
  | _ => "this"

/-- The object that a constructor makes. -/
def madeObject (l : Language) (kind : MethodKind) : String :=
  if l = .typescript ∧ kind = .rawUrlConstructor then "builder" else ownObject l

/-- The member for a property that holds the adapter. -/
def storedMember (l : Language) (p : Policy) (q : Property) : String :=
  match l with
  | .csharp | .cli | .typescript => p.memberName q.name
  | .go => Go.field p q

/-- The member that requests take the adapter from. In TypeScript it has the same name in all classes. -/
def usedMember (l : Language) (p : Policy) (q : Property) : String :=
  if l = .typescript then "requestAdapter" else storedMember l p q

def argumentName (l : Language) (s : Site) (p : Parameter) : String :=
  match l with
  | .csharp | .cli => CSharp.parameter s p
  | .typescript => TypeScript.parameter s p
  | .go => Go.parameter s p

/-- A line assigns a value to something. -/
def Assigns (target value text : String) : Prop := ∃ rest, text = target ++ " = " ++ value ++ rest

/-- What stands before the adapter in the first line of an operation. -/
def lead (l : Language) : AdapterUse → String
  | .structured _ _ =>
    match l with
    | .csharp | .cli => CSharp.requestInfo ++ ".SetContentFromParsable("
    | .typescript => TypeScript.requestInfo ++ ".setContentFromParsable("
    | .go => "if err := " ++ Go.requestInfo ++ ".SetContentFromParsable(ctx, "
  | .scalar _ _ =>
    match l with
    | .csharp | .cli => CSharp.requestInfo ++ ".SetContentFromScalar("
    | .typescript => TypeScript.requestInfo ++ ".setContentFromScalar("
    | .go => "if err := " ++ Go.requestInfo ++ ".SetContentFromScalar(ctx, "
  | .send x =>
    match l with
    | .csharp | .cli =>
      match x.variant, x.type with
      | .noContent, _ => "await "
      | .objectCollection, some _ | .primitiveCollection, _ => "var collectionResult = await "
      | _, _ => "return await "
    | .typescript => if x.variant = .noContent then "await " else "return await "
    | .go => if x.variant = .noContent ∨ x.type = none then "if err := " else "res, err := "

/-- What stands behind it: an argument is followed by others, and the receiver of a call by a method. -/
def AdapterUse.mark : AdapterUse → String
  | structured _ _ | scalar _ _ => ", "
  | send _ => "."

/-- A line takes the adapter from somewhere. -/
def Takes (l : Language) (use : AdapterUse) (adapter text : String) : Prop :=
  ∃ rest, text = lead l use ++ adapter ++ use.mark ++ rest

section Members

variable (s : Site) {q : Property}

/-- In TypeScript, a property is written as the member that is stored. -/
theorem TypeScript.property_eq : TypeScript.property s q =
    memberText .typescript (madeObject .typescript s.method.kind) (storedMember .typescript s.policy q) := by
  simp [TypeScript.property, TypeScript.receiver, memberText, madeObject, ownObject, storedMember]

/-- Forwarding the adapter assigns the argument to the member that the property is stored as. -/
theorem forward_assigns (l : Language) (giveUp : String) (p : Parameter) :
    (operationScript l s giveUp (.forwardParameter q p)).WritesFirst
      (Assigns (memberText l (madeObject l s.method.kind) (storedMember l s.policy q)) (argumentName l s p)) := by
  refine writesFirst_of_first ?_
  cases l with
  | csharp | cli => exact ⟨_, by simp only [String.append_assoc]; rfl⟩
  | typescript => exact TypeScript.property_eq s ▸ ⟨";", rfl⟩
  | go => exact ⟨"", (String.append_empty).symm⟩

/-- The adapter as requests write it. -/
def adapterText (l : Language) (s : Site) : String :=
  match l with
  | .csharp | .cli => CSharp.adapter s
  | .typescript => TypeScript.adapter
  | .go => Go.adapter s

/-- Where a class keeps an adapter, it is used as a member of the object itself. -/
theorem adapterText_eq (l : Language) (hq : s.adapter = some q) :
    adapterText l s = memberText l (ownObject l) (usedMember l s.policy q) := by
  cases l with
  | csharp | cli => rw [adapterText, CSharp.adapter, hq]; rfl
  | typescript => rfl
  | go => rw [adapterText, Go.adapter, hq]; rfl

/-- A line that leads up to the adapter takes it. -/
theorem takes_of_lead {l : Language} {use : AdapterUse} {front adapter rest : String} (h : lead l use = front) :
    Takes l use adapter (front ++ (adapter ++ (use.mark ++ rest))) :=
  ⟨rest, by rw [h]; simp only [String.append_assoc]⟩

theorem CSharp.first_send (x : Send) :
    (CSharp.send s x).First (Takes .csharp (.send x) (CSharp.adapter s)) fun _ => False := by
  obtain ⟨variant, type, unwrapArray, errorMapping, cancellation⟩ := x
  unfold CSharp.send
  -- names and types are asked for first; what is left in each case is the line with the call
  cases variant
  case' primitive | primitiveCollection =>
    refine first_bind_of_quiet (quiet_typeText s.context type) fun name => ?_
  case' object | objectCollection =>
    cases type
    case' none => refine first_bind_of_quiet (quiet_typeText s.context none) fun name => ?_
    case' some t =>
      refine first_bind_of_quiet (CSharp.quiet_factory s (s.graph.classOf t)) fun factory => ?_
      refine first_bind_of_quiet (quiet_definitionName s.context t) fun name => ?_
  all_goals
    simp only [first_bind, first_line, toString, String.append_assoc]
    exact takes_of_lead rfl

/-- The first line for sending a request takes the adapter. -/
theorem TypeScript.first_send (x : Send) :
    (TypeScript.send s x).First (Takes .typescript (.send x) TypeScript.adapter) fun _ => False := by
  obtain ⟨variant, type, unwrapArray, errorMapping, cancellation⟩ := x
  refine first_bind_of_quiet (quiet_collect (TypeScript.quiet_resultArgument s)) fun result => ?_
  cases variant
  all_goals
    simp only [first_line, toString, String.append_assoc]
    exact takes_of_lead rfl

theorem Go.first_send (f : Go.Func) (x : Send) :
    (Go.send f x).First (Takes .go (.send x) (Go.adapter f.toSite)) fun _ => False := by
  obtain ⟨variant, type, unwrapArray, errorMapping, cancellation⟩ := x
  unfold Go.send
  cases variant <;> cases type
  case' primitive.some t | primitiveCollection.some t =>
    refine first_bind_of_quiet (Go.quiet_scalar f.context t.name) fun name => ?_
  case' object.some t | objectCollection.some t =>
    refine first_bind_of_quiet (Go.quiet_refType f.context t) fun type => ?_
    refine first_bind_of_quiet (Go.quiet_factoryOf (f.graph.classOf t)) fun factory => ?_
  all_goals
    simp only [Go.checked, first_bind, first_block, first_line, toString, String.append_assoc]
    exact takes_of_lead rfl

/-- The adapter as the first argument of a call. -/
theorem takes_argument {l : Language} {use : AdapterUse} {info call adapter type rest : String}
    (h : lead l use = info ++ call) (hmark : use.mark = ", ") :
    Takes l use adapter (info ++ call ++ adapter ++ ", " ++ type ++ ", " ++ rest) :=
  ⟨type ++ ", " ++ rest, by rw [h, hmark]; simp only [String.append_assoc]⟩

/-- The adapter as an argument of a call that is checked. -/
theorem takes_checked {l : Language} {use : AdapterUse} {front info call adapter type rest back : String}
    (h : lead l use = front ++ info ++ call) (hmark : use.mark = ", ") :
    Takes l use adapter (front ++ (info ++ call ++ adapter ++ ", " ++ type ++ ", " ++ rest) ++ back) :=
  ⟨type ++ ", " ++ rest ++ back, by rw [h, hmark]; simp only [String.append_assoc]⟩

/-- The first line of an operation that needs the adapter takes it from the member for it. -/
theorem use_takes (l : Language) (giveUp : String) (use : AdapterUse) :
    (operationScript l s giveUp use.operation).First (Takes l use (adapterText l s)) fun _ => False := by
  cases use with
  | send x =>
      cases l with
      | csharp | cli => exact CSharp.first_send s x
      | typescript => exact TypeScript.first_send s x
      | go => exact Go.first_send ⟨s, giveUp⟩ x
  | scalar content type =>
      cases l with
      | csharp | cli | typescript => exact first_line.mpr (takes_argument rfl rfl)
      | go => exact first_block.mpr (takes_checked rfl rfl)
  | structured content type =>
      cases l with
      | csharp | cli => exact first_line.mpr (takes_argument rfl rfl)
      | typescript =>
          refine first_bind_of_quiet (TypeScript.quiet_factory s (s.graph.classOf type)) fun factory => ?_
          exact first_line.mpr (takes_argument rfl rfl)
      | go => exact first_block.mpr (takes_checked rfl rfl)

end Members

/-! ### One member or two -/

section Agreement

/-- What the names of members consist of. -/
def isNameChar (c : Char) : Bool := c.isAlphanum || c == '_'

/-- Identifiers in these cases are made of letters, digits and underscores. -/
theorem isNameChar_of_mem_identifier {p : Policy} {casing : Text.Casing} (hcasing : casing = .pascal ∨ casing = .camel)
    {name : String} {c : Char} (hc : c ∈ (p.identifier casing name).toList) : isNameChar c = true := by
  have hcased : c ∈ (casing.apply name).toList → isNameChar c = true := by
    intro h
    have halphanum : c.isAlphanum = true := by
      rcases hcasing with rfl | rfl <;> rw [Text.Casing.apply, String.toList_ofList] at h <;>
        exact Text.isAlphanum_of_mem_camelFrom h
    rw [isNameChar, halphanum, Bool.true_or]
  unfold Policy.identifier at hc
  dsimp only at hc
  split at hc
  · rw [String.toList_append, List.mem_append] at hc
    rcases hc with hc | hc
    · exact hcased hc
    · rw [List.mem_singleton.mp hc]
      rfl
  · exact hcased hc

/-- So are the members that are stored. -/
theorem isNameChar_of_mem_storedMember {l : Language} {q : Property} :
    ∀ c ∈ (storedMember l l.policy q).toList, isNameChar c = true := by
  intro c hc
  cases l with
  | csharp | cli => exact isNameChar_of_mem_identifier (.inl rfl) hc
  | typescript => exact isNameChar_of_mem_identifier (.inr rfl) hc
  | go =>
      unfold storedMember Go.field at hc
      dsimp only at hc
      split at hc
      · exact isNameChar_of_mem_identifier (.inl rfl) hc
      · exact isNameChar_of_mem_identifier (.inr rfl) hc

theorem isNameChar_of_mem_usedMember {l : Language} {q : Property} :
    ∀ c ∈ (usedMember l l.policy q).toList, isNameChar c = true := by
  unfold usedMember
  split
  · exact List.all_eq_true.mp (by decide)
  · exact isNameChar_of_mem_storedMember

/-- A line takes the adapter from one member: its name ends where a character is none of a name. -/
theorem takes_member_inj {l : Language} {use : AdapterUse} {object name name' text : String}
    (h : Takes l use (memberText l object name) text) (h' : Takes l use (memberText l object name') text)
    (hname : ∀ c ∈ name.toList, isNameChar c = true) (hname' : ∀ c ∈ name'.toList, isNameChar c = true) :
    name = name' := by
  obtain ⟨rest, htext⟩ := h
  obtain ⟨rest', htext'⟩ := h'
  have hsame : name ++ (use.mark ++ rest) = name' ++ (use.mark ++ rest') := by
    have hlines := htext.symm.trans htext'
    cases l <;> simpa only [memberText, String.append_assoc, String.append_right_inj] using hlines
  have hends (back : String) : (use.mark ++ back).toList.takeWhile isNameChar = [] := by
    have hcomma : isNameChar ',' = false := by decide
    have hdot : isNameChar '.' = false := by decide
    cases use <;> simp [AdapterUse.mark, hcomma, hdot]
  have hnames := congrArg (fun line => line.toList.takeWhile isNameChar) hsame
  simp only [String.toList_append] at hnames hends
  rw [List.takeWhile_append_of_pos hname, List.takeWhile_append_of_pos hname', hends, hends, List.append_nil,
    List.append_nil] at hnames
  exact String.toList_inj.mp hnames

/-- The adapter is used as it is stored, but for TypeScript, where that depends on its name. -/
theorem usedMember_eq_storedMember_iff (l : Language) (p : Policy) (q : Property) :
    usedMember l p q = storedMember l p q ↔ l ≠ .typescript ∨ p.memberName q.name = "requestAdapter" := by
  unfold usedMember
  by_cases hl : l = .typescript
  · subst hl
    simp [storedMember, eq_comm]
  · simp [hl]

/-- A constructor that is given an adapter assigns it to one member of the object that it makes. Requests take the
adapter from that member in C# and Go. In TypeScript they do if and only if the member is called `requestAdapter`, since
this is the member that they take it from anyway. -/
theorem adapter_used_is_adapter_stored_iff (l : Language) (e : Engine) (he : e.IsStandard)
    (hpolicy : e.context.policy = l.policy) (cls : ClassDef) (q : Property)
    (hq : cls.propertyOfKind .requestAdapter = some q) :
    (∀ m p, m.kind.isConstructor = true → e.context.graph.parentOf m = some cls →
      m.parameterOfKind .requestAdapter = some p →
      ∃ body, e.synthesize m = .ok body ∧
        (∀ q' p', .forwardParameter q' p' ∈ body.operations ↔ q' = q ∧ p' = p) ∧
        ∀ giveUp, (operationScript l ⟨e.context, cls, body⟩ giveUp (.forwardParameter q p)).WritesFirst
          (Assigns (memberText l (madeObject l m.kind) (storedMember l l.policy q))
            (argumentName l ⟨e.context, cls, body⟩ p))) ∧
    ∀ (s : Site) giveUp (use : AdapterUse), s.context = e.context → s.host = cls →
      (operationScript l s giveUp use.operation).WritesFirst
        (Takes l use (memberText l (ownObject l) (usedMember l l.policy q))) ∧
      ((operationScript l s giveUp use.operation).WritesFirst
          (Takes l use (memberText l (ownObject l) (storedMember l l.policy q))) ↔
        l ≠ .typescript ∨ l.policy.memberName q.name = "requestAdapter") := by
  constructor
  · intro m p hkind hparent hp
    obtain ⟨body, hbody, hsynthesize⟩ := synthesize_constructor (handlers_of_isConstructor he hkind) hkind hparent
    refine ⟨body, hsynthesize, ?_, ?_⟩
    · intro q' p'
      rw [forward_mem_constructor_iff hbody, hq, hp, Option.some_inj, Option.some_inj, eq_comm, @eq_comm _ p]
    · intro giveUp
      cases hbody
      rw [← hpolicy]
      exact forward_assigns ⟨e.context, cls, _⟩ l giveUp p
  · rintro s giveUp use hcontext rfl
    have hsite : s.policy = l.policy := by rw [Site.policy, hcontext, hpolicy]
    have hused := writesFirst_of_first (use_takes s l giveUp use)
    rw [adapterText_eq s l hq, hsite] at hused
    refine ⟨hused, ?_⟩
    rw [← usedMember_eq_storedMember_iff]
    constructor
    · intro hstored
      obtain ⟨text, htext, htext'⟩ := hused.and hstored e
      exact takes_member_inj htext htext' isNameChar_of_mem_usedMember isNameChar_of_mem_storedMember
    · intro hsame
      exact hsame ▸ hused

namespace AdapterSample

def adapter (name : String) : Property := { name, kind := .requestAdapter, parent := some ⟨0⟩ }

def argument : Parameter :=
  { id := ⟨⟨⟨0⟩, 0⟩, 0⟩, name := "requestAdapter", kind := .requestAdapter
    type := .scalar { name := "RequestAdapter" } }

def maker : Method :=
  { id := ⟨⟨0⟩, 0⟩, name := "Users", kind := .constructor, parameters := [argument], parent := some ⟨0⟩ }

/-- A request builder whose adapter has a name of its own. -/
def users (name : String) : ClassDef :=
  { id := ⟨0⟩, name := "Users", kind := .requestBuilder, home := some ⟨⟨0⟩, "Sdk"⟩, properties := [adapter name]
    methods := [maker] }

def engine (l : Language) (name : String) : Engine :=
  ⟨⟨{ root := { id := ⟨0⟩, name := "Sdk", classes := [⟨0⟩] }, classes := #[users name], enums := #[] }, l.policy, {}⟩,
    defaultHandlers⟩

/-- A request that nothing comes back from. -/
def request : AdapterUse := .send { variant := .noContent, errorMapping := false }

/-- The request takes the adapter from the member that it was assigned to. -/
def TakesStored (l : Language) (name : String) : Prop :=
  (operationScript l ⟨(engine l name).context, users name, { method := maker, operations := [] }⟩ ""
      request.operation).WritesFirst
    (Takes l request (memberText l (ownObject l) (storedMember l l.policy (adapter name))))

end AdapterSample

open AdapterSample in
/-- An adapter with an unusual name is assigned in the constructor, and requests find it in C# and Go. In TypeScript
they find it only under the usual name. -/
theorem renamed_adapter_missed_in_typescript :
    (users "Adapter").propertyOfKind .requestAdapter = some (adapter "Adapter") ∧
    (∃ body, (engine .typescript "Adapter").synthesize maker = .ok body ∧
      .forwardParameter (adapter "Adapter") argument ∈ body.operations) ∧
    TakesStored .csharp "Adapter" ∧ TakesStored .go "Adapter" ∧ ¬TakesStored .typescript "Adapter" ∧
    TakesStored .typescript "RequestAdapter" := by
  have hiff (l : Language) (name : String) : TakesStored l name ↔
      l ≠ .typescript ∨ l.policy.memberName name = "requestAdapter" :=
    ((adapter_used_is_adapter_stored_iff l (engine l name) (.inl rfl) rfl (users name) (adapter name) rfl).2 _ ""
      request rfl rfl).2
  have hmember : typescriptPolicy.memberName "Adapter" ≠ "requestAdapter" ∧
      typescriptPolicy.memberName "RequestAdapter" = "requestAdapter" := by decide +kernel
  refine ⟨rfl, ?_, (hiff .csharp "Adapter").mpr (.inl (by decide)), (hiff .go "Adapter").mpr (.inl (by decide)), ?_,
    (hiff .typescript "RequestAdapter").mpr (.inr hmember.2)⟩
  · obtain ⟨body, hbody, hforward, _⟩ :=
      (adapter_used_is_adapter_stored_iff .typescript (engine .typescript "Adapter") (.inl rfl) rfl (users "Adapter")
        (adapter "Adapter") rfl).1 maker argument rfl rfl rfl
    exact ⟨body, hbody, (hforward _ _).mpr ⟨rfl, rfl⟩⟩
  · intro htakes
    rcases (hiff .typescript "Adapter").mp htakes with hl | hname
    · exact hl rfl
    · exact hmember.1 hname

end Agreement

end Render

end ClientForge
