import ClientForge.Proofs.Plan.Arguments
import ClientForge.Proofs.Render.Asking
import ClientForge.Proofs.Render.Trimming
import ClientForge.Render.Emission

/-!
# Calls of generators

An executor calls the generator of its class with an argument for each parameter of the generator's signature.
What the generator declares is decided elsewhere: C# declares the whole signature, while TypeScript and Go
leave out what would cancel a request. So a call does not always fit what it calls.

* `header_declares`, `call_passes`: which parameters the header of a generator declares, and which argument
  stands for which of them in a call;
* **`generator_call_fits_iff`.** A call fits exactly if it passes nothing for a parameter that is not declared.
-/

namespace ClientForge.Render

open ClientForge.Graph ClientForge.Plan ClientForge.Convention

/-! ### What is declared and what is passed -/

/-- The parameters that the header of a generator declares. In Go the context of the request comes first, which
is no parameter of the graph. -/
def declaredIn (l : Language) (m : Method) : List (Option Parameter) :=
  match l with
  | .csharp | .cli => m.signature.map some
  | .typescript => (TypeScript.declaredParameters m).map some
  | .go => none :: (Go.declaredParameters m).map some

/-- Whether a call cannot do without a parameter that is declared. Go has no optional ones. -/
def isNeeded (l : Language) (p : Option Parameter) : Bool := l == .go || p.any (!·.optional)

/-- What a call passes: the parameter that an argument is bound to, and the argument, if there is one. Go
passes the context of the request first, and then every argument. -/
def bindings (l : Language) (call : GeneratorCall) : List (Option (Parameter × Option Parameter)) :=
  let bound := call.generator.signature.zip call.arguments
  match l with
  | .csharp | .cli | .typescript =>
    (bound.take (keptArguments call.arguments call.generator.signature)).map some
  | .go => none :: bound.map some

/-- The parameters that a call passes something for. -/
def passed (l : Language) (call : GeneratorCall) : List (Option Parameter) :=
  (bindings l call).map (·.map Prod.fst)

/-- A call fits the header of its generator: there are as many arguments as are needed and no more than are
declared, and each is bound to the parameter that is declared at its place. -/
structure CallFits (l : Language) (call : GeneratorCall) : Prop where
  enough : ((declaredIn l call.generator).filter (isNeeded l)).length ≤ (bindings l call).length
  no_more : (bindings l call).length ≤ (declaredIn l call.generator).length
  in_order : ∀ i < (bindings l call).length, (passed l call)[i]? = (declaredIn l call.generator)[i]?

/-! ### When a call fits -/

section Fitting

/-- What is left out at the end can be left out. -/
theorem optional_of_keptArguments_le {arguments : List (Option Parameter)} {signature : List Parameter} {i : Nat}
    {p : Parameter} (hlength : arguments.length = signature.length) (hi : keptArguments arguments signature ≤ i)
    (hp : signature[i]? = some p) : p.optional = true := by
  obtain ⟨hbound, _⟩ := List.getElem?_eq_some_iff.mp hp
  obtain ⟨-, q, hq, hoptional⟩ := (keptArguments_le_iff _ _).mp hi i le_rfl (hlength ▸ hbound)
  rwa [Option.some.inj (hp.symm.trans hq)]

/-- A list and what is left of it begin alike exactly as long as nothing is taken out. -/
theorem take_prefix_filter_iff {α : Type} {test : α → Bool} {xs : List α} {n : Nat} :
    xs.take n <+: xs.filter test ↔ ∀ x ∈ xs.take n, test x = true := by
  constructor
  · intro h x hx
    exact (List.mem_filter.mp (h.subset hx)).2
  · intro h
    conv_rhs => rw [← List.take_append_drop n xs, List.filter_append, List.filter_eq_self.mpr h]
    exact List.prefix_append _ _

/-- A call fits if what it passes is the front of what is declared, and nothing that is needed is left out. -/
theorem callFits_iff {l : Language} {call : GeneratorCall} :
    CallFits l call ↔ passed l call <+: declaredIn l call.generator ∧
      ((declaredIn l call.generator).filter (isNeeded l)).length ≤ (bindings l call).length := by
  have hlength : (passed l call).length = (bindings l call).length := by simp [passed]
  constructor
  · rintro ⟨henough, hmore, horder⟩
    refine ⟨List.prefix_iff_getElem?.mpr fun i hi => ?_, henough⟩
    rw [← horder i (hlength ▸ hi), List.getElem?_eq_getElem hi]
  · rintro ⟨hfront, henough⟩
    refine ⟨henough, hlength ▸ hfront.length_le, fun i hi => ?_⟩
    rw [← hlength] at hi
    rw [List.prefix_iff_getElem?.mp hfront i hi, List.getElem?_eq_getElem hi]

/-- Only what a call passes something for can be needed. -/
theorem length_needed_le {l : Language} (hl : l ≠ .go) {arguments : List (Option Parameter)}
    {signature declared : List Parameter} (hlength : arguments.length = signature.length)
    (hdeclared : declared.Sublist signature) :
    ((declared.map some).filter (isNeeded l)).length ≤ keptArguments arguments signature := by
  generalize hkept : keptArguments arguments signature = kept
  have hneeded : ∀ p, isNeeded l (some p) = !p.optional := fun p => by simp [isNeeded, hl]
  have hoptional : (signature.drop kept).filter (!·.optional) = [] := by
    refine List.filter_eq_nil_iff.mpr fun p hp => ?_
    obtain ⟨i, hi⟩ := List.getElem?_of_mem hp
    rw [List.getElem?_drop] at hi
    simp [optional_of_keptArguments_le hlength (by omega) hi]
  calc ((declared.map some).filter (isNeeded l)).length
      = (declared.filter (!·.optional)).length := by simp [List.filter_map, Function.comp_def, hneeded]
    _ ≤ (signature.filter (!·.optional)).length := (hdeclared.filter _).length_le
    _ = ((signature.take kept).filter (!·.optional)).length := by
        conv_lhs => rw [← List.take_append_drop kept signature, List.filter_append, hoptional, List.append_nil]
    _ ≤ (signature.take kept).length := List.length_filter_le _ _
    _ ≤ kept := List.length_take_le _ _

section Call

variable (generator executor : Method)

/-- What a call of a generator passes, language by language. -/
theorem passed_generatorCall (l : Language) :
    passed l (generatorCall generator executor) =
      match l with
      | .csharp | .cli | .typescript =>
        (generator.signature.take
          (keptArguments (generatorCall generator executor).arguments generator.signature)).map some
      | .go => none :: generator.signature.map some := by
  have hfst : (generator.signature.zip (generatorCall generator executor).arguments).map Prod.fst =
      generator.signature := List.map_fst_zip (length_bindArguments _ _).ge
  have htake (n : Nat) : ((generator.signature.zip (generatorCall generator executor).arguments).take n).map Prod.fst =
      generator.signature.take n := by rw [List.map_take, hfst]
  unfold passed bindings
  cases l with
  | csharp | cli | typescript =>
      dsimp only
      rw [← htake]
      simp only [List.map_map]
      rfl
  | go =>
      conv_rhs => rw [← hfst]
      simp only [List.map_cons, List.map_map]
      rfl

theorem length_bindings (l : Language) (call : GeneratorCall) : (bindings l call).length = (passed l call).length := by
  simp [passed]

/-- What a call passes is declared at its place, unless a parameter that it passes is not declared at all. -/
theorem passed_prefix_iff (l : Language) :
    passed l (generatorCall generator executor) <+: declaredIn l generator ↔
      l = .csharp ∨ l = .cli ∨
        ∀ p, some p ∈ passed l (generatorCall generator executor) → p.kind ≠ .cancellation := by
  rw [passed_generatorCall]
  generalize keptArguments (generatorCall generator executor).arguments generator.signature = kept
  cases l with
  | csharp | cli =>
      simp only [reduceCtorEq, true_or, or_true, iff_true]
      exact (List.take_prefix _ _).map some
  | typescript =>
      simp only [reduceCtorEq, false_or, declaredIn, TypeScript.declaredParameters]
      rw [List.prefix_map_iff_of_injective fun _ _ => Option.some.inj, take_prefix_filter_iff]
      simp only [bne_iff_ne, List.mem_map, Option.some.injEq, exists_eq_right]
  | go =>
      have hwhole := @take_prefix_filter_iff _ (fun p : Parameter => p.kind != .cancellation) generator.signature
        generator.signature.length
      rw [List.take_length] at hwhole
      simp only [reduceCtorEq, false_or, declaredIn, Go.declaredParameters]
      rw [List.cons_prefix_cons, and_iff_right rfl, List.prefix_map_iff_of_injective fun _ _ => Option.some.inj, hwhole]
      simp

/-- A call never passes too little. -/
theorem length_needed_le_bindings (l : Language) :
    ((declaredIn l generator).filter (isNeeded l)).length ≤ (bindings l (generatorCall generator executor)).length := by
  have hlength : (generatorCall generator executor).arguments.length = generator.signature.length :=
    length_bindArguments _ _
  have hkept := keptArguments_le (generatorCall generator executor).arguments generator.signature
  rw [length_bindings, passed_generatorCall]
  cases l with
  | csharp | cli =>
      have hneeded := length_needed_le (l := .csharp) (by decide) hlength (List.Sublist.refl generator.signature)
      simp only [List.length_map, List.length_take]
      exact hneeded.trans (by omega)
  | typescript =>
      have hneeded := length_needed_le (l := .typescript) (by decide) hlength
        (List.filter_sublist (p := (·.kind != .cancellation)))
      simp only [List.length_map, List.length_take]
      exact hneeded.trans (by omega)
  | go =>
      have hdeclared : (declaredIn .go generator).length ≤ (none :: generator.signature.map some).length := by
        simp [declaredIn, Go.declaredParameters, List.length_filter_le]
      exact (List.length_filter_le _ _).trans hdeclared

/-- The call of a generator fits, unless the language declares no cancellation and one is passed. -/
theorem callFits_generatorCall_iff (l : Language) :
    CallFits l (generatorCall generator executor) ↔
      l = .csharp ∨ l = .cli ∨
        ∀ p, some p ∈ passed l (generatorCall generator executor) → p.kind ≠ .cancellation := by
  rw [callFits_iff, ← passed_prefix_iff]
  exact and_iff_left (length_needed_le_bindings generator executor l)

end Call

end Fitting

/-! ### What is written -/

/-- A list of texts stands in brackets. -/
def Bracketed (texts : List String) (text : String) : Prop :=
  ∃ opening closing, text = opening ++ "(" ++ commaList texts ++ ")" ++ closing

/-- The header of a method. -/
def headerScript (l : Language) (s : Site) : Script String :=
  match l with
  | .csharp | .cli => CSharp.signature s
  | .typescript => TypeScript.signature s
  | .go => do pure (← Go.header s).text

/-- The declaration of a parameter in a header. -/
def Declares (l : Language) (e : Engine) (s : Site) (p : Option Parameter) (text : String) : Prop :=
  match l, p with
  | _, none => text = "ctx context.Context"
  | .csharp, some q | .cli, some q => (CSharp.parameterText s q).Returns e text
  | .typescript, some q => (TypeScript.parameterText s q).Returns e text
  | .go, some q => (Go.parameterText s q).Returns e text

/-- The statement that calls a generator, and what follows it. -/
def callScript (l : Language) (s : Site) (giveUp : String) (call : GeneratorCall) : Script Unit :=
  match l with
  | .csharp | .cli => CSharp.operation s (.callGenerator call)
  | .typescript => TypeScript.operation s (.callGenerator call)
  | .go => Go.operation ⟨s, giveUp⟩ none (.callGenerator call)

/-- What stands for an argument that there is none for. -/
def placeholder (l : Language) (p : Parameter) : String :=
  match l with
  | .csharp | .cli => "default"
  | .typescript => "undefined"
  | .go => if p.kind == .requestBodyContentType then "\"\"" else "nil"

/-- An argument in a call. -/
def argumentText (l : Language) (s : Site) : Option (Parameter × Option Parameter) → String
  | none => "ctx"
  | some (p, none) => placeholder l p
  | some (_, some a) =>
    match l with
    | .csharp | .cli => CSharp.parameter s a
    | .typescript => TypeScript.parameter s a
    | .go => Go.parameter s a

section Returning

variable {α β : Type} {e : Engine}

theorem returns_bind {s : Script α} {f : α → Script β} {b : β} :
    (s >>= f).Returns e b ↔ ∃ a, s.Returns e a ∧ (f a).Returns e b := by
  change (s.bind f).Returns e b ↔ _
  induction s with
  | done a => simp [Script.bind, Script.Returns]
  | fail failure => simp [Script.bind, Script.Returns]
  | write stroke next ih => exact ih
  | need item next ih => exact ih
  | name d next ih =>
      simp only [Script.bind, Script.Returns, ih]
      constructor
      · rintro ⟨x, a, hs, hf⟩
        exact ⟨a, ⟨x, hs⟩, hf⟩
      · rintro ⟨a, ⟨x, hs⟩, hf⟩
        exact ⟨x, a, hs, hf⟩
  | plan m next ih =>
      simp only [Script.bind, Script.Returns, ih]
      constructor
      · rintro ⟨x, hx, a, hs, hf⟩
        exact ⟨a, ⟨x, hx, hs⟩, hf⟩
      · rintro ⟨a, ⟨x, hx, hs⟩, hf⟩
        exact ⟨x, hx, a, hs, hf⟩

theorem returns_pure {a b : α} : (pure a : Script α).Returns e b ↔ b = a := Iff.rfl

/-- Texts that are collected are those of the elements, one by one. -/
theorem returns_collect {xs : List α} {f : α → Script String} {texts : List String} :
    (collect xs f).Returns e texts ↔ List.Forall₂ (fun x text => (f x).Returns e text) xs texts := by
  induction xs generalizing texts with
  | nil => simp [collect, Script.Returns]
  | cons x xs ih =>
      change ((f x) >>= fun text => (collect xs f) >>= fun texts => pure (text :: texts)).Returns e texts ↔ _
      simp only [returns_bind, returns_pure, ih, List.forall₂_cons_left_iff]
      constructor
      · rintro ⟨text, hfirst, rest, hrest, heq⟩
        exact ⟨text, rest, hfirst, hrest, heq⟩
      · rintro ⟨text, rest, hfirst, hrest, heq⟩
        exact ⟨text, hfirst, rest, hrest, heq⟩

end Returning

section Headers

variable {e : Engine} {s : Site} {text : String}

/-- A list between brackets. -/
theorem bracketed_of_close (opening : String) (texts : List String) {back closing : String}
    (h : back = ")" ++ closing) : Bracketed texts (opening ++ "(" ++ commaList texts ++ back) :=
  ⟨opening, closing, by rw [h]; exact String.append_assoc.symm⟩

theorem Bracketed.append {texts : List String} (h : Bracketed texts text) (back : String) :
    Bracketed texts (text ++ back) := by
  obtain ⟨opening, closing, rfl⟩ := h
  exact ⟨opening, closing ++ back, String.append_assoc⟩

/-- In C#, the header of a generator lists all parameters of its signature. -/
theorem header_csharp (hkind : s.method.kind = .requestGenerator) (h : (CSharp.signature s).Returns e text) :
    ∃ texts, Bracketed texts text ∧
      List.Forall₂ (fun q text => (CSharp.parameterText s q).Returns e text) s.method.signature texts := by
  unfold CSharp.signature at h
  obtain ⟨texts, htexts, h⟩ := returns_bind.mp h
  simp only [hkind] at h
  obtain ⟨result, _, h⟩ := returns_bind.mp h
  rw [returns_pure.mp h]
  have hclose : ")" = ")" ++ "" := by decide
  exact ⟨texts, bracketed_of_close _ _ hclose, returns_collect.mp htexts⟩

/-- In TypeScript, it lists those that are declared. -/
theorem header_typescript (hkind : s.method.kind = .requestGenerator) (h : (TypeScript.signature s).Returns e text) :
    ∃ texts, Bracketed texts text ∧
      List.Forall₂ (fun q text => (TypeScript.parameterText s q).Returns e text)
        (TypeScript.declaredParameters s.method) texts := by
  unfold TypeScript.signature at h
  obtain ⟨texts, htexts, h⟩ := returns_bind.mp h
  simp only [hkind] at h
  obtain ⟨result, _, h⟩ := returns_bind.mp h
  rw [returns_pure.mp h]
  have hclose : "): " = ")" ++ ": " := by decide
  exact ⟨texts, (bracketed_of_close _ _ hclose).append result, returns_collect.mp htexts⟩

/-- In Go, it lists those that are declared behind the context. -/
theorem header_go (hkind : s.method.kind = .requestGenerator) {header : Go.Header}
    (h : (Go.header s).Returns e header) :
    ∃ texts, Bracketed ("ctx context.Context" :: texts) header.text ∧
      List.Forall₂ (fun q text => (Go.parameterText s q).Returns e text) (Go.declaredParameters s.method) texts := by
  unfold Go.header at h
  obtain ⟨_, _, h⟩ := returns_bind.mp h
  obtain ⟨texts, htexts, h⟩ := returns_bind.mp h
  simp only [hkind, Method.isRequest] at h
  obtain ⟨_, _, h⟩ := returns_bind.mp h
  rw [returns_pure.mp h]
  have hclose : ")" = ")" ++ "" := by decide
  exact ⟨texts, (bracketed_of_close _ _ hclose).append _, returns_collect.mp htexts⟩

/-- In every language, the header of a generator declares its parameters in order. -/
theorem header_declares (l : Language) (hkind : s.method.kind = .requestGenerator)
    (h : (headerScript l s).Returns e text) :
    ∃ texts, Bracketed texts text ∧ List.Forall₂ (Declares l e s) (declaredIn l s.method) texts := by
  cases l with
  | csharp | cli =>
      obtain ⟨texts, htext, htexts⟩ := header_csharp hkind h
      exact ⟨texts, htext, List.forall₂_map_left_iff.mpr htexts⟩
  | typescript =>
      obtain ⟨texts, htext, htexts⟩ := header_typescript hkind h
      exact ⟨texts, htext, List.forall₂_map_left_iff.mpr htexts⟩
  | go =>
      obtain ⟨header, hheader, h⟩ := returns_bind.mp h
      obtain ⟨texts, htext, htexts⟩ := header_go hkind hheader
      rw [returns_pure.mp h]
      exact ⟨_, htext, .cons rfl (List.forall₂_map_left_iff.mpr htexts)⟩

end Headers

section Calls

variable (s : Site) {call : GeneratorCall} (hlength : call.arguments.length = call.generator.signature.length)
include hlength

/-- Arguments that are left out at the end are not bound, and all others are. -/
theorem renderArguments_kept (render : Parameter → String) (missing : String) :
    renderArguments call.generator.signature call.arguments render missing true =
      ((call.generator.signature.zip call.arguments).take
        (keptArguments call.arguments call.generator.signature)).map fun b => (b.2.map render).getD missing := by
  unfold renderArguments
  generalize keptArguments call.arguments call.generator.signature = kept
  have htake : call.arguments.take kept = ((call.generator.signature.zip call.arguments).take kept).map Prod.snd := by
    rw [List.map_take, List.map_snd_zip hlength.le]
  simp only [if_true, htake, List.map_map]
  rfl

/-- In C#, arguments are written for the parameters that they are bound to. -/
theorem arguments_csharp :
    renderArguments call.generator.signature call.arguments (CSharp.parameter s) "default" true =
      (bindings .csharp call).map (argumentText .csharp s) := by
  rw [renderArguments_kept hlength, bindings, List.map_map]
  refine List.map_congr_left fun b _ => ?_
  obtain ⟨p, a | a⟩ := b <;> rfl

/-- In TypeScript, too. -/
theorem arguments_typescript :
    renderArguments call.generator.signature call.arguments (TypeScript.parameter s) "undefined" true =
      (bindings .typescript call).map (argumentText .typescript s) := by
  rw [renderArguments_kept hlength, bindings, List.map_map]
  refine List.map_congr_left fun b _ => ?_
  obtain ⟨p, a | a⟩ := b <;> rfl

theorem arguments_go (giveUp : String) :
    Go.generatorArguments ⟨s, giveUp⟩ call = (bindings .go call).map (argumentText .go s) := by
  simp only [Go.generatorArguments, renderArguments, bindings, List.map_cons, List.map_map, Bool.false_eq_true,
    if_false, List.take_length]
  refine congrArg₂ List.cons rfl (List.ext_getElem? fun i => ?_)
  by_cases hi : i < call.arguments.length
  · have hsignature : i < call.generator.signature.length := hlength ▸ hi
    have hpair : (call.generator.signature.zip call.arguments)[i]? =
        some (call.generator.signature[i], call.arguments[i]) :=
      List.getElem?_zip_eq_some.mpr ⟨List.getElem?_eq_getElem hsignature, List.getElem?_eq_getElem hi⟩
    rw [List.getElem?_map, List.getElem?_zipIdx, List.getElem?_map, List.getElem?_map, hpair]
    cases harg : call.arguments[i] with
    | none => simp [hi, hsignature, harg, argumentText, placeholder]
    | some a => simp [hi, harg, argumentText]
  · have hsignature : ¬i < call.generator.signature.length := hlength ▸ hi
    rw [List.getElem?_eq_none (by simpa using hi), List.getElem?_eq_none (by simp; omega)]

/-- The first line of a call has its arguments in brackets. -/
theorem call_passes (l : Language) (giveUp : String) :
    ∃ text rest, callScript l s giveUp call = .write (.line text) rest ∧
      Bracketed ((bindings l call).map (argumentText l s)) text := by
  cases l with
  | csharp | cli =>
      have hclose : ");" = ")" ++ ";" := by decide
      refine ⟨_, _, rfl, ?_⟩
      rw [arguments_csharp s hlength]
      exact bracketed_of_close _ _ hclose
  | typescript =>
      have hclose : ");" = ")" ++ ";" := by decide
      refine ⟨_, _, rfl, ?_⟩
      rw [arguments_typescript s hlength]
      exact bracketed_of_close _ _ hclose
  | go =>
      have hclose : ")" = ")" ++ "" := by decide
      refine ⟨_, _, rfl, ?_⟩
      rw [arguments_go s hlength]
      exact bracketed_of_close _ _ hclose

end Calls

/-- What an executor calls is a generator. -/
theorem kind_of_generatorOf {g : Graph} {m generator : Method} (h : g.generatorOf m = .ok generator) :
    generator.kind = .requestGenerator := by
  obtain ⟨cls, http, _, _, hone⟩ := found_of_generatorOf h
  have hmem : generator ∈ generatorsFor cls http := hone ▸ List.mem_singleton_self generator
  simpa using (Bool.and_eq_true_iff.mp (List.mem_filter.mp hmem).2).1

/-- The body of an executor starts with the call of its generator. What the call passes and what the generator
declares stand in brackets behind their names. The call fits in C#, and in TypeScript and Go exactly if it passes
nothing for a parameter that would cancel the request: these are not declared. -/
theorem generator_call_fits_iff (l : Language) (c : Context) (cls : ClassDef) (executor : Method) (body : Body)
    (h : requestExecutor c cls executor = .ok body) :
    ∃ generator, c.graph.generatorOf executor = .ok generator ∧
      body.operations.head? = some (.callGenerator (generatorCall generator executor)) ∧
      (∀ s giveUp, ∃ text rest,
        callScript l s giveUp (generatorCall generator executor) = .write (.line text) rest ∧
        Bracketed ((bindings l (generatorCall generator executor)).map (argumentText l s)) text) ∧
      (∀ e s text, s.method = generator → (headerScript l s).Returns e text →
        ∃ texts, Bracketed texts text ∧ List.Forall₂ (Declares l e s) (declaredIn l generator) texts) ∧
      (CallFits l (generatorCall generator executor) ↔
        l = .csharp ∨ l = .cli ∨
          ∀ p, some p ∈ passed l (generatorCall generator executor) → p.kind ≠ .cancellation) := by
  obtain ⟨generator, hgenerator, h⟩ := bind_eq_ok.mp h
  obtain ⟨send, _, h⟩ := bind_eq_ok.mp h
  have hgenerator := mapError_eq_ok.mp hgenerator
  cases h
  refine ⟨generator, hgenerator, rfl, fun s giveUp => call_passes s (length_bindArguments _ _) l giveUp, ?_,
    callFits_generatorCall_iff generator executor l⟩
  rintro e s text rfl htext
  exact header_declares l (kind_of_generatorOf hgenerator) htext

namespace CallSample

/-- What a request is cancelled by. -/
def token (index : Nat) : Parameter :=
  { id := ⟨⟨⟨0⟩, index⟩, 0⟩, name := "token", kind := .cancellation, type := .scalar { name := "CancellationToken" } }

/-- A method for a request that brings nothing back, and that can be cancelled or not. -/
def method (index : Nat) (name : String) (kind : MethodKind) (cancels : Bool) : Method :=
  { id := ⟨⟨0⟩, index⟩, name, kind, http := some "GET", returnType := some (.scalar { name := "void" }),
    parameters := if cancels then [token index] else [], parent := some ⟨0⟩ }

def executor (cancels : Bool) : Method := method 0 "Get" .requestExecutor cancels

def generator (cancels : Bool) : Method := method 1 "ToGet" .requestGenerator cancels

def users (cancels : Bool) : ClassDef :=
  { id := ⟨0⟩, name := "Users", kind := .requestBuilder, home := some ⟨⟨0⟩, "Sdk"⟩
    methods := [executor cancels, generator cancels] }

def context (cancels : Bool) : Context :=
  ⟨{ root := { id := ⟨0⟩, name := "Sdk", classes := [⟨0⟩] }, classes := #[users cancels], enums := #[] },
    Language.csharp.policy, {}⟩

def Fits (l : Language) (cancels : Bool) : Prop :=
  CallFits l (generatorCall (generator cancels) (executor cancels))

end CallSample

open CallSample in
/-- A call that passes nothing fits in every language. A call that passes what the request is cancelled by fits in
C# only. -/
theorem plain_call_fits_and_cancellable_call_does_not :
    (∃ body, requestExecutor (context false) (users false) (executor false) = .ok body) ∧
    Fits .csharp false ∧ Fits .typescript false ∧ Fits .go false ∧
    (∃ body, requestExecutor (context true) (users true) (executor true) = .ok body) ∧
    Fits .csharp true ∧ ¬Fits .typescript true ∧ ¬Fits .go true := by
  have hiff (l : Language) (cancels : Bool) (body : Body)
      (h : requestExecutor (context cancels) (users cancels) (executor cancels) = .ok body)
      (hgenerator : (context cancels).graph.generatorOf (executor cancels) = .ok (generator cancels)) :
      Fits l cancels ↔ l = .csharp ∨ l = .cli ∨
        ∀ p, some p ∈ passed l (generatorCall (generator cancels) (executor cancels)) → p.kind ≠ .cancellation := by
    obtain ⟨other, hother, _, _, _, hfits⟩ := generator_call_fits_iff l _ _ _ _ h
    cases hgenerator.symm.trans hother
    exact hfits
  have htypescript : some (token 1) ∈ passed .typescript (generatorCall (generator true) (executor true)) :=
    List.mem_cons_self
  have hgo : some (token 1) ∈ passed .go (generatorCall (generator true) (executor true)) :=
    List.mem_cons_of_mem _ List.mem_cons_self
  refine ⟨⟨_, rfl⟩, (hiff _ _ _ rfl rfl).mpr (.inl rfl), (hiff _ _ _ rfl rfl).mpr (.inr (.inr ?_)),
    (hiff _ _ _ rfl rfl).mpr (.inr (.inr ?_)), ⟨_, rfl⟩, (hiff _ _ _ rfl rfl).mpr (.inl rfl), ?_, ?_⟩
  · intro p hp
    cases hp
  · intro p hp
    cases hp with
    | tail _ hp => cases hp
  · intro hfits
    rcases (hiff _ _ _ rfl rfl).mp hfits with h | h | h
    · cases h
    · cases h
    · exact h _ htypescript rfl
  · intro hfits
    rcases (hiff _ _ _ rfl rfl).mp hfits with h | h | h
    · cases h
    · cases h
    · exact h _ hgo rfl

end ClientForge.Render
