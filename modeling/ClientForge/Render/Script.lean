import ClientForge.Plan.Engine

/-!
# Scripts

A script says how the text of a file comes about, without saying where it goes. Its steps write lines, ask
for the name of a declared element or for the body of a method, and tell what the file has to import. What a
name looks like and how imports are written is left to those who follow the script, so whatever holds of
every step holds of every file; see `ClientForge.Render.Page`.
-/

namespace ClientForge.Render

open ClientForge.Graph ClientForge.Plan

/-- One step of a writer. -/
inductive Stroke where
  | line (text : String)
  /-- An empty line without indentation. -/
  | blank
  | indent
  | dedent
deriving DecidableEq, Repr

inductive Script (α : Type) where
  | done (value : α)
  | fail (failure : Failure)
  | write (stroke : Stroke) (next : Script α)
  /-- Makes sure that the file imports something of the runtime. -/
  | need (item : String) (next : Script α)
  /-- Asks for the name by which the file refers to an element. -/
  | name (d : Definition) (next : String → Script α)
  /-- Asks for the body of a method. What follows belongs to that method. -/
  | plan (m : Method) (next : Body → Script α)

namespace Script

variable {α β : Type}

def bind : Script α → (α → Script β) → Script β
  | done value, f => f value
  | fail failure, _ => fail failure
  | write stroke next, f => write stroke (next.bind f)
  | need item next, f => need item (next.bind f)
  | name d next, f => name d fun s => (next s).bind f
  | plan m next, f => plan m fun b => (next b).bind f

/-- Goes on otherwise where a script fails. -/
def orElse : Script α → (Failure → Script α) → Script α
  | done value, _ => done value
  | fail failure, h => h failure
  | write stroke next, h => write stroke (next.orElse h)
  | need item next, h => need item (next.orElse h)
  | name d next, h => name d fun s => (next s).orElse h
  | plan m next, h => plan m fun b => (next b).orElse h

instance : Monad Script where
  pure := done
  bind := bind

instance : MonadExceptOf Failure Script where
  throw := fail
  tryCatch := orElse

/-- Adds a context to the failure of a script. -/
def within (context : String) (s : Script α) : Script α := s.orElse fun f => fail (.within context f)

end Script

/-! ### Steps -/

def line (text : String) : Script Unit := .write (.line text) (.done ())

def blank : Script Unit := .write .blank (.done ())

def indented (body : Script Unit) : Script Unit := do
  Script.write .indent (.done ())
  body
  Script.write .dedent (.done ())

def lines : List String → Script Unit
  | [] => .done ()
  | text :: texts => .write (.line text) (lines texts)

/-- Lines between an opening and a closing one, a level deeper. -/
def block (opening closing : String) (body : Script Unit) : Script Unit := do
  line opening
  indented body
  line closing

def need (item : String) : Script Unit := .need item (.done ())

def needAll : List String → Script Unit
  | [] => .done ()
  | item :: items => .need item (needAll items)

def nameOf (d : Definition) : Script String := .name d .done

def planOf (m : Method) : Script Body := .plan m .done

/-- Runs through a list in order. -/
def each {α : Type} (xs : List α) (f : α → Script Unit) : Script Unit :=
  match xs with
  | [] => .done ()
  | x :: rest => (f x).bind fun _ => each rest f

/-- A script for a condition, and none without it. -/
def only (condition : Bool) (s : Script Unit) : Script Unit := if condition then s else .done ()

/-- The texts for the members of a list, in order. -/
def collect {α : Type} (xs : List α) (f : α → Script String) : Script (List String) :=
  match xs with
  | [] => .done []
  | x :: rest => (f x).bind fun text => (collect rest f).bind fun texts => .done (text :: texts)

end ClientForge.Render
