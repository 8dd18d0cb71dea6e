import ClientForge.Convention.Language
import Mathlib.Data.Set.Basic

/-!
# How types are read

The grammar that TypeScript reads composed types with: names, brackets behind what an array consists of, `&` for
intersections, which binds tighter than the `|` of unions, and parentheses. Both signs are left associative.

* **`read_text`.** What the text of a chain, which has no parentheses, is read as.
* **`values_tree`.** What that means: one of the runs between the `|` applies.
-/

namespace ClientForge.Convention.Grammar

open ClientForge.Graph

/-! ### Tokens -/

inductive Token where
  | word (name : String)
  | sign (form : Composition)
  | brackets
  | opening
  | closing
deriving DecidableEq, Repr

/-- Whether a character can be part of a name. -/
def isLetter (c : Char) : Bool := !" |&()[]".toList.contains c

/-- Whether a text is read as one name. -/
def IsWord (name : String) : Prop := name ≠ "" ∧ ∀ c ∈ name.toList, isLetter c = true

instance (name : String) : Decidable (IsWord name) :=
  decidable_of_iff ((!name.isEmpty && name.toList.all isLetter) = true) (by simp [IsWord])

/-- The token of a single character. -/
def punctuation? : Char → Option Token
  | '|' => some (.sign .union)
  | '&' => some (.sign .intersection)
  | '(' => some .opening
  | ')' => some .closing
  | _ => none

/-- The letters before a token, as a name. -/
def word (letters : List Char) : List Token :=
  if letters.isEmpty then [] else [.word (String.ofList letters)]

/-- The tokens of a text behind letters of a name. -/
def tokens (letters : List Char) : List Char → Option (List Token)
  | [] => some (word letters)
  | '[' :: ']' :: rest => (tokens [] rest).map (word letters ++ .brackets :: ·)
  | c :: rest =>
    if isLetter c then tokens (letters ++ [c]) rest
    else if c = ' ' then (tokens [] rest).map (word letters ++ ·)
    else (punctuation? c).bind fun t => (tokens [] rest).map (word letters ++ t :: ·)

/-! ### Trees -/

inductive Tree where
  | word (name : String)
  | array (element : Tree)
  | both (form : Composition) (left right : Tree)
deriving DecidableEq, Repr

/-- What has been read of a type between parentheses, besides the last operand. -/
structure Frame where
  /-- What stands before the last `|`. -/
  alternatives : Option Tree := none
  /-- What stands between that and the last `&`. -/
  factors : Option Tree := none
deriving DecidableEq, Repr

/-- The operand behind a sign, with what stands before the sign. -/
def joined (form : Composition) (left : Option Tree) (right : Tree) : Tree :=
  match left with
  | none => right
  | some left => .both form left right

/-- The last run, with its last operand. -/
def Frame.run (f : Frame) (x : Tree) : Tree := joined .intersection f.factors x

/-- All that has been read, with the last operand. -/
def Frame.whole (f : Frame) (x : Tree) : Tree := joined .union f.alternatives (f.run x)

/-- What has been read when a sign follows the last operand. -/
def Frame.before (f : Frame) (x : Tree) : Composition → Frame
  | .union => { alternatives := some (f.whole x) }
  | .intersection => { f with factors := some (f.run x) }

structure Reader where
  /-- What stands before each parenthesis that is open. -/
  outer : List Frame := []
  frame : Frame := {}
  operand : Option Tree := none
deriving DecidableEq, Repr

def Reader.step (s : Reader) (t : Token) : Option Reader :=
  match t, s.operand, s.outer with
  | .word name, none, _ => some { s with operand := some (.word name) }
  | .brackets, some x, _ => some { s with operand := some (.array x) }
  | .sign form, some x, _ => some { s with frame := s.frame.before x form, operand := none }
  | .opening, none, _ => some { outer := s.frame :: s.outer }
  | .closing, some x, frame :: outer => some ⟨outer, frame, some (s.frame.whole x)⟩
  | _, _, _ => none

def Reader.tree? (s : Reader) : Option Tree :=
  if s.outer.isEmpty then s.operand.map s.frame.whole else none

def parse (ts : List Token) : Option Tree := (ts.foldlM Reader.step {}).bind Reader.tree?

/-- The type that a text stands for. -/
def read (text : String) : Option Tree := (tokens [] text.toList).bind parse

example : read "a & b | c[]" =
    some (.both .union (.both .intersection (.word "a") (.word "b")) (.array (.word "c"))) := by
  decide +kernel

example : read "a & (b | c)[]" =
    some (.both .intersection (.word "a") (.array (.both .union (.word "b") (.word "c")))) := by
  decide +kernel

/-! ### Chains -/

/-- A name, or an array of what has the name. -/
structure Atom where
  name : String
  isArray : Bool := false
deriving DecidableEq, Repr

namespace Atom

def text (a : Atom) : String := if a.isArray then a.name ++ "[]" else a.name

def tokens (a : Atom) : List Token := .word a.name :: if a.isArray then [.brackets] else []

def tree (a : Atom) : Tree := if a.isArray then .array (.word a.name) else .word a.name

end Atom

/-- Atoms with signs between them. -/
structure Chain where
  first : Atom
  rest : List (Composition × Atom) := []
deriving DecidableEq, Repr

/-- A sign as it stands between two operands. -/
def signText : Composition → String
  | .union => " | "
  | .intersection => " & "

namespace Chain

/-- The atoms of a chain. -/
def atoms (c : Chain) : List Atom := c.first :: c.rest.map (·.2)

def append (form : Composition) (c d : Chain) : Chain := ⟨c.first, c.rest ++ (form, d.first) :: d.rest⟩

def tailText : List (Composition × Atom) → String
  | [] => ""
  | (form, a) :: rest => signText form ++ a.text ++ tailText rest

def text (c : Chain) : String := c.first.text ++ tailText c.rest

def tailTokens : List (Composition × Atom) → List Token
  | [] => []
  | (form, a) :: rest => .sign form :: a.tokens ++ tailTokens rest

/-- The tree of a chain behind what has been read before. -/
def treeBehind (f : Frame) (a : Atom) : List (Composition × Atom) → Tree
  | [] => f.whole a.tree
  | (form, b) :: rest => treeBehind (f.before a.tree form) b rest

def tree (c : Chain) : Tree := treeBehind {} c.first c.rest

theorem tailText_append (xs ys : List (Composition × Atom)) : tailText (xs ++ ys) = tailText xs ++ tailText ys := by
  induction xs with
  | nil => simp [tailText]
  | cons x xs ih =>
      obtain ⟨form, a⟩ := x
      simp only [List.cons_append, tailText, ih, String.append_assoc]

theorem text_append (form : Composition) (c d : Chain) :
    (c.append form d).text = c.text ++ signText form ++ d.text := by
  simp only [text, append, tailText_append, tailText, String.append_assoc]

theorem atoms_append (form : Composition) (c d : Chain) : (c.append form d).atoms = c.atoms ++ d.atoms := by
  simp [atoms, append]

end Chain

/-! ### Reading chains -/

/-- Letters in front belong to the name that was begun. -/
theorem tokens_letters {name : List Char} (h : ∀ c ∈ name, isLetter c = true) (letters rest : List Char) :
    tokens letters (name ++ rest) = tokens (letters ++ name) rest := by
  induction name generalizing letters with
  | nil => simp
  | cons c cs ih =>
      have hc : isLetter c = true := h c List.mem_cons_self
      have hne : c ≠ '[' := by
        rintro rfl
        exact absurd hc (by decide)
      rw [List.cons_append, tokens.eq_3 _ _ _ (fun _ hbracket => absurd hbracket hne), if_pos hc,
        ih (fun d hd => h d (List.mem_cons_of_mem c hd)), List.append_assoc, List.singleton_append]

theorem word_toList {name : String} (h : IsWord name) : word name.toList = [.word name] := by
  have hne : name.toList ≠ [] := fun hnil => h.1 (String.toList_eq_nil_iff.mp hnil)
  simp [word, hne]

theorem tokens_blank (letters rest : List Char) :
    tokens letters (' ' :: rest) = (tokens [] rest).map (word letters ++ ·) := by
  rw [tokens.eq_3 _ _ _ (by simp)]
  rfl

/-- A sign of one character ends a name and is a token. -/
theorem tokens_punctuation {c : Char} {t : Token} (h : punctuation? c = some t) (letters rest : List Char) :
    tokens letters (c :: rest) = (tokens [] rest).map (word letters ++ t :: ·) := by
  unfold punctuation? at h
  split at h <;> cases h <;>
    · rw [tokens.eq_3 _ _ _ (by simp)]
      rfl

/-- So is a sign between blanks. -/
theorem tokens_sign (letters rest : List Char) (form : Composition) :
    tokens letters ((signText form).toList ++ rest) =
      (tokens [] rest).map (word letters ++ .sign form :: ·) := by
  obtain ⟨c, htext, hc⟩ : ∃ c, (signText form).toList = [' ', c, ' '] ∧ punctuation? c = some (.sign form) := by
    cases form
    · exact ⟨'|', rfl, rfl⟩
    · exact ⟨'&', rfl, rfl⟩
  rw [htext]
  change tokens letters (' ' :: c :: ' ' :: rest) = _
  rw [tokens_blank, tokens_punctuation hc, tokens_blank]
  cases tokens [] rest <;> simp [word]

/-- So are brackets. -/
theorem tokens_brackets (letters rest : List Char) :
    tokens letters ("[]".toList ++ rest) = (tokens [] rest).map (word letters ++ .brackets :: ·) := by
  exact tokens.eq_2 letters rest

section Atoms

variable {a : Atom} (h : IsWord a.name)
include h

theorem tokens_atom : tokens [] a.text.toList = some a.tokens := by
  unfold Atom.text Atom.tokens
  split
  · rw [String.toList_append, tokens_letters h.2, ← List.append_nil "[]".toList, tokens_brackets, List.nil_append,
      word_toList h]
    rfl
  · rw [← List.append_nil a.name.toList, tokens_letters h.2, List.nil_append, tokens, word_toList h]

/-- An atom in front of a sign is read on its own. -/
theorem tokens_atom_sign (form : Composition) (rest : List Char) :
    tokens [] (a.text.toList ++ ((signText form).toList ++ rest)) =
      (tokens [] rest).map (a.tokens ++ .sign form :: ·) := by
  unfold Atom.text Atom.tokens
  split
  · rw [String.toList_append, List.append_assoc, tokens_letters h.2, tokens_brackets, tokens_sign, List.nil_append,
      word_toList h]
    cases tokens [] rest <;> rfl
  · rw [tokens_letters h.2, tokens_sign, List.nil_append, word_toList h]

end Atoms

/-- The text of a chain is read as its tokens. -/
theorem tokens_chain {a : Atom} (ha : IsWord a.name) {rest : List (Composition × Atom)}
    (hrest : ∀ b ∈ rest, IsWord b.2.name) :
    tokens [] (a.text ++ Chain.tailText rest).toList = some (a.tokens ++ Chain.tailTokens rest) := by
  induction rest generalizing a with
  | nil => simpa [Chain.tailText, Chain.tailTokens] using tokens_atom ha
  | cons b rest ih =>
      obtain ⟨form, b⟩ := b
      have hb : IsWord b.name := hrest (form, b) List.mem_cons_self
      have hrest' : ∀ c ∈ rest, IsWord c.2.name := fun c hc => hrest c (List.mem_cons_of_mem _ hc)
      rw [Chain.tailText, String.append_assoc, String.toList_append, String.toList_append, tokens_atom_sign ha,
        ih hb hrest']
      simp [Chain.tailTokens]

/-- An atom is an operand. -/
theorem step_atom (a : Atom) (f : Frame) (ts : List Token) :
    (a.tokens ++ ts).foldlM Reader.step ⟨[], f, none⟩ = ts.foldlM Reader.step ⟨[], f, some a.tree⟩ := by
  obtain ⟨name, isArray⟩ := a
  cases isArray <;> rfl

/-- The tokens of a chain are read as the tree of the chain. -/
theorem foldlM_chain (f : Frame) (a : Atom) (rest : List (Composition × Atom)) :
    ((a.tokens ++ Chain.tailTokens rest).foldlM Reader.step ⟨[], f, none⟩).bind Reader.tree? =
      some (Chain.treeBehind f a rest) := by
  induction rest generalizing f a with
  | nil =>
      rw [step_atom]
      rfl
  | cons b rest ih =>
      obtain ⟨form, b⟩ := b
      rw [step_atom]
      exact ih (f.before a.tree form) b

theorem read_text {c : Chain} (h : ∀ a ∈ c.atoms, IsWord a.name) : read c.text = some c.tree := by
  have hfirst : IsWord c.first.name := h c.first List.mem_cons_self
  have hrest : ∀ b ∈ c.rest, IsWord b.2.name := fun b hb =>
    h b.2 (List.mem_cons_of_mem _ (List.mem_map_of_mem hb))
  unfold read
  rw [Chain.text, tokens_chain hfirst hrest]
  exact foldlM_chain {} c.first c.rest

/-! ### Meanings -/

/-- The values of named types and of arrays. -/
structure Interpretation (V : Type) where
  word : String → Set V
  array : Set V → Set V

namespace Interpretation

variable {V : Type} (I : Interpretation V)

def values : Tree → Set V
  | .word name => I.word name
  | .array x => I.array (values x)
  | .both .union x y => values x ∪ values y
  | .both .intersection x y => values x ∩ values y

def atom (a : Atom) : Set V := I.values a.tree

/-- The values that every atom has. -/
def run (r : List Atom) : Set V := {v | ∀ a ∈ r, v ∈ I.atom a}

/-- The values of all alternatives. -/
def runs (rs : List (List Atom)) : Set V := {v | ∃ r ∈ rs, v ∈ I.run r}

@[simp]
theorem run_append (r s : List Atom) : I.run (r ++ s) = I.run r ∩ I.run s := by
  ext v
  simp [run, or_imp, forall_and]

@[simp]
theorem run_singleton (a : Atom) : I.run [a] = I.atom a := by
  ext v
  simp [run]

@[simp]
theorem runs_append (rs ss : List (List Atom)) : I.runs (rs ++ ss) = I.runs rs ∪ I.runs ss := by
  ext v
  simp [runs, or_and_right, exists_or]

@[simp]
theorem runs_cons (r : List Atom) (rs : List (List Atom)) : I.runs (r :: rs) = I.run r ∪ I.runs rs := by
  ext v
  simp [runs]

@[simp]
theorem runs_nil : I.runs [] = ∅ := by
  ext v
  simp [runs]

end Interpretation

namespace Chain

/-- The runs between the signs of unions, where the first of them has started already. -/
def runsBehind (r : List Atom) : List (Composition × Atom) → List (List Atom)
  | [] => [r]
  | (.union, a) :: rest => r :: runsBehind [a] rest
  | (.intersection, a) :: rest => runsBehind (r ++ [a]) rest

def runs (c : Chain) : List (List Atom) := runsBehind [c.first] c.rest

/-- The values of what stands before the last sign of a union. -/
def valuesBefore {V : Type} (I : Interpretation V) (f : Frame) : Set V := (f.alternatives.map I.values).getD ∅

/-- A frame holds the alternatives before it, or the run that it is at. -/
theorem values_whole {V : Type} (I : Interpretation V) (f : Frame) (x : Tree) :
    I.values (f.whole x) = valuesBefore I f ∪ I.values (f.run x) := by
  obtain ⟨alternatives, factors⟩ := f
  cases alternatives with
  | none => simp [Frame.whole, joined, valuesBefore, Frame.run]
  | some y => rfl

/-- Behind the sign of an intersection, a run is narrowed down. -/
theorem values_run_before {V : Type} (I : Interpretation V) (f : Frame) (x y : Tree) :
    I.values ((f.before x .intersection).run y) = I.values (f.run x) ∩ I.values y := by
  rfl

/-- The tree of a chain means the alternatives before it or one of its runs. -/
theorem values_treeBehind {V : Type} (I : Interpretation V) {f : Frame} {a : Atom} {r : List Atom}
    (h : I.values (f.run a.tree) = I.run r) (rest : List (Composition × Atom)) :
    I.values (treeBehind f a rest) = valuesBefore I f ∪ I.runs (runsBehind r rest) := by
  induction rest generalizing f a r with
  | nil => simp [treeBehind, values_whole, h, runsBehind]
  | cons b rest ih =>
      obtain ⟨form, b⟩ := b
      cases form with
      | union =>
          have hb : I.values ((f.before a.tree .union).run b.tree) = I.run [b] := by
            simp [Frame.before, Frame.run, joined, Interpretation.atom]
          have hbefore : valuesBefore I (f.before a.tree .union) = valuesBefore I f ∪ I.run r := by
            rw [← h, ← values_whole]
            rfl
          rw [treeBehind, ih hb, hbefore, runsBehind, Interpretation.runs_cons, Set.union_assoc]
      | intersection =>
          have hb : I.values ((f.before a.tree .intersection).run b.tree) = I.run (r ++ [b]) := by
            rw [values_run_before, h, Interpretation.run_append, Interpretation.run_singleton]
            rfl
          rw [treeBehind, ih hb, runsBehind]
          rfl

/-- A chain means that one of its runs applies. -/
theorem values_tree {V : Type} (I : Interpretation V) (c : Chain) : I.values c.tree = I.runs c.runs := by
  have hfirst : I.values (Frame.run {} c.first.tree) = I.run [c.first] := by
    rw [Interpretation.run_singleton]
    rfl
  rw [tree, values_treeBehind I hfirst, runs]
  exact Set.empty_union _

end Chain

end ClientForge.Convention.Grammar
