import ClientForge.Proofs.Render.Comments
import ClientForge.Proofs.Render.Following

/-!
# Enums with a bit for each option

In C# the members of an enum whose values combine are given numbers: each the next power of two, as a signed number of
64 bits. There are not enough of those for an enum of any size.

* `Script.Adds`: the text that a script adds to a page, put together from the texts of its parts by one rule for each
  step;
* `flagValue_cases`: the last bit is the sign, and behind it there is none;
* **`flag_members_single_bits_iff`.** The text of such an enum, with the numbers that its members have, and up to how
  many options they are powers of two, positive and distinct.
-/

namespace ClientForge.Render

open ClientForge.Graph ClientForge.Plan ClientForge.Convention ClientForge.Text

/-! ### What a script adds to a page -/

/-- What has been written, and where the next line stands. -/
structure Writer.Stands (w : Writer) (unit : String) (depth : Nat) (text : String) : Prop where
  indentUnit_eq : w.indentUnit = unit
  depth_eq : w.depth = depth
  text_eq : w.text = text

/-- At some depth a script comes to its end on every page, adds a text and returns to that depth. -/
def Script.Adds (unit : String) (depth : Nat) (s : Script Unit) (text : String) : Prop :=
  ∀ (e : Engine) (place : Option NamespaceId) (page : Page) (before : String), page.writer.Stands unit depth before →
    ∃ page', s.follow e place page = (.ok (), page') ∧ page'.writer.Stands unit depth (before ++ text)

/-- The indentation at a depth. -/
def indentOf (unit : String) (depth : Nat) : String := String.join (List.replicate depth unit)

section Rules

variable {α : Type} {unit : String} {depth : Nat} {s t : Script Unit} {a b : String}

theorem Script.Adds.done : (Script.done ()).Adds unit depth "" := by
  intro e place page before h
  exact ⟨page, rfl, by simpa using h⟩

theorem Script.Adds.bind (hs : s.Adds unit depth a) (ht : t.Adds unit depth b) :
    (s >>= fun _ => t).Adds unit depth (a ++ b) := by
  intro e place page before h
  obtain ⟨middle, hfirst, hmiddle⟩ := hs e place page before h
  obtain ⟨after, hsecond, hafter⟩ := ht e place middle (before ++ a) hmiddle
  exact ⟨after, (follow_bind hfirst).trans hsecond, String.append_assoc ▸ hafter⟩

theorem adds_need (item : String) : (need item).Adds unit depth "" := by
  intro e place page before h
  exact ⟨page.need item, rfl, by simpa using h⟩

/-- Lines leave the depth as it is. -/
theorem depth_lines (w : Writer) (texts : List String) :
    (w.lines texts).indentUnit = w.indentUnit ∧ (w.lines texts).depth = w.depth := by
  induction texts generalizing w with
  | nil => exact ⟨rfl, rfl⟩
  | cons text texts ih => exact ih (w.line text)

theorem adds_lines (texts : List String) : (lines texts).Adds unit depth (stacked (indentOf unit depth) texts) := by
  rintro e place page before ⟨rfl, rfl, rfl⟩
  obtain ⟨hunit, hdepth⟩ := depth_lines page.writer texts
  exact ⟨_, follow_lines e place texts page, hunit, hdepth, text_lines page.writer texts⟩

theorem adds_line (text : String) : (line text).Adds unit depth (stacked (indentOf unit depth) [text]) :=
  adds_lines [text]

theorem adds_indented (h : s.Adds unit (depth + 1) a) : (indented s).Adds unit depth a := by
  rintro e place page before ⟨hunit, hdepth, htext⟩
  obtain ⟨page', hfollow, hunit', hdepth', htext'⟩ :=
    h e place (page.write .indent) before ⟨hunit, congrArg (· + 1) hdepth, htext⟩
  refine ⟨page'.write .dedent, ?_, hunit', (congrArg (· - 1) hdepth').trans (Nat.add_sub_cancel depth 1), htext'⟩
  calc (indented s).follow e place page
      = (s >>= fun _ => Script.write .dedent (.done ())).follow e place (page.write .indent) := follow_bind rfl
    _ = (Script.write .dedent (.done ())).follow e place page' := follow_bind hfollow
    _ = (.ok (), page'.write .dedent) := rfl

/-- A block adds its opening, what is in it one step further in, and its closing. -/
theorem adds_block {opening closing : String} (h : s.Adds unit (depth + 1) a) :
    (block opening closing s).Adds unit depth
      (stacked (indentOf unit depth) [opening] ++ (a ++ stacked (indentOf unit depth) [closing])) :=
  (adds_line opening).bind ((adds_indented h).bind (adds_line closing))

/-- A loop adds the texts of its rounds. -/
theorem adds_each {xs : List α} {f : α → Script Unit} {text : α → String}
    (h : ∀ x ∈ xs, (f x).Adds unit depth (text x)) : (each xs f).Adds unit depth (String.join (xs.map text)) := by
  induction xs with
  | nil => exact .done
  | cons x xs ih =>
      obtain ⟨hx, hxs⟩ := List.forall_mem_cons.mp h
      rw [List.map_cons, String.join_cons]
      exact hx.bind (ih hxs)

end Rules

/-! ### The text of an enum -/

namespace CSharp

/-- The lines for a member with a number. -/
def flagText (p : Policy) (o : EnumOption) (value : Int) : String :=
  stacked "        " (comment p o.documentation) ++
    (stacked "        " [s!"[EnumMember(Value = {quoted o.wireName})]"] ++
      stacked "        " [s!"{p.identifier .pascal o.name} = {value},"])

/-- The text of an enum whose members have numbers. -/
def flagsText (p : Policy) (x : Enum) (values : List Int) : String :=
  stacked "    " (comment p x.documentation) ++ (stacked "    " ["[Flags]"] ++
    (stacked "    " [s!"public enum {p.typeName x.name} \x7b"] ++
      (String.join ((x.options.zip values).map fun member => flagText p member.1 member.2) ++ stacked "    " ["\x7d"])))

/-- The numbers of the members of an enum. -/
def flagValues (x : Enum) : List Int := (List.range x.options.length).map flagValue

section Text

variable (p : Policy) {x : Enum}

/-- An option of a flags enum adds its text and value. -/
theorem adds_enumOption (o : EnumOption) (place : Nat) :
    (enumOption p true (o, place)).Adds "    " 2 (flagText p o (flagValue place)) :=
  (adds_lines _).bind ((adds_line _).bind (adds_line _))

theorem adds_enumScript (c : Context) (h : x.flags = true) :
    (enumScript c x).Adds "    " 1 (flagsText c.policy x (flagValues x)) := by
  have hpairs : x.options.zip (flagValues x) = x.options.zipIdx.map (Prod.map id flagValue) := by
    rw [flagValues, List.zip_map_right, List.zipIdx_eq_zip_range', List.range_eq_range']
  have hflags : (only x.flags (do need "System"; line "[Flags]")).Adds "    " 1 (stacked "    " ["[Flags]"]) := by
    rw [h, ← String.empty_append (s := stacked "    " ["[Flags]"])]
    exact (adds_need "System").bind (adds_line "[Flags]")
  have hmembers : (each x.options.zipIdx (enumOption c.policy x.flags)).Adds "    " 2
      (String.join ((x.options.zip (flagValues x)).map fun member => flagText c.policy member.1 member.2)) := by
    rw [h, hpairs, List.map_map]
    exact adds_each fun option _ => adds_enumOption c.policy option.1 option.2
  rw [← String.empty_append (s := flagsText c.policy x (flagValues x))]
  exact (adds_need _).bind ((adds_lines _).bind (hflags.bind (adds_block hmembers)))

end Text

/-! ### The numbers of its members -/

section Numbers

variable {i j : Nat}

theorem flagValue_eq (i : Nat) : flagValue i = if 64 ≤ i then 0 else if i + 1 = 64 then -↑(2 ^ i : Nat) else 2 ^ i := by
  rw [flagValue, ← BitVec.twoPow_eq, BitVec.toInt_twoPow]

theorem flagValue_of_lt (h : i < 63) : flagValue i = 2 ^ i := by
  rw [flagValue_eq, if_neg (by omega), if_neg (by omega)]

/-- The last bit is the sign, and there is none behind it. -/
theorem flagValue_cases (i : Nat) :
    i < 63 ∧ 0 < flagValue i ∨ i = 63 ∧ flagValue i < 0 ∨ 64 ≤ i ∧ flagValue i = 0 := by
  rcases Nat.lt_or_ge i 63 with hlt | hge
  · exact .inl ⟨hlt, by rw [flagValue_of_lt hlt]; positivity⟩
  · rcases hge.eq_or_lt with rfl | hlt
    · exact .inr (.inl ⟨rfl, by decide⟩)
    · exact .inr (.inr ⟨hlt, by rw [flagValue_eq, if_pos (Nat.succ_le_of_lt hlt)]⟩)

theorem flagValue_pos_iff : 0 < flagValue i ↔ i < 63 := by
  rcases flagValue_cases i with h | h | h <;> omega

theorem flagValue_eq_two_pow_iff : flagValue i = 2 ^ i ↔ i < 63 := by
  refine ⟨?_, flagValue_of_lt⟩
  intro h
  apply flagValue_pos_iff.mp
  rw [h]
  positivity

/-- Up to the first zero all numbers are distinct. -/
theorem flagValue_inj (hi : i ≤ 64) (hj : j ≤ 64) (h : flagValue i = flagValue j) : i = j := by
  by_cases hlt : i < 63
  · have hlt' : j < 63 := flagValue_pos_iff.mp (h ▸ flagValue_pos_iff.mpr hlt)
    rw [flagValue_of_lt hlt, flagValue_of_lt hlt'] at h
    exact Int.pow_right_injective (by decide) h
  · have hi' := flagValue_cases i
    have hj' := flagValue_cases j
    omega

end Numbers

/-! ### The file of an enum -/

/-- The lines of a page stand in front of the last line of its file. -/
theorem exists_fileText_eq (p : Policy) (place : Option NamespaceRef) (page : Page) :
    ∃ front, fileText p place page = front ++ page.writer.text ++ "\x7d\n" := by
  unfold fileText
  exact ⟨String.join (["// <auto-generated/>\n"] ++ (usings p place page).map (fun n => "using " ++ n ++ ";\n") ++
    ["namespace " ++ namespaceName p place ++ " \x7b\n"]), by simp [String.append_assoc]⟩

/-- The file of a flags enum has the options with their values at its end. -/
theorem emit_flags (commands : Bool) (e : Engine) {x : Enum} (h : x.flags = true) (before : List Method) :
    ∃ file front after, (emitElement (.csharp commands) e (.ofEnum x)).run.run before = (.ok file, after) ∧
      file.content = front ++ flagsText e.context.policy x (flagValues x) ++ "\x7d\n" := by
  obtain ⟨page, hfollow, -, -, htext⟩ := adds_enumScript e.context h e (x.home.map (·.id))
    (startPage (.csharp commands) (.ofEnum x)) "" ⟨rfl, rfl, rfl⟩
  have hpage : pageOf (.csharp commands) e (.ofEnum x) = (.ok (), page) := hfollow
  obtain ⟨front, hfile⟩ := exists_fileText_eq e.context.policy x.home page
  rw [htext, String.empty_append] at hfile
  exact ⟨_, front, _, run_emitElement_eq_ok_iff.mpr ⟨page, hpage, rfl, rfl⟩, hfile⟩

theorem nodup_flagValues_iff (x : Enum) : (flagValues x).Nodup ↔ x.options.length ≤ 65 := by
  rw [flagValues, List.nodup_map_iff_inj_on List.nodup_range]
  simp only [List.mem_range]
  constructor
  · intro hinj
    by_contra hmore
    -- the two options behind the sign have the same number
    exact absurd (hinj 64 (by omega) 65 (by omega) (by decide)) (by decide)
  · intro hle i hi j hj
    exact flagValue_inj (by omega) (by omega)

theorem flagValues_pos_iff (x : Enum) : (∀ v ∈ flagValues x, 0 < v) ↔ x.options.length ≤ 63 := by
  simp only [flagValues, List.forall_mem_map, List.mem_range, flagValue_pos_iff]
  constructor
  · intro hpos
    by_contra hmore
    exact absurd (hpos 63 (by omega)) (by decide)
  · intro hle i hi
    omega

/-- In C# an enum with a bit for each option can always be written, and its members have the numbers that shifting a bit
gives. Such a number is the power of two for its place exactly if that is below 63. So all of them are positive exactly
if there are 63 options at most, and distinct exactly if there are 65. -/
theorem flag_members_single_bits_iff (commands : Bool) (e : Engine) (x : Enum) (before : List Method)
    (h : x.flags = true) :
    (∃ file front after, (emitElement (.csharp commands) e (.ofEnum x)).run.run before = (.ok file, after) ∧
      file.content = front ++ flagsText e.context.policy x (flagValues x) ++ "\x7d\n") ∧
    (∀ i < x.options.length, (flagValues x)[i]? = some (2 ^ i) ↔ i < 63) ∧
    ((∀ v ∈ flagValues x, 0 < v) ↔ x.options.length ≤ 63) ∧
    ((flagValues x).Nodup ↔ x.options.length ≤ 65) := by
  refine ⟨emit_flags commands e h before, ?_, flagValues_pos_iff x, nodup_flagValues_iff x⟩
  intro i hi
  have hvalue : (flagValues x)[i]? = some (flagValue i) := by simp [flagValues, hi]
  rw [hvalue, Option.some_inj, flagValue_eq_two_pow_iff]

namespace FlagSample

/-- An enum with some number of bits. -/
def bits (n : Nat) : Enum :=
  { id := ⟨0⟩, name := "Bits", home := none, options := (List.range n).map fun i => { name := "B" ++ toString i }
    flags := true }

end FlagSample

open FlagSample in
/-- Two bits as they are written. With 64 of them one is negative, and with 66 two are zero. -/
theorem bits_run_out :
    (∃ file front after, (emitElement (.csharp false) (DocSample.engine .csharp) (.ofEnum (bits 2))).run.run [] =
        (.ok file, after) ∧
      file.content = front ++ ("    [Flags]\n    public enum Bits \x7b\n" ++
        "        [EnumMember(Value = \"B0\")]\n        B0 = 1,\n" ++
        "        [EnumMember(Value = \"B1\")]\n        B1 = 2,\n    \x7d\n") ++ "\x7d\n") ∧
    ((∀ v ∈ flagValues (bits 63), 0 < v) ∧ ¬∀ v ∈ flagValues (bits 64), 0 < v) ∧
    (flagValues (bits 65)).Nodup ∧ ¬(flagValues (bits 66)).Nodup := by
  have hbits (n : Nat) := flag_members_single_bits_iff false (DocSample.engine .csharp) (bits n) [] rfl
  have hlength (n : Nat) : (bits n).options.length = n := by simp [bits]
  have htext : flagsText (DocSample.engine .csharp).context.policy (bits 2) (flagValues (bits 2)) =
      "    [Flags]\n    public enum Bits \x7b\n" ++ "        [EnumMember(Value = \"B0\")]\n        B0 = 1,\n" ++
        "        [EnumMember(Value = \"B1\")]\n        B1 = 2,\n    \x7d\n" := by decide +kernel
  refine ⟨htext ▸ (hbits 2).1, ⟨(hbits 63).2.2.1.mpr (hlength 63).le, ?_⟩, (hbits 65).2.2.2.mpr (hlength 65).le, ?_⟩
  · intro hpos
    exact absurd ((hbits 64).2.2.1.mp hpos) (by rw [hlength]; decide)
  · intro hnodup
    exact absurd ((hbits 66).2.2.2.mp hnodup) (by rw [hlength]; decide)

end CSharp

end ClientForge.Render
