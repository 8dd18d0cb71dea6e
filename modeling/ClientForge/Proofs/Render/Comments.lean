import ClientForge.Proofs.Render.Following
import ClientForge.Proofs.Text.Lines
import ClientForge.Proofs.Text.Quoted

/-!
# Comments

The documentation of an element is written down as a comment, and its texts come from whoever wrote the
document. A description is taken apart into lines, each of which gets the mark of a comment. The words for a
link are not, in C# and Go, and nothing keeps a text from ending a comment in TypeScript. So what is written
is a comment and nothing else for some documentation only.

* **`comment_only_iff`.** Which documentation that is, for each language and wherever on a page it stands.
-/

namespace ClientForge.Render

open ClientForge.Graph ClientForge.Plan ClientForge.Convention ClientForge.Text

/-! ### What is written -/

/-- The comment of an element. Only in Go it names the element. -/
def commentOf (l : Language) (name : String) (d : Documentation) : List String :=
  match l with
  | .csharp | .cli => CSharp.comment l.policy d
  | .typescript => TypeScript.comment l.policy d
  | .go => Go.comment l.policy name d

/-- The lines of a text, each of which has its end. -/
def writtenLines (text : String) : List String := (split '\n' text).dropLast

/-- What ends a comment in TypeScript. -/
def commentEnd : String := "*/"

/-- How often a text would end a comment. -/
def endings (text : String) : Nat := occurrences commentEnd.toList text.toList

/-- A text is a comment and nothing else: each line has its mark behind the indentation, or what ends the
comment stands at the end and nowhere else. -/
def CommentOnly (l : Language) (text : String) : Prop :=
  match l with
  | .csharp | .cli => ∀ line ∈ writtenLines text, Opens "///".toList line.toList
  | .go => ∀ line ∈ writtenLines text, Opens "//".toList line.toList
  | .typescript =>
    text = "" ∨ endings text = 1 ∧ endsWith text (commentEnd ++ "\n") = true

/-- Every line of a text behind its first opens with a mark, so the text can be put into a comment as it is. -/
def Contained (mark text : String) : Prop := ∀ line ∈ (split '\n' text).tail, Opens mark.toList line.toList

instance (mark text : String) : Decidable (Contained mark text) :=
  inferInstanceAs (Decidable (∀ line ∈ (split '\n' text).tail, Opens mark.toList line.toList))

/-- The texts of a documentation stay inside its comment. -/
def Harmless (l : Language) (d : Documentation) : Prop :=
  match l with
  | .csharp | .cli => d.link = "" ∨ Contained "///" d.label
  | .go => d.link = "" ∨ Contained "//" d.label ∧ Contained "//" d.link
  | .typescript => endings d.description = 0 ∧ (d.link = "" ∨ endings d.link = 0 ∧ endings d.label = 0)

instance (d : Documentation) : (l : Language) → Decidable (Harmless l d)
  | .csharp | .cli => inferInstanceAs (Decidable (_ ∨ _))
  | .go => inferInstanceAs (Decidable (_ ∨ _ ∧ _))
  | .typescript => inferInstanceAs (Decidable (_ ∧ (_ ∨ _ ∧ _)))

/-! ### Writing lines -/

/-- A text for each line, one below the other. -/
def stacked (indentation : String) (texts : List String) : String :=
  String.join (texts.map fun text => indentation ++ text ++ "\n")

section Writing

variable (e : Engine) (place : Option NamespaceId)

theorem text_lines (w : Writer) (texts : List String) :
    (w.lines texts).text = w.text ++ stacked w.indentation texts := by
  induction texts generalizing w with
  | nil => simp [Writer.lines, stacked]
  | cons text texts ih =>
      have hstep := ih (w.line text)
      simp only [Writer.lines, List.foldl_cons] at hstep ⊢
      rw [hstep]
      simp [Writer.line, Writer.text, Writer.indentation, stacked, String.append_assoc]

/-- Lines are written in any case. -/
theorem follow_lines (texts : List String) (page : Page) :
    (lines texts).follow e place page = (.ok (), { page with writer := page.writer.lines texts }) := by
  induction texts generalizing page with
  | nil => rfl
  | cons text texts ih => exact ih _

end Writing

/-- On every page of a language lines are indented with blanks. -/
theorem isIndent_of_mem_indentation {l : Language} (importPath : String) (format : Formatter) {w : Writer}
    (h : w.indentUnit = (Renderer.forLanguage importPath format l).indentUnit) :
    ∀ c ∈ w.indentation.toList, isIndent c = true := by
  intro c hc
  have hunit : ∀ c ∈ w.indentUnit.toList, isIndent c = true := by
    rw [h]
    cases l <;> simp [Renderer.forLanguage, Renderer.csharp, Renderer.typescript, Renderer.go, isIndent]
  have hmem : w.depth ≠ 0 ∧ c ∈ w.indentUnit.toList := by simpa [Writer.indentation] using hc
  exact hunit c hmem.2

/-- A text with line ends in it is several lines, of which the first is indented. -/
theorem writtenLines_stacked (indentation : String) (texts : List String) :
    writtenLines (stacked indentation texts) = texts.flatMap fun text => split '\n' (indentation ++ text) := by
  induction texts with
  | nil => rfl
  | cons text texts ih =>
      have hsplit : split '\n' (stacked indentation (text :: texts)) =
          split '\n' (indentation ++ text) ++ split '\n' (stacked indentation texts) := by
        rw [← split_append]
        simp [stacked]
      rw [writtenLines, hsplit, List.dropLast_append_of_ne_nil (split_ne_nil _), List.flatMap_cons, ← ih]
      rfl

/-! ### Comments to the end of the line -/

/-- A text opens a comment to the end of the line, and every line of it does so again. -/
def Commented (mark : List Char) (text : String) : Prop := Opens mark text.toList ∧ Marked mark text.toList

/-- A text on one line is a comment if it opens with the mark. -/
theorem commented_of_notMem {mark : List Char} {text : String} (hopens : Opens mark text.toList)
    (h : '\n' ∉ text.toList) : Commented mark text := ⟨hopens, marked_of_notMem h⟩

/-- Every written line opens with the mark exactly if every text is a comment throughout. -/
theorem forall_writtenLines_iff {mark : List Char} (hmark : mark ≠ []) (hline : '\n' ∉ mark) {indentation : String}
    (hindent : ∀ c ∈ indentation.toList, isIndent c = true) (texts : List String) :
    (∀ line ∈ writtenLines (stacked indentation texts), Opens mark line.toList) ↔
      ∀ text ∈ texts, Commented mark text := by
  have hnewline : '\n' ∉ indentation.toList := fun hmem => absurd (hindent _ hmem) (by decide)
  rw [writtenLines_stacked, List.forall_mem_flatMap]
  refine forall₂_congr fun text _ => ?_
  have hsplit : (∀ line ∈ split '\n' (indentation ++ text), Opens mark line.toList) ↔
      ∀ line ∈ (indentation.toList ++ text.toList).splitOn '\n', Opens mark line := by
    simp [split]
  rw [hsplit, forall_splitOn_iff hmark hline, opens_append_of_indent hindent, marked_append_of_notMem hnewline]
  rfl

/-- A text stays in a comment exactly if each of its line ends is followed by the mark. -/
theorem contained_iff {mark : String} (hmark : mark.toList ≠ []) (hline : '\n' ∉ mark.toList) (text : String) :
    Contained mark text ↔ Marked mark.toList text.toList := by
  rw [← forall_tail_splitOn_iff hmark hline]
  simp [Contained, split, ← List.map_tail]

/-- A line of a text gets the mark and keeps no line end, so nothing leaves the comment there. -/
theorem commented_of_mem_docLines {mark : List Char} {p : Policy}
    (hdoc : ∀ rest, Opens mark (p.docMark.toList ++ rest))
    (hline : '\n' ∉ p.docMark.toList) {text line : String} (h : line ∈ p.docLines text) :
    Commented mark line := by
  unfold Policy.docLines at h
  dsimp only at h
  split at h
  · cases h
  · obtain ⟨piece, hpiece, rfl⟩ := List.mem_map.mp h
    have hkept : '\n' ∉ (trimEndOf [' ', '\t'] piece).toList := by
      intro hmem
      refine notMem_of_mem_split hpiece ?_
      have hsub := List.dropWhile_suffix (fun c => [' ', '\t'].contains c) (l := piece.toList.reverse)
      simpa using hsub.subset (by simpa [trimEndOf] using hmem)
    refine commented_of_notMem ?_ (by simp [hline, hkept])
    rw [String.toList_append]
    exact hdoc _

/-- The label that stands in for an empty one has no line ends. -/
theorem marked_label {mark : List Char} (label : String) :
    Marked mark (if label.isEmpty then "Find more info here" else label).toList ↔ Marked mark label.toList := by
  split
  · next hempty =>
    rw [String.isEmpty_iff.mp hempty]
    exact iff_of_true (marked_of_notMem (by decide)) marked_nil
  · rfl

section CSharp

variable {mark : List Char}

/-- A character is escaped, or it stays as it is. -/
theorem escapedChars_cons (c : Char) (text : List Char) :
    CSharp.escapedChars (c :: text) = c :: CSharp.escapedChars text ∨
      c ∈ ['&', '<', '>'] ∧ ∃ rest, '\n' ∉ rest ∧
        CSharp.escapedChars (c :: text) = '&' :: rest ++ CSharp.escapedChars text := by
  have hwords : "&amp;".toList = ['&', 'a', 'm', 'p', ';'] ∧ "&lt;".toList = ['&', 'l', 't', ';'] ∧
      "&gt;".toList = ['&', 'g', 't', ';'] := by decide
  unfold CSharp.escapedChars
  rw [List.flatMap_cons, hwords.1, hwords.2.1, hwords.2.2]
  by_cases hamp : c = '&'
  · exact .inr ⟨by simp [hamp], ['a', 'm', 'p', ';'], by decide, by simp [hamp]⟩
  by_cases hlt : c = '<'
  · exact .inr ⟨by simp [hlt], ['l', 't', ';'], by decide, by simp [hlt]⟩
  by_cases hgt : c = '>'
  · exact .inr ⟨by simp [hgt], ['g', 't', ';'], by decide, by simp [hgt]⟩
  · exact .inl (by simp [hamp, hlt, hgt])

/-- Escaping changes nothing about a mark that needs none. -/
theorem prefix_escapedChars_iff (hmark : ∀ c ∈ mark, c ∉ ['&', '<', '>']) (text : List Char) :
    mark <+: CSharp.escapedChars text ↔ mark <+: text := by
  induction text generalizing mark with
  | nil => rfl
  | cons c text ih =>
      cases mark with
      | nil => simp
      | cons m mark =>
          obtain ⟨hm, hmark⟩ := List.forall_mem_cons.mp hmark
          rcases escapedChars_cons c text with heq | ⟨hc, rest, -, heq⟩
          · rw [heq, List.cons_prefix_cons, List.cons_prefix_cons, ih hmark]
          · have hne : m ≠ c := fun h => hm (h ▸ hc)
            have hamp : m ≠ '&' := fun h => hm (by simp [h])
            rw [heq, List.cons_append, List.cons_prefix_cons, List.cons_prefix_cons]
            simp [hne, hamp]

/-- Nor about what a line opens with. -/
theorem opens_escapedChars_iff (hmark : ∀ c ∈ mark, c ∉ ['&', '<', '>']) (text : List Char) :
    Opens mark (CSharp.escapedChars text) ↔ Opens mark text := by
  have hdrop : (CSharp.escapedChars text).dropWhile isIndent = CSharp.escapedChars (text.dropWhile isIndent) := by
    induction text with
    | nil => rfl
    | cons c text ih =>
        rcases escapedChars_cons c text with heq | ⟨hc, rest, -, heq⟩
        · by_cases hindent : isIndent c = true
          · rw [heq, List.dropWhile_cons_of_pos hindent, List.dropWhile_cons_of_pos hindent, ih]
          · rw [heq, List.dropWhile_cons_of_neg hindent, List.dropWhile_cons_of_neg hindent, heq]
        · have hindent : ¬ isIndent c = true := by
            simp only [List.mem_cons, List.not_mem_nil, or_false] at hc
            rcases hc with rfl | rfl | rfl <;> decide
          rw [List.dropWhile_cons_of_neg hindent, heq, List.cons_append, List.dropWhile_cons_of_neg (by decide)]
  rw [Opens, hdrop, prefix_escapedChars_iff hmark]
  rfl

/-- Nor about what follows line ends. -/
theorem marked_escapedChars_iff (hmark : ∀ c ∈ mark, c ∉ ['&', '<', '>']) (text : List Char) :
    Marked mark (CSharp.escapedChars text) ↔ Marked mark text := by
  induction text with
  | nil => rfl
  | cons c text ih =>
      by_cases hc : c = '\n'
      · subst hc
        have heq : CSharp.escapedChars ('\n' :: text) = '\n' :: CSharp.escapedChars text := rfl
        rw [heq, marked_cons_newline, marked_cons_newline, opens_escapedChars_iff hmark, ih]
      · rw [marked_cons_of_ne hc, ← ih]
        rcases escapedChars_cons c text with heq | ⟨-, rest, hrest, heq⟩
        · rw [heq, marked_cons_of_ne hc]
        · rw [heq, marked_append_of_notMem (by simpa using hrest)]

/-- The words for a link stand in the comment as they are, in front of the link. -/
theorem marked_link_iff (label link : String) :
    Marked "///".toList ("/// " ++ CSharp.escaped label ++ " <see href=" ++ quoted link ++ " />").toList ↔
      Marked "///".toList label.toList := by
  have hback : '\n' ∉ (" <see href=" ++ quoted link ++ " />").toList := by
    simp [lineEnd_notMem_quoted link (.inl rfl)]
  have hopens : ∀ line, Opens "///".toList (line ++ (" <see href=" ++ quoted link ++ " />").toList) ↔
      Opens "///".toList line := fun line => opens_append_iff (by decide) (by simp) (by simp [isIndent])
  have htext : ("/// " ++ CSharp.escaped label ++ " <see href=" ++ quoted link ++ " />").toList =
      "/// ".toList ++ (CSharp.escapedChars label.toList ++ (" <see href=" ++ quoted link ++ " />").toList) := by
    simp [CSharp.escaped]
  rw [htext, marked_append_of_notMem (by decide), marked_append_iff hopens, marked_escapedChars_iff (by simp)]
  exact and_iff_left (marked_of_notMem hback)

/-- In C#, only the label of a link can break out of a comment. -/
theorem commented_csharp_iff {p : Policy} (hp : p.docMark = "/// ") (d : Documentation) :
    (∀ text ∈ CSharp.comment p d, Commented "///".toList text) ↔ d.link = "" ∨ Contained "///" d.label := by
  have hdoc : ∀ text ∈ p.docLines (CSharp.escaped (trim d.description)), Commented "///".toList text := fun text =>
    commented_of_mem_docLines (by simp [hp, Opens, isIndent]) (by simp [hp])
  have hopening : Commented "///".toList "/// <summary>" := commented_of_notMem (by decide) (by decide)
  have hclosing : Commented "///".toList "/// </summary>" := commented_of_notMem (by decide) (by decide)
  by_cases hlink : d.link = ""
  · have hempty : d.link.isEmpty = true := by simp [hlink]
    refine iff_of_true (fun text htext => ?_) (.inl hlink)
    unfold CSharp.comment at htext
    dsimp only at htext
    split at htext
    · cases htext
    · simp only [List.append_nil, List.mem_append, List.mem_singleton] at htext
      rcases htext with (rfl | htext) | rfl
      · exact hopening
      · exact hdoc text htext
      · exact hclosing
  · have hopens : Opens "///".toList
        ("/// " ++ CSharp.escaped (CSharp.linkLabel d) ++ " <see href=" ++ quoted d.link ++ " />").toList := by
      simp [Opens, isIndent]
    have hempty : d.link.isEmpty = false := by simpa using hlink
    simp only [CSharp.comment, hempty, Bool.and_false, Bool.false_eq_true, if_false, List.forall_mem_append,
      List.forall_mem_singleton, hopening, hclosing, and_true, true_and, hlink, false_or]
    rw [and_iff_right hdoc, Commented, and_iff_right hopens, marked_link_iff, CSharp.linkLabel, marked_label,
      contained_iff (by decide) (by decide)]

end CSharp

section Go

/-- The words for a link and the link itself stand in the comment as they are. -/
theorem marked_reference_iff (label link : String) :
    Marked "//".toList ("// [" ++ label ++ "]: " ++ link).toList ↔
      Marked "//".toList label.toList ∧ Marked "//".toList link.toList := by
  have hopens : ∀ line, Opens "//".toList (line ++ ("]: ".toList ++ link.toList)) ↔ Opens "//".toList line :=
    fun line => opens_append_iff (by decide) (by simp) (by simp [isIndent])
  have htext : ("// [" ++ label ++ "]: " ++ link).toList =
      "// [".toList ++ (label.toList ++ ("]: ".toList ++ link.toList)) := by simp
  rw [htext, marked_append_of_notMem (by decide), marked_append_iff hopens, marked_append_of_notMem (by decide)]

/-- In Go, both the label and the address of a link can. -/
theorem commented_go_iff {p : Policy} (hp : p.docMark = "// ") (name : String) (d : Documentation) :
    (∀ text ∈ Go.comment p name d, Commented "//".toList text) ↔
      d.link = "" ∨ Contained "//" d.label ∧ Contained "//" d.link := by
  have hdoc : ∀ s, ∀ text ∈ p.docLines s, Commented "//".toList text := fun s text =>
    commented_of_mem_docLines (by simp [hp, Opens, isIndent]) (by simp [hp])
  have hfront : ∀ text ∈ (if (trim d.description).isEmpty then []
      else p.docLines (name ++ " " ++ Go.continued (trim d.description))), Commented "//".toList text := by
    split
    · simp
    · exact hdoc _
  have hempty : ∀ text ∈ (if (trim d.description).isEmpty then [] else ["//"]), Commented "//".toList text := by
    split
    · simp
    · simpa using commented_of_notMem (by decide) (by decide)
  unfold Go.comment
  dsimp only
  rw [List.forall_mem_append, and_iff_right hfront]
  by_cases hlink : d.link = ""
  · simp [hlink]
  · have hopens : Opens "//".toList ("// [" ++ Go.linkLabel d ++ "]: " ++ d.link).toList := by
      simp [Opens, isIndent]
    rw [if_neg (by simpa using hlink), List.forall_mem_append, and_iff_right hempty, List.forall_mem_singleton,
      Commented, and_iff_right hopens, marked_reference_iff, Go.linkLabel, marked_label,
      contained_iff (by decide) (by decide), contained_iff (by decide) (by decide)]
    simp [hlink]

end Go

/-! ### Comments to a delimiter -/

section TypeScript

theorem commentEnd_ne_nil : commentEnd.toList ≠ [] := by decide

theorem forall_mem_commentEnd {P : Char → Prop} : (∀ c ∈ commentEnd.toList, P c) ↔ P '*' ∧ P '/' := by
  simp [commentEnd]

theorem endings_intercalate (texts : List String) : endings ("\n".intercalate texts) = (texts.map endings).sum := by
  induction texts with
  | nil => rfl
  | cons text texts ih =>
      cases texts with
      | nil => simp
      | cons next texts =>
          have hjoined : ("\n".intercalate (text :: next :: texts)).toList =
              text.toList ++ '\n' :: ("\n".intercalate (next :: texts)).toList := by simp [String.intercalate_cons_cons]
          rw [endings, hjoined, occurrences_append_cons commentEnd_ne_nil (by decide), List.map_cons, List.sum_cons,
            ← ih]
          rfl

/-- Indented lines end a comment as often as their texts do. -/
theorem endings_stacked {indentation : String} (hindent : ∀ c ∈ indentation.toList, isIndent c = true)
    (texts : List String) : endings (stacked indentation texts) = (texts.map endings).sum := by
  have hend : ∀ c ∈ commentEnd.toList, isIndent c = false := forall_mem_commentEnd.mpr ⟨by decide, by decide⟩
  have hblank : ∀ c ∈ indentation.toList, c ∉ commentEnd.toList := fun c hc hmem =>
    absurd (hindent c hc) (by simp [hend c hmem])
  induction texts with
  | nil => rfl
  | cons text texts ih =>
      have hstacked : (stacked indentation (text :: texts)).toList =
          (indentation.toList ++ text.toList) ++ '\n' :: (stacked indentation texts).toList := by simp [stacked]
      rw [endings, hstacked, occurrences_append_cons commentEnd_ne_nil (by decide),
        occurrences_append_left commentEnd_ne_nil hblank, List.map_cons, List.sum_cons, ← ih]
      rfl

theorem endings_trim (text : String) : endings (trim text) = endings text := by
  rw [endings, trim, String.toList_ofList,
    occurrences_trimBoth commentEnd_ne_nil (forall_mem_commentEnd.mpr ⟨by decide, by decide⟩)]
  rfl

/-- Taking a text apart into the lines of a comment neither makes nor breaks what ends it. -/
theorem endings_docLines {p : Policy} (hp : p.docMark = " * ") (text : String) :
    ((p.docLines text).map endings).sum = endings text := by
  rw [← endings_trim text]
  unfold Policy.docLines
  dsimp only
  split
  · next hempty =>
    rw [String.isEmpty_iff.mp hempty]
    rfl
  · have hline : ∀ line, endings (p.docMark ++ trimEndOf [' ', '\t'] line) = endings line := by
      intro line
      have htext : (p.docMark ++ trimEndOf [' ', '\t'] line).toList =
          [' ', '*'] ++ ' ' :: (line.toList.reverse.dropWhile ([' ', '\t'].contains ·)).reverse := by
        simp [hp, trimEndOf]
      rw [endings, htext, occurrences_append_cons commentEnd_ne_nil (by decide),
        occurrences_dropWhileEnd commentEnd_ne_nil (forall_mem_commentEnd.mpr ⟨by decide, by decide⟩)]
      exact Nat.zero_add _
    rw [List.map_map, Function.comp_def, List.map_congr_left fun line _ => hline line, ← endings_intercalate]
    exact congrArg endings (intercalate_split '\n' (trim text))

/-- A comment is ended as often as its parts have the closing mark. -/
theorem endings_commentText (d : Documentation) :
    endings (TypeScript.commentText d) =
      endings d.description + if d.link = "" then 0 else endings d.link + endings d.label := by
  unfold TypeScript.commentText
  by_cases hlink : d.link = ""
  · simp [hlink]
  · rw [if_neg (by simpa using hlink), if_neg hlink, endings_trim]
    have htext : (d.description ++ "\n@see \x7b@link " ++ d.link ++ "|" ++ TypeScript.linkLabel d ++ "\x7d").toList =
        d.description.toList ++ '\n' :: ("@see \x7b@link".toList ++ ' ' :: (d.link.toList ++ '|' ::
          ((TypeScript.linkLabel d).toList ++ '\x7d' :: []))) := by simp
    have hdivide := @occurrences_append_cons commentEnd.toList commentEnd_ne_nil
    have hwords : occurrences commentEnd.toList "@see \x7b@link".toList = 0 := by decide
    have hlabel : endings (TypeScript.linkLabel d) = endings d.label := by
      unfold TypeScript.linkLabel
      split
      · next hempty =>
        rw [String.isEmpty_iff.mp hempty]
        decide
      · rfl
    rw [endings, htext, hdivide (by decide), hdivide (by decide), hdivide (by decide), hdivide (by decide),
      hwords, occurrences_nil commentEnd_ne_nil, ← hlabel]
    simp only [endings]
    omega

/-- A comment has one ending of its own, and those of the text that it was made from. -/
theorem commentOnly_typescript_iff {p : Policy} (hp : p.docMark = " * ") {indentation : String}
    (hindent : ∀ c ∈ indentation.toList, isIndent c = true) (d : Documentation) :
    CommentOnly .typescript (stacked indentation (TypeScript.comment p d)) ↔
      endings (TypeScript.commentText d) = 0 := by
  have hinside := endings_docLines hp (TypeScript.commentText d)
  unfold TypeScript.comment
  dsimp only
  split
  · next hempty =>
    rw [List.isEmpty_iff.mp hempty] at hinside
    exact iff_of_true (.inl rfl) hinside.symm
  · have hendings : endings (stacked indentation
        (["/**"] ++ p.docLines (TypeScript.commentText d) ++ [" */"])) = endings (TypeScript.commentText d) + 1 := by
      have hopening : endings "/**" = 0 := by decide
      have hclosing : endings " */" = 1 := by decide
      rw [endings_stacked hindent, List.map_append, List.map_append, List.sum_append, List.sum_append, hinside]
      simp [hopening, hclosing]
    generalize hbody : ["/**"] ++ p.docLines (TypeScript.commentText d) = body at hendings
    have hclosed : endsWith (stacked indentation (body ++ [" */"])) (commentEnd ++ "\n") = true := by
      have hstacked : stacked indentation (body ++ [" */"]) =
          stacked indentation body ++ indentation ++ " " ++ (commentEnd ++ "\n") := by
        simp [stacked, commentEnd, String.append_assoc]
      rw [hstacked, endsWith_append]
    have hwritten : stacked indentation (body ++ [" */"]) ≠ "" := by
      intro hnone
      have hempty : endings "" = 0 := rfl
      rw [hnone, hempty] at hendings
      omega
    simp only [CommentOnly, hwritten, false_or, hclosed, and_true]
    omega

end TypeScript

/-! ### The documentation of an element -/

/-- The page of an element, as any script leaves it. -/
def pageAfter (l : Language) (importPath : String) (format : Formatter) (e : Engine) (x : Definition)
    (before : Script Unit) : Page :=
  (before.follow e (x.home.map (·.id)) (startPage (.forLanguage importPath format l) x)).2

/-- What the comment of an element adds to a page is a comment and nothing else exactly if the documentation is
harmless: in C# if every line of the words for a link starts with the mark of a comment again, in Go if every line
of the link does so too, and in TypeScript if none of its texts ends the comment. -/
theorem comment_only_iff (l : Language) (importPath : String) (format : Formatter) (e : Engine) (x : Definition)
    (before : Script Unit) (name : String) (d : Documentation) :
    ∃ added,
      ((lines (commentOf l name d)).follow e (x.home.map (·.id))
          (pageAfter l importPath format e x before)).2.writer.text =
        (pageAfter l importPath format e x before).writer.text ++ added ∧
      (CommentOnly l added ↔ Harmless l d) := by
  have hindent : ∀ c ∈ (pageAfter l importPath format e x before).writer.indentation.toList, isIndent c = true :=
    isIndent_of_mem_indentation importPath format
      (indentUnit_follow e _ before (startPage (.forLanguage importPath format l) x))
  refine ⟨stacked (pageAfter l importPath format e x before).writer.indentation (commentOf l name d), ?_, ?_⟩
  · rw [follow_lines]
    exact text_lines _ _
  · cases l with
    | csharp | cli =>
        simp only [CommentOnly, Harmless, commentOf]
        rw [forall_writtenLines_iff (by decide) (by decide) hindent, commented_csharp_iff rfl]
    | go =>
        simp only [CommentOnly, Harmless, commentOf]
        rw [forall_writtenLines_iff (by decide) (by decide) hindent, commented_go_iff rfl]
    | typescript =>
        have hkept := commentOnly_typescript_iff (p := Language.typescript.policy) rfl hindent d
        rw [endings_commentText] at hkept
        refine hkept.trans ?_
        unfold Harmless
        by_cases hlink : d.link = ""
        · simp [hlink]
        · simp [hlink]

namespace DocSample

/-- Two lines, and a link with words for it. -/
def plain : Documentation := { description := "A thing.\nOf two lines.", link := "https://x.y", label := "More" }

/-- The words for the link go on in a second line, and the description ends a comment. -/
def running : Documentation :=
  { description := "A */ thing.", link := "https://x.y", label := "More\npublic class Injected \x7b \x7d" }

def thing : Definition := .ofClass { id := ⟨0⟩, name := "Thing", home := none }

def engine (l : Language) : Engine :=
  { context := ⟨{ root := { id := ⟨0⟩, name := "Sdk" }, classes := #[], enums := #[] }, l.policy, {}⟩
    handlers := defaultHandlers }

/-- What stands on the page of the thing behind its comment. -/
def written (l : Language) (d : Documentation) : String :=
  ((lines (commentOf l "Thing" d)).follow (engine l) none
    (pageAfter l "" asWritten (engine l) thing (.done ()))).2.writer.text

end DocSample

open DocSample in
/-- Plain documentation is a comment in every language, and running documentation is one in none. -/
theorem plain_words_stay_and_running_words_leave :
    (CommentOnly .csharp (written .csharp plain) ∧ CommentOnly .typescript (written .typescript plain) ∧
      CommentOnly .go (written .go plain)) ∧
    ¬CommentOnly .csharp (written .csharp running) ∧ ¬CommentOnly .typescript (written .typescript running) ∧
      ¬CommentOnly .go (written .go running) := by
  have hwritten (l : Language) (d : Documentation) : CommentOnly l (written l d) ↔ Harmless l d := by
    obtain ⟨added, htext, hadded⟩ := comment_only_iff l "" asWritten (engine l) thing (.done ()) "Thing" d
    rw [← hadded]
    exact iff_of_eq (congrArg (CommentOnly l) (htext.trans (String.empty_append)))
  simp only [hwritten]
  decide +kernel

end ClientForge.Render
