import ClientForge.Convention.Language
import ClientForge.Proofs.Text.Lower
import ClientForge.Proofs.Text.Path
import ClientForge.Render.Layout

/-!
# Where files end up

The path of a file is made of the lower-case name of its namespace and the cased name of its element. Neither
has a dot in it, so the shortest form of the path only leaves out empty parts. That says where a file ends up:
in folders, under a name.

* **`unitPath_eq_iff`.** Two elements have the same path exactly if they end up at the same spot.
* **`extension_suffix_unitPath`.** Every path ends in the extension of its language.
-/

namespace ClientForge.Render

open ClientForge.Graph ClientForge.Convention ClientForge.Text

/-! ### Names without dots -/

theorem isTurn_of_isSeparator {c : Char} (h : isSeparator c = true) (next : Char) : isTurn c next = false := by
  simp only [isSeparator, Bool.or_eq_true, beq_iff_eq] at h
  rcases h with ((rfl | rfl) | rfl) | rfl <;> simp [isTurn]

/-- Delimited words are made of delimiters and of the lower-case characters of the text, but for its
separators. -/
theorem mem_delimitedFrom {delimiter : Char} {afterCapital : Bool} {cs : List Char} {x : Char}
    (h : x ∈ delimitedFrom delimiter afterCapital cs) :
    x = delimiter ∨ ∃ c ∈ cs, isSeparator c = false ∧ x = c.toLower := by
  induction cs generalizing afterCapital with
  | nil => cases h
  | cons c cs ih =>
      have hplain : x = (if isSeparator c then delimiter else c.toLower) →
          x = delimiter ∨ ∃ c' ∈ c :: cs, isSeparator c' = false ∧ x = c'.toLower := by
        intro hx
        split at hx
        · exact .inl hx
        · next hseparator => exact .inr ⟨c, List.mem_cons_self, by simpa using hseparator, hx⟩
      unfold delimitedFrom at h
      rcases List.mem_append.mp h with h | h
      · split at h
        · exact hplain (List.mem_singleton.mp h)
        · next next _ =>
          split at h
          · next hturn =>
            have hoptional : ∀ b : Bool, x ∈ (if b then [delimiter] else []) → x = delimiter := by
              intro b hb
              cases b with
              | false => cases hb
              | true => exact List.mem_singleton.mp hb
            have hseparator : isSeparator c = false := by
              by_contra hseparator
              rw [isTurn_of_isSeparator (by simpa using hseparator)] at hturn
              cases hturn
            simp only [List.mem_append, List.mem_singleton] at h
            rcases h with (h | h) | h
            · exact .inl (hoptional _ h)
            · exact .inr ⟨c, List.mem_cons_self, hseparator, h⟩
            · exact .inl (hoptional _ h)
          · exact hplain (List.mem_singleton.mp h)
      · rcases ih h with h | ⟨c', hc', h⟩
        · exact .inl h
        · exact .inr ⟨c', List.mem_cons_of_mem _ hc', h⟩

/-- Delimited words have no dots. -/
theorem dot_notMem_delimitedFrom {delimiter : Char} (hdelimiter : delimiter ≠ '.') (afterCapital : Bool)
    (cs : List Char) : '.' ∉ delimitedFrom delimiter afterCapital cs := by
  intro h
  rcases mem_delimitedFrom h with h | ⟨c, -, hseparator, h⟩
  · exact hdelimiter h.symm
  · rw [(toLower_eq_iff (by decide)).mp h.symm] at hseparator
    cases hseparator

theorem dot_notMem_apply {casing : Casing} (h : casing ≠ .verbatim) (name : String) :
    '.' ∉ (casing.apply name).toList := by
  have hwords : ∀ {raise first afterCapital cs}, '.' ∉ camelFrom raise first afterCapital cs := fun h =>
    absurd (isAlphanum_of_mem_camelFrom h) (by decide)
  cases casing with
  | verbatim => exact absurd rfl h
  | pascal | camel =>
      rw [Casing.apply, String.toList_ofList]
      exact hwords
  | snake | kebab =>
      rw [Casing.apply, String.toList_ofList]
      exact dot_notMem_delimitedFrom (by decide) _ _

theorem dot_notMem_fileCase (l : Language) (name : String) : '.' ∉ (l.policy.fileCase.apply name).toList :=
  dot_notMem_apply (by cases l <;> decide) name

theorem dot_notMem_replaceChar (s : String) : '.' ∉ (replaceChar '.' "/" s).toList := by
  simp only [replaceChar, String.toList_ofList, List.mem_flatMap, not_exists, not_and]
  intro c _
  split
  · decide
  · next hc => simpa using Ne.symm hc

theorem dot_notMem_directory (root : NamespaceRef) (space : Option NamespaceRef) :
    '.' ∉ (directory root space).toList := by
  unfold directory
  split
  · simp
  · split
    · simp
    · rw [mem_lower_iff (by decide)]
      exact dot_notMem_replaceChar _

theorem extension_spec (l : Language) : l.policy.extension.length = 3 ∧ '/' ∉ l.policy.extension.toList := by
  cases l <;> decide +kernel

/-! ### Spots -/

/-- Where a file ends up: at the root of all files or not, in which folders, and under which name. -/
@[ext]
structure Spot where
  rooted : Bool
  folders : List String
  name : String
deriving DecidableEq, Repr

/-- Where the file of an element ends up. A slash in the name of an element makes a folder. -/
def spot (p : Policy) (root : NamespaceRef) (d : Definition) : Spot :=
  let dir := directory root d.home
  let pieces := split '/' (p.fileCase.apply d.name)
  { rooted := startsWith (dir ++ p.fileCase.apply d.name) "/"
    folders := Path.words dir ++ pieces.dropLast.filter (· ≠ "")
    name := pieces.getLast (split_ne_nil _) }

section Paths

variable (p : Policy) (root : NamespaceRef) (d : Definition)

/-- The path of a file before it is brought into its shortest form, without the extension. -/
def stem : String :=
  if (directory root d.home).isEmpty then p.fileCase.apply d.name
  else directory root d.home ++ "/" ++ p.fileCase.apply d.name

variable {p root d}

theorem unitPath_eq_clean (h : p.extension ≠ "") :
    unitPath p root d = Path.clean (stem p root d ++ p.extension) := by
  have hfile : (p.fileCase.apply d.name ++ p.extension).isEmpty = false := by
    simpa [String.isEmpty_iff] using fun _ => h
  unfold unitPath stem Path.append
  by_cases hdir : (directory root d.home).isEmpty
  · simp [hdir, hfile]
  · simp [hdir, hfile, String.append_assoc]

/-- The parts of a path are those of the folders and of the cased name, which may have slashes. -/
theorem split_stem (p : Policy) (root : NamespaceRef) (d : Definition) :
    split '/' (stem p root d) =
      (if (directory root d.home).isEmpty then [] else split '/' (directory root d.home)) ++
        split '/' (p.fileCase.apply d.name) := by
  unfold stem
  split
  · rfl
  · exact split_append _ _

/-- Without empty parts, a path is made of folders and a name. -/
theorem words_path (hslash : '/' ∉ p.extension.toList) (hne : p.extension ≠ "") :
    Path.words (stem p root d ++ p.extension) =
      (spot p root d).folders ++ [(spot p root d).name ++ p.extension] := by
  have hdir : (if (directory root d.home).isEmpty then [] else split '/' (directory root d.home)).filter (· ≠ "") =
      Path.words (directory root d.home) := by
    split
    · next hempty =>
      rw [String.isEmpty_iff.mp hempty]
      decide +kernel
    · rfl
  have hlast : ∀ name : String, [name ++ p.extension].filter (· ≠ "") = [name ++ p.extension] := by
    intro name
    simpa using fun _ => hne
  unfold Path.words
  rw [split_append_of_notMem hslash, List.filter_append, hlast]
  simp only [split_stem, List.dropLast_append_of_ne_nil (split_ne_nil _),
    List.getLast_append_of_ne_nil _ (split_ne_nil _), List.filter_append, hdir]
  rfl

theorem startsWith_slash_iff {s : String} : startsWith s "/" = true ↔ s.toList.head? = some '/' := by
  cases hs : s.toList with
  | nil => simp [startsWith, hs]
  | cons c cs =>
      by_cases hc : c = '/'
      · simp [startsWith, List.isPrefixOf, hs, hc]
      · simp [startsWith, List.isPrefixOf, hs, hc, Ne.symm hc]

/-- A path starts with a slash if the namespace does, or the element where there is none. -/
theorem startsWith_path (h : p.extension.toList.head? ≠ some '/') :
    startsWith (stem p root d ++ p.extension) "/" = (spot p root d).rooted := by
  rw [Bool.eq_iff_iff]
  unfold spot stem
  simp only [startsWith_slash_iff]
  split
  · next hempty =>
    rw [String.isEmpty_iff.mp hempty]
    cases hname : (p.fileCase.apply d.name).toList with
    | nil => simpa [hname] using h
    | cons c cs => simp [hname]
  · next hempty =>
    cases hdir : (directory root d.home).toList with
    | nil => exact absurd (String.isEmpty_iff.mpr (String.toList_eq_nil_iff.mp hdir)) hempty
    | cons c cs => simp [hdir]

/-- No part of a path is a dot or two. -/
theorem plain_path (hlength : 3 ≤ p.extension.length) (hslash : '/' ∉ p.extension.toList)
    (hname : '.' ∉ (p.fileCase.apply d.name).toList) : Path.Plain (stem p root d ++ p.extension) := by
  have hstem : '.' ∉ (stem p root d).toList := by
    unfold stem
    split
    · exact hname
    · simp [hname, dot_notMem_directory]
  intro part hpart
  rw [split_append_of_notMem hslash] at hpart
  rcases List.mem_append.mp hpart with hfront | hlast
  · have hdot : '.' ∉ part.toList := fun hc => hstem (mem_of_mem_split (List.mem_of_mem_dropLast hfront) hc).2
    constructor <;> rintro rfl <;> exact hdot (by decide)
  · have hlong : 3 ≤ part.length := by
      rw [List.mem_singleton.mp hlast, String.length_append]
      omega
    constructor <;> rintro rfl <;> exact absurd hlong (by decide)

end Paths

section Languages

variable {l : Language} {root : NamespaceRef} {d d₁ d₂ : Definition}

theorem extension_ne_empty (l : Language) : l.policy.extension ≠ "" := by
  cases l <;> decide +kernel

/-- No path has single or double dots for parts. -/
theorem plain_languagePath (l : Language) (root : NamespaceRef) (d : Definition) :
    Path.Plain (stem l.policy root d ++ l.policy.extension) :=
  plain_path (extension_spec l).1.ge (extension_spec l).2 (dot_notMem_fileCase l d.name)

/-- Elements have the same path exactly if their files end up at the same spot. -/
theorem unitPath_eq_iff :
    unitPath l.policy root d₁ = unitPath l.policy root d₂ ↔ spot l.policy root d₁ = spot l.policy root d₂ := by
  have hhead : l.policy.extension.toList.head? ≠ some '/' := fun h =>
    (extension_spec l).2 (List.mem_of_mem_head? h)
  rw [unitPath_eq_clean (extension_ne_empty l), unitPath_eq_clean (extension_ne_empty l),
    Path.clean_eq_clean_iff (plain_languagePath l root d₁) (plain_languagePath l root d₂),
    startsWith_path hhead, startsWith_path hhead,
    words_path (extension_spec l).2 (extension_ne_empty l), words_path (extension_spec l).2 (extension_ne_empty l)]
  constructor
  · rintro ⟨hrooted, hwords⟩
    obtain ⟨hfolders, hname⟩ := List.append_inj' hwords rfl
    exact Spot.ext hrooted hfolders (String.append_left_inj _ |>.mp (List.singleton_inj.mp hname))
  · intro h
    rw [h]
    exact ⟨rfl, rfl⟩

/-- The name of every file ends in the extension of its language. -/
theorem extension_suffix_unitPath (l : Language) (root : NamespaceRef) (d : Definition) :
    l.policy.extension.toList <:+ (unitPath l.policy root d).toList := by
  have hjoined : ∀ (front : List String) (last : String),
      l.policy.extension.toList <:+ ("/".intercalate (front ++ [last ++ l.policy.extension])).toList := by
    intro front last
    cases front with
    | nil => simp
    | cons folder front =>
        rw [intercalate_append_singleton (List.cons_ne_nil folder front), ← String.append_assoc, String.toList_append]
        exact List.suffix_append _ _
  rw [unitPath_eq_clean (extension_ne_empty l), Path.clean_of_plain (plain_languagePath l root d),
    words_path (extension_spec l).2 (extension_ne_empty l)]
  split
  · rw [String.toList_append]
    exact (hjoined _ _).trans (List.suffix_append _ _)
  · rw [if_neg (by simp)]
    exact hjoined _ _

end Languages

end ClientForge.Render
