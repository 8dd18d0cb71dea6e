import ClientForge.Proofs.Render.Layout
import ClientForge.Proofs.Text.Shortest
import ClientForge.Render.TypeScriptFile

/-!
# Ways between files

The way from a directory to a file climbs to the last directory on the paths of both, and goes down from there.
Whoever follows it from the directory arrives at the file (`append_relative`).

* **`append_moduleOf`.** A module of a TypeScript client refers to another by the way from its own directory. Behind
  that directory it is the path of the other file without its extension, where the names of namespaces and elements
  can be those of files.
-/

namespace ClientForge.Render

open ClientForge.Graph ClientForge.Convention ClientForge.Text

/-! ### Following a way -/

section Lists

variable (source target : List String)

theorem take_commonParts : source.take (commonParts source target) = target.take (commonParts source target) := by
  fun_induction commonParts source target with
  | case1 part source next target ih => rw [List.take_succ_cons, List.take_succ_cons, ih]
  | case2 => rfl
  | case3 => rfl

variable {target} in
theorem commonParts_lt (h : target ≠ []) : commonParts source target < target.length := by
  fun_induction commonParts source target with
  | case1 part source next target ih => exact Nat.succ_lt_succ (ih (List.cons_ne_nil _ _))
  | case2 => exact Nat.zero_lt_succ _
  | case3 => exact List.length_pos_iff.mpr h

/-- The parts of the way from a directory to a file. -/
def wayParts : List String :=
  List.replicate (source.length - commonParts source target) ".." ++ target.drop (commonParts source target)

/-- Each pair of dots takes a name off. -/
theorem foldl_step_climb {stack : List String} (hstack : ∀ name ∈ stack, Path.IsName name) {n : Nat}
    (hn : n ≤ stack.length) : (List.replicate n "..").foldl (Path.step false) stack = stack.drop n := by
  induction n generalizing stack with
  | zero => rfl
  | succ n ih =>
      cases stack with
      | nil => cases hn
      | cons last rest =>
          obtain ⟨hlast, hrest⟩ := List.forall_mem_cons.mp hstack
          have hoff : Path.step false (last :: rest) ".." = rest := by simp [Path.step, hlast.2.2]
          rw [List.replicate_succ, List.foldl_cons, hoff, List.drop_succ_cons]
          exact ih hrest (Nat.le_of_succ_le_succ hn)

variable {source target}

/-- Going the way from the source leads to the target. -/
theorem foldl_step_wayParts (hsource : ∀ part ∈ source, Path.IsName part)
    (htarget : ∀ part ∈ target, Path.IsName part) :
    (wayParts source target).foldl (Path.step false) source.reverse = target.reverse := by
  have hdown : ∀ part ∈ target.drop (commonParts source target), Path.IsName part := fun part hpart =>
    htarget part (List.mem_of_mem_drop hpart)
  have hclimb : (List.replicate (source.length - commonParts source target) "..").foldl (Path.step false)
      source.reverse = (target.take (commonParts source target)).reverse := by
    rw [foldl_step_climb (by simpa using hsource) (by simp), ← take_commonParts, List.reverse_take]
  rw [wayParts, List.foldl_append, hclimb, Path.foldl_step_of_names hdown, ← List.reverse_append,
    List.take_append_drop]

end Lists

section Paths

variable {dir target : String}

theorem relative_ne_empty (dir target : String) : relative dir target ≠ "" := by
  unfold relative
  dsimp only
  split
  · next hdots =>
    intro hempty
    rw [hempty] at hdots
    exact absurd hdots (by decide)
  · simp

theorem parts_eq_split (h : ∀ part ∈ split '/' target, Path.IsName part) : Path.parts target = split '/' target := by
  have hstack : (split '/' target).foldl (Path.step false) [] = (Path.parts target).reverse ++ [] :=
    Path.foldl_step_parts (.inr h) []
  rw [Path.foldl_step_of_names h] at hstack
  simpa using hstack.symm

theorem wayParts_ne_nil (source : List String) {target : List String} (h : target ≠ []) :
    wayParts source target ≠ [] := by
  have hlt := commonParts_lt source h
  simp only [wayParts, ne_eq, List.append_eq_nil_iff, List.drop_eq_nil_iff, not_and]
  omega

/-- The text of a way: a dot stands in front of what does not start with two of them. -/
theorem relative_eq (h : ∀ part ∈ split '/' target, Path.IsName part) :
    relative dir target =
      if startsWith ("/".intercalate (wayParts (Path.parts dir) (split '/' target))) ".." then
        "/".intercalate (wayParts (Path.parts dir) (split '/' target))
      else "./" ++ "/".intercalate (wayParts (Path.parts dir) (split '/' target)) := by
  unfold relative
  simp only [parts_eq_split h]
  rw [← wayParts]

/-- The parts of a relative path are those of the way, behind a dot if it does not climb. -/
theorem split_relative (h : ∀ part ∈ split '/' target, Path.IsName part) :
    split '/' (relative dir target) =
      if startsWith ("/".intercalate (wayParts (Path.parts dir) (split '/' target))) ".." then
        wayParts (Path.parts dir) (split '/' target)
      else "." :: wayParts (Path.parts dir) (split '/' target) := by
  have hslash : ∀ part ∈ wayParts (Path.parts dir) (split '/' target), '/' ∉ part.toList := by
    intro part hpart
    rcases List.mem_append.mp hpart with hclimb | hdown
    · rw [List.eq_of_mem_replicate hclimb]
      decide
    · exact notMem_of_mem_split (List.mem_of_mem_drop hdown)
  have hway : split '/' ("/".intercalate (wayParts (Path.parts dir) (split '/' target))) =
      wayParts (Path.parts dir) (split '/' target) := split_intercalate (wayParts_ne_nil _ (split_ne_nil target)) hslash
  rw [relative_eq h]
  split
  · exact hway
  · have hsplit := Path.split_slash_append "." ("/".intercalate (wayParts (Path.parts dir) (split '/' target)))
    rwa [hway] at hsplit

/-- A dot in front of a way adds nothing to it. -/
theorem foldl_step_relative (h : ∀ part ∈ split '/' target, Path.IsName part) (stack : List String) :
    (split '/' (relative dir target)).foldl (Path.step false) stack =
      (wayParts (Path.parts dir) (split '/' target)).foldl (Path.step false) stack := by
  rw [split_relative h]
  split <;> rfl

/-- What a path behind a directory comes to. -/
theorem clean_behind {path : String} {names : List String}
    (hdir : dir = "." ∨ ∀ part ∈ split '/' dir, Path.IsName part) (hne : names ≠ [])
    (hnames : (split '/' path).foldl (Path.step false) (Path.parts dir).reverse = names.reverse) :
    Path.clean (dir ++ "/" ++ path) = "/".intercalate names := by
  obtain ⟨hdirne, hrelative, -⟩ := Path.relative_of_names hdir
  have hstack : (split '/' (dir ++ "/" ++ path)).foldl (Path.step false) [] = names.reverse := by
    rw [Path.split_slash_append, List.foldl_append, Path.foldl_step_parts hdir, List.append_nil, hnames]
  have hrooted : startsWith (dir ++ "/" ++ path) "/" = false := by
    rw [← Bool.not_eq_true, startsWith_slash_iff] at hrelative ⊢
    cases hcs : dir.toList with
    | nil => exact absurd (String.toList_eq_nil_iff.mp hcs) hdirne
    | cons c cs => simpa [hcs] using hrelative
  simp [Path.clean, hrooted, hstack, hne]

/-- The way from a directory to a file leads there. -/
theorem append_relative (hdir : dir = "." ∨ ∀ part ∈ split '/' dir, Path.IsName part)
    (htarget : ∀ part ∈ split '/' target, Path.IsName part) : Path.append dir (relative dir target) = target := by
  have hsource : ∀ part ∈ Path.parts dir, Path.IsName part := by
    intro part hpart
    unfold Path.parts at hpart
    split at hpart
    · cases hpart
    · next hproper => exact hdir.resolve_left (fun h => hproper (by simp [h])) part hpart
  have hclean : Path.clean (dir ++ "/" ++ relative dir target) = "/".intercalate (split '/' target) := by
    refine clean_behind hdir (split_ne_nil target) ?_
    rw [foldl_step_relative htarget, foldl_step_wayParts hsource htarget]
  have hempty : dir.isEmpty = false ∧ (relative dir target).isEmpty = false := by
    simp [String.isEmpty_eq_false_iff, (Path.relative_of_names hdir).1, relative_ne_empty]
  simp only [Path.append, hempty, hclean, Bool.false_and, Bool.false_eq_true, if_false]
  exact intercalate_split '/' target

end Paths

/-! ### Paths of modules -/

/-- Whether a text can name a file or a directory. -/
def IsFileName (s : String) : Prop := isBlankText s = false ∧ '/' ∉ s.toList

instance (s : String) : Decidable (IsFileName s) := inferInstanceAs (Decidable (_ ∧ _))

section Names

theorem trimBoth_subset (p : Char → Bool) (cs : List Char) : trimBoth p cs ⊆ cs := by
  intro c hc
  have hback := (List.dropWhile_sublist p).subset (List.mem_reverse.mp hc)
  exact (List.dropWhile_sublist p).subset (List.mem_reverse.mp hback)

theorem trimBoth_ne_nil {p : Char → Bool} {cs : List Char} (h : cs.all p = false) : trimBoth p cs ≠ [] := by
  obtain ⟨c, hc, hp⟩ : ∃ c ∈ cs, p c = false := by simpa using h
  have hkept : ∀ {xs : List Char}, c ∈ xs → c ∈ xs.dropWhile p := by
    intro xs hxs
    rw [← List.takeWhile_append_dropWhile (p := p) (l := xs)] at hxs
    rcases List.mem_append.mp hxs with hfront | hrest
    · rw [List.mem_takeWhile_imp hfront] at hp
      cases hp
    · exact hrest
  exact List.ne_nil_of_mem (List.mem_reverse.mpr (hkept (List.mem_reverse.mpr (hkept hc))))

theorem isName_of_dot_notMem {part : String} (hne : part ≠ "") (hdot : '.' ∉ part.toList) : Path.IsName part := by
  refine ⟨hne, ?_, ?_⟩ <;> rintro rfl <;> exact hdot (by decide)

/-- The file of an element has a name if the element has one. -/
theorem areNames_kebab {name : String} (h : IsFileName name) : Path.AreNames [Casing.kebab.apply name] := by
  have hdot : '.' ∉ (Casing.kebab.apply name).toList := dot_notMem_apply (by decide) name
  have hslash : '/' ∉ (Casing.kebab.apply name).toList := by
    rw [Casing.apply, String.toList_ofList]
    intro hmem
    rcases mem_delimitedFrom hmem with heq | ⟨c, hc, -, heq⟩
    · cases heq
    · rw [(toLower_eq_iff (by decide)).mp heq.symm] at hc
      exact h.2 (trimBoth_subset _ _ hc)
  have hne : Casing.kebab.apply name ≠ "" := by
    intro hempty
    rw [Casing.apply, String.ofList_eq_empty_iff] at hempty
    cases hcs : trimBoth isBlank name.toList with
    | nil => exact trimBoth_ne_nil h.1 hcs
    | cons c cs =>
        rw [hcs] at hempty
        unfold delimitedFrom at hempty
        rw [List.append_eq_nil_iff] at hempty
        have hwritten := hempty.1
        split at hwritten
        · cases hwritten
        · split at hwritten
          · simp at hwritten
          · cases hwritten
  intro part hpart
  rw [List.mem_singleton.mp hpart]
  exact ⟨isName_of_dot_notMem hne hdot, hslash⟩

end Names

section Modules

variable {l : Language} {root : NamespaceRef} {d : Definition}

/-- The directories on the path of an element. -/
def folders (root : NamespaceRef) (d : Definition) : List String := Path.words (directory root d.home)

theorem areNames_folders (root : NamespaceRef) (d : Definition) : Path.AreNames (folders root d) := by
  intro folder hfolder
  obtain ⟨hne, hslash⟩ := Path.word_spec hfolder
  have hdot : '.' ∉ folder.toList := fun hmem =>
    dot_notMem_directory root d.home (mem_of_mem_split (List.mem_filter.mp hfolder).1 hmem).2
  exact ⟨isName_of_dot_notMem hne hdot, hslash⟩

/-- Whether the parts of the name of a namespace can name directories. -/
def NamesFolders (n : NamespaceRef) : Prop := ∀ part ∈ split '.' n.name, IsFileName part

instance (n : NamespaceRef) : Decidable (NamesFolders n) :=
  inferInstanceAs (Decidable (∀ part ∈ split '.' n.name, IsFileName part))

/-- What is left of a name behind that of the root starts neither with a slash nor with a dot. -/
theorem head?_dropFront {n : NamespaceRef} (h : NamesFolders n) {c : Char}
    (hc : (dropFront (dropFront n.name root.name) ".").toList.head? = some c) : c ≠ '/' ∧ c ≠ '.' := by
  have hrest := dropFront_suffix n.name root.name
  generalize dropFront n.name root.name = rest at hrest hc
  constructor
  · rintro rfl
    have hmem := hrest.subset ((dropFront_suffix _ _).subset (List.mem_of_mem_head? hc))
    rw [← intercalate_split '.' n.name] at hmem
    rcases mem_of_mem_intercalate hmem with heq | ⟨part, hpart, hmem⟩
    · cases heq
    · exact (h part hpart).2 hmem
  · rintro rfl
    obtain ⟨back, hback⟩ := List.head?_eq_some_iff.mp hc
    rcases dropFront_cases rest "." with hfront | ⟨hsame, hnone⟩
    · -- the dot that was dropped stood in front of another one
      rw [← hfront, String.toList_append, hback] at hrest
      have hdots : ['.', '.'] <:+: n.name.toList := List.IsInfix.trans ⟨[], back, rfl⟩ hrest.isInfix
      exact absurd (h "" (empty_mem_split hdots)).1 (by decide)
    · rw [hsame] at hback
      simp [startsWith, hback] at hnone

/-- The directory of a namespace is a path from elsewhere than the top. -/
theorem head?_directory (h : ∀ n, d.home = some n → NamesFolders n) :
    (directory root d.home).toList.head? ≠ some '/' := by
  unfold directory
  split
  · simp
  · next n hhome =>
    split
    · simp
    · dsimp only
      cases hcs : (dropFront (dropFront n.name root.name) ".").toList with
      | nil => simp [lower, replaceChar, hcs]
      | cons c cs =>
          have hhead : (dropFront (dropFront n.name root.name) ".").toList.head? = some c := by
            rw [hcs]
            rfl
          obtain ⟨hslash, hdot⟩ := head?_dropFront (h n hhome) hhead
          have hlower : lowerChar c ≠ '/' := fun heq => hslash ((lowerChar_eq_iff (by decide)).mp heq)
          simp [lower, replaceChar, hcs, hdot, hlower]

/-- Where folders and names are proper, the path of a unit is what they are joined to. -/
theorem unitPath_eq_intercalate (hspace : ∀ n, d.home = some n → NamesFolders n)
    (hstem : Path.AreNames [l.policy.fileCase.apply d.name]) :
    unitPath l.policy root d =
      "/".intercalate (folders root d ++ [l.policy.fileCase.apply d.name]) ++ l.policy.extension := by
  obtain ⟨hname, hslash⟩ := hstem _ List.mem_cons_self
  have hdirectory : (directory root d.home).toList.head? ≠ some '/' := head?_directory hspace
  have hrooted : (spot l.policy root d).rooted = false := by
    rw [← Bool.not_eq_true]
    refine mt startsWith_slash_iff.mp ?_
    cases hdir : (directory root d.home).toList with
    | nil =>
        rw [String.toList_append, hdir, List.nil_append]
        exact fun hhead => hslash (List.mem_of_mem_head? hhead)
    | cons c cs => simpa [hdir] using hdirectory
  have hwords : (spot l.policy root d).folders ++ [(spot l.policy root d).name ++ l.policy.extension] =
      folders root d ++ [l.policy.fileCase.apply d.name ++ l.policy.extension] := by
    simp [spot, split_of_notMem hslash, folders]
  have hhead : l.policy.extension.toList.head? ≠ some '/' := fun h =>
    (extension_spec l).2 (List.mem_of_mem_head? h)
  rw [unitPath_eq_clean (extension_ne_empty l), Path.clean_of_plain (plain_languagePath l root d),
    startsWith_path hhead, hrooted, words_path (extension_spec l).2 (extension_ne_empty l), hwords,
    if_neg (by decide), if_neg (by simp), intercalate_append_ending]

/-- The directory of a file, in which names are looked for. -/
theorem directory_unitPath (hspace : ∀ n, d.home = some n → NamesFolders n)
    (hstem : Path.AreNames [l.policy.fileCase.apply d.name]) :
    Path.directory (unitPath l.policy root d) =
      if folders root d = [] then "." else "/".intercalate (folders root d) := by
  have hslash : '/' ∉ (l.policy.fileCase.apply d.name ++ l.policy.extension).toList := by
    simp [(hstem _ List.mem_cons_self).2, (extension_spec l).2]
  rw [unitPath_eq_intercalate hspace hstem, ← intercalate_append_ending]
  unfold Path.directory
  split_ifs with hfolders
  · rw [hfolders, List.nil_append, String.intercalate_singleton, splitLast_of_notMem hslash]
  · have hnames := areNames_folders root d
    have hsplit : split '/' ("/".intercalate (folders root d)) = folders root d := hnames.split_intercalate hfolders
    have hlast : splitLast '/' ("/".intercalate (folders root d) ++ "/" ++
        (l.policy.fileCase.apply d.name ++ l.policy.extension)) =
        (some ("/".intercalate (folders root d)), l.policy.fileCase.apply d.name ++ l.policy.extension) :=
      splitLast_append hslash
    rw [intercalate_append_singleton hfolders, hlast]
    have hdir : ∀ part ∈ split '/' ("/".intercalate (folders root d)), Path.IsName part := by
      rw [hsplit]
      exact fun part hpart => (hnames part hpart).1
    have hclean : Path.clean ("/".intercalate (folders root d) ++ "/" ++ "") = "/".intercalate (folders root d) := by
      refine clean_behind (.inr hdir) hfolders ?_
      rw [parts_eq_split hdir, hsplit]
      rfl
    simpa using hclean

/-- Where a module looks for another it finds its file, but for the extension. -/
theorem append_moduleOf {c : Definition} (hspace : ∀ n, c.home = some n → NamesFolders n)
    (hspace' : ∀ n, d.home = some n → NamesFolders n) (hstem : Path.AreNames [l.policy.fileCase.apply c.name])
    (hstem' : Path.AreNames [l.policy.fileCase.apply d.name]) :
    Path.append (Path.directory (unitPath l.policy root c))
        (TypeScript.moduleOf l.policy root (unitPath l.policy root c) d) =
      dropBack (unitPath l.policy root d) l.policy.extension := by
  refine append_relative ?_ ?_
  · rw [directory_unitPath hspace hstem]
    split
    · exact .inl rfl
    · next hfolders =>
      rw [(areNames_folders root c).split_intercalate hfolders]
      exact .inr fun part hpart => (areNames_folders root c part hpart).1
  · have hnames : Path.AreNames (folders root d ++ [l.policy.fileCase.apply d.name]) := by
      intro part hpart
      rcases List.mem_append.mp hpart with hpart | hpart
      · exact areNames_folders root d part hpart
      · exact hstem' part hpart
    rw [unitPath_eq_intercalate hspace' hstem', dropBack_append, hnames.split_intercalate (by simp)]
    exact fun part hpart => (hnames part hpart).1

end Modules

end ClientForge.Render
