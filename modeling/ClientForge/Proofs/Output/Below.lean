import ClientForge.Output.FileSink
import ClientForge.Proofs.Failure
import ClientForge.Proofs.Text.Shortest

/-!
# Paths below a root

A path is accepted only if it is made of names, or is the single dot (`checkPath_eq_ok_iff`). So it leads from a root
to places at or below it, and the test for paths that escape is never met.

* **`accepted_path_stays_below`.** Below a root in its shortest form, other than the top directory, an accepted path
  is resolved to the root with the parts of the path behind it.
-/

namespace ClientForge.Output

open ClientForge.Text

section Accepted

variable {path : String}

/-- What is accepted as a path below an output directory. -/
theorem checkPath_eq_ok_iff :
    checkPath path = .ok () ↔
      startsWithDrive path = false ∧ '\\' ∉ path.toList ∧
        (path = "." ∨ ∀ part ∈ split '/' path, Path.IsName part) := by
  have hshape : checkPath path = .ok () ↔
      path ≠ "" ∧ (startsWith path "/" = false ∧ startsWithDrive path = false) ∧ '\\' ∉ path.toList ∧
        ".." ∉ split '/' path ∧ Path.clean path = path := by
    simp only [checkPath, Bool.or_eq_true, String.isEmpty_iff, List.contains_iff_mem, bne_iff_ne, ne_eq]
    split_ifs <;> grind
  rw [hshape]
  constructor
  · rintro ⟨-, ⟨hrelative, hdrive⟩, hbackslash, hclimb, hclean⟩
    exact ⟨hdrive, hbackslash, (Path.clean_eq_self_iff_of_relative hrelative hclimb).mp hclean⟩
  · rintro ⟨hdrive, hbackslash, hnames⟩
    obtain ⟨hne, hrelative, hclimb⟩ := Path.relative_of_names hnames
    exact ⟨hne, ⟨hrelative, hdrive⟩, hbackslash, hclimb,
      (Path.clean_eq_self_iff_of_relative hrelative hclimb).mpr hnames⟩

/-- The parts of an accepted path are not empty, do not climb, and have no backslash. -/
theorem part_of_accepted (h : checkPath path = .ok ()) {part : String} (hpart : part ∈ split '/' path) :
    part ≠ "" ∧ part ≠ ".." ∧ '\\' ∉ part.toList := by
  obtain ⟨-, hbackslash, hnames⟩ := checkPath_eq_ok_iff.mp h
  have hclear : '\\' ∉ part.toList := fun hc => hbackslash (mem_of_mem_split hpart hc).2
  rcases hnames with rfl | hnames
  · obtain rfl : part = "." := by simpa [split, List.splitOn_cons_eq_if_modifyHead] using hpart
    decide
  · exact ⟨(hnames part hpart).1, (hnames part hpart).2.2, hclear⟩

theorem areNames_parts (h : checkPath path = .ok ()) : Path.AreNames (Path.parts path) := by
  intro name hname
  obtain ⟨-, -, hnames⟩ := checkPath_eq_ok_iff.mp h
  unfold Path.parts at hname
  split at hname
  · cases hname
  · next hproper =>
    have hdot : path ≠ "." := fun heq => hproper (by simp [heq])
    exact ⟨hnames.resolve_left hdot name hname, notMem_of_mem_split hname⟩

/-- Files are only refused for their paths and for being late. -/
theorem checkWrite_eq_ok_iff {cancelled : Bool} :
    checkWrite cancelled path = .ok () ↔ checkPath path = .ok () ∧ cancelled = false := by
  constructor
  · intro h
    obtain ⟨_, hpath, hlate⟩ := bind_eq_ok.mp h
    refine ⟨mapError_eq_ok.mp hpath, ?_⟩
    cases cancelled with
    | false => rfl
    | true => cases hlate
  · rintro ⟨hpath, rfl⟩
    exact bind_eq_ok.mpr ⟨(), mapError_eq_ok.mpr hpath, rfl⟩

end Accepted

/-! ### Resolving -/

section Resolve

variable {names : List String}

theorem placeOf_eq (h : Path.AreNames names) : placeOf ("/" ++ "/".intercalate names) = names := by
  by_cases hne : names = []
  · subst hne
    decide +kernel
  · have hkept : names.filter (!·.isEmpty) = names := List.filter_eq_self.mpr fun name hname => by
      simpa using (h name hname).1.1
    simp [placeOf, h.split_rooted hne, hkept]

/-- The root with the parts of a path behind it. -/
theorem intercalate_root_parts (hne : names ≠ []) (parts : List String) :
    "/".intercalate (("/" ++ "/".intercalate names) :: parts) = "/" ++ "/".intercalate (names ++ parts) := by
  cases parts with
  | nil => simp
  | cons part parts =>
      rw [String.intercalate_append_of_ne_nil hne (List.cons_ne_nil part parts), String.intercalate_cons_cons]
      simp only [String.append_assoc]

/-- Paths at and below a root do not escape from it. -/
theorem resolve_of_append {root path : String} (parts : List String)
    (h : Path.append root path = "/".intercalate (root :: parts)) :
    FileSink.resolve root path = .ok ("/".intercalate (root :: parts)) := by
  unfold FileSink.resolve
  simp only [h]
  cases parts with
  | nil => simp
  | cons part parts =>
      have hbelow := startsWith_append (root ++ "/") ("/".intercalate (part :: parts))
      simp [hbelow]

/-- A root that is absolute and in its shortest form is taken as it is. -/
theorem FileSink.absoluteRoot_eq {s : FileSink} (hrooted : startsWith s.root "/" = true)
    (hclean : Path.clean s.root = s.root) : s.absoluteRoot = s.root := by
  simp [absoluteRoot, Path.absolute, hrooted, hclean]

end Resolve

/-- Below a root in its shortest form, other than the top directory, a path that is accepted is resolved to the root
with the parts of the path behind it; the place is the root's own or below it, and no way up is left in it. And no part
of the path is empty, climbs or has a backslash. -/
theorem accepted_path_stays_below {s : FileSink} {path : String} (hrooted : startsWith s.root "/" = true)
    (hclean : Path.clean s.root = s.root) (htop : s.root ≠ "/") (hpath : checkPath path = .ok ()) :
    (∃ full, FileSink.resolve s.absoluteRoot path = .ok full ∧ full = "/".intercalate (s.root :: Path.parts path) ∧
      (full = s.root ∨ startsWith full (s.root ++ "/") = true) ∧
      placeOf full = placeOf s.root ++ Path.parts path ∧ ".." ∉ placeOf full) ∧
    ∀ part ∈ split '/' path, part ≠ "" ∧ part ≠ ".." ∧ '\\' ∉ part.toList := by
  refine ⟨?_, fun part => part_of_accepted hpath⟩
  obtain ⟨names, hnames, hroot⟩ := (Path.clean_eq_self_iff_of_rooted hrooted).mp hclean
  have hne : names ≠ [] := by
    rintro rfl
    exact htop hroot
  obtain ⟨-, -, hparts⟩ := checkPath_eq_ok_iff.mp hpath
  have happend : Path.append s.root path = "/".intercalate (s.root :: Path.parts path) := by
    have hempty : s.root ≠ "" := by
      rw [hroot]
      simp
    rw [hroot, intercalate_root_parts hne, ← Path.clean_append hnames hne hparts, ← hroot]
    simp [Path.append, hempty, (Path.relative_of_names hparts).1]
  have hall : Path.AreNames (names ++ Path.parts path) := fun name hname =>
    (List.mem_append.mp hname).elim (hnames name) (areNames_parts hpath name)
  have hplace : placeOf ("/".intercalate (s.root :: Path.parts path)) = names ++ Path.parts path := by
    rw [hroot, intercalate_root_parts hne, placeOf_eq hall]
  rw [FileSink.absoluteRoot_eq hrooted hclean]
  refine ⟨_, resolve_of_append _ happend, rfl, ?_, ?_, ?_⟩
  · cases Path.parts path with
    | nil => exact .inl rfl
    | cons part parts =>
        rw [String.intercalate_cons_cons]
        exact .inr (startsWith_append _ _)
  · rw [hplace, hroot, placeOf_eq hnames]
  · rw [hplace]
    exact fun hclimb => (hall ".." hclimb).1.2.2 rfl

/-- A file in a folder ends up there, and the single dot stays at the root. -/
theorem user_file_stays_below :
    checkPath "models/User.cs" = .ok () ∧ checkPath "." = .ok () ∧
    FileSink.resolve (FileSink.absoluteRoot { root := "/srv/out" }) "models/User.cs" = .ok "/srv/out/models/User.cs" ∧
    FileSink.resolve (FileSink.absoluteRoot { root := "/srv/out" }) "." = .ok "/srv/out" := by
  have hfile : checkPath "models/User.cs" = .ok () := checkPath_eq_ok_iff.mpr (by decide +kernel)
  have hdot : checkPath "." = .ok () := checkPath_eq_ok_iff.mpr (by decide +kernel)
  have hbelow {path : String} (hpath : checkPath path = .ok ()) :=
    accepted_path_stays_below (s := { root := "/srv/out" }) (by decide +kernel) (by decide +kernel) (by decide) hpath
  obtain ⟨_, hfull, rfl, -⟩ := (hbelow hfile).1
  obtain ⟨_, hroot, rfl, -⟩ := (hbelow hdot).1
  exact ⟨hfile, hdot, hfull, hroot⟩

end ClientForge.Output
