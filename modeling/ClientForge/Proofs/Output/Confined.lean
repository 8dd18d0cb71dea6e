import ClientForge.Proofs.Output.Writing

/-!
# Writes below the root

What a write does to files is read off from its course: it fills, moves and removes the temporary file, which is in the
directory of the destination, and the destination itself. So it stays below the root as long as the destination does.
The single dot is the one path that is accepted and leads to the root itself, where the directory of the destination
is above the root.

* **`Course.forall_files_iff`.** The files that a course is about.
* **`write_confined_iff`.** Which writes stay below the root.
-/

namespace ClientForge.Output

open ClientForge.Text

/-- The files that a change creates, replaces or removes. -/
def Change.files : Change → List Place
  | .makeDirectory _ => []
  | .fill at_ _ _ | .remove at_ => [at_]
  | .move source target => [source, target]
  | .link _ target => [target]

/-- Whether a place is strictly below another one. -/
def StrictlyBelow (root place : Place) : Prop := root <+: place ∧ root ≠ place

theorem strictlyBelow_append (root : Place) {rest : Place} (h : rest ≠ []) : StrictlyBelow root (root ++ rest) :=
  ⟨List.prefix_append root rest, by simpa using h⟩

/-- A neighbour of a place is not below it. -/
theorem not_strictlyBelow_beside {root : Place} (h : root ≠ []) (name : String) :
    ¬StrictlyBelow root (root.dropLast ++ [name]) := by
  rintro ⟨hbelow, hne⟩
  refine hne (hbelow.eq_of_length ?_)
  have hpos := List.length_pos_iff.mpr h
  simp only [List.length_append, List.length_dropLast, List.length_singleton]
  omega

namespace FileSink

section Course

variable {s : FileSink} {c : Circumstances} {content : String} {d : Disk} {place : Place} {changes : List Change}
  {outcome : Except Failure Unit}

theorem temporaryIn_eq (c : Circumstances) (d : Disk) (dir : Place) : ∃ name, temporaryIn c d dir = dir ++ [name] := by
  obtain ⟨n, -, heq⟩ := (freshPlace_spec (prepared d dir) dir c.draw).2
  exact ⟨_, heq⟩

theorem files_makeDirectories {made : List Place} {change : Change} (h : change ∈ made.map .makeDirectory) :
    change.files = [] := by
  obtain ⟨at_, -, rfl⟩ := List.mem_map.mp h
  rfl

/-- Filling a temporary file touches that file only. -/
theorem forall_files_fills {P : Place → Prop} {temporary : Place} {fills : List Change}
    (hfills : ∀ change ∈ fills, IsFill temporary change) (h : P temporary) :
    ∀ change ∈ fills, ∀ q ∈ change.files, P q := by
  intro change hchange q hq
  obtain ⟨text, mode, rfl⟩ := hfills change hchange
  rwa [List.mem_singleton.mp hq]

/-- A course is about the temporary file, once there is one, and the destination, if it gets there. -/
theorem Course.forall_files_iff (h : Course s c content d place outcome changes) {P : Place → Prop} :
    (∀ change ∈ changes, ∀ q ∈ change.files, P q) ↔
      (Begins c d place.dropLast → P (temporaryIn c d place.dropLast)) ∧ (outcome = .ok () → P place) := by
  have hdirectories {made : List Place} : ∀ change ∈ made.map Change.makeDirectory, ∀ q ∈ change.files, P q :=
    fun change hchange q hq => by simp [files_makeDirectories hchange] at hq
  cases h with
  | stopped made _ failure hbegins => exact iff_of_true hdirectories ⟨fun h => absurd h hbegins, by simp⟩
  | discarded fills hfills failure hbegins _ =>
      simp only [List.forall_mem_append]
      constructor
      · rintro ⟨-, -, hremove⟩
        exact ⟨fun _ => hremove _ (List.mem_singleton_self _) _ (List.mem_singleton_self _), by simp⟩
      · rintro ⟨htemporary, -⟩
        have hbegun := htemporary hbegins
        exact ⟨hdirectories, forall_files_fills hfills hbegun, by simpa [Change.files] using hbegun⟩
  | done fills hfills hbegins _ =>
      rw [List.forall_mem_append, List.forall_mem_append, List.forall_mem_cons]
      have hpublication : (∀ change ∈ publication s (temporaryIn c d place.dropLast) place, ∀ q ∈ change.files, P q) ↔
          P (temporaryIn c d place.dropLast) ∧ P place := by
        unfold publication
        split
        · simp [Change.files]
        · simp [Change.files, and_comm]
      rw [hpublication]
      constructor
      · rintro ⟨-, -, -, htemporary, hplace⟩
        exact ⟨fun _ => htemporary, fun _ => hplace⟩
      · rintro ⟨htemporary, hplace⟩
        exact ⟨hdirectories, forall_files_fills hfills (htemporary hbegins),
          by simpa [Change.files] using htemporary hbegins, htemporary hbegins, hplace rfl⟩

/-- Only missing directories on the way to the destination are made. -/
theorem Course.mem_missing (h : Course s c content d place outcome changes) {q : Place}
    (hq : .makeDirectory q ∈ changes) : q ∈ d.missing place.dropLast := by
  have hmade {made : List Place} (hmem : Change.makeDirectory q ∈ made.map .makeDirectory) : q ∈ made := by
    simpa using hmem
  have hfill {temporary : Place} {fills : List Change} (hfills : ∀ change ∈ fills, IsFill temporary change) :
      Change.makeDirectory q ∉ fills := fun hmem => by
    obtain ⟨text, mode, heq⟩ := hfills _ hmem
    cases heq
  cases h with
  | stopped made hprefix failure _ => exact hprefix.subset (hmade hq)
  | discarded fills hfills failure _ _ =>
      rcases List.mem_append.mp hq with hq | hq
      · exact hmade hq
      · exact absurd hq (by simpa using hfill hfills)
  | done fills hfills _ _ =>
      rcases List.mem_append.mp hq with hq | hq
      · exact hmade hq
      · refine absurd hq ?_
        unfold publication
        split <;> simpa using hfill hfills

/-- A write makes no file of a place that it does not lead to, and keeps those that are there. -/
theorem Leaves.isFile_eq {d' : Disk} {entry : Option Entry} (h : Leaves d d' place entry) {q : Place} (hq : q ≠ place) :
    d'.isFile q = d.isFile q := by
  rcases h.2 q hq with hsame | ⟨-, hnone, hdirectory⟩
  · simp only [Disk.isFile, hsame]
  · simp only [Disk.isFile, hnone, hdirectory]

end Course

/-! ### Roots -/

section Root

variable {s : FileSink} {names : List String} {root path full : String}

/-- Behind the top directory, an accepted path is the place that it names. -/
theorem append_top (h : path = "." ∨ ∀ part ∈ split '/' path, Path.IsName part) :
    Path.append "/" path = "/" ++ "/".intercalate (Path.parts path) := by
  have hrooted : startsWith ("/" ++ "/" ++ path) "/" = true := by
    simpa only [String.append_assoc] using Path.startsWith_slash _
  have htop : split '/' "/" = ["", ""] := by decide +kernel
  have hstack : (split '/' ("/" ++ "/" ++ path)).foldl (Path.step true) [] = (Path.parts path).reverse := by
    rw [Path.split_slash_append, htop, List.foldl_append, Path.foldl_step_parts h]
    simp [Path.step]
  have hclean : Path.clean ("/" ++ "/" ++ path) = "/" ++ "/".intercalate (Path.parts path) := by
    simp only [Path.clean, hrooted, if_true, hstack, List.reverse_reverse]
  simpa [Path.append, (Path.relative_of_names h).1] using hclean

/-- An accepted path behind a root. -/
theorem append_root (hnames : Path.AreNames names) (hroot : root = "/" ++ "/".intercalate names)
    (hpath : checkPath path = .ok ()) : Path.append root path = "/" ++ "/".intercalate (names ++ Path.parts path) := by
  obtain ⟨-, -, hparts⟩ := checkPath_eq_ok_iff.mp hpath
  by_cases hne : names = []
  · subst hne hroot
    exact append_top hparts
  · have hempty : root ≠ "" := by
      rw [hroot]
      simp
    rw [← Path.clean_append hnames hne hparts, ← hroot]
    simp [Path.append, hempty, (Path.relative_of_names hparts).1]

theorem resolve_eq_ok (h : resolve root path = .ok full) : full = Path.append root path := by
  unfold resolve at h
  dsimp only at h
  split at h
  · cases h
  · exact (Except.ok.inj h).symm

/-- An accepted path leads to the place of the root with the parts of the path behind it. -/
theorem placeOf_resolved (hrooted : startsWith s.root "/" = true) (hclean : Path.clean s.root = s.root)
    (hpath : checkPath path = .ok ()) (hfull : resolve s.absoluteRoot path = .ok full) :
    placeOf full = placeOf s.root ++ Path.parts path := by
  obtain ⟨names, hnames, hroot⟩ := (Path.clean_eq_self_iff_of_rooted hrooted).mp hclean
  have hall : Path.AreNames (names ++ Path.parts path) := fun name hname =>
    (List.mem_append.mp hname).elim (hnames name) (areNames_parts hpath name)
  rw [resolve_eq_ok hfull, absoluteRoot_eq hrooted hclean, append_root hnames hroot hpath, placeOf_eq hall, hroot,
    placeOf_eq hnames]

theorem checkPath_dot : checkPath "." = .ok () := checkPath_eq_ok_iff.mpr (by decide +kernel)

/-- The single dot leads to the root itself. -/
theorem resolve_dot (hrooted : startsWith s.root "/" = true) (hclean : Path.clean s.root = s.root) :
    resolve s.absoluteRoot "." = .ok s.root := by
  obtain ⟨names, hnames, hroot⟩ := (Path.clean_eq_self_iff_of_rooted hrooted).mp hclean
  have hdot : Path.append s.root "." = s.root := by
    rw [append_root hnames hroot checkPath_dot, hroot]
    simp [Path.parts]
  rw [absoluteRoot_eq hrooted hclean]
  exact resolve_of_append [] hdot

/-- Only the top directory has no names on the way to it. -/
theorem placeOf_eq_nil_iff (hrooted : startsWith s.root "/" = true) (hclean : Path.clean s.root = s.root) :
    placeOf s.root = [] ↔ s.root = "/" := by
  obtain ⟨names, hnames, hroot⟩ := (Path.clean_eq_self_iff_of_rooted hrooted).mp hclean
  constructor
  · intro hnil
    rw [hroot, placeOf_eq hnames] at hnil
    rwa [hnil] at hroot
  · intro htop
    rw [htop]
    decide +kernel

/-- Of the accepted paths only the single dot has no parts. -/
theorem parts_eq_nil_iff (hpath : checkPath path = .ok ()) : Path.parts path = [] ↔ path = "." := by
  have hne := (Path.relative_of_names (checkPath_eq_ok_iff.mp hpath).2.2).1
  simp [Path.parts, hne, split_ne_nil]

end Root

/-! ### Which writes stay below the root -/

section Confined

variable {s : FileSink} {c : Circumstances} {content : String} {d : Disk} {root parts : Place} {changes : List Change}
  {outcome : Except Failure Unit}

/-- A course leads out of a root exactly if its destination is the root itself, and there is a temporary file. -/
theorem Course.confined_iff (h : Course s c content d (root ++ parts) outcome changes) :
    (∀ change ∈ changes, ∀ q ∈ change.files, StrictlyBelow root q) ↔
      ¬(parts = [] ∧ root ≠ [] ∧ Begins c d root.dropLast) := by
  rw [h.forall_files_iff]
  obtain ⟨name, htemporary⟩ := temporaryIn_eq c d (root ++ parts).dropLast
  rw [htemporary]
  by_cases hparts : parts = []
  · subst hparts
    rw [List.append_nil] at h ⊢
    by_cases hroot : root = []
    · subst hroot
      refine iff_of_true ⟨fun _ => strictlyBelow_append [] (List.cons_ne_nil name []), fun hok => ?_⟩ (by simp)
      exact absurd rfl (h.ok_iff.mp hok).2.2.ne_nil
    · constructor
      · rintro ⟨hbelow, -⟩ ⟨-, -, hbegins⟩
        exact not_strictlyBelow_beside hroot name (hbelow hbegins)
      · intro hstays
        have hnot : ¬Begins c d root.dropLast := fun hbegins => hstays ⟨rfl, hroot, hbegins⟩
        exact ⟨fun hbegins => absurd hbegins hnot, fun hok => absurd (h.ok_iff.mp hok).1 hnot⟩
  · refine iff_of_true ⟨fun _ => ?_, fun _ => strictlyBelow_append root hparts⟩ fun hout => hparts hout.1
    rw [List.dropLast_append_of_ne_nil hparts, List.append_assoc]
    exact strictlyBelow_append root (by simp)

/-- The directories that a course makes. -/
theorem Course.directories (h : Course s c content d (root ++ parts) outcome changes) {q : Place}
    (hq : .makeDirectory q ∈ changes) : d.get? q = none ∧ (q <+: root ∨ root <+: q) := by
  obtain ⟨hway, hnone⟩ := Disk.mem_missing.mp (h.mem_missing hq)
  refine ⟨hnone, ?_⟩
  exact List.prefix_or_prefix_of_prefix (hway.trans (List.dropLast_prefix _)) (List.prefix_append root parts)

/-- A course makes a file of the root exactly if it leads there and is done. -/
theorem Course.isFile_root_iff (h : Course s c content d (root ++ parts) outcome changes) :
    (d.applyAll changes).isFile root = true ↔ d.isFile root = true ∨ parts = [] ∧ outcome = .ok () := by
  by_cases hparts : parts = []
  · subst hparts
    rw [List.append_nil] at h
    rcases h.leaves with ⟨⟨failure, rfl⟩, hleaves⟩ | ⟨rfl, hleaves⟩
    · simp [Disk.isFile, hleaves.1]
    · simp [Disk.isFile, hleaves.1]
  · have hother : root ≠ root ++ parts := (strictlyBelow_append root hparts).2
    rcases h.leaves with ⟨-, hleaves⟩ | ⟨-, hleaves⟩ <;> simp [hleaves.isFile_eq hother, hparts]

variable (c content d) (path : String)

/-- Which writes stay below a root in its shortest form. All that is done to files is done strictly below it, unless
the path is the single dot: then, as soon as there is a temporary file, it is beside the root. Directories are made
where there was nothing, on the way to the root or below it. And the root itself becomes a file exactly if one is
written to the single dot. -/
theorem write_confined_iff (hrooted : startsWith s.root "/" = true) (hclean : Path.clean s.root = s.root) :
    let run := (writing s c path content).run.run ⟨d, []⟩
    (writeFile s c path content).run.run d = (run.1, d.applyAll run.2.changes) ∧
    ((∀ change ∈ run.2.changes, ∀ q ∈ change.files, StrictlyBelow (placeOf s.root) q) ↔
      ¬(path = "." ∧ s.root ≠ "/" ∧ c.cancelled = false ∧ Begins c d (placeOf s.root).dropLast)) ∧
    (∀ q, .makeDirectory q ∈ run.2.changes → d.get? q = none ∧ (q <+: placeOf s.root ∨ placeOf s.root <+: q)) ∧
    ((d.applyAll run.2.changes).isFile (placeOf s.root) = true ↔
      d.isFile (placeOf s.root) = true ∨ path = "." ∧ run.1 = .ok ()) := by
  rw [run_writeFile]
  rcases run_writing s c content path ⟨d, []⟩ with
    ⟨full, outcome, changes, hresolve, hcheck, hcourse, hrun⟩ | ⟨hrefused, failure, hrun⟩
  · obtain ⟨hpath, hcancelled⟩ := checkWrite_eq_ok_iff.mp hcheck
    rw [placeOf_resolved hrooted hclean hpath hresolve] at hcourse
    have hconfined := hcourse.confined_iff
    have hisFile := hcourse.isFile_root_iff
    simp only [parts_eq_nil_iff hpath, ne_eq, placeOf_eq_nil_iff hrooted hclean] at hconfined hisFile
    simp only [hrun, Trail.after, List.nil_append, hcancelled, ne_eq, true_and]
    exact ⟨hconfined, fun q => hcourse.directories, hisFile⟩
  · have hdot : ¬(path = "." ∧ c.cancelled = false) := by
      rintro ⟨rfl, hcancelled⟩
      exact hrefused _ (resolve_dot hrooted hclean) (checkWrite_eq_ok_iff.mpr ⟨checkPath_dot, hcancelled⟩)
    simp only [hrun, Disk.applyAll_nil, List.not_mem_nil, false_implies, implies_true, true_and, true_iff, reduceCtorEq,
      and_false, or_false, and_true]
    rintro ⟨hpath, -, hcancelled, -⟩
    exact hdot ⟨hpath, hcancelled⟩

/-- A file in a folder is written below the root, and the single dot makes a file of it. -/
theorem user_file_confined_and_dot_not :
    let file := (writing Sample.sink {} "models/User.cs" "new").run.run ⟨Sample.disk, []⟩
    let dot := (writing Sample.sink {} "." "new").run.run ⟨⟨[]⟩, []⟩
    (∀ change ∈ file.2.changes, ∀ q ∈ change.files, StrictlyBelow ["srv", "out"] q) ∧
      ¬(∀ change ∈ dot.2.changes, ∀ q ∈ change.files, StrictlyBelow ["srv", "out"] q) ∧
      dot.1 = .ok () ∧ Disk.isFile (Disk.applyAll ⟨[]⟩ dot.2.changes) ["srv", "out"] = true := by
  have hrooted : startsWith Sample.sink.root "/" = true := by decide +kernel
  have hclean : Path.clean Sample.sink.root = Sample.sink.root := by decide +kernel
  have hplace : placeOf Sample.sink.root = ["srv", "out"] := by decide +kernel
  have hway : ∀ q, q <+: ["srv"] → Disk.isFile ⟨[]⟩ q = false := fun q hq =>
    (by decide : ∀ q ∈ Disk.way ["srv"], Disk.isFile ⟨[]⟩ q = false) q (Disk.mem_way.mpr hq)
  obtain ⟨-, hfile, -⟩ := write_confined_iff {} "new" Sample.disk "models/User.cs" hrooted hclean
  obtain ⟨-, hdot, -, hroot⟩ := write_confined_iff {} "new" ⟨[]⟩ "." hrooted hclean
  rw [hplace] at hfile hdot hroot
  have hok : ((writing Sample.sink {} "." "new").run.run ⟨⟨[]⟩, []⟩).1 = .ok () := by
    refine (writing_ok_iff Sample.sink {} "new" "." ⟨⟨[]⟩, []⟩).mpr
      ⟨checkWrite_eq_ok_iff.mpr ⟨checkPath_dot, rfl⟩, _, resolve_dot hrooted hclean, ?_⟩
    rw [hplace]
    exact ⟨⟨rfl, rfl, hway⟩, ⟨rfl, rfl, rfl, rfl⟩, rfl, by decide⟩
  refine ⟨hfile.mpr fun hout => absurd hout.1 (by decide), fun hstays => ?_, hok, hroot.mpr (.inr ⟨rfl, hok⟩)⟩
  exact hdot.mp hstays ⟨rfl, by decide, rfl, rfl, rfl, hway⟩

end Confined

end FileSink

end ClientForge.Output
