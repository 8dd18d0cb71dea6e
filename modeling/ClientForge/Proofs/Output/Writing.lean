import ClientForge.Proofs.Output.Below
import ClientForge.Proofs.Output.Disk

/-!
# The course of a write

A write makes the directories that are missing, fills a temporary file and puts it in its place. Whatever fails on the
way, and however far a step has come when it fails, there are three courses only (`Course`): it stops before there is a
temporary file, it removes the temporary file again, or it is done. What a write leaves on the disk is read off from
its course.

* **`run_writeTo`.** Every write takes one of the courses, and which one is decided by what is in its way.
* **`Course.leaves`.** What a course leaves on the disk.
* **`file_written_whole_or_not_at_all`.** A file is written with all of its content, or the disk is as it was but for
  directories on the way.
-/

namespace ClientForge.Output

open ClientForge.Text

/-! ### Running steps -/

@[simp]
theorem Trail.after_nil (t : Trail) : t.after [] = t := by
  simp [Trail.after]

theorem Trail.after_after (t : Trail) (first second : List Change) :
    (t.after first).after second = t.after (first ++ second) := by
  simp [Trail.after]

namespace TrailAction

variable {t u : Trail} {failure : Failure} {c : Circumstances} {g : Stage} {y : TrailAction Unit} {at_ : Place}

theorem run_change (changes : List Change) (t : Trail) : (change changes).run.run t = (.ok (), t.after changes) := rfl

/-- A step that the system fails at has made some of its changes. -/
theorem run_attempt_of_fault {fault : Fault} (h : c.fault g.step = some fault) (t : Trail) :
    (attempt c g).run.run t = (.error (g.failure fault.why), t.after (g.begun t.disk fault.progress)) := by
  unfold attempt
  rw [run_get_bind, h]
  rfl

/-- A step that makes a single change has made none when it fails. -/
theorem run_attempt_of_fault_nil {fault : Fault} (h : c.fault g.step = some fault)
    (hbegun : g.begun t.disk fault.progress = []) :
    (attempt c g).run.run t = (.error (g.failure fault.why), t) := by
  rw [run_attempt_of_fault h, hbegun, Trail.after_nil]

/-- A step with nothing in its way makes its changes. -/
theorem run_attempt_of_ok (changes : List Change) (h : c.fault g.step = none)
    (hchanges : g.changes t.disk = .ok changes) :
    (attempt c g).run.run t = (.ok (), t.after changes) := by
  unfold attempt
  rw [run_get_bind, h]
  simp only [hchanges]
  rfl

/-- A step with something in its way makes none. -/
theorem run_attempt_of_obstacle (obstacle : Obstacle) (h : c.fault g.step = none)
    (hchanges : g.changes t.disk = .error obstacle) :
    (attempt c g).run.run t = (.error (g.failure obstacle.message), t) := by
  unfold attempt
  rw [run_get_bind, h]
  simp only [hchanges]
  rfl

theorem run_orDiscard_of_ok (h : y.run.run t = (.ok (), u)) : (orDiscard at_ y).run.run t = (.ok (), u) := by
  simp only [orDiscard, tryCatch, tryCatchThe, MonadExceptOf.tryCatch, ExceptT.tryCatch, ExceptT.run_mk,
    StateT.run_bind]
  change (y.run.run t >>= _) = _
  rw [h]
  rfl

/-- After a failure the file is removed. -/
theorem run_orDiscard_of_error (h : y.run.run t = (.error failure, u)) :
    (orDiscard at_ y).run.run t = (.error failure, u.after [.remove at_]) := by
  simp only [orDiscard, tryCatch, tryCatchThe, MonadExceptOf.tryCatch, ExceptT.tryCatch, ExceptT.run_mk,
    StateT.run_bind]
  change (y.run.run t >>= _) = _
  rw [h]
  rfl

end TrailAction

open TrailAction

/-! ### What is in the way -/

theorem Disk.mem_way {at_ place : Place} : place ∈ Disk.way at_ ↔ place <+: at_ := by
  constructor
  · intro h
    obtain ⟨n, -, rfl⟩ := List.mem_map.mp h
    exact List.take_prefix n at_
  · intro h
    refine List.mem_map.mpr ⟨place.length, ?_, (List.prefix_iff_eq_take.mp h).symm⟩
    exact List.mem_range.mpr (Nat.lt_succ_of_le h.length_le)

theorem Disk.mem_missing {d : Disk} {at_ place : Place} :
    place ∈ d.missing at_ ↔ place <+: at_ ∧ d.get? place = none := by
  simp [Disk.missing, Disk.mem_way]

namespace FileSink

variable (s : FileSink) (c : Circumstances) (content : String) (d : Disk)

/-- Whether a write to a directory comes to a temporary file: directories can be made, and files created. -/
def Begins (dir : Place) : Prop :=
  c.fault .makeDirectories = none ∧ c.fault .createTemporary = none ∧ ∀ place, place <+: dir → d.isFile place = false

/-- Whether a temporary file is completed. -/
def Fills : Prop :=
  c.fault .write = none ∧ c.fault .close = none ∧ c.fault .setMode = none ∧ c.cancelledLater = false

/-- Whether a complete temporary file gets to its place: a file that is there may be replaced, and otherwise there is
none, nor is it the temporary file itself. -/
def Publishes (temporary place : Place) : Prop :=
  if s.overwrite then c.fault .rename = none ∧ d.get? place ≠ some .directory
  else c.fault .link = none ∧ d.get? place = none ∧ place ≠ temporary

/-- The disk with the directories on the way to a directory. -/
def prepared (dir : Place) : Disk := d.applyAll ((d.missing dir).map .makeDirectory)

/-- Where the temporary file for a directory is. -/
def temporaryIn (dir : Place) : Place := freshPlace (prepared d dir) dir c.draw

/-- The changes that put a temporary file in its place. -/
def publication (temporary place : Place) : List Change :=
  if s.overwrite then [.move temporary place] else [.link temporary place, .remove temporary]

def IsFill (temporary : Place) (change : Change) : Prop := ∃ text mode, change = .fill temporary text mode

/-- The courses of a write to a place: the outcome, and the changes to the disk. -/
inductive Course (place : Place) : Except Failure Unit → List Change → Prop
  /-- There is no temporary file, and some of the missing directories are made. -/
  | stopped (made : List Place) (hmade : made <+: d.missing place.dropLast) (failure : Failure)
      (hbegins : ¬Begins c d place.dropLast) : Course place (.error failure) (made.map .makeDirectory)
  /-- The temporary file is removed, whatever is in it by then. -/
  | discarded (fills : List Change) (hfills : ∀ change ∈ fills, IsFill (temporaryIn c d place.dropLast) change)
      (failure : Failure) (hbegins : Begins c d place.dropLast)
      (hdone : ¬(Fills c ∧ Publishes s c d (temporaryIn c d place.dropLast) place)) :
      Course place (.error failure)
        ((d.missing place.dropLast).map .makeDirectory ++ (fills ++ [.remove (temporaryIn c d place.dropLast)]))
  | done (fills : List Change) (hfills : ∀ change ∈ fills, IsFill (temporaryIn c d place.dropLast) change)
      (hbegins : Begins c d place.dropLast)
      (hdone : Fills c ∧ Publishes s c d (temporaryIn c d place.dropLast) place) :
      Course place (.ok ())
        ((d.missing place.dropLast).map .makeDirectory ++
          (fills ++ .fill (temporaryIn c d place.dropLast) content s.fileMode ::
            publication s (temporaryIn c d place.dropLast) place))

/-! ### Prepared disks -/

section Prepared

variable {c d} {dir place q : Place}

theorem get?_prepared : (prepared d dir).get? q = if q ∈ d.missing dir then some .directory else d.get? q :=
  Disk.get?_applyAll_directories _

/-- Nothing is lost, and only directories are added. -/
theorem get?_prepared_cases (d : Disk) (dir q : Place) :
    (prepared d dir).get? q = d.get? q ∨
      (q <+: dir ∧ d.get? q = none ∧ (prepared d dir).get? q = some .directory) := by
  rw [get?_prepared]
  by_cases h : q ∈ d.missing dir
  · obtain ⟨hway, hnone⟩ := Disk.mem_missing.mp h
    exact .inr ⟨hway, hnone, if_pos h⟩
  · exact .inl (if_neg h)

/-- The directories on the way to a place do not lead over the place itself. -/
theorem notMem_missing_dropLast (d : Disk) (place : Place) : place ∉ d.missing place.dropLast := by
  intro h
  obtain ⟨hway, hnone⟩ := Disk.mem_missing.mp h
  have hne : place ≠ [] := by
    rintro rfl
    cases hnone
  have hlength := hway.length_le
  have hpos := List.length_pos_iff.mpr hne
  rw [List.length_dropLast] at hlength
  omega

theorem get?_prepared_self (d : Disk) (place : Place) : (prepared d place.dropLast).get? place = d.get? place := by
  rw [get?_prepared, if_neg (notMem_missing_dropLast d place)]

theorem isDirectory_prepared (h : ∀ place, place <+: dir → d.isFile place = false) :
    (prepared d dir).isDirectory dir = true := by
  unfold Disk.isDirectory
  rw [get?_prepared]
  split
  · rfl
  · next hmissing =>
    have hhere : d.get? dir ≠ none := fun hnone => hmissing (Disk.mem_missing.mpr ⟨List.prefix_rfl, hnone⟩)
    have hfile := h dir List.prefix_rfl
    unfold Disk.isFile at hfile
    cases hentry : d.get? dir with
    | none => exact absurd hentry hhere
    | some entry => cases entry with
      | directory => rfl
      | file => simp [hentry] at hfile

/-- There is nothing yet where the temporary file is going to be. -/
theorem get?_prepared_temporaryIn (c : Circumstances) (d : Disk) (dir : Place) :
    (prepared d dir).get? (temporaryIn c d dir) = none := (freshPlace_spec _ _ _).1

theorem temporaryIn_ne_nil (c : Circumstances) (d : Disk) (dir : Place) : temporaryIn c d dir ≠ [] := by
  obtain ⟨n, -, heq⟩ := (freshPlace_spec (prepared d dir) dir c.draw).2
  simp [temporaryIn, heq]

theorem get?_temporaryIn (c : Circumstances) (d : Disk) (dir : Place) : d.get? (temporaryIn c d dir) = none := by
  have hfree := get?_prepared_temporaryIn c d dir
  rcases get?_prepared_cases d dir (temporaryIn c d dir) with hsame | ⟨-, hnone, -⟩
  · rwa [hsame] at hfree
  · exact hnone

end Prepared

/-! ### Filled files -/

section Filled

variable {temporary q : Place} {fills : List Change} {d}

/-- Filling a file leaves the rest alone. -/
theorem get?_fills_of_ne (hfills : ∀ change ∈ fills, IsFill temporary change) (hq : q ≠ temporary) :
    (d.applyAll fills).get? q = d.get? q := by
  refine Disk.get?_applyAll_of_notMem fun change hchange => ?_
  obtain ⟨text, mode, rfl⟩ := hfills change hchange
  simpa [Change.places] using hq

/-- A file holds what it was filled with. -/
theorem get?_fill (htemporary : temporary ≠ []) (text : String) (mode : Nat) :
    (d.apply (.fill temporary text mode)).get? temporary = some (.file text mode) := by
  rw [Disk.apply, Disk.get?_put htemporary, if_pos rfl]

/-- Where a free place is filled and freed again, the disk is as before. -/
theorem get?_discarded (hfree : d.get? temporary = none) (htemporary : temporary ≠ [])
    (hfills : ∀ change ∈ fills, IsFill temporary change) (q : Place) :
    (d.applyAll (fills ++ [.remove temporary])).get? q = d.get? q := by
  rw [Disk.applyAll_append, Disk.applyAll_cons, Disk.applyAll_nil, Disk.apply]
  by_cases hq : q = temporary
  · rw [hq, Disk.get?_erase htemporary, if_pos rfl, hfree]
  · rw [Disk.get?_erase_of_ne hq, get?_fills_of_ne hfills hq]

end Filled

/-! ### Every write takes a course -/

section Run

variable {c d} {temporary place : Place} {t : Trail}

/-- Filling a temporary file is about that file only. -/
theorem run_fillTemporary (c : Circumstances) (temporary : Place) (t : Trail) :
    ∃ fills, (∀ change ∈ fills, IsFill temporary change) ∧
      ((Fills c ∧ (fillTemporary s c temporary content).run.run t =
          (.ok (), t.after (fills ++ [.fill temporary content s.fileMode]))) ∨
        (¬Fills c ∧ ∃ failure, (fillTemporary s c temporary content).run.run t = (.error failure, t.after fills))) := by
  unfold fillTemporary
  cases hwrite : c.fault .write with
  | some fault =>
      refine ⟨_, ?_, .inr ⟨by simp [Fills, hwrite], _, run_bind_of_error (run_attempt_of_fault hwrite t)⟩⟩
      exact fun change hchange => ⟨_, _, List.mem_singleton.mp hchange⟩
  | none =>
    rw [run_bind_of_ok (run_attempt_of_ok (g := contentStage temporary content) _ hwrite rfl)]
    cases hclose : c.fault .close with
    | some fault =>
        exact ⟨[.fill temporary content 0o600], by simp [IsFill], .inr ⟨by simp [Fills, hclose], _,
          run_bind_of_error (run_attempt_of_fault_nil (g := closingStage temporary) hclose rfl)⟩⟩
    | none =>
      rw [run_bind_of_ok (run_attempt_of_ok (g := closingStage temporary) _ hclose rfl), Trail.after_nil]
      cases hmode : c.fault .setMode with
      | some fault =>
          exact ⟨[.fill temporary content 0o600], by simp [IsFill], .inr ⟨by simp [Fills, hmode], _,
            run_bind_of_error (run_attempt_of_fault_nil (g := modeStage s temporary content) hmode rfl)⟩⟩
      | none =>
        rw [run_bind_of_ok (run_attempt_of_ok (g := modeStage s temporary content) _ hmode rfl)]
        simp only [Trail.after_after]
        cases hlater : c.cancelledLater with
        | true =>
            refine ⟨[.fill temporary content 0o600, .fill temporary content s.fileMode], by simp [IsFill],
              .inr ⟨by simp [Fills, hlater], .cause .cancelled, rfl⟩⟩
        | false =>
            exact ⟨[.fill temporary content 0o600], by simp [IsFill], .inl ⟨⟨hwrite, hclose, hmode, hlater⟩, rfl⟩⟩

/-- A temporary file that is there gets to its place, or nothing happens. -/
theorem run_publish (c : Circumstances) (path : String) (place : Place) (htemporary : (t.disk.get? temporary).isSome) :
    (Publishes s c t.disk temporary place ∧
        (publish s c path temporary place).run.run t = (.ok (), t.after (publication s temporary place))) ∨
      (¬Publishes s c t.disk temporary place ∧
        ∃ failure, (publish s c path temporary place).run.run t = (.error failure, t)) := by
  obtain ⟨entry, hentry⟩ := Option.isSome_iff_exists.mp htemporary
  unfold publish
  cases hoverwrite : s.overwrite with
  | true =>
      simp only [if_true, Publishes, publication, hoverwrite]
      cases hrename : c.fault .rename with
      | some fault =>
          exact .inr ⟨by simp, _, run_attempt_of_fault_nil (g := renamingStage temporary place) hrename rfl⟩
      | none =>
        by_cases hplace : t.disk.get? place = some .directory
        · refine .inr ⟨by simp [hplace], _, run_attempt_of_obstacle .taken hrename ?_⟩
          simp [renamingStage, Disk.moving, hentry, hplace]
        · refine .inl ⟨⟨rfl, hplace⟩, run_attempt_of_ok (g := renamingStage temporary place) _ hrename ?_⟩
          simp only [renamingStage, Disk.moving, hentry]
  | false =>
      simp only [Bool.false_eq_true, if_false, Publishes, publication, hoverwrite]
      rw [run_get_bind]
      cases hlink : c.fault .link with
      | some fault =>
          simp only [Option.isNone_some, Bool.and_false, Bool.false_eq_true, if_false]
          exact .inr ⟨by simp, _,
            run_bind_of_error (run_attempt_of_fault_nil (g := linkingStage temporary place) hlink rfl)⟩
      | none =>
        simp only [Option.isNone_none, Bool.and_true]
        cases hplace : t.disk.get? place with
        | some entry => exact .inr ⟨by simp, _, rfl⟩
        | none =>
          have hother : place ≠ temporary := by
            rintro rfl
            simp [hplace] at htemporary
          simp only [Option.isSome_none, Bool.false_eq_true, if_false]
          refine .inl ⟨⟨trivial, trivial, hother⟩, ?_⟩
          rw [run_bind_of_ok (run_attempt_of_ok (g := linkingStage temporary place) [.link temporary place]
            hlink (by simp [linkingStage, Disk.linking, hentry, hplace]))]
          rw [run_change, Trail.after_after]
          rfl

/-- What a complete temporary file adds to a prepared disk does not decide whether it gets to its place. -/
theorem publishes_iff {fills : List Change} (hfills : ∀ change ∈ fills, IsFill (temporaryIn c d place.dropLast) change)
    (text : String) (mode : Nat) :
    Publishes s c (((prepared d place.dropLast).applyAll fills).apply
        (.fill (temporaryIn c d place.dropLast) text mode)) (temporaryIn c d place.dropLast) place ↔
      Publishes s c d (temporaryIn c d place.dropLast) place := by
  by_cases hplace : place = temporaryIn c d place.dropLast
  · have hnone := get?_temporaryIn c d place.dropLast
    have hfile := get?_fill (d := (prepared d place.dropLast).applyAll fills)
      (temporaryIn_ne_nil c d place.dropLast) text mode
    rw [← hplace] at hnone hfile
    unfold Publishes
    rw [← hplace, hnone, hfile]
    split <;> simp
  · have hsame : (((prepared d place.dropLast).applyAll fills).apply
        (.fill (temporaryIn c d place.dropLast) text mode)).get? place = d.get? place := by
      rw [Disk.get?_apply_of_notMem (by simpa [Change.places] using hplace), get?_fills_of_ne hfills hplace,
        get?_prepared_self]
    unfold Publishes
    rw [hsame]

/-- Once there is a temporary file, it is removed, or it gets to its place with all of its content. -/
theorem run_completion (path : String) {t : Trail} (hprepared : t.disk = prepared d place.dropLast)
    (hbegins : Begins c d place.dropLast) :
    ∃ outcome changes,
      Course s c content d place outcome ((d.missing place.dropLast).map .makeDirectory ++ changes) ∧
      (do
        attempt c (creationStage place.dropLast (temporaryIn c d place.dropLast))
        orDiscard (temporaryIn c d place.dropLast) do
          fillTemporary s c (temporaryIn c d place.dropLast) content
          publish s c path (temporaryIn c d place.dropLast) place : TrailAction Unit).run.run t =
        (outcome, t.after changes) := by
  set temporary := temporaryIn c d place.dropLast with htemporary
  have hdirectory : t.disk.isDirectory place.dropLast = true := hprepared ▸ isDirectory_prepared hbegins.2.2
  rw [run_bind_of_ok (run_attempt_of_ok (g := creationStage place.dropLast temporary)
    [.fill temporary "" 0o600] hbegins.2.1 (by simp [creationStage, Disk.creating, hdirectory]))]
  obtain ⟨fills, hfills, ⟨hfilled, hrun⟩ | ⟨hnot, failure, hrun⟩⟩ :=
    run_fillTemporary s content c temporary (t.after [.fill temporary "" 0o600])
  all_goals
    have hall : ∀ change ∈ .fill temporary "" 0o600 :: fills, IsFill temporary change :=
      List.forall_mem_cons.mpr ⟨⟨_, _, rfl⟩, hfills⟩
    rw [Trail.after_after] at hrun
  · set complete := t.after ([.fill temporary "" 0o600] ++ (fills ++ [.fill temporary content s.fileMode]))
      with hcomplete
    have hdisk : complete.disk = ((prepared d place.dropLast).applyAll (.fill temporary "" 0o600 :: fills)).apply
        (.fill temporary content s.fileMode) := by
      simp [hcomplete, Trail.after, hprepared]
    have hthere : (complete.disk.get? temporary).isSome := by
      rw [hdisk, get?_fill (temporaryIn_ne_nil c d place.dropLast)]
      rfl
    rcases run_publish s c path place hthere with
      ⟨hpublishes, hpublish⟩ | ⟨hpublishes, failure, hpublish⟩
    · rw [hdisk, publishes_iff s hall] at hpublishes
      refine ⟨_, _, .done _ hall hbegins ⟨hfilled, hpublishes⟩, ?_⟩
      rw [run_orDiscard_of_ok (by rw [run_bind_of_ok hrun, hpublish]), hcomplete, Trail.after_after]
      simp [htemporary]
    · rw [hdisk, publishes_iff s hall] at hpublishes
      have hwhole : ∀ change ∈ (.fill temporary "" 0o600 :: fills) ++ [.fill temporary content s.fileMode],
          IsFill temporary change :=
        List.forall_mem_append.mpr ⟨hall, by simp [IsFill]⟩
      refine ⟨_, _, .discarded _ hwhole failure hbegins (fun h => hpublishes h.2), ?_⟩
      rw [run_orDiscard_of_error (by rw [run_bind_of_ok hrun, hpublish]), hcomplete, Trail.after_after]
      simp [htemporary]
  · refine ⟨_, _, .discarded _ hall failure hbegins (fun h => hnot h.1), ?_⟩
    rw [run_orDiscard_of_error (run_bind_of_error hrun), Trail.after_after]
    simp [htemporary]

/-- Every write to a place takes one of the courses. -/
theorem run_writeTo (c : Circumstances) (path : String) (place : Place) (t : Trail) :
    ∃ outcome changes, Course s c content t.disk place outcome changes ∧
      (writeTo s c path content place).run.run t = (outcome, t.after changes) := by
  unfold writeTo
  dsimp only
  cases hdirectories : c.fault .makeDirectories with
  | some fault =>
      exact ⟨_, _, .stopped _ (List.take_prefix _ _) _ (by simp [Begins, hdirectories]),
        run_bind_of_error (run_attempt_of_fault (g := directoryStage place.dropLast) hdirectories t)⟩
  | none =>
    by_cases hway : (Disk.way place.dropLast).any t.disk.isFile = true
    · have hfile : ¬Begins c t.disk place.dropLast := by
        rintro ⟨-, -, hclear⟩
        obtain ⟨q, hq, hfile⟩ := List.any_eq_true.mp hway
        rw [hclear q (Disk.mem_way.mp hq)] at hfile
        cases hfile
      have hrun := run_attempt_of_obstacle (g := directoryStage place.dropLast) (t := t) .notDirectory
        hdirectories (if_pos hway)
      exact ⟨_, [], .stopped [] List.nil_prefix _ hfile, (run_bind_of_error hrun).trans (by rw [Trail.after_nil])⟩
    · have hclear : ∀ q, q <+: place.dropLast → t.disk.isFile q = false := fun q hq => by
        simpa using mt (fun hfile => List.any_eq_true.mpr ⟨q, Disk.mem_way.mpr hq, hfile⟩) hway
      rw [run_bind_of_ok (run_attempt_of_ok (g := directoryStage place.dropLast)
        ((t.disk.missing place.dropLast).map .makeDirectory) hdirectories (if_neg hway)),
        run_get_bind]
      cases hcreate : c.fault .createTemporary with
      | some fault =>
          exact ⟨_, _, .stopped _ List.prefix_rfl _ (by simp [Begins, hcreate]),
            run_bind_of_error (run_attempt_of_fault_nil (g := creationStage _ _) hcreate rfl)⟩
      | none =>
        obtain ⟨outcome, changes, hcourse, hrun⟩ := run_completion s content path
          (t := t.after ((t.disk.missing place.dropLast).map .makeDirectory)) rfl ⟨hdirectories, hcreate, hclear⟩
        exact ⟨outcome, _, hcourse, by rw [← Trail.after_after]; exact hrun⟩

end Run

/-! ### What a course leaves -/

/-- What a write leaves on a disk: something at its destination, and everywhere else what was there before, but for
directories made on the way. -/
def Leaves (d d' : Disk) (destination : Place) (entry : Option Entry) : Prop :=
  d'.get? destination = entry ∧ ∀ q, q ≠ destination → d'.get? q = d.get? q ∨
    (q <+: destination.dropLast ∧ d.get? q = none ∧ d'.get? q = some .directory)

section Leaves

variable {s c content d} {place : Place} {changes : List Change} {outcome : Except Failure Unit}

/-- It is enough to compare with the prepared disk. -/
theorem leaves_of_prepared {d' : Disk} {entry : Option Entry} (hplace : d'.get? place = entry)
    (hothers : ∀ q, q ≠ place → d'.get? q = (prepared d place.dropLast).get? q) : Leaves d d' place entry := by
  refine ⟨hplace, fun q hq => ?_⟩
  rw [hothers q hq]
  exact get?_prepared_cases d place.dropLast q

/-- Directories that were made on the way leave the destination as it was. -/
theorem leaves_of_prefix {made : List Place} (hmade : made <+: d.missing place.dropLast) :
    Leaves d (d.applyAll (made.map .makeDirectory)) place (d.get? place) := by
  have hget : ∀ q, (d.applyAll (made.map .makeDirectory)).get? q = if q ∈ made then some .directory else d.get? q :=
    fun q => Disk.get?_applyAll_directories made
  refine ⟨?_, fun q _ => ?_⟩
  · rw [hget, if_neg fun h => notMem_missing_dropLast d place (hmade.subset h)]
  · rw [hget]
    by_cases hq : q ∈ made
    · obtain ⟨hway, hnone⟩ := Disk.mem_missing.mp (hmade.subset hq)
      exact .inr ⟨hway, hnone, if_pos hq⟩
    · exact .inl (if_neg hq)

/-- A published file is at its place, and nothing else has changed. -/
theorem get?_published (content : String) {temporary : Place} (htemporary : temporary ≠ []) (hplace : place ≠ [])
    (hfree : d.get? temporary = none) (hpublishes : s.overwrite = false → place ≠ temporary) {fills : List Change}
    (hfills : ∀ change ∈ fills, IsFill temporary change) (q : Place) :
    (d.applyAll (fills ++ .fill temporary content s.fileMode :: publication s temporary place)).get? q =
      if q = place then some (.file content s.fileMode) else d.get? q := by
  rw [Disk.applyAll_append, Disk.applyAll_cons]
  have hfill := get?_fill (d := d.applyAll fills) htemporary content s.fileMode
  have hothers : ∀ q, q ≠ temporary →
      ((d.applyAll fills).apply (.fill temporary content s.fileMode)).get? q = d.get? q := fun q hq => by
    rw [Disk.get?_apply_of_notMem (by simpa [Change.places] using hq), get?_fills_of_ne hfills hq]
  set filled := (d.applyAll fills).apply (.fill temporary content s.fileMode)
  unfold publication
  cases hoverwrite : s.overwrite with
  | true =>
      simp only [if_true, Disk.applyAll_cons, Disk.applyAll_nil, Disk.apply, hfill]
      by_cases hq : q = place
      · rw [hq, Disk.get?_put hplace, if_pos rfl, if_pos rfl]
      · rw [Disk.get?_put_of_ne hq, if_neg hq]
        by_cases hqt : q = temporary
        · rw [hqt, Disk.get?_erase htemporary, if_pos rfl, hfree]
        · rw [Disk.get?_erase_of_ne hqt, hothers q hqt]
  | false =>
      have hne := hpublishes hoverwrite
      simp only [Bool.false_eq_true, if_false, Disk.applyAll_cons, Disk.applyAll_nil, Disk.apply, hfill]
      by_cases hqt : q = temporary
      · rw [hqt, Disk.get?_erase htemporary, if_pos rfl, if_neg hne.symm, hfree]
      · rw [Disk.get?_erase_of_ne hqt]
        by_cases hq : q = place
        · rw [hq, Disk.get?_put hplace, if_pos rfl, if_pos rfl]
        · rw [Disk.get?_put_of_ne hq, if_neg hq, hothers q hqt]

/-- Nothing is written to the top directory. -/
theorem Publishes.ne_nil {temporary : Place} (h : Publishes s c d temporary place) : place ≠ [] := by
  rintro rfl
  unfold Publishes at h
  split at h <;> simp at h

/-- Without leave to replace a file there is none. -/
theorem Publishes.eq_none {temporary : Place} (h : Publishes s c d temporary place) (hoverwrite : s.overwrite = false) :
    d.get? place = none := by
  simp only [Publishes, hoverwrite, Bool.false_eq_true, if_false] at h
  exact h.2.1

/-- A course that ends with a failure leaves the destination as it was, and one that is done leaves all of the
content there. -/
theorem Course.leaves (h : Course s c content d place outcome changes) :
    ((∃ failure, outcome = .error failure) ∧ Leaves d (d.applyAll changes) place (d.get? place)) ∨
      (outcome = .ok () ∧ Leaves d (d.applyAll changes) place (some (.file content s.fileMode))) := by
  have htemporary := temporaryIn_ne_nil c d place.dropLast
  have hfree := get?_prepared_temporaryIn c d place.dropLast
  cases h with
  | stopped made hmade failure _ => exact .inl ⟨⟨failure, rfl⟩, leaves_of_prefix hmade⟩
  | discarded fills hfills failure _ _ =>
      have hsame := get?_discarded hfree htemporary hfills
      rw [Disk.applyAll_append]
      have hplace := (hsame place).trans (get?_prepared_self d place)
      exact .inl ⟨⟨failure, rfl⟩, leaves_of_prepared hplace fun q _ => hsame q⟩
  | done fills hfills _ hdone =>
      have hother : s.overwrite = false → place ≠ temporaryIn c d place.dropLast := fun hoverwrite => by
        have hpublishes := hdone.2
        simp only [Publishes, hoverwrite, Bool.false_eq_true, if_false] at hpublishes
        exact hpublishes.2.2
      have hget := get?_published content htemporary hdone.2.ne_nil hfree hother hfills
      rw [Disk.applyAll_append]
      refine .inr ⟨rfl, leaves_of_prepared ?_ fun q hq => ?_⟩
      · exact (hget place).trans (if_pos rfl)
      · exact (hget q).trans (if_neg hq)

/-- A course is done exactly if nothing is in its way. -/
theorem Course.ok_iff (h : Course s c content d place outcome changes) :
    outcome = .ok () ↔
      Begins c d place.dropLast ∧ Fills c ∧ Publishes s c d (temporaryIn c d place.dropLast) place := by
  cases h with
  | stopped _ _ _ hbegins => exact iff_of_false (by simp) fun hclear => hbegins hclear.1
  | discarded _ _ _ _ hdone => exact iff_of_false (by simp) fun hclear => hdone hclear.2
  | done _ _ hbegins hdone => exact iff_of_true rfl ⟨hbegins, hdone⟩

end Leaves

/-! ### Writing files -/

section Write

variable (path : String)

/-- A write is refused before anything happens, or it takes its course to the place of its path. -/
theorem run_writing (t : Trail) :
    (∃ full outcome changes, resolve s.absoluteRoot path = .ok full ∧ checkWrite c.cancelled path = .ok () ∧
        Course s c content t.disk (placeOf full) outcome changes ∧
        (writing s c path content).run.run t = (outcome, t.after changes)) ∨
      ((∀ full, resolve s.absoluteRoot path = .ok full → checkWrite c.cancelled path ≠ .ok ()) ∧
        ∃ failure, (writing s c path content).run.run t = (.error failure, t)) := by
  unfold writing
  cases hcheck : checkWrite c.cancelled path with
  | error failure => exact .inr ⟨by simp, failure, rfl⟩
  | ok _ =>
    cases hresolve : resolve s.absoluteRoot path with
    | error failure => exact .inr ⟨by simp, failure, rfl⟩
    | ok full =>
      obtain ⟨outcome, changes, hcourse, hrun⟩ :=
        run_writeTo s content c path (placeOf full) t
      exact .inl ⟨full, outcome, changes, rfl, rfl, hcourse, hrun⟩

/-- A file is written exactly if its path is accepted, it is not cancelled, no step fails, and nothing is in its way. -/
theorem writing_ok_iff (t : Trail) :
    ((writing s c path content).run.run t).1 = .ok () ↔
      checkWrite c.cancelled path = .ok () ∧ ∃ full, resolve s.absoluteRoot path = .ok full ∧
        Begins c t.disk (placeOf full).dropLast ∧ Fills c ∧
        Publishes s c t.disk (temporaryIn c t.disk (placeOf full).dropLast) (placeOf full) := by
  rcases run_writing s c content path t with
    ⟨full, outcome, changes, hresolve, hcheck, hcourse, hrun⟩ | ⟨hrefused, failure, hrun⟩
  · simp only [hrun, hresolve, hcheck, hcourse.ok_iff, Except.ok.injEq, exists_eq_left', true_and]
  · rw [hrun]
    refine iff_of_false (by simp) ?_
    rintro ⟨hcheck, full, hresolve, -⟩
    exact hrefused full hresolve hcheck

theorem run_writeFile :
    (writeFile s c path content).run.run d =
      (((writing s c path content).run.run ⟨d, []⟩).1, ((writing s c path content).run.run ⟨d, []⟩).2.disk) := rfl

/-- A file is written with all of its content, or the disk is as it was but for directories on the way; so no temporary
file is left over in either case. Without leave to replace a file there was none before. And a file is written exactly
if its path is accepted, it is not cancelled, no step fails, and there is nothing in its way. -/
theorem file_written_whole_or_not_at_all :
    let result := (writeFile s c path content).run.run d
    (∀ failure, result.1 = .error failure →
      (∀ full, resolve s.absoluteRoot path = .ok full → Leaves d result.2 (placeOf full) (d.get? (placeOf full))) ∧
      ((∀ full, resolve s.absoluteRoot path ≠ .ok full) → result.2 = d)) ∧
    (result.1 = .ok () → ∃ full, resolve s.absoluteRoot path = .ok full ∧
      Leaves d result.2 (placeOf full) (some (.file content s.fileMode)) ∧
      (s.overwrite = false → d.get? (placeOf full) = none)) ∧
    (result.1 = .ok () ↔ checkWrite c.cancelled path = .ok () ∧ ∃ full, resolve s.absoluteRoot path = .ok full ∧
      Begins c d (placeOf full).dropLast ∧ Fills c ∧
      Publishes s c d (temporaryIn c d (placeOf full).dropLast) (placeOf full)) := by
  refine ⟨?_, ?_, writing_ok_iff s c content path ⟨d, []⟩⟩
  all_goals
    rw [run_writeFile]
    rcases run_writing s c content path ⟨d, []⟩ with
      ⟨full, outcome, changes, hresolve, -, hcourse, hrun⟩ | ⟨-, failure, hrun⟩
    all_goals rw [hrun]
  · rintro failure rfl
    refine ⟨fun full' hfull => ?_, fun hno => absurd hresolve (hno full)⟩
    obtain rfl := Except.ok.inj (hresolve.symm.trans hfull)
    obtain ⟨-, hleaves⟩ | ⟨hok, -⟩ := hcourse.leaves
    · exact hleaves
    · cases hok
  · exact fun _ _ => ⟨fun full _ => ⟨rfl, fun q _ => .inl rfl⟩, fun _ => rfl⟩
  · rintro rfl
    obtain ⟨⟨failure, hfailed⟩, -⟩ | ⟨-, hleaves⟩ := hcourse.leaves
    · cases hfailed
    · exact ⟨full, hresolve, hleaves, (hcourse.ok_iff.mp rfl).2.2.eq_none⟩
  · intro hok
    cases hok

end Write

namespace Sample

def sink : FileSink := { root := "/srv/out" }

/-- A disk with a file that was written before. -/
def disk : Disk :=
  ⟨[(["srv"], .directory), (["srv", "out"], .directory), (["srv", "out", "User.cs"], .file "old" 0o644)]⟩

/-- Files cannot be renamed. -/
def unnamable : Circumstances := { fault := fun step => if step = .rename then some ⟨"device busy", 0⟩ else none }

end Sample

/-- A file stays as it is if the new one cannot be renamed, and is replaced if it can. -/
theorem user_file_kept_or_replaced :
    let kept := (writeFile Sample.sink Sample.unnamable "User.cs" "new").run.run Sample.disk
    let replaced := (writeFile Sample.sink {} "User.cs" "new").run.run Sample.disk
    (∃ failure, kept.1 = .error failure) ∧ kept.2.get? ["srv", "out", "User.cs"] = some (.file "old" 0o644) ∧
      replaced.1 = .ok () ∧ replaced.2.get? ["srv", "out", "User.cs"] = some (.file "new" 0o644) := by
  have hresolve : resolve Sample.sink.absoluteRoot "User.cs" = .ok "/srv/out/User.cs" :=
    resolve_of_append ["User.cs"] (by decide +kernel)
  have hplace : placeOf "/srv/out/User.cs" = ["srv", "out", "User.cs"] := by decide +kernel
  have hcheck : checkWrite false "User.cs" = .ok () :=
    checkWrite_eq_ok_iff.mpr ⟨checkPath_eq_ok_iff.mpr (by decide +kernel), rfl⟩
  have hway : ∀ q, q <+: ["srv", "out"] → Sample.disk.isFile q = false := fun q hq =>
    (by decide : ∀ q ∈ Disk.way ["srv", "out"], Sample.disk.isFile q = false) q (Disk.mem_way.mpr hq)
  obtain ⟨hkept, -, hnever⟩ := file_written_whole_or_not_at_all Sample.sink Sample.unnamable "new" Sample.disk "User.cs"
  obtain ⟨-, hwritten, hexact⟩ := file_written_whole_or_not_at_all Sample.sink {} "new" Sample.disk "User.cs"
  have hfailed : ∃ failure, ((writeFile Sample.sink Sample.unnamable "User.cs" "new").run.run Sample.disk).1 =
      .error failure := by
    cases houtcome : ((writeFile Sample.sink Sample.unnamable "User.cs" "new").run.run Sample.disk).1 with
    | error failure => exact ⟨failure, rfl⟩
    | ok _ =>
        obtain ⟨-, full, -, -, -, hpublishes⟩ := hnever.mp houtcome
        exact absurd hpublishes.1 (by decide)
  have hreplaced := hexact.mpr ⟨hcheck, _, hresolve, by
    rw [hplace]
    exact ⟨⟨rfl, rfl, hway⟩, ⟨rfl, rfl, rfl, rfl⟩, rfl, by decide⟩⟩
  obtain ⟨full, hfull, hleaves, -⟩ := hwritten hreplaced
  obtain rfl : "/srv/out/User.cs" = full := Except.ok.inj (hresolve.symm.trans hfull)
  obtain ⟨failure, hfailure⟩ := hfailed
  rw [hplace] at hleaves
  have hold := ((hkept failure hfailure).1 _ hresolve).1
  rw [hplace] at hold
  exact ⟨⟨failure, hfailure⟩, hold, hreplaced, hleaves.1⟩

end FileSink

end ClientForge.Output
