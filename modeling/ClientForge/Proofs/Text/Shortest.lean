import ClientForge.Proofs.Text.Path

/-!
# Shortest forms of paths

Cleaning a path stacks up its parts: empty parts and single dots add nothing, and double dots take the last part
off again. A path from the top is in its shortest form exactly if names follow its slash
(`clean_eq_self_iff_of_rooted`). A path from elsewhere that does not climb is in its shortest form exactly if it is
made of names, or is a single dot (`clean_eq_self_iff_of_relative`). One such path behind another is the names of
both (`clean_append`).
-/

namespace ClientForge.Text.Path

/-- Whether a part is the name of something: it is not empty, nor does it stand for a way. -/
def IsName (part : String) : Prop := part ≠ "" ∧ part ≠ "." ∧ part ≠ ".."

instance (part : String) : Decidable (IsName part) := inferInstanceAs (Decidable (_ ∧ _ ∧ _))

section Stack

variable {rooted : Bool} {parts stack names : List String} {a part : String}

/-- From the top directory, a step leads to names only. -/
theorem mem_step_rooted {x : String} (hstack : ∀ y ∈ stack, IsName y) (h : x ∈ step true stack part) :
    IsName x ∧ (x ∈ stack ∨ x = part) := by
  have hkept : ∀ {x}, x ∈ stack → IsName x ∧ (x ∈ stack ∨ x = part) := fun hx => ⟨hstack _ hx, .inl hx⟩
  unfold step at h
  split at h
  · exact hkept h
  · next hempty =>
    split at h
    · cases stack with
      | nil => cases h
      | cons last rest =>
          -- no name climbs, so the last part is taken off
          simp only [(hstack last List.mem_cons_self).2.2, if_false] at h
          exact hkept (List.mem_cons_of_mem _ h)
    · next hclimb =>
      rcases List.mem_cons.mp h with rfl | h
      · have hdot : x ≠ "" ∧ x ≠ "." := by simpa using hempty
        exact ⟨⟨hdot.1, hdot.2, hclimb⟩, .inr rfl⟩
      · exact hkept h

/-- On a path from the top only names are left, and they are parts of the path. -/
theorem mem_foldl_step_rooted {x : String} (hstack : ∀ y ∈ stack, IsName y)
    (h : x ∈ parts.foldl (step true) stack) : IsName x ∧ (x ∈ stack ∨ x ∈ parts) := by
  induction parts generalizing stack with
  | nil => exact ⟨hstack x h, .inl h⟩
  | cons part parts ih =>
      obtain ⟨hname, hx⟩ := ih (fun y hy => (mem_step_rooted hstack hy).1) h
      refine ⟨hname, ?_⟩
      rcases hx with hx | hx
      · rcases (mem_step_rooted hstack hx).2 with hx | rfl
        · exact .inl hx
        · exact .inr List.mem_cons_self
      · exact .inr (List.mem_cons_of_mem _ hx)

/-- Where nothing climbs, the names are put on the path in order. -/
theorem foldl_step_of_notMem (h : ".." ∉ parts) (stack : List String) :
    parts.foldl (step rooted) stack = (parts.filter (IsName ·)).reverse ++ stack := by
  induction parts generalizing stack with
  | nil => rfl
  | cons part parts ih =>
      obtain ⟨hpart, hparts⟩ : ".." ≠ part ∧ ".." ∉ parts := by simpa using h
      rw [List.foldl_cons, ih hparts]
      by_cases hname : IsName part
      · simp [step, hname, hname.1, hname.2.1, hname.2.2]
      · have hskip : part = "" ∨ part = "." := by
          by_contra hother
          exact hname ⟨fun h => hother (.inl h), fun h => hother (.inr h), hpart.symm⟩
        simp [step, hname, hskip]

/-- Names are put on the path as they are. -/
theorem foldl_step_of_names (h : ∀ name ∈ names, IsName name) (stack : List String) :
    names.foldl (step rooted) stack = names.reverse ++ stack := by
  rw [foldl_step_of_notMem fun hmem => (h _ hmem).2.2 rfl, List.filter_eq_self.mpr (by simpa using h)]

end Stack

/-! ### Paths that are clean -/

section Clean

variable {a b : String} {names : List String}

/-- Names that can be joined to a path. -/
def AreNames (names : List String) : Prop := ∀ name ∈ names, IsName name ∧ '/' ∉ name.toList

theorem AreNames.split_intercalate (h : AreNames names) (hne : names ≠ []) :
    split '/' ("/".intercalate names) = names :=
  Text.split_intercalate hne fun name hname => (h name hname).2

theorem split_slash_append (a b : String) : split '/' (a ++ "/" ++ b) = split '/' a ++ split '/' b :=
  split_append a b

/-- The parts of a path from the top that is clean. -/
theorem AreNames.split_rooted (h : AreNames names) (hne : names ≠ []) :
    split '/' ("/" ++ "/".intercalate names) = "" :: names := by
  have hsplit := split_slash_append "" ("/".intercalate names)
  rwa [String.empty_append, h.split_intercalate hne] at hsplit

theorem clean_rooted (h : startsWith a "/" = true) :
    ∃ names, AreNames names ∧ clean a = "/" ++ "/".intercalate names := by
  refine ⟨((split '/' a).foldl (step true) []).reverse, fun name hname => ?_, by simp [clean, h]⟩
  obtain ⟨hisname, hmem⟩ := mem_foldl_step_rooted (by simp) (List.mem_reverse.mp hname)
  exact ⟨hisname, notMem_of_mem_split (hmem.resolve_left List.not_mem_nil)⟩

theorem startsWith_slash (s : String) : startsWith ("/" ++ s) "/" = true := by
  simp [startsWith, List.isPrefixOf]

/-- A path from the top is clean exactly if names follow its slash. -/
theorem clean_eq_self_iff_of_rooted (h : startsWith a "/" = true) :
    clean a = a ↔ ∃ names, AreNames names ∧ a = "/" ++ "/".intercalate names := by
  constructor
  · intro hclean
    obtain ⟨names, hnames, heq⟩ := clean_rooted h
    exact ⟨names, hnames, hclean.symm.trans heq⟩
  · rintro ⟨names, hnames, rfl⟩
    by_cases hne : names = []
    · subst hne
      decide +kernel
    · simp [clean, h, hnames.split_rooted hne, step, foldl_step_of_names fun name hname => (hnames name hname).1]

/-- A path that starts elsewhere and does not climb is clean exactly if it is made of names or stays in place. -/
theorem clean_eq_self_iff_of_relative (h : startsWith a "/" = false) (hclimb : ".." ∉ split '/' a) :
    clean a = a ↔ a = "." ∨ ∀ part ∈ split '/' a, IsName part := by
  have hclean : clean a =
      if (split '/' a).filter (IsName ·) = [] then "." else "/".intercalate ((split '/' a).filter (IsName ·)) := by
    simp [clean, h, foldl_step_of_notMem hclimb]
  have hparts : AreNames ((split '/' a).filter (IsName ·)) := fun part hpart => by
    obtain ⟨hmem, hname⟩ := List.mem_filter.mp hpart
    exact ⟨by simpa using hname, notMem_of_mem_split hmem⟩
  constructor
  · intro hself
    rw [hclean] at hself
    split at hself
    · exact .inl hself.symm
    · next hne =>
      refine .inr fun part hpart => ?_
      rw [← hself, hparts.split_intercalate hne] at hpart
      exact (hparts part hpart).1
  · rintro (rfl | hnames)
    · decide +kernel
    · rw [hclean, List.filter_eq_self.mpr (by simpa using hnames), if_neg (split_ne_nil a)]
      exact intercalate_split '/' a

theorem empty_mem_split_of_rooted (h : startsWith a "/" = true) : "" ∈ split '/' a := by
  unfold startsWith at h
  cases ha : a.toList with
  | nil => simp [ha] at h
  | cons c rest =>
      by_cases hc : '/' = c
      · simp [split, ha, List.splitOn_cons_eq_if_modifyHead, ← hc]
      · simp [ha, List.isPrefixOf, hc] at h

/-- What is made of names starts at no top and does not climb. -/
theorem relative_of_names (h : a = "." ∨ ∀ part ∈ split '/' a, IsName part) :
    a ≠ "" ∧ startsWith a "/" = false ∧ ".." ∉ split '/' a := by
  rcases h with rfl | hnames
  · decide +kernel
  · refine ⟨?_, ?_, fun hclimb => (hnames ".." hclimb).2.2 rfl⟩
    · rintro rfl
      exact (hnames "" (by decide)).1 rfl
    · rw [← Bool.not_eq_true]
      exact fun hrooted => (hnames "" (empty_mem_split_of_rooted hrooted)).1 rfl

/-- The names of a clean path that does not climb. -/
theorem foldl_step_parts {rooted : Bool} (h : a = "." ∨ ∀ part ∈ split '/' a, IsName part) (stack : List String) :
    (split '/' a).foldl (step rooted) stack = (parts a).reverse ++ stack := by
  rcases h with rfl | hnames
  · have hdot : split '/' "." = ["."] := by decide +kernel
    simp [hdot, step, parts]
  · have hproper : a ≠ "" ∧ a ≠ "." := by
      constructor <;> rintro rfl
      · exact (hnames "" (by decide)).1 rfl
      · exact (hnames "." (by decide)).2.1 rfl
    rw [foldl_step_of_names hnames]
    simp [parts, hproper.1, hproper.2]

/-- A path behind one from the top. -/
theorem clean_append (hnames : AreNames names) (hne : names ≠ [])
    (hb : b = "." ∨ ∀ part ∈ split '/' b, IsName part) :
    clean ("/" ++ "/".intercalate names ++ "/" ++ b) = "/" ++ "/".intercalate (names ++ parts b) := by
  have hrooted : startsWith ("/" ++ "/".intercalate names ++ "/" ++ b) "/" = true := by
    simpa only [String.append_assoc] using startsWith_slash _
  have hstack : (split '/' ("/" ++ "/".intercalate names ++ "/" ++ b)).foldl (step true) [] =
      (parts b).reverse ++ names.reverse := by
    rw [split_slash_append, hnames.split_rooted hne, List.foldl_append, foldl_step_parts hb]
    simp [step, foldl_step_of_names fun name hname => (hnames name hname).1]
  simp [clean, hrooted, hstack]

end Clean

end ClientForge.Text.Path
