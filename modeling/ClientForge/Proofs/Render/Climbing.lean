import ClientForge.Proofs.Render.Ways

/-!
# Climbing no further than needed

Whoever goes the way from a directory to a file goes up first, one directory for each pair of dots, and then down. Here
the way is gone step by step (`walkFrom`), from a directory of any name, and nobody gets above the directory in which
paths start.

* `walkFrom_climb`: what is left of a place after climbing, and what is put behind it;
* `isCommonFront_take_commonParts`: the parts that a way keeps are all that the directory and the one of the file have
  in common;
* **`relative_leads_to_target`.** The way leads to the file, says in front whether it climbs, and climbs out of the
  directories that are not on the path of the file only.
-/

namespace ClientForge.Render

open ClientForge.Text

/-! ### Going a way -/

/-- Where a way leads from a place: a pair of dots leads to the directory above, if there is one, and a name leads
below. -/
def walkFrom (place : List String) : List String → Option (List String)
  | [] => some place
  | part :: way =>
    if part = ".." then if place = [] then none else walkFrom place.dropLast way
    else walkFrom (place ++ [part]) way

/-- The path that a way leads to from a directory. A dot in front of the way stays there. -/
def resolveFrom (dir way : String) : Option String :=
  let parts := split '/' way
  let steps := if parts.head? = some "." then parts.tail else parts
  (walkFrom (Path.parts dir) steps).map (String.intercalate "/")

/-- The longest list that two lists start with. -/
structure IsCommonFront (front a b : List String) : Prop where
  left : front <+: a
  right : front <+: b
  longest : ∀ other, other <+: a → other <+: b → other <+: front

/-- Whether a part is a name without dots. -/
def IsPlainName (part : String) : Prop := part ≠ "" ∧ '.' ∉ part.toList

instance (part : String) : Decidable (IsPlainName part) := inferInstanceAs (Decidable (_ ∧ _))

theorem IsPlainName.isName {part : String} (h : IsPlainName part) : Path.IsName part := by
  refine ⟨h.1, ?_, ?_⟩ <;> rintro rfl <;> exact h.2 (by decide)

section Steps

variable {place names : List String}

theorem walkFrom_names (h : ".." ∉ names) : walkFrom place names = some (place ++ names) := by
  induction names generalizing place with
  | nil => simp [walkFrom]
  | cons name names ih =>
      obtain ⟨hname, hnames⟩ : ".." ≠ name ∧ ".." ∉ names := by simpa using h
      simp [walkFrom, hname.symm, ih hnames]

/-- Climbing takes parts off the end of a place, as long as there are some. -/
theorem walkFrom_climb (h : ".." ∉ names) {n : Nat} (hn : n ≤ place.length) :
    walkFrom place (List.replicate n ".." ++ names) = some (place.take (place.length - n) ++ names) := by
  induction n generalizing place with
  | zero => simpa using walkFrom_names h
  | succ n ih =>
      have hne : place ≠ [] := List.ne_nil_of_length_pos (by omega)
      have hlength : place.dropLast.length = place.length - 1 := List.length_dropLast
      rw [List.replicate_succ, List.cons_append, walkFrom, if_pos rfl, if_neg hne, ih (by omega), hlength,
        List.dropLast_eq_take, List.take_take]
      congr 3
      omega

end Steps

/-! ### What a directory and a file have in common -/

section Common

variable {a b front : List String}

theorem isCommonFront_nil (h : ∀ x as bs, a = x :: as → b ≠ x :: bs) : IsCommonFront [] a b := by
  refine ⟨List.nil_prefix, List.nil_prefix, ?_⟩
  intro other ha hb
  cases other with
  | nil => exact List.nil_prefix
  | cons x other =>
      obtain ⟨as, rfl⟩ := ha
      obtain ⟨bs, rfl⟩ := hb
      exact absurd rfl (h x _ _ rfl)

theorem IsCommonFront.cons (h : IsCommonFront front a b) (x : String) :
    IsCommonFront (x :: front) (x :: a) (x :: b) := by
  refine ⟨List.cons_prefix_cons.mpr ⟨rfl, h.left⟩, List.cons_prefix_cons.mpr ⟨rfl, h.right⟩, ?_⟩
  intro other ha hb
  cases other with
  | nil => exact List.nil_prefix
  | cons y other =>
      obtain ⟨rfl, hother⟩ := List.cons_prefix_cons.mp ha
      exact List.cons_prefix_cons.mpr ⟨rfl, h.longest other hother (List.cons_prefix_cons.mp hb).2⟩

/-- The file itself is never among what is in common. -/
theorem isCommonFront_take_commonParts (source target : List String) :
    IsCommonFront (source.take (commonParts source target)) source target.dropLast := by
  fun_induction commonParts source target with
  | case1 source part next target ih => exact ih.cons part
  | case2 part source other next target hne =>
      apply isCommonFront_nil
      intro x as bs hsource htarget
      exact hne ((List.cons.inj hsource).1.trans (List.cons.inj htarget).1.symm)
  | case3 source target hshort =>
      apply isCommonFront_nil
      intro x as bs hsource htarget
      -- a path of one part has nothing in front of the file
      cases target with
      | nil => cases htarget
      | cons part target =>
          cases target with
          | nil => cases htarget
          | cons next target => exact hshort x as part next target hsource rfl

end Common

/-! ### The way from a directory to a file -/

section Ways

variable {source target : List String}

theorem walkFrom_wayParts (h : ".." ∉ target) : walkFrom source (wayParts source target) = some target := by
  have hdown : ".." ∉ target.drop (commonParts source target) := mt List.mem_of_mem_drop h
  have hkept : source.take (source.length - (source.length - commonParts source target)) =
      target.take (commonParts source target) := by
    rw [← take_commonParts, List.take_eq_take_iff]
    omega
  rw [wayParts, walkFrom_climb hdown (Nat.sub_le _ _), hkept, List.take_append_drop]

theorem count_wayParts (h : ".." ∉ target) :
    (wayParts source target).count ".." = source.length - commonParts source target := by
  have hdown : ".." ∉ target.drop (commonParts source target) := mt List.mem_of_mem_drop h
  rw [wayParts, List.count_append, List.count_replicate_self, List.count_eq_zero_of_not_mem hdown, Nat.add_zero]

/-- A way that climbs starts with a pair of dots. -/
theorem exists_wayParts_eq_cons (htarget : target ≠ []) (h : commonParts source target < source.length) :
    ∃ next rest, wayParts source target = ".." :: next :: rest := by
  obtain ⟨n, hn⟩ := Nat.exists_eq_succ_of_ne_zero (Nat.sub_ne_zero_of_lt h)
  have hdown : List.replicate n ".." ++ target.drop (commonParts source target) ≠ [] := by
    have hlt := commonParts_lt source htarget
    simp only [ne_eq, List.append_eq_nil_iff, List.drop_eq_nil_iff, not_and]
    omega
  obtain ⟨next, rest, hrest⟩ := List.exists_cons_of_ne_nil hdown
  exact ⟨next, rest, by rw [wayParts, hn, List.replicate_succ, List.cons_append, hrest]⟩

/-- A way that does not climb starts with a name. -/
theorem startsWith_wayParts_of_le (htarget : target ≠ []) (hnames : ∀ part ∈ target, IsPlainName part)
    (h : source.length ≤ commonParts source target) :
    startsWith ("/".intercalate (wayParts source target)) ".." = false := by
  have hway : wayParts source target = target.drop (commonParts source target) := by
    rw [wayParts, Nat.sub_eq_zero_of_le h]
    rfl
  obtain ⟨name, names, hdown⟩ := List.exists_cons_of_ne_nil (hway ▸ wayParts_ne_nil source htarget)
  have hname : IsPlainName name := hnames name (List.mem_of_mem_drop (hdown ▸ List.mem_cons_self))
  obtain ⟨c, cs, hc⟩ := List.exists_cons_of_ne_nil (mt String.toList_eq_nil_iff.mp hname.1)
  have hdot : '.' ≠ c := by
    rintro rfl
    exact hname.2 (hc ▸ List.mem_cons_self)
  have hfront : ∃ rest, ("/".intercalate (name :: names)).toList = c :: rest := by
    cases names with
    | nil => exact ⟨cs, hc⟩
    | cons next names =>
        rw [String.intercalate_cons_cons, String.append_assoc, String.toList_append, hc]
        exact ⟨_, rfl⟩
  obtain ⟨rest, hrest⟩ := hfront
  simp [hway, hdown, startsWith, hrest, List.isPrefixOf, hdot]

end Ways

section Paths

variable {dir target : String} (h : ∀ part ∈ split '/' target, IsPlainName part)
include h

theorem isName_of_mem_split : ∀ part ∈ split '/' target, Path.IsName part := by
  intro part hpart
  exact (h part hpart).isName

/-- A way out of some folder climbs from the start. -/
theorem relative_of_climb (hlt : commonParts (Path.parts dir) (split '/' target) < (Path.parts dir).length) :
    startsWith (relative dir target) "../" = true ∧
      split '/' (relative dir target) = wayParts (Path.parts dir) (split '/' target) ∧
      (wayParts (Path.parts dir) (split '/' target)).head? = some ".." := by
  obtain ⟨next, rest, hway⟩ := exists_wayParts_eq_cons (split_ne_nil target) hlt
  have hnames := isName_of_mem_split h
  have hdots : startsWith ("/".intercalate (".." :: next :: rest)) ".." = true := by
    rw [String.intercalate_cons_cons, String.append_assoc]
    exact startsWith_append _ _
  rw [split_relative hnames, relative_eq hnames, hway, if_pos hdots, if_pos hdots, String.intercalate_cons_cons]
  exact ⟨startsWith_append "../" _, rfl, rfl⟩

/-- Any other way starts from the folder itself. -/
theorem relative_of_stay (hle : (Path.parts dir).length ≤ commonParts (Path.parts dir) (split '/' target)) :
    startsWith (relative dir target) "./" = true ∧
      split '/' (relative dir target) = "." :: wayParts (Path.parts dir) (split '/' target) := by
  have hnames := isName_of_mem_split h
  have hdots := startsWith_wayParts_of_le (split_ne_nil target) h hle
  rw [split_relative hnames, relative_eq hnames, hdots]
  exact ⟨startsWith_append "./" _, rfl⟩

end Paths

/-- The way from a directory to a file whose path has no dots leads to that file. It starts with a dot, or with two of
them where it climbs, and it climbs out of as many directories as are left of the one where it starts behind all that
this directory and the one of the file have in common. -/
theorem relative_leads_to_target (dir target : String) (h : ∀ part ∈ split '/' target, IsPlainName part) :
    resolveFrom dir (relative dir target) = some target ∧
    (startsWith (relative dir target) "./" = true ∨ startsWith (relative dir target) "../" = true) ∧
    ∃ front, IsCommonFront front (Path.parts dir) (split '/' target).dropLast ∧
      (split '/' (relative dir target)).count ".." = (Path.parts dir).length - front.length := by
  have hclimb : ".." ∉ split '/' target := by
    intro hmem
    exact (isName_of_mem_split h _ hmem).2.2 rfl
  have harrive :
      (walkFrom (Path.parts dir) (wayParts (Path.parts dir) (split '/' target))).map (String.intercalate "/") =
        some target := by
    rw [walkFrom_wayParts hclimb]
    exact congrArg some (intercalate_split '/' target)
  have hcount : (wayParts (Path.parts dir) (split '/' target)).count ".." =
      (Path.parts dir).length - ((Path.parts dir).take (commonParts (Path.parts dir) (split '/' target))).length := by
    rw [count_wayParts hclimb, List.length_take]
    omega
  have hcommon := isCommonFront_take_commonParts (Path.parts dir) (split '/' target)
  rcases Nat.lt_or_ge (commonParts (Path.parts dir) (split '/' target)) (Path.parts dir).length with hlt | hle
  · obtain ⟨hfront, hsplit, hhead⟩ := relative_of_climb h hlt
    refine ⟨?_, .inr hfront, _, hcommon, (congrArg (List.count "..") hsplit).trans hcount⟩
    rw [resolveFrom, hsplit, hhead, if_neg (by decide), harrive]
  · obtain ⟨hfront, hsplit⟩ := relative_of_stay h hle
    have hdot : (split '/' (relative dir target)).count ".." =
        (wayParts (Path.parts dir) (split '/' target)).count ".." := by
      rw [hsplit, List.count_cons_of_ne (by decide)]
    refine ⟨?_, .inl hfront, _, hcommon, hdot.trans hcount⟩
    rw [resolveFrom, hsplit, List.head?_cons, if_pos rfl, List.tail_cons, harrive]

/-- From a directory beside the file, from the top, and from a directory that has the name of the file. -/
theorem user_reached_from_directories :
    (relative "models/odata" "models/user" = "../user" ∧
      resolveFrom "models/odata" (relative "models/odata" "models/user") = some "models/user") ∧
    (relative "." "models/user" = "./models/user" ∧
      resolveFrom "." (relative "." "models/user") = some "models/user") ∧
    (relative "models/user" "models/user" = "../user" ∧
      resolveFrom "models/user" (relative "models/user" "models/user") = some "models/user") := by
  have hnames : ∀ part ∈ split '/' "models/user", IsPlainName part := by decide +kernel
  refine ⟨⟨?_, (relative_leads_to_target _ _ hnames).1⟩, ⟨?_, (relative_leads_to_target _ _ hnames).1⟩,
    ?_, (relative_leads_to_target _ _ hnames).1⟩ <;> decide +kernel

end ClientForge.Render
