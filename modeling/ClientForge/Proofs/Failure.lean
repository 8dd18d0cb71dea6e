import ClientForge.Plan.Context
import Mathlib.Data.List.Forall2

/-!
# How computations fail

A sequence of steps succeeds if every step does and fails as the first that does not, and a context changes
only how a failure is spelled out. Going through a list gives each element its result (`mapM_eq_ok`) or fails
as one of them does. `Failure.HasCode` asks whether a failure has a structural rule of some code among its
causes.
-/

namespace ClientForge

section Steps

variable {ε ε' α β : Type} {x : Except ε α} {f : α → Except ε β}

theorem bind_eq_ok {b : β} : (x >>= f) = .ok b ↔ ∃ a, x = .ok a ∧ f a = .ok b := by
  cases x <;> simp [bind, Except.bind]

theorem bind_eq_error {e : ε} :
    (x >>= f) = .error e ↔ x = .error e ∨ ∃ a, x = .ok a ∧ f a = .error e := by
  cases x <;> simp [bind, Except.bind]

theorem mapError_eq_ok {k : ε → ε'} {a : α} : x.mapError k = .ok a ↔ x = .ok a := by
  cases x with
  | error e =>
      change Except.error (k e) = .ok a ↔ _
      simp
  | ok b =>
      change Except.ok b = .ok a ↔ _
      simp

theorem mapError_eq_error {k : ε → ε'} {e' : ε'} :
    x.mapError k = .error e' ↔ ∃ e, x = .error e ∧ k e = e' := by
  cases x with
  | error e =>
      change Except.error (k e) = .error e' ↔ _
      simp
  | ok b =>
      change Except.ok b = .error e' ↔ _
      simp

theorem exists_ok_of_toOption {k : α → β} {b : β} (h : x.toOption.map k = some b) : ∃ a, x = .ok a ∧ k a = b := by
  cases x with
  | error e => cases h
  | ok a => exact ⟨a, rfl, Option.some.inj h⟩

theorem exists_ok_of_isSome (h : x.toOption.isSome = true) : ∃ a, x = .ok a := by
  cases x with
  | error e => cases h
  | ok a => exact ⟨a, rfl⟩

end Steps

/-! A sequence of steps on a state goes on where the step before left off. -/

section Stateful

variable {ε σ α β : Type} {x : ExceptT ε (StateM σ) α} {f : α → ExceptT ε (StateM σ) β} {s u : σ}

theorem run_bind_of_ok {a : α} (h : x.run.run s = (.ok a, u)) : (x >>= f).run.run s = (f a).run.run u := by
  change ExceptT.bindCont f (x.run.run s).1 (x.run.run s).2 = _
  rw [h]
  rfl

theorem run_bind_of_error {e : ε} (h : x.run.run s = (.error e, u)) : (x >>= f).run.run s = (.error e, u) := by
  change ExceptT.bindCont f (x.run.run s).1 (x.run.run s).2 = _
  rw [h]
  rfl

/-- What succeeds as a whole succeeds in both parts. -/
theorem run_bind_eq_ok {b : β} (h : (x >>= f).run.run s = (.ok b, u)) :
    ∃ a middle, x.run.run s = (.ok a, middle) ∧ (f a).run.run middle = (.ok b, u) := by
  cases hx : x.run.run s with
  | mk outcome middle =>
    cases outcome with
    | ok a => exact ⟨a, middle, rfl, (run_bind_of_ok hx).symm.trans h⟩
    | error e => cases (run_bind_of_error hx).symm.trans h

theorem run_get_bind (f : σ → ExceptT ε (StateM σ) β) (s : σ) : (get >>= f).run.run s = (f s).run.run s := rfl

end Stateful

section Traversal

variable {ε α β : Type} {f : α → Except ε β} {xs : List α}

theorem mapM_eq_ok {ys : List β} :
    xs.mapM f = .ok ys ↔ List.Forall₂ (fun x y => f x = .ok y) xs ys := by
  induction xs generalizing ys with
  | nil => simp [List.mapM_nil, pure, Except.pure, eq_comm]
  | cons x xs ih =>
      rw [List.mapM_cons, bind_eq_ok]
      constructor
      · rintro ⟨y, hy, h⟩
        obtain ⟨rest, hrest, h⟩ := bind_eq_ok.mp h
        cases h
        exact .cons hy (ih.mp hrest)
      · intro h
        cases h with
        | cons hy hrest => exact ⟨_, hy, bind_eq_ok.mpr ⟨_, ih.mpr hrest, rfl⟩⟩

/-- Each of the results belongs to an element. -/
theorem exists_of_mem_right {R : α → β → Prop} {ys : List β} (h : List.Forall₂ R xs ys) {y : β}
    (hy : y ∈ ys) : ∃ x ∈ xs, R x y := by
  induction h with
  | nil => cases hy
  | cons hxy _ ih =>
      rcases List.mem_cons.mp hy with rfl | hy
      · exact ⟨_, List.mem_cons_self, hxy⟩
      · obtain ⟨x, hx, h⟩ := ih hy
        exact ⟨x, List.mem_cons_of_mem _ hx, h⟩

/-- Each of the elements has a result. -/
theorem exists_of_mem_left {R : α → β → Prop} {ys : List β} (h : List.Forall₂ R xs ys) {x : α}
    (hx : x ∈ xs) : ∃ y ∈ ys, R x y :=
  exists_of_mem_right (R := flip R) h.flip hx

theorem exists_mapM_eq_ok (h : ∀ x ∈ xs, ∃ y, f x = .ok y) : ∃ ys, xs.mapM f = .ok ys := by
  induction xs with
  | nil => exact ⟨[], rfl⟩
  | cons x xs ih =>
      obtain ⟨⟨y, hy⟩, hrest⟩ := List.forall_mem_cons.mp h
      obtain ⟨ys, hys⟩ := ih hrest
      exact ⟨y :: ys, mapM_eq_ok.mpr (.cons hy (mapM_eq_ok.mp hys))⟩

theorem exists_of_mapM_eq_error {e : ε} (h : xs.mapM f = .error e) : ∃ x ∈ xs, f x = .error e := by
  induction xs with
  | nil => cases h
  | cons x xs ih =>
      rw [List.mapM_cons, bind_eq_error] at h
      rcases h with h | ⟨y, _, h⟩
      · exact ⟨x, List.mem_cons_self, h⟩
      · rcases bind_eq_error.mp h with h | ⟨_, _, h⟩
        · obtain ⟨x', hx', h⟩ := ih h
          exact ⟨x', List.mem_cons_of_mem x hx', h⟩
        · cases h

end Traversal

namespace Failure

/-- A structural rule of some code is among the causes. -/
def HasCode (f : Failure) (code : String) : Prop :=
  ∃ v, Cause.structural v ∈ f.causes ∧ v.rule.code = code

theorem hasCode_violation {rule : Graph.Rule} {element code : String} :
    (violation rule element).HasCode code ↔ rule.code = code := by
  simp [HasCode, violation, causes]

/-- Only broken rules have codes. -/
theorem hasCode_cause {cause : Cause} {code : String} :
    (Failure.cause cause).HasCode code ↔ ∃ v, cause = .structural v ∧ v.rule.code = code := by
  simp [HasCode, causes, eq_comm]

theorem hasCode_within {context : String} {f : Failure} {code : String} :
    (within context f).HasCode code ↔ f.HasCode code := by
  simp [HasCode, causes]

end Failure

end ClientForge
