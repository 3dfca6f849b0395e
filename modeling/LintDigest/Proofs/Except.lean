/-!
# Computations that may fail

What is known once a composed computation has succeeded: each of its parts has.
-/

namespace LintDigest

variable {ε α β γ : Type}

theorem bind_eq_ok {x : Except ε α} {f : α → Except ε β} {b : β} :
    (x >>= f) = .ok b ↔ ∃ a, x = .ok a ∧ f a = .ok b := by
  cases x <;> simp [bind, Except.bind]

theorem eq_ok_of_toOption {x : Except ε α} {a : α} (h : x.toOption = some a) : x = .ok a := by
  cases x with
  | error e => cases h
  | ok b => exact congrArg _ (Option.some.inj h)

/-- A list is read as a whole when each of its members is read. -/
theorem mapM_map_ok {f : β → Except ε γ} {g : α → β} {k : α → γ} (xs : List α)
    (h : ∀ x ∈ xs, f (g x) = .ok (k x)) : (xs.map g).mapM f = .ok (xs.map k) := by
  induction xs with
  | nil => rfl
  | cons x xs ih =>
    rw [List.map_cons, List.mapM_cons, h x List.mem_cons_self,
      ih fun y hy => h y (List.mem_cons_of_mem _ hy)]
    rfl

/-- What every member of a list is read as, every result of reading the list is. -/
theorem forall_of_mapM_ok {f : α → Except ε β} {p : β → Prop} {xs : List α} {ys : List β}
    (h : xs.mapM f = .ok ys) (hp : ∀ x ∈ xs, ∀ y, f x = .ok y → p y) : ∀ y ∈ ys, p y := by
  induction xs generalizing ys with
  | nil =>
    cases h
    exact fun y hy => by cases hy
  | cons x xs ih =>
    rw [List.mapM_cons, bind_eq_ok] at h
    obtain ⟨y, hy, h⟩ := h
    obtain ⟨zs, hzs, h⟩ := bind_eq_ok.1 h
    cases h
    refine List.forall_mem_cons.2 ⟨hp x List.mem_cons_self y hy, ?_⟩
    exact ih hzs fun z hz => hp z (List.mem_cons_of_mem _ hz)

/-- What each step keeps, a run keeps. -/
theorem foldlM_ok_induction {f : α → β → Except ε α} {p : α → Prop} {xs : List β} {a b : α}
    (h : xs.foldlM f a = .ok b) (ha : p a)
    (step : ∀ x ∈ xs, ∀ c c', p c → f c x = .ok c' → p c') : p b := by
  induction xs generalizing a with
  | nil =>
    cases h
    exact ha
  | cons x xs ih =>
    rw [List.foldlM_cons, bind_eq_ok] at h
    obtain ⟨c, hc, h⟩ := h
    refine ih h (step x List.mem_cons_self a c ha hc) ?_
    exact fun y hy => step y (List.mem_cons_of_mem _ hy)

end LintDigest
