import Mathlib.Data.List.Forall2

/-!
# Outcomes of steps that may fail

Every request is a chain of steps, each of which gives a result or a fault. The facts here take such
a chain apart, and put one together.
-/

namespace SheetIntake.Outcome

variable {ε α β : Type} {e : ε}

theorem error_ne_ok {a : α} : (Except.error e : Except ε α) ≠ .ok a := nofun

variable {x : Except ε α} {f : α → Except ε β}

theorem bind_eq_ok {b : β} : (x >>= f) = .ok b ↔ ∃ a, x = .ok a ∧ f a = .ok b := by
  cases x <;> simp [bind, Except.bind]

theorem bind_eq_error : (x >>= f) = .error e ↔ x = .error e ∨ ∃ a, x = .ok a ∧ f a = .error e := by
  cases x <;> simp [bind, Except.bind]

theorem map_eq_ok {f : α → β} {b : β} : x.map f = .ok b ↔ ∃ a, x = .ok a ∧ f a = b := by
  cases x <;> simp [Except.map]

theorem pure_eq_ok {a b : α} : (pure a : Except ε α) = .ok b ↔ a = b := by
  simp [pure, Except.pure]

@[simp]
theorem ok_bind (a : α) (f : α → Except ε β) : (Except.ok a >>= f) = f a := rfl

@[simp]
theorem error_bind (e : ε) (f : α → Except ε β) : ((Except.error e : Except ε α) >>= f) = .error e :=
  rfl

variable {xs : List α} {ys : List β}

theorem mapM_eq_ok : xs.mapM f = .ok ys ↔ List.Forall₂ (fun x y => f x = .ok y) xs ys := by
  induction xs generalizing ys with
  | nil =>
    rw [List.mapM_nil, List.forall₂_nil_left_iff]
    exact ⟨fun h => (Except.ok.inj h).symm, fun h => h ▸ rfl⟩
  | cons x xs ih =>
    rw [List.mapM_cons, bind_eq_ok, List.forall₂_cons_left_iff]
    constructor
    · rintro ⟨y, hy, h⟩
      obtain ⟨zs, hzs, h⟩ := bind_eq_ok.mp h
      exact ⟨y, zs, hy, ih.mp hzs, (Except.ok.inj h).symm⟩
    · rintro ⟨y, zs, hy, hzs, rfl⟩
      exact ⟨y, hy, bind_eq_ok.mpr ⟨zs, ih.mpr hzs, rfl⟩⟩

theorem mapM_eq_map {g : α → β} (h : ∀ x ∈ xs, f x = .ok (g x)) : xs.mapM f = .ok (xs.map g) := by
  rw [mapM_eq_ok, List.forall₂_map_right_iff, List.forall₂_same]
  exact h

theorem mem_of_mapM_eq_ok (h : xs.mapM f = .ok ys) {y : β} : y ∈ ys ↔ ∃ x ∈ xs, f x = .ok y := by
  rw [mapM_eq_ok] at h
  induction h with
  | nil => simp
  | @cons x z xs zs hz _ ih =>
    have hhead : y = z ↔ f x = .ok y := by rw [hz, Except.ok.injEq, eq_comm]
    rw [List.mem_cons, List.exists_mem_cons_iff]
    exact or_congr hhead ih

theorem exists_of_mapM_eq_ok (h : xs.mapM f = .ok ys) {x : α} (hx : x ∈ xs) :
    ∃ y ∈ ys, f x = .ok y := by
  rw [mapM_eq_ok] at h
  induction h with
  | nil => cases hx
  | @cons a b as bs hab _ ih =>
    rcases List.mem_cons.mp hx with rfl | hx
    · exact ⟨b, .head _, hab⟩
    · obtain ⟨y, hy, hxy⟩ := ih hx
      exact ⟨y, .tail b hy, hxy⟩

/-- A fault of a list is that of the first item that gives one. -/
theorem mapM_eq_error_iff : xs.mapM f = .error e ↔ ∃ before x after, xs = before ++ x :: after
      ∧ (∀ y ∈ before, ∃ b, f y = .ok b) ∧ f x = .error e := by
  induction xs with
  | nil => simp [pure, Except.pure]
  | cons x xs ih =>
    rw [List.mapM_cons, bind_eq_error]
    constructor
    · rintro (hx | ⟨b, hb, h⟩)
      · exact ⟨[], x, xs, rfl, by simp, hx⟩
      rcases bind_eq_error.mp h with h | ⟨bs, -, h⟩
      · obtain ⟨before, y, after, rfl, hbefore, hy⟩ := ih.mp h
        exact ⟨x :: before, y, after, rfl, List.forall_mem_cons.mpr ⟨⟨b, hb⟩, hbefore⟩, hy⟩
      · cases h.symm
    · rintro ⟨_ | ⟨z, before⟩, y, after, hxs, hbefore, hy⟩
      · obtain ⟨rfl, rfl⟩ := List.cons.inj hxs
        exact .inl hy
      · obtain ⟨rfl, rfl⟩ := List.cons.inj hxs
        obtain ⟨⟨b, hb⟩, hbefore⟩ := List.forall_mem_cons.mp hbefore
        exact .inr ⟨b, hb, bind_eq_error.mpr (.inl (ih.mpr ⟨before, y, after, rfl, hbefore, hy⟩))⟩

theorem exists_of_mapM_eq_error (h : xs.mapM f = .error e) : ∃ x ∈ xs, f x = .error e := by
  obtain ⟨before, x, after, rfl, -, hx⟩ := mapM_eq_error_iff.mp h
  exact ⟨x, by simp, hx⟩

theorem exists_mapM_eq_ok (h : ∀ x ∈ xs, ∃ y, f x = .ok y) : ∃ ys, xs.mapM f = .ok ys := by
  cases hxs : xs.mapM f with
  | ok ys => exact ⟨ys, rfl⟩
  | error e =>
    obtain ⟨x, hx, he⟩ := exists_of_mapM_eq_error hxs
    obtain ⟨y, hy⟩ := h x hx
    cases he.symm.trans hy

theorem mapM_eq_error (hall : ∀ x ∈ xs, (∃ y, f x = .ok y) ∨ f x = .error e)
    (hone : ∃ x ∈ xs, f x = .error e) : xs.mapM f = .error e := by
  cases hxs : xs.mapM f with
  | ok ys =>
    obtain ⟨x, hx, he⟩ := hone
    obtain ⟨y, -, hy⟩ := exists_of_mapM_eq_ok hxs hx
    cases he.symm.trans hy
  | error e' =>
    obtain ⟨x, hx, he⟩ := exists_of_mapM_eq_error hxs
    rcases hall x hx with ⟨y, hy⟩ | hfault
    · cases he.symm.trans hy
    · rw [Except.error.inj (he.symm.trans hfault)]

end SheetIntake.Outcome
