import Mathlib.Data.List.Forall2

/-!
How a computation in steps fails or comes to a result. A failure is that of one of its steps, and a
result has the results of all steps behind it. Over a list the steps go in order, so the failure is
that of the first element that fails.
-/
namespace WordMachine

section

variable {α β ε : Type}

theorem error_of_bind {x : Except ε α} {f : α → Except ε β} {e : ε} (h : x >>= f = .error e) :
    x = .error e ∨ ∃ a, x = .ok a ∧ f a = .error e := by
  cases x with
  | error e' => exact .inl (congrArg Except.error (Except.error.inj h))
  | ok a => exact .inr ⟨a, rfl, h⟩

theorem exists_of_bind_eq_ok {x : Except ε α} {f : α → Except ε β} {b : β} (h : x >>= f = .ok b) :
    ∃ a, x = .ok a ∧ f a = .ok b := by
  cases x with
  | error e => cases h
  | ok a => exact ⟨a, rfl, h⟩

theorem exists_of_map_eq_ok {x : Except ε α} {f : α → β} {b : β} (h : x.map f = .ok b) :
    ∃ a, x = .ok a ∧ f a = b := by
  cases x with
  | error e => cases h
  | ok a => exact ⟨a, rfl, Except.ok.inj h⟩

theorem mapError_ok_bind {ε' : Type} (f : ε → ε') (a : α) (g : α → Except ε' β) :
    ((Except.ok a : Except ε α).mapError f >>= g) = g a := rfl

theorem mapM_eq_ok_iff {f : α → Except ε β} {l : List α} {bs : List β} :
    l.mapM f = .ok bs ↔ List.Forall₂ (fun a b => f a = .ok b) l bs := by
  constructor
  · intro h
    induction l generalizing bs with
    | nil =>
      obtain rfl : [] = bs := Except.ok.inj h
      exact .nil
    | cons a rest ih =>
      rw [List.mapM_cons] at h
      obtain ⟨b, hb, hlater⟩ := exists_of_bind_eq_ok h
      obtain ⟨later, hrest, hdone⟩ := exists_of_bind_eq_ok hlater
      obtain rfl : b :: later = bs := Except.ok.inj hdone
      exact .cons hb (ih hrest)
  · intro h
    induction h with
    | nil => rfl
    | cons hb _ ih =>
      rw [List.mapM_cons, hb, ih]
      rfl

theorem mapM_eq_error_iff {f : α → Except ε β} {l : List α} {e : ε} :
    l.mapM f = .error e ↔
      ∃ front a behind, l = front ++ a :: behind ∧ (∀ x ∈ front, ∃ b, f x = .ok b) ∧
        f a = .error e := by
  constructor
  · intro h
    induction l with
    | nil => cases h
    | cons a rest ih =>
      rw [List.mapM_cons] at h
      rcases error_of_bind h with ha | ⟨b, hb, hlater⟩
      · exact ⟨[], a, rest, rfl, fun _ hx => absurd hx List.not_mem_nil, ha⟩
      · rcases error_of_bind hlater with hrest | ⟨bs, -, hdone⟩
        · obtain ⟨front, a', behind, rfl, hfront, ha'⟩ := ih hrest
          exact ⟨a :: front, a', behind, rfl, List.forall_mem_cons.mpr ⟨⟨b, hb⟩, hfront⟩, ha'⟩
        · cases hdone
  · rintro ⟨front, a, behind, rfl, hfront, ha⟩
    induction front with
    | nil =>
      rw [List.nil_append, List.mapM_cons, ha]
      rfl
    | cons x front ih =>
      obtain ⟨⟨b, hb⟩, hlater⟩ := List.forall_mem_cons.mp hfront
      rw [List.cons_append, List.mapM_cons, hb, ih hlater]
      rfl

theorem exists_of_mapM_eq_error {f : α → Except ε β} {l : List α} {e : ε}
    (h : l.mapM f = .error e) : ∃ a ∈ l, f a = .error e := by
  obtain ⟨front, a, behind, rfl, -, ha⟩ := mapM_eq_error_iff.mp h
  exact ⟨a, by simp, ha⟩

theorem exists_mapM_iff {f : α → Except ε β} {l : List α} :
    (∃ bs, l.mapM f = .ok bs) ↔ ∀ a ∈ l, ∃ b, f a = .ok b := by
  constructor
  · rintro ⟨bs, hbs⟩
    rw [mapM_eq_ok_iff] at hbs
    induction hbs with
    | nil => exact fun _ ha => absurd ha List.not_mem_nil
    | cons hb _ ih => exact List.forall_mem_cons.mpr ⟨⟨_, hb⟩, ih⟩
  · intro h
    cases hl : l.mapM f with
    | ok bs => exact ⟨bs, rfl⟩
    | error e =>
      obtain ⟨a, ha, hfails⟩ := exists_of_mapM_eq_error hl
      obtain ⟨b, hb⟩ := h a ha
      rw [hb] at hfails
      cases hfails

theorem mapM_mapError {ε' : Type} (f : α → Except ε β) (g : ε → ε') (l : List α) :
    (l.mapM fun a => (f a).mapError g) = (l.mapM f).mapError g := by
  induction l with
  | nil => rfl
  | cons a rest ih =>
    rw [List.mapM_cons, List.mapM_cons, ih]
    cases f a with
    | error e => rfl
    | ok b => cases rest.mapM f <;> rfl

theorem mapM_flatten (f : α → Except ε β) (rows : List (List α)) :
    rows.flatten.mapM f = (rows.mapM fun row => List.mapM f row).map List.flatten := by
  induction rows with
  | nil => rfl
  | cons row rows ih =>
    rw [List.flatten_cons, List.mapM_append, List.mapM_cons, ih]
    cases row.mapM f with
    | error e => rfl
    | ok bs => cases rows.mapM fun row => List.mapM f row <;> rfl

end

end WordMachine
