import Mathlib.Data.List.Forall2

/-!
# Fallible maps over a list

`l.mapM f` runs a fallible function over a list and stops at the first element that fails.

* `mapM_eq_ok_iff`: it succeeds exactly when every element does, element by element.
* `mapM_eq_error_iff`: it fails with the failure of the **first** element that fails.
* `mapM_eq_some_iff`: the same for a function that gives nothing instead of a failure.
* `ok_iff_and_error_iff`: an outcome is known from what makes it succeed and what makes it fail.
-/

namespace UrlRouting

variable {α β ε : Type} {f : α → Except ε β}

theorem eq_error_of_map {x : Except ε α} {g : α → β} {e : ε} (h : x.map g = .error e) :
    x = .error e := by
  cases x with
  | error e' => rw [Except.error.inj h]
  | ok a => cases h

/-- Of two relations that say what an outcome is, one that always applies is the outcome. -/
theorem ok_iff_and_error_iff {x : Except ε α} {P : α → Prop} {Q : ε → Prop}
    (hok : ∀ a, P a → x = .ok a) (herror : ∀ e, Q e → x = .error e)
    (h : (∃ a, P a) ∨ ∃ e, Q e) : (∀ a, x = .ok a ↔ P a) ∧ ∀ e, x = .error e ↔ Q e := by
  rcases h with ⟨a, ha⟩ | ⟨e, he⟩
  · obtain rfl := hok a ha
    refine ⟨fun b => ⟨fun hb => ?_, hok b⟩, fun e => ⟨fun he => ?_, herror e⟩⟩
    · rwa [← Except.ok.inj hb]
    · cases he
  · obtain rfl := herror e he
    refine ⟨fun a => ⟨fun ha => ?_, hok a⟩, fun e' => ⟨fun he' => ?_, herror e'⟩⟩
    · cases ha
    · rwa [← Except.error.inj he']

/-! ## One element -/

theorem mapM_cons_eq_ok_iff {a : α} {l : List α} {r : List β} :
    (a :: l).mapM f = .ok r ↔ ∃ b bs, f a = .ok b ∧ l.mapM f = .ok bs ∧ r = b :: bs := by
  simp only [List.mapM_cons, bind, Except.bind, pure, Except.pure]
  cases f a with
  | error e => simp
  | ok b =>
    cases l.mapM f with
    | error e => simp
    | ok bs => simp [eq_comm]

theorem mapM_cons_eq_error_iff {a : α} {l : List α} {e : ε} :
    (a :: l).mapM f = .error e ↔ f a = .error e ∨ ∃ b, f a = .ok b ∧ l.mapM f = .error e := by
  simp only [List.mapM_cons, bind, Except.bind, pure, Except.pure]
  cases f a with
  | error e => simp
  | ok b => cases l.mapM f <;> simp

/-! ## The whole list -/

theorem mapM_eq_ok_iff {l : List α} {r : List β} :
    l.mapM f = .ok r ↔ List.Forall₂ (fun a b => f a = .ok b) l r := by
  induction l generalizing r with
  | nil =>
    rw [List.mapM_nil, List.forall₂_nil_left_iff]
    exact ⟨fun h => (Except.ok.inj h).symm, fun h => h ▸ rfl⟩
  | cons a l ih => simp only [mapM_cons_eq_ok_iff, ih, List.forall₂_cons_left_iff]

theorem exists_mapM_eq_ok_iff {l : List α} :
    (∃ r, l.mapM f = .ok r) ↔ ∀ a ∈ l, ∃ b, f a = .ok b := by
  induction l with
  | nil => simp [pure, Except.pure]
  | cons a l ih =>
    rw [List.forall_mem_cons, ← ih]
    constructor
    · intro h
      obtain ⟨r, h⟩ := h
      obtain ⟨b, bs, ha, hl, -⟩ := mapM_cons_eq_ok_iff.1 h
      exact ⟨⟨b, ha⟩, ⟨bs, hl⟩⟩
    · intro h
      obtain ⟨⟨b, ha⟩, ⟨bs, hl⟩⟩ := h
      exact ⟨b :: bs, mapM_cons_eq_ok_iff.2 ⟨b, bs, ha, hl, rfl⟩⟩

/-- **A fallible map fails with its first failure.** -/
theorem mapM_eq_error_iff {l : List α} {e : ε} :
    l.mapM f = .error e ↔
      ∃ before a after, l = before ++ a :: after ∧ (∀ x ∈ before, ∃ b, f x = .ok b) ∧
        f a = .error e := by
  constructor
  · intro h
    induction l with
    | nil => simp [pure, Except.pure] at h
    | cons a l ih =>
      rcases mapM_cons_eq_error_iff.1 h with ha | ⟨b, ha, hl⟩
      · exact ⟨[], a, l, rfl, by simp, ha⟩
      · obtain ⟨before, c, after, rfl, hb, hc⟩ := ih hl
        refine ⟨a :: before, c, after, rfl, ?_, hc⟩
        rw [List.forall_mem_cons]
        exact ⟨⟨b, ha⟩, hb⟩
  · intro h
    obtain ⟨before, a, after, rfl, hb, ha⟩ := h
    induction before with
    | nil => exact mapM_cons_eq_error_iff.2 (.inl ha)
    | cons x before ih =>
      rw [List.forall_mem_cons] at hb
      obtain ⟨b, hx⟩ := hb.1
      exact mapM_cons_eq_error_iff.2 (.inr ⟨b, hx, ih hb.2⟩)

/-- What an element by element list holds comes from some element. -/
theorem exists_of_forall₂ {R : α → β → Prop} {l : List α} {r : List β} (h : List.Forall₂ R l r) :
    ∀ b ∈ r, ∃ a ∈ l, R a b := by
  induction h with
  | nil => simp
  | @cons a b l r hab h ih =>
    rw [List.forall_mem_cons]
    refine ⟨⟨a, List.mem_cons_self, hab⟩, fun b hb => ?_⟩
    obtain ⟨a, ha, hab⟩ := ih b hb
    exact ⟨a, List.mem_cons_of_mem _ ha, hab⟩

/-! ## Nothing instead of a failure -/

/-- A function that may give nothing runs over a list if it gives something everywhere. -/
theorem mapM_eq_some_iff {f : α → Option β} {l : List α} {r : List β} :
    l.mapM f = some r ↔ l.map f = r.map some := by
  induction l generalizing r with
  | nil =>
    constructor
    · intro h
      obtain rfl := Option.some.inj h
      rfl
    · intro h
      obtain rfl := List.map_eq_nil_iff.1 h.symm
      rfl
  | cons a l ih =>
    rw [List.mapM_cons, List.map_cons, eq_comm (b := r.map some), List.map_eq_cons_iff]
    simp only [bind, Option.bind_eq_some_iff, pure, Option.some.injEq]
    constructor
    · rintro ⟨b, hb, bs, hbs, rfl⟩
      exact ⟨b, bs, rfl, hb.symm, (ih.1 hbs).symm⟩
    · rintro ⟨b, bs, rfl, hb, hbs⟩
      exact ⟨b, hb.symm, bs, ih.2 hbs.symm, rfl⟩

end UrlRouting
