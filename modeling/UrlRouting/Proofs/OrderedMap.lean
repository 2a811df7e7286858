import Mathlib.Data.List.Basic
import Mathlib.Data.List.Induction
import UrlRouting.OrderedMap

/-!
# Maps of lists of entries

What `OrderedMap.ofList` makes of entries put one after the other.

* `LastEntry l k v`: `v` is the value of the last entry of `l` under `k`.
* `keys_ofList`: the keys stand in the order of their **first** entries.
* `get?_ofList_eq_some_iff`: a key has the value of its **last** entry.
* `foldl_put_eq_self`, `entries_ofList_of_nodup`: entries under different keys stay as they are.
-/

namespace UrlRouting

variable {α β γ : Type}

/-! ## The last entry of a key -/

/-- The last entry of a list under the key `k` has the value `v`. -/
def LastEntry (l : List (α × β)) (k : α) (v : β) : Prop :=
  ∃ before after, l = before ++ (k, v) :: after ∧ ∀ e ∈ after, e.1 ≠ k

theorem not_lastEntry_nil (k : α) (v : β) : ¬ LastEntry [] k v := by
  intro h
  obtain ⟨before, after, h, -⟩ := h
  simp at h

/-- An entry put last is the last one of its key and changes no other. -/
theorem lastEntry_concat_iff {l : List (α × β)} {e : α × β} {k : α} {v : β} :
    LastEntry (l ++ [e]) k v ↔ (k = e.1 ∧ v = e.2) ∨ (k ≠ e.1 ∧ LastEntry l k v) := by
  constructor
  · intro h
    obtain ⟨before, after, h, hafter⟩ := h
    rcases List.eq_nil_or_concat' after with rfl | ⟨after, x, rfl⟩
    · obtain ⟨-, he⟩ := List.append_inj' h rfl
      obtain rfl := (List.cons.inj he).1
      exact .inl ⟨rfl, rfl⟩
    · rw [← List.cons_append, ← List.append_assoc] at h
      obtain ⟨rfl, he⟩ := List.append_inj' h rfl
      obtain rfl := (List.cons.inj he).1
      refine .inr ⟨(hafter e (by simp)).symm, before, after, rfl, fun y hy => ?_⟩
      exact hafter y (by simp [hy])
  · rintro (⟨rfl, rfl⟩ | ⟨hk, before, after, rfl, hafter⟩)
    · exact ⟨l, [], rfl, by simp⟩
    · refine ⟨before, after ++ [e], by simp, fun x hx => ?_⟩
      rcases List.mem_append.1 hx with hx | hx
      · exact hafter x hx
      · rw [List.mem_singleton.1 hx]
        exact hk.symm

/-- With a value that the key gives, no entry is different from another one of its key. -/
theorem lastEntry_map_iff {ks : List α} {f : α → β} {k : α} {v : β} :
    LastEntry (ks.map fun k => (k, f k)) k v ↔ k ∈ ks ∧ v = f k := by
  induction ks using List.reverseRecOn with
  | nil => exact iff_of_false (not_lastEntry_nil k v) (by simp)
  | append_singleton ks k' ih =>
    rw [List.map_append, List.map_singleton, lastEntry_concat_iff, ih, List.mem_append,
      List.mem_singleton]
    by_cases h : k = k'
    · simp [h]
    · simp [h]

theorem lastEntry_filterMap_iff {l : List γ} {g : γ → Option (α × β)} {k : α} {v : β} :
    LastEntry (l.filterMap g) k v ↔
      ∃ before a after, l = before ++ a :: after ∧ g a = some (k, v) ∧
        ∀ b ∈ after, ∀ w, g b ≠ some (k, w) := by
  constructor
  · intro h
    obtain ⟨before, after, h, hafter⟩ := h
    obtain ⟨l₁, l₂, rfl, -, h₂⟩ := List.filterMap_eq_append_iff.1 h
    obtain ⟨skipped, a, l₃, rfl, -, ha, rfl⟩ := List.filterMap_eq_cons_iff.1 h₂
    refine ⟨l₁ ++ skipped, a, l₃, by simp, ha, fun b hb w hw => ?_⟩
    exact hafter _ (List.mem_filterMap.2 ⟨b, hb, hw⟩) rfl
  · intro h
    obtain ⟨before, a, after, rfl, ha, hafter⟩ := h
    refine ⟨before.filterMap g, after.filterMap g, by simp [ha], ?_⟩
    rintro ⟨k', w⟩ he rfl
    obtain ⟨b, hb, hw⟩ := List.mem_filterMap.1 he
    exact hafter b hb w hw

/-! ## New keys -/

theorem put_of_forall_ne [BEq α] {l : List (α × β)} {k : α} (h : ∀ e ∈ l, (e.1 == k) = false)
    (v : β) : put k v l = l ++ [(k, v)] := by
  induction l with
  | nil => rfl
  | cons e l ih =>
    rw [List.forall_mem_cons] at h
    obtain ⟨hk, hl⟩ := h
    rw [put, hk, ih hl]
    rfl

/-- Entries under different keys stay as they are when they are put one after the other. -/
theorem foldl_put_eq_self [BEq α] {l : List (α × β)}
    (h : l.Pairwise fun e f => (e.1 == f.1) = false) :
    l.foldl (fun es e => put e.1 e.2 es) [] = l := by
  induction l using List.reverseRecOn with
  | nil => rfl
  | append_singleton l e ih =>
    rw [List.pairwise_append] at h
    obtain ⟨hl, -, hlast⟩ := h
    rw [List.foldl_append, ih hl]
    exact put_of_forall_ne (fun f hf => hlast f hf e (List.mem_singleton_self e)) e.2

namespace OrderedMap

/-! ## Keys and values -/

theorem mem_keys_iff {m : OrderedMap α β} {k : α} : k ∈ m.keys ↔ ∃ v, (k, v) ∈ m.entries := by
  simp [keys]

variable [DecidableEq α]

theorem entries_insert_of_not_mem {m : OrderedMap α β} {k : α} (h : k ∉ m.keys) (v : β) :
    (m.insert k v).entries = m.entries ++ [(k, v)] := by
  apply put_of_forall_ne
  intro e he
  rw [beq_eq_false_iff_ne]
  rintro rfl
  exact h (List.mem_map_of_mem he)

theorem ofList_concat (l : List (α × β)) (e : α × β) :
    ofList (l ++ [e]) = (ofList l).insert e.1 e.2 := by
  rw [ofList, List.foldl_append]
  rfl

theorem entries_ofList (l : List (α × β)) :
    (ofList l).entries = l.foldl (fun es e => put e.1 e.2 es) [] := by
  induction l using List.reverseRecOn with
  | nil => rfl
  | append_singleton l e ih =>
    rw [ofList_concat, List.foldl_append, ← ih]
    rfl

theorem entries_ofList_of_nodup {l : List (α × β)} (h : (l.map Prod.fst).Nodup) :
    (ofList l).entries = l := by
  rw [entries_ofList, foldl_put_eq_self]
  rw [List.Nodup, List.pairwise_map] at h
  exact h.imp fun hne => beq_eq_false_iff_ne.2 hne

theorem ofList_entries (m : OrderedMap α β) : ofList m.entries = m := by
  obtain ⟨l, h⟩ := m
  have hl := entries_ofList_of_nodup h
  cases ho : ofList l with
  | mk l' h' =>
    rw [ho] at hl
    cases hl
    rfl

theorem contains_iff_mem_keys (m : OrderedMap α β) (k : α) : m.contains k = true ↔ k ∈ m.keys :=
  List.contains_iff_mem

theorem mem_of_get?_eq_some {m : OrderedMap α β} {k : α} {v : β} (h : m.get? k = some v) :
    (k, v) ∈ m.entries := by
  obtain ⟨before, after, hentries, -⟩ := List.lookup_eq_some_iff.1 h
  rw [hentries]
  simp

/-- The keys stand in the order of their first entries. -/
theorem keys_ofList [BEq α] [LawfulBEq α] (l : List (α × β)) :
    (ofList l).keys = (l.map Prod.fst).eraseDups := by
  induction l using List.reverseRecOn with
  | nil => rfl
  | append_singleton l e ih =>
    have hmem : (ofList l).contains e.1 = true ↔ e.1 ∈ l.map Prod.fst := by
      rw [contains_iff_mem_keys, ih, List.mem_eraseDups]
    rw [ofList_concat, keys_insert, ih, List.map_append, List.eraseDups_append]
    by_cases h : e.1 ∈ l.map Prod.fst
    · have hr : [e.1].removeAll (l.map Prod.fst) = [] := by simpa [List.removeAll] using h
      rw [if_pos (hmem.2 h), List.map_singleton, hr]
      simp
    · have hr : [e.1].removeAll (l.map Prod.fst) = [e.1] := by simpa [List.removeAll] using h
      rw [if_neg fun hc => h (hmem.1 hc), List.map_singleton, hr]
      simp [List.eraseDups_cons]

/-- A key has the value of its last entry. -/
theorem get?_ofList_eq_some_iff {l : List (α × β)} {k : α} {v : β} :
    (ofList l).get? k = some v ↔ LastEntry l k v := by
  induction l using List.reverseRecOn with
  | nil => exact iff_of_false (by simp [ofList, empty, get?]) (not_lastEntry_nil k v)
  | append_singleton l e ih =>
    rw [ofList_concat, get?_insert, lastEntry_concat_iff, ← ih]
    by_cases h : k = e.1
    · simp [h, eq_comm]
    · simp [h]

end OrderedMap

end UrlRouting
