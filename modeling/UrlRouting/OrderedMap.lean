/-!
# Ordered maps

A map that remembers the order in which its keys came: a key keeps the place of its first entry
and has the value of its last one.

* `put` is the rule on a list of entries, for keys under any comparison.
* `OrderedMap` is such a list together with the proof that no key occurs twice.
* `keys_insert` says where a key goes, and `get?_insert` what it then has.
* `get?_isSome` ties the keys to the values.
-/

namespace UrlRouting

variable {α β γ : Type}

/-- Put a value under a key: in place of the value the key has, or at the end. -/
def put [BEq α] (k : α) (v : β) : List (α × β) → List (α × β)
  | [] => [(k, v)]
  | (k', v') :: r => if k' == k then (k', v) :: r else (k', v') :: put k v r

theorem map_fst_put [BEq α] [LawfulBEq α] (k : α) (v : β) (l : List (α × β)) :
    (put k v l).map Prod.fst =
      if (l.map Prod.fst).contains k then l.map Prod.fst else l.map Prod.fst ++ [k] := by
  induction l with
  | nil => simp [put]
  | cons e l ih =>
    obtain ⟨k', v'⟩ := e
    by_cases h : k' = k
    · simp [put, h]
    · simp only [put, beq_iff_eq, h, if_false, List.map_cons, ih, List.contains_cons,
        beq_eq_false_iff_ne.2 (Ne.symm h), Bool.false_or]
      split <;> simp

/-- Entries in the order of their keys' first occurrence; no key occurs twice. -/
structure OrderedMap (α β : Type) where
  entries : List (α × β)
  nodup : (entries.map Prod.fst).Nodup

namespace OrderedMap

/-- The map without entries. -/
def empty : OrderedMap α β := ⟨[], List.nodup_nil⟩

/-- The keys, in order. -/
def keys (m : OrderedMap α β) : List α := m.entries.map Prod.fst

/-- The number of entries. -/
def size (m : OrderedMap α β) : Nat := m.entries.length

/-- Whether a key has a value. -/
def contains [DecidableEq α] (m : OrderedMap α β) (k : α) : Bool := m.keys.contains k

/-- The value under a key. -/
def get? [DecidableEq α] (m : OrderedMap α β) (k : α) : Option β := m.entries.lookup k

/-- Put a value under a key. -/
def insert [DecidableEq α] (m : OrderedMap α β) (k : α) (v : β) : OrderedMap α β where
  entries := put k v m.entries
  nodup := by
    rw [map_fst_put]
    split
    · exact m.nodup
    · rename_i h
      refine List.nodup_append.2 ⟨m.nodup, by simp, ?_⟩
      intro a ha b hb
      rw [List.mem_singleton.1 hb]
      rintro rfl
      exact h (List.contains_iff_mem.2 ha)

/-- The map of a list of entries, put one after the other. -/
def ofList [DecidableEq α] (l : List (α × β)) : OrderedMap α β :=
  l.foldl (fun m e => m.insert e.1 e.2) empty

/-- A key keeps its place, and a new key comes last. -/
theorem keys_insert [DecidableEq α] (m : OrderedMap α β) (k : α) (v : β) :
    (m.insert k v).keys = if m.contains k then m.keys else m.keys ++ [k] :=
  map_fst_put k v m.entries

theorem get?_isSome [DecidableEq α] (m : OrderedMap α β) (k : α) :
    (m.get? k).isSome = m.contains k := by
  obtain ⟨l, h⟩ := m
  simp only [get?, contains, keys]
  clear h
  induction l with
  | nil => rfl
  | cons e l ih =>
    obtain ⟨a, b⟩ := e
    simp only [List.lookup_cons, List.map_cons, List.contains_cons]
    cases k == a
    · rw [Bool.false_or, ← ih]
    · rfl

/-- A key has the value put last. -/
theorem get?_insert [DecidableEq α] (m : OrderedMap α β) (k k' : α) (v : β) :
    (m.insert k v).get? k' = if k' = k then some v else m.get? k' := by
  obtain ⟨l, h⟩ := m
  simp only [get?, insert]
  clear h
  induction l with
  | nil => by_cases h : k' = k <;> simp [put, List.lookup_cons, h, beq_eq_false_iff_ne.2]
  | cons e l ih =>
    obtain ⟨a, b⟩ := e
    by_cases h : a = k
    · subst h
      by_cases h' : k' = a
      · simp [put, h']
      · simp [put, List.lookup_cons, h', beq_eq_false_iff_ne.2 h']
    · by_cases h' : k' = a
      · subst h'
        simp [put, h]
      · simp [put, List.lookup_cons, h, ih, beq_eq_false_iff_ne.2 h']

end OrderedMap

end UrlRouting
