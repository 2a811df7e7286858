import UrlRouting.Proofs.RouteTable.Construction
import UrlRouting.Proofs.RouteTable.Leaves

/-!
# Consistent tables

A table is built of a map of named targets. It keeps the map, by which it says which names it has,
and its entries, by which it does everything else. The two agree.

* `BuiltOf given t`: the table `t` is built of these named targets, in one of the ways to build a
  table. `build_of_builtOf`: **all ways build the map of what was given**.
* `parts_of_build`: a built table keeps its targets and has their entries, in their order.
  `names_of_build`, `get?_of_build`: its names and its matchers.
* `name_mem_of_firstRouted`: a match has the name of an entry.
* `Consistent given t`: the table `t` agrees with the map of what was given.
  `consistent_of_builtOf`: **every table that was built is consistent**.
-/

namespace UrlRouting.RouteTable

/-! ## Ways to build -/

/-- The table is built of these named targets: of a map, of a draft after any calls, or of a
configuration, whose names may occur twice. -/
inductive BuiltOf : List (Text × Target) → RouteTable → Prop
  | map {targets : OrderedMap Text Target} {t : RouteTable}
      (h : (build targets).outcome = .ok t) : BuiltOf targets.entries t
  | draft {calls : List Draft.Call} {t : RouteTable}
      (h : ((Draft.empty.run calls).2.call .build).1.outcome = .ok (.built t)) :
      BuiltOf (Draft.additions calls) t
  | config {c : Config} {t : RouteTable} (h : (ofConfig c).outcome = .ok t) :
      BuiltOf (c.routes.map fun r => (r.name, .source r.pattern)) t

theorem outcome_of_map_built {l : Logged Error RouteTable} {t : RouteTable}
    (h : (l.map Draft.Answer.built).outcome = .ok (.built t)) : l.outcome = .ok t := by
  obtain ⟨events, e | t'⟩ := l
  · cases h
  · cases h
    rfl

theorem build_of_builtOf {given : List (Text × Target)} {t : RouteTable} (h : BuiltOf given t) :
    (build (.ofList given)).outcome = .ok t := by
  cases h with
  | map h => rwa [OrderedMap.ofList_entries]
  | draft h =>
    rw [Draft.call_build_after] at h
    exact outcome_of_map_built h
  | config h => exact h

/-! ## Entries -/

section

variable {targets : OrderedMap Text Target} {t : RouteTable}

/-- A table that was built is not too large, keeps its targets, and has an entry for each. -/
theorem parts_of_build (h : (build targets).outcome = .ok t) :
    targets.size ≤ maxEntries ∧ t.targets = targets ∧
      targets.entries.mapM entryOf = .ok t.entries := by
  rw [build_outcome] at h
  split at h
  · cases h
  · rename_i hsize
    refine ⟨Nat.not_lt.1 hsize, ?_⟩
    cases hentries : targets.entries.mapM entryOf with
    | error e =>
      rw [hentries] at h
      cases h
    | ok entries =>
      rw [hentries] at h
      cases h
      exact ⟨rfl, rfl⟩

theorem names_of_build (h : (build targets).outcome = .ok t) : t.names = targets.keys :=
  map_fst_of_mapM (parts_of_build h).2.2

/-- **Under a name is the matcher of the target that the map has there.** -/
theorem get?_of_build (h : (build targets).outcome = .ok t) {name : Text} {target : Target}
    (htarget : targets.get? name = some target) :
    ∃ m, (prepare name target).outcome = .ok m ∧ t.get? name = some m :=
  lookup_of_mapM targets.nodup (parts_of_build h).2.2 _ (OrderedMap.mem_of_get?_eq_some htarget)

theorem get?_isSome_iff {name : Text} : (t.get? name).isSome = true ↔ name ∈ t.names := by
  rw [get?, names, List.lookup_isSome_iff, List.mem_map]
  exact exists_congr fun e => and_congr_right fun _ => beq_iff_eq.trans eq_comm

end

/-! ## Names of matches -/

theorem name_of_named {o : Outcome} {name : Text} {r : Routed} (h : o.named name = .ok r) :
    r.name = name := by
  have hrenamed := o.named_renamed name
  rw [h] at hrenamed
  rw [← Except.ok.inj hrenamed]

theorem name_of_respondNamed {candidate : Value} {entry : Text × Matcher} {r : Routed}
    (h : respondNamed candidate entry = .ok (some r)) : r.name = entry.1 := by
  obtain ⟨name, m⟩ := entry
  rw [respondNamed] at h
  split at h
  · cases h
  · cases h
  · rename_i o _
    cases hnamed : o.named name with
    | error e =>
      rw [hnamed] at h
      cases h
    | ok r' =>
      rw [hnamed] at h
      cases h
      exact name_of_named hnamed

theorem name_mem_of_firstRouted {candidate : Value} {entries : List (Text × Matcher)} {r : Routed}
    (h : firstRouted candidate entries = .ok (some r)) : r.name ∈ entries.map Prod.fst := by
  induction entries with
  | nil => cases h
  | cons entry rest ih =>
    rw [firstRouted] at h
    rw [List.map_cons]
    split at h
    · cases h
    · exact List.mem_cons_of_mem _ (ih h)
    · rename_i r' hr
      obtain rfl := Option.some.inj (Except.ok.inj h)
      rw [name_of_respondNamed hr]
      exact List.mem_cons_self

/-! ## All together -/

/-- Whatever is asked of the table agrees with the map of what was given. -/
structure Consistent (given : List (Text × Target)) (t : RouteTable) : Prop where
  /-- A name stands where it was first given. -/
  names_eq : t.names = (given.map Prod.fst).eraseDups
  nodup : t.names.Nodup
  length_le : t.names.length ≤ 256
  size_eq : t.size = t.names.length
  key_iff : ∀ name, (OrderedMap.ofList given).contains name = true ↔ name ∈ t.names
  contains_iff : ∀ name, t.contains (.text name) = true ↔ name ∈ t.names
  get?_iff : ∀ name, (t.get? name).isSome = true ↔ name ∈ t.names
  /-- A name has the pattern of the source that was given last for it. -/
  get?_source : ∀ {name source}, LastEntry given name (.source source) →
    ∃ p, Pattern.compile source = .ok p ∧ t.get? name = some (.pattern p)
  get?_matcher : ∀ {name m}, LastEntry given name (.matcher m) → t.get? name = some m
  name_mem : ∀ {candidate r}, t.match? candidate = .ok (some r) → r.name ∈ t.names

/-- **Every table that was built is consistent**, whichever way it was built. -/
theorem consistent_of_builtOf {given : List (Text × Target)} {t : RouteTable}
    (h : BuiltOf given t) : Consistent given t := by
  have hbuild := build_of_builtOf h
  have hnames := names_of_build hbuild
  have hget {name : Text} {target : Target} (hlast : LastEntry given name target) :=
    get?_of_build hbuild (OrderedMap.get?_ofList_eq_some_iff.2 hlast)
  have hkey (name : Text) : (OrderedMap.ofList given).contains name = true ↔ name ∈ t.names := by
    rw [hnames]
    exact OrderedMap.contains_iff_mem_keys _ name
  constructor
  case names_eq => rw [hnames, OrderedMap.keys_ofList]
  case nodup =>
    rw [hnames]
    exact (OrderedMap.ofList given).nodup
  case length_le =>
    rw [hnames, OrderedMap.keys, List.length_map]
    exact (parts_of_build hbuild).1
  case size_eq => exact (List.length_map _).symm
  case key_iff => exact hkey
  case contains_iff =>
    intro name
    rw [contains, (parts_of_build hbuild).2.1]
    exact hkey name
  case get?_iff => exact fun name => get?_isSome_iff
  case get?_source =>
    intro name source hlast
    obtain ⟨m, hm, hname⟩ := hget hlast
    obtain ⟨p, hp, rfl⟩ := prepare_source_eq_ok_iff.1 hm
    exact ⟨p, hp, hname⟩
  case get?_matcher =>
    intro name m hlast
    obtain ⟨m', hm, hname⟩ := hget hlast
    obtain rfl := Except.ok.inj hm
    exact hname
  case name_mem => exact name_mem_of_firstRouted

/-- A configuration that gives a name twice, and a draft that was given a name twice and a
function. -/
theorem consistent_of_builtOf_repeated :
    let c : Config := ⟨[⟨"a", "/x"⟩, ⟨"b", "/:y"⟩, ⟨"a", "/z"⟩]⟩
    let quiet : Matcher := .custom fun _ => none
    let calls : List Draft.Call := [.add "q".toList (.matcher quiet),
      .add "q".toList (.source "/:".toList), .add "a".toList (.source "/z".toList)]
    (∃ t p r, BuiltOf (c.routes.map fun e => (e.name, .source e.pattern)) t ∧
      t.names = ["a".toList, "b".toList] ∧ Pattern.compile "/z".toList = .ok p ∧
      t.get? "a".toList = some (.pattern p) ∧
      t.match? (.text "/7".toList) = .ok (some r) ∧ r.name ∈ t.names) ∧
    ∃ t, BuiltOf (Draft.additions calls) t ∧ t.get? "q".toList = some quiet ∧
      t.contains (.text "b".toList) = false := by
  intro c quiet calls
  let z : Pattern := ⟨"/z", [.literal "z"], [], none⟩
  constructor
  · let t : RouteTable := ⟨.ofList (c.routes.map fun e => (e.name, .source e.pattern)),
      [("a".toList, .pattern z), ("b".toList, .pattern ⟨"/:y", [.capture "y"], [], none⟩)]⟩
    have hbuilt : (ofConfig c).outcome = .ok t := rfl
    have hconsistent := consistent_of_builtOf (.config hbuilt)
    have hlast : LastEntry (c.routes.map fun e => (e.name, Target.source e.pattern)) "a".toList
        (.source "/z".toList) :=
      ⟨[("a".toList, .source "/x".toList), ("b".toList, .source "/:y".toList)], [], rfl, by simp⟩
    obtain ⟨p, hp, hget⟩ := hconsistent.get?_source hlast
    have hmatch : ∃ r, t.match? (.text "/7".toList) = .ok (some r) := ⟨_, rfl⟩
    obtain ⟨r, hr⟩ := hmatch
    exact ⟨t, p, r, .config hbuilt, hconsistent.names_eq, hp, hget, hr, hconsistent.name_mem hr⟩
  · let t : RouteTable := ⟨.ofList (Draft.additions calls),
      [("q".toList, quiet), ("a".toList, .pattern z)]⟩
    have hbuilt : ((Draft.empty.run calls).2.call .build).1.outcome = .ok (.built t) := rfl
    have hconsistent := consistent_of_builtOf (.draft hbuilt)
    refine ⟨t, .draft hbuilt, hconsistent.get?_matcher ?_, ?_⟩
    · exact ⟨[], [("a".toList, .source "/z".toList)], rfl, by simp⟩
    · rw [Bool.eq_false_iff, Ne, hconsistent.contains_iff, hconsistent.names_eq]
      decide

end UrlRouting.RouteTable
