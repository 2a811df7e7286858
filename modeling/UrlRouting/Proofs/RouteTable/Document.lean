import UrlRouting.Proofs.RouteTable.Construction

/-!
# Configuration documents

Which values are configuration documents, and what is wrong with the others. A document is looked
at from the outside in, and the routes in it in their order.

* `FieldsOf`: the fields of a route. `Lists v routes`: the value `v` of the key `routes` writes
  these routes down, as a list of mappings or as one mapping. `Document v routes`: `v` is a document
  of these routes.
* `BadFields`, `BadItem`, `BadRoutes`: what is wrong with the fields of a route, with an entry of
  the list form, and with the value of the key `routes`. `Rejected`: what is wrong with a value
  that is no document.
* `ofFields_iff`, `route_ofValue_iff`, `routesOf_iff`: fields, entries and routes are read when they
  are written down, and else the first bad one is reported.
* `ofValue_reads_documents`: **documents are read and other values rejected**, in both forms alike.
-/

namespace UrlRouting.Config

/-! ## Routes that are written down -/

/-- The fields of a route: a name that is not empty and a pattern. -/
inductive FieldsOf : (name pattern : Option Value) → Route → Prop
  | intro {name pattern : Text} (hne : name ≠ []) :
      FieldsOf (some (.text name)) (some (.text pattern)) ⟨name, pattern⟩

/-- An entry of the list form writes this route down. Other keys do not matter. -/
inductive WritesRoute : Value → Route → Prop
  | intro {entries : List (Scalar × Value)} {r : Route}
      (h : FieldsOf (entries.lookup (.text "name".toList))
        (entries.lookup (.text "pattern".toList)) r) : WritesRoute (.mapping entries) r

/-- An entry of the mapping form writes this route down: its key is the name. -/
def WritesEntry (entry : Scalar × Value) (r : Route) : Prop :=
  FieldsOf (some (.scalar entry.1)) (some entry.2) r

/-- The value of the key `routes` writes these routes down, in this order. -/
inductive Lists : Value → List Route → Prop
  | list {items : List Value} {routes : List Route}
      (h : List.Forall₂ WritesRoute items routes) : Lists (.list items) routes
  | mapping {entries : List (Scalar × Value)} {routes : List Route}
      (h : List.Forall₂ WritesEntry entries routes) : Lists (.mapping entries) routes

/-- A document of these routes, whose names are all different. -/
inductive Document : Value → List Route → Prop
  | intro {entries : List (Scalar × Value)} {v : Value} {routes : List Route}
      (hroutes : entries.lookup (.text "routes".toList) = some v) (hlists : Lists v routes)
      (hnames : (routes.map Route.name).Nodup) : Document (.mapping entries) routes

/-! ## What can be wrong -/

/-- What is wrong with the fields of a route, if they are looked at in this order. -/
inductive BadFields : (name pattern : Option Value) → Error → Prop
  | noName {pattern : Option Value} : BadFields none pattern (.missingField .name)
  | badName {v : Value} {pattern : Option Value} (h : v.kind ≠ .text) :
      BadFields (some v) pattern (.badField .name v.kind)
  | noPattern {name : Text} : BadFields (some (.text name)) none (.missingField .pattern)
  | badPattern {name : Text} {v : Value} (h : v.kind ≠ .text) :
      BadFields (some (.text name)) (some v) (.badField .pattern v.kind)
  | emptyName {pattern : Text} : BadFields (some (.text [])) (some (.text pattern)) .emptyName

/-- What is wrong with an entry of the list form. -/
inductive BadItem : Value → Error → Prop
  | notMapping {v : Value} (h : v.kind ≠ .mapping) : BadItem v (.badRoute v.kind)
  | fields {entries : List (Scalar × Value)} {e : Error}
      (h : BadFields (entries.lookup (.text "name".toList))
        (entries.lookup (.text "pattern".toList)) e) : BadItem (.mapping entries) e

/-- What is wrong with an entry of the mapping form. -/
def BadEntry (entry : Scalar × Value) (e : Error) : Prop :=
  BadFields (some (.scalar entry.1)) (some entry.2) e

/-- All entries before the first bad one write routes down, whose names do not matter. -/
def FirstBad {α : Type} (Writes : α → Route → Prop) (Bad : α → Error → Prop) (l : List α)
    (e : Error) : Prop :=
  ∃ before a after, l = before ++ a :: after ∧ (∀ b ∈ before, ∃ r, Writes b r) ∧ Bad a e

/-- What is wrong with the value of the key `routes`. -/
inductive BadRoutes : Value → Error → Prop
  | null : BadRoutes .null .noRoutes
  | item {items : List Value} {e : Error} (h : FirstBad WritesRoute BadItem items e) :
      BadRoutes (.list items) e
  | entry {entries : List (Scalar × Value)} {e : Error}
      (h : FirstBad WritesEntry BadEntry entries e) : BadRoutes (.mapping entries) e
  | other {v : Value} (h : v.kind ∉ [.null, .list, .mapping]) : BadRoutes v (.badRoutes v.kind)

/-- The first text of a list that stands there a second time. -/
def FirstRepeated (l : List Text) (t : Text) : Prop :=
  ∃ before after, l = before ++ t :: after ∧ before.Nodup ∧ t ∈ before

/-- What is wrong with a value that is no document. -/
inductive Rejected : Value → Error → Prop
  | notMapping {v : Value} (h : v.kind ≠ .mapping) : Rejected v (.notMapping v.kind)
  | noRoutes {entries : List (Scalar × Value)}
      (h : entries.lookup (.text "routes".toList) = none) : Rejected (.mapping entries) .noRoutes
  | badRoutes {entries : List (Scalar × Value)} {v : Value} {e : Error}
      (hroutes : entries.lookup (.text "routes".toList) = some v) (hbad : BadRoutes v e) :
      Rejected (.mapping entries) e
  | duplicate {entries : List (Scalar × Value)} {v : Value} {routes : List Route} {name : Text}
      (hroutes : entries.lookup (.text "routes".toList) = some v) (hlists : Lists v routes)
      (hname : FirstRepeated (routes.map Route.name) name) :
      Rejected (.mapping entries) (.duplicate name)

/-! ## One route -/

theorem text_or_kind_ne (v : Value) : (∃ t, v = .text t) ∨ v.kind ≠ .text := by
  cases v with
  | scalar s =>
    cases s with
    | text t => exact .inl ⟨t, rfl⟩
    | null | bool | int | decimal => exact .inr (by simp [Value.kind])
  | list | mapping | url => exact .inr (by simp [Value.kind])

theorem mapping_or_kind_ne (v : Value) : (∃ entries, v = .mapping entries) ∨ v.kind ≠ .mapping := by
  cases v with
  | mapping entries => exact .inl ⟨entries, rfl⟩
  | scalar s => exact .inr (by cases s <;> simp [Value.kind])
  | list | url => exact .inr (by simp [Value.kind])

theorem textField_of_kind_ne {v : Value} (h : v.kind ≠ .text) (field : Field) :
    textField field (some v) = .error (.badField field v.kind) := by
  cases v with
  | scalar s =>
    cases s with
    | text t => exact absurd rfl h
    | null | bool | int | decimal => rfl
  | list | mapping | url => rfl

theorem ofFields_of_bad {name pattern : Option Value} {e : Error} (h : BadFields name pattern e) :
    Route.ofFields name pattern = .error e := by
  cases h with
  | noName | noPattern | emptyName => rfl
  | badName h | badPattern h =>
    rw [Route.ofFields, textField_of_kind_ne h]
    rfl

theorem fields_cases (name pattern : Option Value) :
    (∃ r, FieldsOf name pattern r) ∨ ∃ e, BadFields name pattern e := by
  rcases name with _ | name
  · exact .inr ⟨_, .noName⟩
  rcases text_or_kind_ne name with ⟨t, rfl⟩ | hname
  · rcases pattern with _ | pattern
    · exact .inr ⟨_, .noPattern⟩
    rcases text_or_kind_ne pattern with ⟨s, rfl⟩ | hpattern
    · by_cases ht : t = []
      · subst ht
        exact .inr ⟨_, .emptyName⟩
      · exact .inl ⟨⟨t, s⟩, .intro ht⟩
    · exact .inr ⟨_, .badPattern hpattern⟩
  · exact .inr ⟨_, .badName hname⟩

/-- Two fields make a route, or the first bad one is reported. -/
theorem ofFields_iff (name pattern : Option Value) :
    (∀ r, Route.ofFields name pattern = .ok r ↔ FieldsOf name pattern r) ∧
      ∀ e, Route.ofFields name pattern = .error e ↔ BadFields name pattern e := by
  refine ok_iff_and_error_iff (fun r h => ?_) (fun e => ofFields_of_bad) (fields_cases _ _)
  cases h with
  | intro hne => exact ofFields_texts hne _

/-- An entry of the list form is a route, or it is reported. -/
theorem route_ofValue_iff (v : Value) : (∀ r, Route.ofValue v = .ok r ↔ WritesRoute v r) ∧
    ∀ e, Route.ofValue v = .error e ↔ BadItem v e := by
  refine ok_iff_and_error_iff (fun r h => ?_) (fun e h => ?_) ?_
  · cases h with
    | intro h => exact ((ofFields_iff _ _).1 r).2 h
  · cases h with
    | fields h => exact ((ofFields_iff _ _).2 e).2 h
    | notMapping h =>
      cases v with
      | mapping => exact absurd rfl h
      | scalar | list | url => rfl
  · rcases mapping_or_kind_ne v with ⟨entries, rfl⟩ | hkind
    · rcases fields_cases (entries.lookup (.text "name".toList))
        (entries.lookup (.text "pattern".toList)) with ⟨r, hr⟩ | ⟨e, he⟩
      · exact .inl ⟨r, .intro hr⟩
      · exact .inr ⟨e, .fields he⟩
    · exact .inr ⟨_, .notMapping hkind⟩

/-! ## All routes -/

theorem mapM_ofValue_eq_ok_iff {items : List Value} {routes : List Route} :
    items.mapM Route.ofValue = .ok routes ↔ List.Forall₂ WritesRoute items routes := by
  simp only [mapM_eq_ok_iff, (route_ofValue_iff _).1]

theorem mapM_ofValue_eq_error_iff {items : List Value} {e : Error} :
    items.mapM Route.ofValue = .error e ↔ FirstBad WritesRoute BadItem items e := by
  simp only [mapM_eq_error_iff, (route_ofValue_iff _).1, (route_ofValue_iff _).2, FirstBad]

theorem mapM_ofEntry_eq_ok_iff {entries : List (Scalar × Value)} {routes : List Route} :
    entries.mapM Route.ofEntry = .ok routes ↔ List.Forall₂ WritesEntry entries routes := by
  simp only [mapM_eq_ok_iff, Route.ofEntry, (ofFields_iff _ _).1]
  rfl

theorem mapM_ofEntry_eq_error_iff {entries : List (Scalar × Value)} {e : Error} :
    entries.mapM Route.ofEntry = .error e ↔ FirstBad WritesEntry BadEntry entries e := by
  simp only [mapM_eq_error_iff, Route.ofEntry, (ofFields_iff _ _).1, (ofFields_iff _ _).2]
  rfl

/-- Routes that are written down are read, and else the first bad one is reported. -/
theorem routesOf_iff (v : Value) : (∀ routes, routesOf v = .ok routes ↔ Lists v routes) ∧
    ∀ e, routesOf v = .error e ↔ BadRoutes v e := by
  refine ok_iff_and_error_iff (fun routes h => ?_) (fun e h => ?_) ?_
  · cases h with
    | list h => exact mapM_ofValue_eq_ok_iff.2 h
    | mapping h => exact mapM_ofEntry_eq_ok_iff.2 h
  · cases h with
    | null => rfl
    | item h => exact mapM_ofValue_eq_error_iff.2 h
    | entry h => exact mapM_ofEntry_eq_error_iff.2 h
    | other h =>
      cases v with
      | scalar s =>
        cases s with
        | null => exact absurd (by simp [Value.kind]) h
        | text | bool | int | decimal => rfl
      | list | mapping => exact absurd (by simp [Value.kind]) h
      | url => rfl
  · cases v with
    | list items =>
      cases h : items.mapM Route.ofValue with
      | ok routes => exact .inl ⟨routes, .list (mapM_ofValue_eq_ok_iff.1 h)⟩
      | error e => exact .inr ⟨e, .item (mapM_ofValue_eq_error_iff.1 h)⟩
    | mapping entries =>
      cases h : entries.mapM Route.ofEntry with
      | ok routes => exact .inl ⟨routes, .mapping (mapM_ofEntry_eq_ok_iff.1 h)⟩
      | error e => exact .inr ⟨e, .entry (mapM_ofEntry_eq_error_iff.1 h)⟩
    | scalar s =>
      cases s with
      | null => exact .inr ⟨_, .null⟩
      | text | bool | int | decimal => exact .inr ⟨_, .other (by simp [Value.kind])⟩
    | url => exact .inr ⟨_, .other (by simp [Value.kind])⟩

/-! ## Names -/

theorem nodup_or_firstRepeated (l : List Text) : l.Nodup ∨ ∃ t, FirstRepeated l t := by
  -- From the right: a text that stands there a second time stays so whatever comes behind it.
  induction l using List.reverseRecOn with
  | nil => exact .inl List.nodup_nil
  | append_singleton l t ih =>
    rcases ih with hl | ⟨t', before, after, rfl, hbefore, ht'⟩
    · by_cases ht : t ∈ l
      · exact .inr ⟨t, l, [], rfl, hl, ht⟩
      · refine .inl (List.nodup_append.2 ⟨hl, by simp, fun a ha b hb heq => ht ?_⟩)
        rwa [← List.mem_singleton.1 hb, ← heq]
    · exact .inr ⟨t', before, after ++ [t], by simp, hbefore, ht'⟩

theorem repeated?_eq_some {seen before : List Text} {t : Text} (hnodup : before.Nodup)
    (hseen : ∀ b ∈ before, b ∉ seen) (ht : t ∈ before ∨ t ∈ seen) (after : List Text) :
    repeated? seen (before ++ t :: after) = some t := by
  induction before generalizing seen with
  | nil => exact if_pos (ht.resolve_left List.not_mem_nil)
  | cons b before ih =>
    rw [List.nodup_cons] at hnodup
    rw [List.forall_mem_cons] at hseen
    rw [List.cons_append, repeated?_cons, if_neg hseen.1]
    refine ih hnodup.2 (fun c hc hmem => ?_) ?_
    · rcases List.mem_cons.1 hmem with rfl | hmem
      · exact hnodup.1 hc
      · exact hseen.2 c hc hmem
    · rw [List.mem_cons] at ht ⊢
      tauto

theorem repeated?_of_firstRepeated {l : List Text} {t : Text} (h : FirstRepeated l t) :
    repeated? [] l = some t := by
  obtain ⟨before, after, rfl, hnodup, ht⟩ := h
  exact repeated?_eq_some hnodup (fun _ _ => List.not_mem_nil) (.inl ht) after

/-- The keys of a mapping are different, so no name occurs twice in the mapping form. -/
theorem nodup_of_lists_mapping {entries : List (Scalar × Value)} {routes : List Route}
    (hkeys : entries.Pairwise fun e f => (e.1 == f.1) = false)
    (h : Lists (.mapping entries) routes) : (routes.map Route.name).Nodup := by
  have hentries : entries = routes.map fun r => (.text r.name, .text r.pattern) := by
    cases h with
    | mapping h =>
      clear hkeys
      induction h with
      | nil => rfl
      | @cons entry r entries routes hentry _ ih =>
        obtain ⟨key, v⟩ := entry
        cases hentry with
        | intro hne =>
          rw [ih]
          rfl
  rw [hentries, List.pairwise_map] at hkeys
  rw [List.Nodup, List.pairwise_map]
  refine hkeys.imp fun hne heq => ?_
  rw [Scalar.beq_text, heq] at hne
  simp at hne

/-! ## Documents -/

section

variable {entries : List (Scalar × Value)} {v : Value}

theorem ofValue_of_error {e : Error} (h : entries.lookup (.text "routes".toList) = some v)
    (hv : routesOf v = .error e) : ofValue (.mapping entries) = .error e := by
  rw [ofValue, h, Option.getD_some, hv]
  rfl

theorem ofValue_of_repeated {routes : List Route} {name : Text}
    (h : entries.lookup (.text "routes".toList) = some v) (hv : routesOf v = .ok routes)
    (hname : repeated? [] (routes.map Route.name) = some name) :
    ofValue (.mapping entries) = .error (.duplicate name) := by
  rw [ofValue, h, Option.getD_some, hv]
  simp only [bind, Except.bind, hname]
  rfl

end

theorem ofValue_of_document {v : Value} {c : Config} (h : Document v c.routes) :
    ofValue v = .ok c := by
  cases h with
  | intro hroutes hlists hnames =>
    exact ofValue_of_nodup hroutes (((routesOf_iff _).1 _).2 hlists) hnames

theorem ofValue_of_rejected {v : Value} {e : Error} (h : Rejected v e) : ofValue v = .error e := by
  cases h with
  | notMapping h =>
    cases v with
    | mapping => exact absurd rfl h
    | scalar | list | url => rfl
  | noRoutes h =>
    rw [ofValue, h]
    rfl
  | badRoutes hroutes hbad => exact ofValue_of_error hroutes (((routesOf_iff _).2 _).2 hbad)
  | duplicate hroutes hlists hname =>
    exact ofValue_of_repeated hroutes (((routesOf_iff _).1 _).2 hlists)
      (repeated?_of_firstRepeated hname)

theorem document_or_rejected (v : Value) :
    (∃ c : Config, Document v c.routes) ∨ ∃ e, Rejected v e := by
  rcases mapping_or_kind_ne v with ⟨entries, rfl⟩ | hkind
  · cases hroutes : entries.lookup (.text "routes".toList) with
    | none => exact .inr ⟨_, .noRoutes hroutes⟩
    | some v =>
      cases hv : routesOf v with
      | error e => exact .inr ⟨e, .badRoutes hroutes (((routesOf_iff v).2 e).1 hv)⟩
      | ok routes =>
        have hlists := ((routesOf_iff v).1 routes).1 hv
        rcases nodup_or_firstRepeated (routes.map Route.name) with hnames | ⟨name, hname⟩
        · exact .inl ⟨⟨routes⟩, .intro hroutes hlists hnames⟩
        · exact .inr ⟨_, .duplicate hroutes hlists hname⟩
  · exact .inr ⟨_, .notMapping hkind⟩

/-- The entry of the list form that stands for an entry of the mapping form. -/
def asItem (entry : Scalar × Value) : Value :=
  .ofEntries [(.text "name".toList, .scalar entry.1), (.text "pattern".toList, entry.2)]

/-- The mapping with this value under the key `routes`. -/
def underRoutes (v : Value) : Value := .ofEntries [(.text "routes".toList, v)]

theorem ofValue_underRoutes_congr {v w : Value} (h : routesOf v = routesOf w) :
    ofValue (underRoutes v) = ofValue (underRoutes w) := by
  have hlookup (v : Value) :
      [(Scalar.text "routes".toList, v)].lookup (.text "routes".toList) = some v := rfl
  have hdocument (v : Value) : underRoutes v = .mapping [(.text "routes".toList, v)] := rfl
  rw [hdocument, hdocument, ofValue, ofValue, hlookup, hlookup, Option.getD_some,
    Option.getD_some, h]

/-- The two forms give the same routes, or the same error. -/
theorem routesOf_mapping (entries : List (Scalar × Value)) :
    routesOf (.mapping entries) = routesOf (.list (entries.map asItem)) := by
  rw [routesOf, routesOf, List.mapM_map]
  rfl

/-- **Documents are read and other values rejected.** A value is read exactly when it is a document,
and gives the routes that are written down there, in their order; the keys of a mapping are
different, so that in the mapping form no name can occur twice. Every other value is rejected for
what is wrong with it: the first bad route is reported whatever names stand before it. The mapping
form and the list form of the same entries come out alike, errors included. -/
theorem ofValue_reads_documents :
    (∀ v c, ofValue v = .ok c ↔ Document v c.routes) ∧
    (∀ v e, ofValue v = .error e ↔ Rejected v e) ∧
    (∀ {entries : List (Scalar × Value)} {routes : List Route}, Lists (.mapping entries) routes →
      entries.Pairwise (fun e f => (e.1 == f.1) = false) → (routes.map Route.name).Nodup) ∧
    ∀ entries : List (Scalar × Value), ofValue (underRoutes (.mapping entries)) =
      ofValue (underRoutes (.list (entries.map asItem))) := by
  have houtcome (v : Value) := ok_iff_and_error_iff (x := ofValue v)
    (P := fun c => Document v c.routes) (fun c => ofValue_of_document)
    (fun e => ofValue_of_rejected) (document_or_rejected v)
  refine ⟨fun v => (houtcome v).1, fun v => (houtcome v).2, fun h hkeys => ?_, fun entries => ?_⟩
  · exact nodup_of_lists_mapping hkeys h
  · exact ofValue_underRoutes_congr (routesOf_mapping entries)

/-- A bad name behind two routes of one name, and a mapping without any fault. -/
theorem ofValue_reads_documents_shared_name :
    let item (name : Value) : Value :=
      .ofEntries [(.text "pattern".toList, .text "/x".toList), (.text "name".toList, name)]
    let bad : Value := underRoutes (.list [item (.text "a".toList), item (.text "a".toList),
      item (.scalar (.int 5)), item (.text [])])
    let entries : List (Scalar × Value) :=
      [(.text "a".toList, .text "/x".toList), (.text "b".toList, .text "/y".toList)]
    let routes : List Route := [⟨"a", "/x"⟩, ⟨"b", "/y"⟩]
    ofValue bad = .error (.badField .name .int) ∧ Rejected bad (.badField .name .int) ∧
      Lists (.mapping entries) routes ∧ entries.Pairwise (fun e f => (e.1 == f.1) = false) ∧
      (routes.map Route.name).Nodup ∧
      Document (underRoutes (.list (entries.map asItem))) routes := by
  intro item bad entries routes
  obtain ⟨hok, herror, hnames, hforms⟩ := ofValue_reads_documents
  have hbad : ofValue bad = .error (.badField .name .int) := rfl
  have hread : ofValue (underRoutes (.mapping entries)) = .ok ⟨routes⟩ := rfl
  have hlists : Lists (.mapping entries) routes :=
    .mapping (.cons (.intro (by decide)) (.cons (.intro (by decide)) .nil))
  have hkeys : entries.Pairwise fun e f => (e.1 == f.1) = false := by
    simp [entries, Scalar.beq_text]
  rw [hforms] at hread
  exact ⟨hbad, (herror bad _).1 hbad, hlists, hkeys, hnames hlists hkeys, (hok _ ⟨routes⟩).1 hread⟩

end UrlRouting.Config
