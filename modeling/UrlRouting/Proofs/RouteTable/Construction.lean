import UrlRouting.Proofs.FirstFailure
import UrlRouting.Proofs.RouteTable.Runs
import UrlRouting.RouteTable.Config

/-!
# Ways to build a table

The same routes, names with the sources of their patterns, can be given as a map, added to a draft
one after the other, or written down in a configuration document in either of its two forms.

* `prepareAll_outcome`: a table is built entry by entry, up to the first bad one.
  `map_fst_of_mapM`, `lookup_of_mapM`: the entries have the names of the targets and their matchers.
* `Rejected`, `IsTableOf`: why routes make no table, and which table they make otherwise.
  `build_sources`: **building a map of routes gives one or the other**.
* `Draft.run_additions`, `Config.ofValue_listForm`, `Config.ofValue_mappingForm`: a draft and a
  document keep the routes in their order.
* `constructions_agree`: **all ways give the same table, or the same error**.
-/

namespace UrlRouting

namespace RouteTable

/-! ## Entry by entry -/

/-- The entry of a target under its name. -/
def entryOf (e : Text × Target) : Except Error (Text × Matcher) :=
  (prepare e.1 e.2).outcome.map fun m => (e.1, m)

theorem prepareAll_outcome (l : List (Text × Target)) :
    (prepareAll l).outcome = l.mapM entryOf := by
  induction l with
  | nil => rfl
  | cons e l ih =>
    obtain ⟨name, target⟩ := e
    rw [List.mapM_cons, ← ih, prepareAll, entryOf]
    generalize prepareAll l = others
    rcases prepare name target with ⟨events, e | m⟩
    · rfl
    · rcases others with ⟨events', e | entries⟩ <;> rfl

theorem build_outcome (targets : OrderedMap Text Target) :
    (build targets).outcome =
      if maxEntries < targets.size then .error (.tooMany targets.size)
      else (targets.entries.mapM entryOf).map (RouteTable.mk targets) := by
  unfold build
  split
  · rfl
  · rw [← prepareAll_outcome]
    rcases prepareAll targets.entries with ⟨events, e | entries⟩ <;> rfl

/-- The matcher of an entry is that of its target, under the same name. -/
theorem entryOf_eq_ok_iff {e : Text × Target} {entry : Text × Matcher} :
    entryOf e = .ok entry ↔ entry.1 = e.1 ∧ (prepare e.1 e.2).outcome = .ok entry.2 := by
  obtain ⟨name, m⟩ := entry
  rw [entryOf]
  cases (prepare e.1 e.2).outcome with
  | error cause => simp [Except.map]
  | ok m' => simp [Except.map, eq_comm]

section

variable {targets : List (Text × Target)} {entries : List (Text × Matcher)}

theorem map_fst_of_mapM (h : targets.mapM entryOf = .ok entries) :
    entries.map Prod.fst = targets.map Prod.fst := by
  rw [mapM_eq_ok_iff] at h
  induction h with
  | nil => rfl
  | cons hentry _ ih => rw [List.map_cons, List.map_cons, ih, (entryOf_eq_ok_iff.1 hentry).1]

/-- **Under the name of a target is its matcher.** -/
theorem lookup_of_mapM (hnodup : (targets.map Prod.fst).Nodup)
    (h : targets.mapM entryOf = .ok entries) :
    ∀ e ∈ targets, ∃ m, (prepare e.1 e.2).outcome = .ok m ∧ entries.lookup e.1 = some m := by
  rw [mapM_eq_ok_iff] at h
  induction h with
  | nil => simp
  | @cons e entry _ _ hentry _ ih =>
    obtain ⟨name, m⟩ := entry
    obtain ⟨rfl, hm⟩ := entryOf_eq_ok_iff.1 hentry
    rw [List.map_cons, List.nodup_cons] at hnodup
    rw [List.forall_mem_cons]
    refine ⟨⟨m, hm, List.lookup_cons_self⟩, fun e' he' => ?_⟩
    obtain ⟨m', hm', hlookup⟩ := ih hnodup.2 e' he'
    refine ⟨m', hm', ?_⟩
    have hne : e'.1 ≠ e.1 := fun heq => hnodup.1 (List.mem_map.2 ⟨e', he', heq⟩)
    rw [List.lookup_cons, beq_eq_false_iff_ne.2 hne]
    exact hlookup

end

/-! ## Tables of routes -/

/-- Routes as targets. -/
def sources (routes : List (Text × Text)) : List (Text × Target) :=
  routes.map fun e => (e.1, .source e.2)

theorem map_fst_sources (routes : List (Text × Text)) :
    (sources routes).map Prod.fst = routes.map Prod.fst := by
  rw [sources, List.map_map]
  rfl

theorem prepare_source (name source : Text) : prepare name (.source source) =
    match Pattern.compile source with
    | .ok p => ⟨[.compiled p], .ok (.pattern p)⟩
    | .error cause => ⟨[], .error (.badPattern name cause)⟩ := rfl

theorem prepare_source_eq_ok_iff {name source : Text} {m : Matcher} :
    (prepare name (.source source)).outcome = .ok m ↔
      ∃ p, Pattern.compile source = .ok p ∧ m = .pattern p := by
  rw [prepare_source]
  cases Pattern.compile source with
  | ok p => simp [eq_comm]
  | error cause => simp

theorem entryOf_source_eq_error_iff {name source : Text} {e : Error} :
    entryOf (name, .source source) = .error e ↔
      ∃ cause, Pattern.compile source = .error cause ∧ e = .badPattern name cause := by
  rw [entryOf, prepare_source]
  cases Pattern.compile source with
  | ok p => simp [Except.map]
  | error cause => simp [Except.map, eq_comm]

/-- Why some routes make no table: they are too many, or the first pattern that cannot be compiled
is that of this route. -/
inductive Rejected (routes : List (Text × Text)) : Error → Prop
  | tooMany (h : maxEntries < routes.length) : Rejected routes (.tooMany routes.length)
  | badPattern {before after : List (Text × Text)} {name source : Text} {cause : Pattern.Error}
      (h : routes.length ≤ maxEntries) (hroutes : routes = before ++ (name, source) :: after)
      (hbefore : ∀ e ∈ before, ∃ p, Pattern.compile e.2 = .ok p)
      (hcause : Pattern.compile source = .error cause) : Rejected routes (.badPattern name cause)

/-- The table has the names of the routes, in their order, and under each its pattern. -/
structure IsTableOf (routes : List (Text × Text)) (t : RouteTable) : Prop where
  names : t.names = routes.map Prod.fst
  get? : ∀ e ∈ routes, ∃ p, Pattern.compile e.2 = .ok p ∧ t.get? e.1 = some (.pattern p)

theorem isTableOf_of_mapM {routes : List (Text × Text)} {t : RouteTable}
    (hnodup : (routes.map Prod.fst).Nodup) (h : (sources routes).mapM entryOf = .ok t.entries) :
    IsTableOf routes t := by
  rw [← map_fst_sources] at hnodup
  refine ⟨(map_fst_of_mapM h).trans (map_fst_sources routes), fun e he => ?_⟩
  obtain ⟨m, hm, hlookup⟩ := lookup_of_mapM hnodup h _ (List.mem_map_of_mem he)
  obtain ⟨p, hp, rfl⟩ := prepare_source_eq_ok_iff.1 hm
  exact ⟨p, hp, hlookup⟩

theorem rejected_of_mapM {routes : List (Text × Text)} {e : Error}
    (hlength : routes.length ≤ maxEntries) (h : (sources routes).mapM entryOf = .error e) :
    Rejected routes e := by
  obtain ⟨before, bad, after, hsplit, hbefore, hbad⟩ := mapM_eq_error_iff.1 h
  obtain ⟨before, rest, hroutes, rfl, hrest⟩ := List.map_eq_append_iff.1 hsplit
  obtain ⟨route, after, rfl, rfl, rfl⟩ := List.map_eq_cons_iff.1 hrest
  obtain ⟨cause, hcause, rfl⟩ := entryOf_source_eq_error_iff.1 hbad
  refine .badPattern hlength hroutes (fun e he => ?_) hcause
  obtain ⟨entry, hentry⟩ := hbefore _ (List.mem_map_of_mem he)
  obtain ⟨p, hp, -⟩ := prepare_source_eq_ok_iff.1 (entryOf_eq_ok_iff.1 hentry).2
  exact ⟨p, hp⟩

/-- **Building a map of routes** rejects them or gives their table. -/
theorem build_sources {routes : List (Text × Text)} (hnodup : (routes.map Prod.fst).Nodup) :
    (∃ e, (build (.ofList (sources routes))).outcome = .error e ∧ Rejected routes e) ∨
      ∃ t, (build (.ofList (sources routes))).outcome = .ok t ∧ IsTableOf routes t := by
  have hentries : (OrderedMap.ofList (sources routes)).entries = sources routes :=
    OrderedMap.entries_ofList_of_nodup (by rwa [map_fst_sources])
  have hsize : (OrderedMap.ofList (sources routes)).size = routes.length := by
    rw [OrderedMap.size, hentries, sources, List.length_map]
  rw [build_outcome, hsize, hentries]
  by_cases hlength : maxEntries < routes.length
  · exact .inl ⟨_, if_pos hlength, .tooMany hlength⟩
  · rw [if_neg hlength]
    cases h : (sources routes).mapM entryOf with
    | error e => exact .inl ⟨e, rfl, rejected_of_mapM (Nat.not_lt.1 hlength) h⟩
    | ok entries => exact .inr ⟨⟨_, entries⟩, rfl, isTableOf_of_mapM hnodup h⟩

/-! ## Drafts -/

/-- Targets under new names are all added, in their order. -/
theorem Draft.run_additions {d : Draft} {l : List (Text × Target)}
    (h : (d.targets.keys ++ l.map Prod.fst).Nodup) :
    (d.run (l.map fun e => .add e.1 e.2)).1 = l.map (fun _ => ⟨[], .ok .added⟩) ∧
      (d.run (l.map fun e => .add e.1 e.2)).2.targets.entries = d.targets.entries ++ l := by
  induction l generalizing d with
  | nil => exact ⟨rfl, (List.append_nil _).symm⟩
  | cons e l ih =>
    obtain ⟨name, target⟩ := e
    have hnew : name ∉ d.targets.keys := fun hmem => by
      rw [List.nodup_append] at h
      exact h.2.2 name hmem name (by simp) rfl
    have hentries := OrderedMap.entries_insert_of_not_mem hnew target
    have hkeys : (d.targets.insert name target).keys ++ l.map Prod.fst =
        d.targets.keys ++ (name :: l.map Prod.fst) := by
      rw [OrderedMap.keys, hentries]
      simp [OrderedMap.keys]
    obtain ⟨hresults, hdraft⟩ := ih (d := ⟨d.targets.insert name target⟩) (by rwa [hkeys])
    rw [List.map_cons, run_cons, call_add_of_not_mem hnew]
    refine ⟨congrArg (List.cons _) hresults, hdraft.trans ?_⟩
    rw [hentries, List.append_assoc]
    rfl

end RouteTable

/-! ## Documents -/

/-- The mapping of entries under different texts has these entries. -/
theorem Value.ofEntries_texts {α : Type} {key : α → Text} {l : List α} (h : (l.map key).Nodup)
    (value : α → Value) : Value.ofEntries (l.map fun a => (.text (key a), value a)) =
      .mapping (l.map fun a => (.text (key a), value a)) := by
  rw [List.Nodup, List.pairwise_map] at h
  refine congrArg Value.mapping (foldl_put_eq_self (List.pairwise_map.2 (h.imp fun hne => ?_)))
  rw [Scalar.beq_text]
  exact decide_eq_false fun heq => hne (Scalar.text.inj heq)

namespace Config

/-- The document that lists the routes. -/
def listForm (routes : List (Text × Text)) : Value :=
  .ofEntries [(.text "routes".toList, .list (routes.map fun e =>
    .ofEntries [(.text "name".toList, .text e.1), (.text "pattern".toList, .text e.2)]))]

/-- The document that maps the names to the patterns. -/
def mappingForm (routes : List (Text × Text)) : Value :=
  .ofEntries [(.text "routes".toList, .ofEntries (routes.map fun e => (.text e.1, .text e.2)))]

/-- The configuration of the routes. -/
def ofRoutes (routes : List (Text × Text)) : Config := ⟨routes.map fun e => ⟨e.1, e.2⟩⟩

theorem ofFields_texts {name : Text} (h : name ≠ []) (pattern : Text) :
    Route.ofFields (some (.text name)) (some (.text pattern)) = .ok ⟨name, pattern⟩ := by
  simp only [Route.ofFields, textField, bind, Except.bind, if_neg h]
  rfl

theorem repeated?_cons (seen : List Text) (t : Text) (rest : List Text) :
    repeated? seen (t :: rest) = if t ∈ seen then some t else repeated? (t :: seen) rest := rfl

theorem repeated?_eq_none {seen l : List Text} (hnodup : l.Nodup) (hseen : ∀ t ∈ l, t ∉ seen) :
    repeated? seen l = none := by
  induction l generalizing seen with
  | nil => rfl
  | cons t l ih =>
    rw [List.nodup_cons] at hnodup
    rw [List.forall_mem_cons] at hseen
    rw [repeated?_cons, if_neg hseen.1]
    refine ih hnodup.2 fun t' ht' hmem => ?_
    rcases List.mem_cons.1 hmem with rfl | hmem
    · exact hnodup.1 ht'
    · exact hseen.2 t' ht' hmem

/-- A document whose value under `routes` reads as some routes with different names. -/
theorem ofValue_of_nodup {entries : List (Scalar × Value)} {v : Value} {routes : List Route}
    (h : entries.lookup (.text "routes".toList) = some v) (hv : routesOf v = .ok routes)
    (hnames : (routes.map Route.name).Nodup) : ofValue (.mapping entries) = .ok ⟨routes⟩ := by
  have hnone := repeated?_eq_none hnames fun _ _ => List.not_mem_nil
  rw [ofValue, h, Option.getD_some, hv]
  simp only [bind, Except.bind, hnone]
  rfl

theorem ofValue_of_routesOf {routes : List (Text × Text)} {v : Value}
    (hnodup : (routes.map Prod.fst).Nodup)
    (h : routesOf v = .ok (ofRoutes routes).routes) :
    ofValue (.ofEntries [(.text "routes".toList, v)]) = .ok (ofRoutes routes) := by
  have hlookup : [(Scalar.text "routes".toList, v)].lookup (.text "routes".toList) = some v := rfl
  have hnames : (ofRoutes routes).routes.map Route.name = routes.map Prod.fst := by
    rw [ofRoutes, List.map_map]
    rfl
  have hdocument : Value.ofEntries [(.text "routes".toList, v)] =
      .mapping [(.text "routes".toList, v)] := rfl
  rw [← hnames] at hnodup
  rw [hdocument]
  exact ofValue_of_nodup hlookup h hnodup

theorem ofValue_listForm {routes : List (Text × Text)} (hnodup : (routes.map Prod.fst).Nodup)
    (hnames : ∀ e ∈ routes, e.1 ≠ []) : ofValue (listForm routes) = .ok (ofRoutes routes) := by
  refine ofValue_of_routesOf hnodup (mapM_eq_ok_iff.2 ?_)
  rw [ofRoutes, List.forall₂_map_left_iff, List.forall₂_map_right_iff, List.forall₂_same]
  exact fun e he => ofFields_texts (hnames e he) e.2

theorem ofValue_mappingForm {routes : List (Text × Text)} (hnodup : (routes.map Prod.fst).Nodup)
    (hnames : ∀ e ∈ routes, e.1 ≠ []) : ofValue (mappingForm routes) = .ok (ofRoutes routes) := by
  refine ofValue_of_routesOf hnodup ?_
  rw [Value.ofEntries_texts hnodup]
  refine mapM_eq_ok_iff.2 ?_
  rw [ofRoutes, List.forall₂_map_left_iff, List.forall₂_map_right_iff, List.forall₂_same]
  exact fun e he => ofFields_texts (hnames e he) e.2

end Config

/-! ## All ways -/

namespace RouteTable

theorem ofConfig_ofRoutes (routes : List (Text × Text)) :
    ofConfig (Config.ofRoutes routes) = build (.ofList (sources routes)) := by
  rw [ofConfig, Config.ofRoutes, List.map_map]
  rfl

/-- A draft to which the routes were added builds the same as their map. -/
theorem Draft.run_sources {routes : List (Text × Text)} (hnodup : (routes.map Prod.fst).Nodup) :
    (empty.run ((sources routes).map (fun e => .add e.1 e.2) ++ [.build])).1 =
      routes.map (fun _ => ⟨[], .ok .added⟩) ++
        [(RouteTable.build (.ofList (sources routes))).map .built] := by
  have hkeys : (empty.targets.keys ++ (sources routes).map Prod.fst).Nodup := by
    rw [map_fst_sources]
    exact hnodup
  obtain ⟨hresults, hentries⟩ := run_additions hkeys
  have hadded : additions ((sources routes).map fun e => .add e.1 e.2) = sources routes := by
    rw [← entries_run_empty, hentries]
    rfl
  have hbuild := call_build_after ((sources routes).map fun e => .add e.1 e.2)
  rw [hadded] at hbuild
  rw [run_append, run_cons, hbuild, hresults, sources, List.map_map]
  rfl

/-- **All ways to build a table of routes agree**: from their map, from a draft to which they are
added one after the other, and from a document that lists or maps them. Either the routes are
rejected, always with the same error, or all ways give the same table, with the names of the routes
in their order and under each its pattern. -/
theorem constructions_agree {routes : List (Text × Text)} (hnodup : (routes.map Prod.fst).Nodup)
    (hnames : ∀ e ∈ routes, e.1 ≠ []) :
    ∃ result : Logged Error RouteTable,
      build (.ofList (sources routes)) = result ∧
      (Draft.empty.run ((sources routes).map (fun e => .add e.1 e.2) ++ [.build])).1 =
        routes.map (fun _ => ⟨[], .ok .added⟩) ++ [result.map .built] ∧
      (∃ c, Config.ofValue (Config.listForm routes) = .ok c ∧ ofConfig c = result) ∧
      (∃ c, Config.ofValue (Config.mappingForm routes) = .ok c ∧ ofConfig c = result) ∧
      ((∃ e, result.outcome = .error e ∧ Rejected routes e) ∨
        ∃ t, result.outcome = .ok t ∧ IsTableOf routes t) :=
  ⟨_, rfl, Draft.run_sources hnodup,
    ⟨_, Config.ofValue_listForm hnodup hnames, ofConfig_ofRoutes routes⟩,
    ⟨_, Config.ofValue_mappingForm hnodup hnames, ofConfig_ofRoutes routes⟩,
    build_sources hnodup⟩

/-- Of two bad patterns the first one is blamed, in all ways. -/
theorem constructions_agree_first_bad :
    let routes : List (Text × Text) := [("home".toList, "/a".toList), ("bad".toList, "/:".toList),
      ("worse".toList, "/\x7b".toList)]
    let e : Error := .badPattern "bad".toList (.badToken "/:".toList ":".toList)
    (build (.ofList (sources routes))).outcome = .error e ∧
      (∃ r, (Draft.empty.run ((sources routes).map (fun e => .add e.1 e.2) ++ [.build])).1 =
        [⟨[], .ok .added⟩, ⟨[], .ok .added⟩, ⟨[], .ok .added⟩, r] ∧ r.outcome = .error e) ∧
      (∃ c, Config.ofValue (Config.listForm routes) = .ok c ∧ (ofConfig c).outcome = .error e) ∧
      ∃ c, Config.ofValue (Config.mappingForm routes) = .ok c ∧
        (ofConfig c).outcome = .error e := by
  intro routes e
  have hfails : (build (.ofList (sources routes))).outcome = .error e :=
    eq_error_of_map (g := fun _ => ()) (by decide +kernel)
  obtain ⟨result, hbuild, hdraft, ⟨c, hc, hlist⟩, ⟨c', hc', hmapping⟩, -⟩ :=
    @constructions_agree routes (by decide) (by decide)
  rw [hbuild] at hfails ⊢
  refine ⟨hfails, ⟨_, hdraft, ?_⟩, ⟨c, hc, by rw [hlist, hfails]⟩, c', hc', by
    rw [hmapping, hfails]⟩
  rw [Logged.map, hfails]
  rfl

end RouteTable

end UrlRouting
