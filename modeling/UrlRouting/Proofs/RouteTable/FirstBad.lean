import UrlRouting.Proofs.Pattern.Grammar
import UrlRouting.Proofs.RouteTable.Construction

/-!
# The first bad entry

A table is built of all its targets or not at all. The targets are looked at in order, each one
for itself, and the first bad one ends the construction with its error.

* `Target.Good`: a target that makes an entry. `Blamed name target e`: `e` is the error of a bad
  target under its name.
* `Logs entries events`: the events are the compilations of the sources among the entries.
* `prepare_cases`, `prepareAll_cases`: what becomes of one target, and of many.
* `build_blames_first`: **a table that is not too large is built exactly when all targets are
  good**, and else the first bad one is blamed; the events are those of the entries before it.
-/

namespace UrlRouting

/-- A target that makes an entry: a matcher, or a source that compiles. -/
inductive Target.Good : Target → Prop
  | source {source : Text} {p : Pattern} (h : Pattern.compile source = .ok p) :
      Good (.source source)
  | matcher (m : Matcher) : Good (.matcher m)

/-- The source of the pattern that a target is. -/
def Target.source? : Target → Option Text
  | .value (.text source) => some source
  | _ => none

namespace RouteTable

/-- The error of a bad target under its name. For a source it is the error that compiling it
gives, and for another value it tells its kind. -/
inductive Blamed (name : Text) : Target → Error → Prop
  | tooLong {source : Text} (h : Pattern.compile source = .error (.tooLong source.length)) :
      Blamed name (.source source) (.badPattern name (.tooLong source.length))
  | badToken {source token : Text} (h : Pattern.compile source = .error (.badToken source token)) :
      Blamed name (.source source) (.badPattern name (.badToken source token))
  | badTarget {v : Value} (h : v.kind ≠ .text) : Blamed name (.value v) (.badTarget name v.kind)

/-- The events are the compilations of the sources among the entries, in their order. -/
def Logs (entries : List (Text × Target)) (events : List Event) : Prop :=
  List.Forall₂ (fun source event => ∃ p, Pattern.compile source = .ok p ∧ event = .compiled p)
    (entries.filterMap fun e => e.2.source?) events

/-- Of some entries the first bad one has the error `e`, and those before it log the events. -/
inductive FailsFirst : List (Text × Target) → List Event → Error → Prop
  | intro {before after : List (Text × Target)} {name : Text} {target : Target}
      {events : List Event} {e : Error} (hbefore : ∀ entry ∈ before, entry.2.Good)
      (hbad : Blamed name target e) (hevents : Logs before events) :
      FailsFirst (before ++ (name, target) :: after) events e

/-! ## One target -/

theorem Blamed.not_good {name : Text} {target : Target} {e : Error} (h : Blamed name target e) :
    ¬ target.Good := by
  intro hgood
  cases h with
  | tooLong h | badToken h =>
    cases hgood with
    | source hp =>
      rw [hp] at h
      cases h
  | badTarget h =>
    cases hgood with
    | source _ => exact h rfl

theorem text_or_prepare_value (name : Text) (v : Value) :
    (∃ t, v = .text t) ∨
      v.kind ≠ .text ∧ prepare name (.value v) = ⟨[], .error (.badTarget name v.kind)⟩ := by
  cases v with
  | scalar s =>
    cases s with
    | text t => exact .inl ⟨t, rfl⟩
    | null | bool | int | decimal => exact .inr ⟨by simp [Value.kind], rfl⟩
  | list | mapping | url => exact .inr ⟨by simp [Value.kind], rfl⟩

/-- One target makes an entry and logs its compilation, or is blamed and logs nothing. -/
theorem prepare_cases (name : Text) (target : Target) :
    (target.Good ∧ ∃ events m, Logs [(name, target)] events ∧
        prepare name target = ⟨events, .ok m⟩) ∨
      ∃ e, Blamed name target e ∧ prepare name target = ⟨[], .error e⟩ := by
  cases target with
  | matcher m => exact .inl ⟨.matcher m, [], m, .nil, rfl⟩
  | value v =>
    rcases text_or_prepare_value name v with ⟨source, rfl⟩ | ⟨hv, hprepared⟩
    · cases h : Pattern.compile source with
      | ok p =>
        refine .inl ⟨.source h, [.compiled p], .pattern p, .cons ⟨p, h, rfl⟩ .nil, ?_⟩
        rw [prepare_source, h]
      | error cause =>
        refine .inr ⟨.badPattern name cause, ?_, by rw [prepare_source, h]⟩
        rcases Pattern.error_of_compile h with rfl | ⟨token, rfl⟩
        · exact .tooLong h
        · exact .badToken h
    · exact .inr ⟨_, .badTarget hv, hprepared⟩

/-! ## All targets -/

theorem Logs.cons {entry : Text × Target} {entries : List (Text × Target)}
    {events events' : List Event} (h : Logs [entry] events) (h' : Logs entries events') :
    Logs (entry :: entries) (events ++ events') := by
  have hsplit : entry :: entries = [entry] ++ entries := rfl
  rw [Logs, hsplit, List.filterMap_append]
  exact List.rel_append h h'

theorem FailsFirst.not_good {entries : List (Text × Target)} {events : List Event} {e : Error}
    (h : FailsFirst entries events e) : ¬ ∀ entry ∈ entries, entry.2.Good := by
  cases h with
  | intro _ hbad _ =>
    intro hgood
    exact hbad.not_good (hgood _ (List.mem_append_right _ List.mem_cons_self))

theorem FailsFirst.head {name : Text} {target : Target} {e : Error} (h : Blamed name target e)
    (rest : List (Text × Target)) : FailsFirst ((name, target) :: rest) [] e := by
  rw [← List.nil_append (_ :: rest)]
  exact .intro (by simp) h .nil

theorem FailsFirst.cons {entry : Text × Target} {entries : List (Text × Target)}
    {events events' : List Event} {e : Error} (hgood : entry.2.Good) (h : Logs [entry] events)
    (h' : FailsFirst entries events' e) : FailsFirst (entry :: entries) (events ++ events') e := by
  cases h' with
  | intro hbefore hbad hevents =>
    rw [← List.cons_append]
    exact .intro (List.forall_mem_cons.2 ⟨hgood, hbefore⟩) hbad (h.cons hevents)

/-- Targets are all good and make the entries of their names, or the first bad one is blamed. -/
theorem prepareAll_cases (l : List (Text × Target)) :
    ((∀ entry ∈ l, entry.2.Good) ∧ ∃ events entries, Logs l events ∧
        entries.map Prod.fst = l.map Prod.fst ∧ prepareAll l = ⟨events, .ok entries⟩) ∨
      ∃ events e, FailsFirst l events e ∧ prepareAll l = ⟨events, .error e⟩ := by
  induction l with
  | nil => exact .inl ⟨by simp, [], [], .nil, rfl, rfl⟩
  | cons entry l ih =>
    obtain ⟨name, target⟩ := entry
    rw [prepareAll]
    -- a bad target ends the run here, a good one hands on to the targets behind it
    rcases prepare_cases name target with ⟨hgood, events, m, hevents, hm⟩ | ⟨e, hbad, he⟩
    · rw [hm]
      rcases ih with ⟨hall, events', entries, hevents', hnames, hl⟩ | ⟨events', e, hfirst, hl⟩
      · rw [hl]
        exact .inl ⟨List.forall_mem_cons.2 ⟨hgood, hall⟩, _, (name, m) :: entries,
          hevents.cons hevents', congrArg (List.cons name) hnames, rfl⟩
      · rw [hl]
        exact .inr ⟨_, e, hfirst.cons hgood hevents, rfl⟩
    · rw [he]
      exact .inr ⟨[], e, .head hbad l, rfl⟩

/-! ## Building -/

/-- Targets that are not too many are all good and make a table, or the first bad one is blamed. -/
theorem build_cases {targets : OrderedMap Text Target} (hsize : targets.size ≤ maxEntries) :
    ((∀ entry ∈ targets.entries, entry.2.Good) ∧ ∃ events t, Logs targets.entries events ∧
        t.names = targets.keys ∧ build targets = ⟨events ++ [.built targets.size], .ok t⟩) ∨
      ∃ events e, FailsFirst targets.entries events e ∧ build targets = ⟨events, .error e⟩ := by
  rw [build, if_neg (Nat.not_lt.2 hsize)]
  rcases prepareAll_cases targets.entries with
    ⟨hall, events, entries, hevents, hnames, hprepared⟩ | ⟨events, e, hfirst, hprepared⟩
  · have hlength : targets.size = entries.length := by
      simpa [OrderedMap.size] using (congrArg List.length hnames).symm
    rw [hprepared, hlength]
    exact .inl ⟨hall, events, ⟨targets, entries⟩, hevents, hnames, rfl⟩
  · rw [hprepared]
    exact .inr ⟨events, e, hfirst, rfl⟩

/-- **A table is built of all its targets, or the first bad one is blamed.** A table that is too
large is rejected before anything is logged. Otherwise it is built exactly when all targets are
good, and the events are the compilations of the sources before the first bad target, or of all
sources, with the construction itself at the end. -/
theorem build_blames_first (targets : OrderedMap Text Target) :
    (maxEntries < targets.size → build targets = ⟨[], .error (.tooMany targets.size)⟩) ∧
      (targets.size ≤ maxEntries →
        ((∃ t, (build targets).outcome = .ok t) ↔ ∀ entry ∈ targets.entries, entry.2.Good) ∧
        (∀ e, (build targets).outcome = .error e →
          FailsFirst targets.entries (build targets).events e) ∧
        ∀ t, (build targets).outcome = .ok t → t.names = targets.keys ∧
          ∃ events, Logs targets.entries events ∧
            (build targets).events = events ++ [.built targets.size]) := by
  refine ⟨fun hlarge => by rw [build, if_pos hlarge], fun hsize => ?_⟩
  rcases build_cases hsize with
    ⟨hall, events, t, hevents, hnames, hbuilt⟩ | ⟨events, e, hfirst, hbuilt⟩
  · rw [hbuilt]
    refine ⟨iff_of_true ⟨t, rfl⟩ hall, fun e he => ?_, fun t' ht => ?_⟩
    · cases he
    · obtain rfl := Except.ok.inj ht
      exact ⟨hnames, events, hevents, rfl⟩
  · rw [hbuilt]
    refine ⟨iff_of_false (by simp) hfirst.not_good, fun e' he => ?_, fun t ht => ?_⟩
    · rwa [← Except.error.inj he]
    · cases ht

/-- One target too many, whatever it is. A matcher is no source and logs nothing, and what stands
behind the first bad target is not looked at. -/
theorem build_blames_first_mixed :
    (∃ many : OrderedMap Text Target, maxEntries < many.size ∧
      build many = ⟨[], .error (.tooMany 257)⟩) ∧
    let targets : OrderedMap Text Target := .ofList [("home".toList, .source "/a".toList),
      ("other".toList, .matcher (.custom fun _ => none)), ("bad".toList, .source "/:".toList),
      ("worse".toList, .value (.scalar (.int 5)))]
    let e : Error := .badPattern "bad".toList (.badToken "/:".toList ":".toList)
    targets.size ≤ maxEntries ∧ (build targets).outcome = .error e ∧
      FailsFirst targets.entries (build targets).events e ∧ (build targets).events.length = 1 ∧
      ¬ ∀ entry ∈ targets.entries, entry.2.Good := by
  constructor
  · have hnodup : (((List.range 257).map fun n =>
        (List.replicate n 'a', Target.source [])).map Prod.fst).Nodup := by
      rw [List.map_map, List.Nodup, List.pairwise_map]
      refine List.nodup_range.imp ?_
      intro m n hne heq
      have hlength : (List.replicate m 'a').length = (List.replicate n 'a').length :=
        congrArg List.length heq
      exact hne (by simpa using hlength)
    have hsize : (OrderedMap.mk _ hnodup).size = 257 := by simp [OrderedMap.size]
    have hlarge : maxEntries < (OrderedMap.mk _ hnodup).size := by
      rw [hsize]
      decide
    have hbuild := (build_blames_first ⟨_, hnodup⟩).1 hlarge
    rw [hsize] at hbuild
    exact ⟨_, hlarge, hbuild⟩
  · intro targets e
    have hsize : targets.size ≤ maxEntries := by decide
    have hfails : (build targets).outcome = .error e :=
      eq_error_of_map (g := fun _ => ()) (by decide +kernel)
    obtain ⟨hiff, hblames, -⟩ := (build_blames_first targets).2 hsize
    refine ⟨hsize, hfails, hblames e hfails, by decide +kernel, fun hgood => ?_⟩
    obtain ⟨t, ht⟩ := hiff.2 hgood
    rw [hfails] at ht
    cases ht

end RouteTable

end UrlRouting
