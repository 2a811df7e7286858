import Mathlib.Data.List.Forall2
import UrlRouting.RouteTable.Basic

/-!
# Tables inside tables

A table may be an entry of another one, so the matchers of a table form a tree. Its **leaves** are
the matchers that are no tables, in the order in which they are asked. A table behaves as the list
of its leaves: the first leaf that answers decides.

* `Outcome.IsFound`: what a query field found, as a value. `Outcome.HasParts`: the parts of an
  answer that has the form of a match.
* `RouteTable.leaves`: the leaves of a table, each with the name of its own entry and with the name
  of the outermost entry that contains it.
* `firstRouted_eq_firstAnswer`: asking the entries of a table is asking its leaves.
* `match?_by_leaves`: **the first leaf that answers gives the parts of the match, and the outermost
  entry gives the name**; an answer of another form is blamed on the leaf's own entry.
-/

namespace UrlRouting

/-! ## The parts of an answer -/

namespace Outcome

/-- What a query field found, as a value: one text, or a list of texts. -/
inductive IsFound : Pattern.SearchValue → Value → Prop
  | one (t : Text) : IsFound (.one t) (.text t)
  | many (ts : List Text) : IsFound (.many ts) (.list (ts.map fun t => .text t))

/-- The parameters, the fields, the URL and the further entries of an answer that has the form of
a match. The match of a pattern has an entry for each parameter and for each field that found
something, in their order. -/
inductive HasParts : Outcome → Value → Value → Value → List (Scalar × Value) → Prop
  | located {m : Pattern.Match} {search : List (Scalar × Value)}
      (hsearch : List.Forall₂ (fun e entry => entry.1 = .text e.1 ∧ IsFound e.2 entry.2)
        m.search.entries search) :
      HasParts (.located m) (.mapping (m.params.entries.map fun e => (.text e.1, .text e.2)))
        (.mapping search) (.url m.url) []
  | routed (r : Routed) : HasParts (.routed r) r.params r.search r.raw r.extra
  | mapping {entries : List (Scalar × Value)} {params search raw : Value}
      (hparams : entries.lookup (.text "params".toList) = some params)
      (hsearch : entries.lookup (.text "search".toList) = some search)
      (hraw : entries.lookup (.text "raw".toList) = some raw) :
      HasParts (.value (.mapping entries)) params search raw
        (entries.filter fun e =>
          e.1 ≠ .text "name".toList ∧ e.1 ≠ .text "params".toList ∧
            e.1 ≠ .text "search".toList ∧ e.1 ≠ .text "raw".toList)

theorem not_reserved (s : Scalar) : (!reserved.contains s) = decide (s ≠ .text "name".toList ∧
    s ≠ .text "params".toList ∧ s ≠ .text "search".toList ∧ s ≠ .text "raw".toList) := by
  simp only [reserved, List.contains_cons, List.contains_nil, Scalar.beq_text, Bool.or_false,
    Bool.not_or, ne_eq, Bool.decide_and, decide_not]

theorem isFound_iff {x : Pattern.SearchValue} {v : Value} : IsFound x v ↔ v = searchValue x := by
  constructor
  · intro h
    cases h with
    | one t => rfl
    | many ts => rfl
  · intro h
    subst h
    cases x with
    | one t => exact .one t
    | many ts => exact .many ts

theorem found_iff {found : List (Text × Pattern.SearchValue)} {search : List (Scalar × Value)} :
    List.Forall₂ (fun e entry => entry.1 = .text e.1 ∧ IsFound e.2 entry.2) found search ↔
      search = found.map fun e => (.text e.1, searchValue e.2) := by
  induction found generalizing search with
  | nil => rw [List.forall₂_nil_left_iff, List.map_nil]
  | cons e found ih =>
    rw [List.forall₂_cons_left_iff, List.map_cons]
    constructor
    · rintro ⟨entry, rest, ⟨hkey, hvalue⟩, hrest, rfl⟩
      rw [ih.1 hrest, ← isFound_iff.1 hvalue, ← hkey]
    · rintro rfl
      exact ⟨_, _, ⟨rfl, isFound_iff.2 rfl⟩, ih.2 rfl, rfl⟩

theorem named_of_hasParts {o : Outcome} {params search raw : Value}
    {extra : List (Scalar × Value)} (h : o.HasParts params search raw extra) (name : Text) :
    o.named name = .ok ⟨name, params, search, raw, extra⟩ := by
  cases h with
  | located hsearch =>
    obtain rfl := found_iff.1 hsearch
    rfl
  | routed r => rfl
  | mapping hparams hsearch hraw => simp only [named, hparams, hsearch, hraw, not_reserved]

/-- An answer without such parts is a value, and its kind is reported. -/
theorem named_of_not_hasParts {o : Outcome}
    (h : ∀ params search raw extra, ¬ o.HasParts params search raw extra) :
    ∃ v, o = .value v ∧ ∀ name, o.named name = .error ⟨name, v.kind⟩ := by
  cases o with
  | located m => exact absurd (.located (found_iff.2 rfl)) (h _ _ _ _)
  | routed r => exact absurd (.routed r) (h _ _ _ _)
  | value v =>
    refine ⟨v, rfl, fun name => ?_⟩
    cases v with
    | scalar s => rfl
    | list items => rfl
    | url u => rfl
    | mapping entries =>
      simp only [named]
      split
      · rename_i hparams hsearch hraw
        exact absurd (.mapping hparams hsearch hraw) (h _ _ _ _)
      · rfl

theorem named_renamed (o : Outcome) (name : Text) :
    ((o.named name).map fun r => { r with name }) = o.named name := by
  by_cases h : ∃ params search raw extra, o.HasParts params search raw extra
  · obtain ⟨params, search, raw, extra, h⟩ := h
    rw [named_of_hasParts h]
    rfl
  · obtain ⟨v, -, hv⟩ := named_of_not_hasParts fun params search raw extra hparts =>
      h ⟨params, search, raw, extra, hparts⟩
    rw [hv]
    rfl

end Outcome

/-! ## Leaves -/

namespace Matcher

/-- A matcher that is no table, among the entries of a table or of a table inside it. -/
structure Leaf where
  /-- The name of the outermost entry that contains it. -/
  outermost : Text
  /-- The name of its own entry. -/
  own : Text
  answer? : Value → Option Outcome

namespace Leaf

/-- A leaf as it is seen from outside the entry of this name. -/
def inside (name : Text) (l : Leaf) : Leaf := { l with outermost := name }

/-- What a leaf makes of its answer. -/
def routed (l : Leaf) (o : Outcome) : Except BadResult Routed :=
  (o.named l.own).map fun r => { r with name := l.outermost }

/-- What the first leaf that answers makes of its answer. -/
def firstAnswer (candidate : Value) : List Leaf → Except BadResult (Option Routed)
  | [] => .ok none
  | l :: rest =>
    match l.answer? candidate with
    | none => firstAnswer candidate rest
    | some o => (l.routed o).map some

end Leaf

end Matcher

mutual

/-- The leaves of a matcher that is the entry of this name. -/
def Matcher.leaves (name : Text) : Matcher → List Matcher.Leaf
  | .pattern p => [⟨name, name, fun candidate => (p.respond? candidate).map .located⟩]
  | .custom answer => [⟨name, name, answer⟩]
  | .table entries => (leavesOfEntries entries).map (Matcher.Leaf.inside name)

/-- The leaves of an entry. -/
def leavesOfEntry : Text × Matcher → List Matcher.Leaf
  | (name, m) => m.leaves name

/-- The leaves of some entries, in order. -/
def leavesOfEntries : List (Text × Matcher) → List Matcher.Leaf
  | [] => []
  | entry :: rest => leavesOfEntry entry ++ leavesOfEntries rest

end

/-- The leaves of a table, in the order in which they are asked. -/
def RouteTable.leaves (t : RouteTable) : List Matcher.Leaf := leavesOfEntries t.entries

/-! ## The first answer -/

namespace Matcher.Leaf

variable {candidate : Value}

theorem firstAnswer_cons_none {l : Leaf} (h : l.answer? candidate = none) (rest : List Leaf) :
    firstAnswer candidate (l :: rest) = firstAnswer candidate rest := by
  rw [firstAnswer, h]

theorem firstAnswer_cons_some {l : Leaf} {o : Outcome} (h : l.answer? candidate = some o)
    (rest : List Leaf) : firstAnswer candidate (l :: rest) = (l.routed o).map some := by
  rw [firstAnswer, h]

theorem firstAnswer_append_of_none {before : List Leaf}
    (h : ∀ l ∈ before, l.answer? candidate = none) (after : List Leaf) :
    firstAnswer candidate (before ++ after) = firstAnswer candidate after := by
  induction before with
  | nil => rfl
  | cons l before ih =>
    rw [List.forall_mem_cons] at h
    rw [List.cons_append, firstAnswer_cons_none h.1]
    exact ih h.2

theorem firstAnswer_eq_none {ls : List Leaf} (h : ∀ l ∈ ls, l.answer? candidate = none) :
    firstAnswer candidate ls = .ok none := by
  rw [← List.append_nil ls]
  exact firstAnswer_append_of_none h []

/-- **The first leaf that answers decides**, whatever leaves come after it. -/
theorem firstAnswer_of_first {before : List Leaf} {l : Leaf} {o : Outcome}
    (h : ∀ b ∈ before, b.answer? candidate = none) (hl : l.answer? candidate = some o)
    (after : List Leaf) :
    firstAnswer candidate (before ++ l :: after) = (l.routed o).map some := by
  rw [firstAnswer_append_of_none h, firstAnswer_cons_some hl]

/-- Leaves that all pass the candidate over leave it to the next ones. -/
theorem firstAnswer_append (ls rest : List Leaf) :
    firstAnswer candidate (ls ++ rest) =
      match firstAnswer candidate ls with
      | .error e => .error e
      | .ok none => firstAnswer candidate rest
      | .ok (some r) => .ok (some r) := by
  induction ls with
  | nil => rfl
  | cons l ls ih =>
    rw [List.cons_append]
    cases h : l.answer? candidate with
    | none =>
      rw [firstAnswer_cons_none h, firstAnswer_cons_none h]
      exact ih
    | some o =>
      rw [firstAnswer_cons_some h, firstAnswer_cons_some h]
      cases l.routed o <;> rfl

theorem routed_inside (name : Text) (l : Leaf) (o : Outcome) :
    (l.inside name).routed o = (l.routed o).map fun r => { r with name } := by
  unfold routed inside
  cases o.named l.own <;> rfl

/-- From outside an entry its leaves give the same matches, under the name of the entry. -/
theorem firstAnswer_inside (name : Text) (ls : List Leaf) :
    firstAnswer candidate (ls.map (inside name)) =
      (firstAnswer candidate ls).map (Option.map fun r => { r with name }) := by
  induction ls with
  | nil => rfl
  | cons l ls ih =>
    rw [List.map_cons]
    cases h : l.answer? candidate with
    | none =>
      have hinside : (l.inside name).answer? candidate = none := h
      rw [firstAnswer_cons_none h, firstAnswer_cons_none hinside]
      exact ih
    | some o =>
      have hinside : (l.inside name).answer? candidate = some o := h
      rw [firstAnswer_cons_some h, firstAnswer_cons_some hinside, routed_inside]
      cases l.routed o <;> rfl

theorem firstAnswer_single (name : Text) (answer : Value → Option Outcome) :
    firstAnswer candidate [⟨name, name, answer⟩] =
      match answer candidate with
      | none => .ok none
      | some o => (o.named name).map some := by
  cases h : answer candidate with
  | none => exact firstAnswer_cons_none (l := ⟨name, name, answer⟩) h []
  | some o =>
    rw [firstAnswer_cons_some (l := ⟨name, name, answer⟩) h]
    exact congrArg (Except.map some) (o.named_renamed name)

end Matcher.Leaf

/-! ## Entries and leaves -/

open Matcher.Leaf

mutual

/-- An entry gives what the first of its leaves that answers gives. -/
theorem respondNamed_eq_firstAnswer (candidate : Value) : ∀ entry : Text × Matcher,
    respondNamed candidate entry = firstAnswer candidate (leavesOfEntry entry)
  | (name, .pattern p) => by
    rw [leavesOfEntry, Matcher.leaves, firstAnswer_single, respondNamed, Matcher.respond]
    cases p.respond? candidate <;> rfl
  | (name, .custom answer) => by
    rw [leavesOfEntry, Matcher.leaves, firstAnswer_single, respondNamed, Matcher.respond]
    cases answer candidate <;> rfl
  | (name, .table entries) => by
    rw [leavesOfEntry, Matcher.leaves, firstAnswer_inside,
      ← firstRouted_eq_firstAnswer candidate entries, respondNamed, Matcher.respond]
    cases firstRouted candidate entries with
    | error e => rfl
    | ok r => cases r <;> rfl

/-- **Asking the entries of a table is asking its leaves.** -/
theorem firstRouted_eq_firstAnswer (candidate : Value) : ∀ entries : List (Text × Matcher),
    firstRouted candidate entries = firstAnswer candidate (leavesOfEntries entries)
  | [] => rfl
  | entry :: rest => by
    rw [leavesOfEntries, firstAnswer_append, ← respondNamed_eq_firstAnswer candidate entry,
      ← firstRouted_eq_firstAnswer candidate rest]
    rfl

end

/-! ## Tables -/

namespace RouteTable

theorem match?_eq_firstAnswer (t : RouteTable) (candidate : Value) :
    t.match? candidate = firstAnswer candidate t.leaves :=
  firstRouted_eq_firstAnswer candidate t.entries

/-- **The first leaf that answers decides.** If no leaf answers there is no match. Otherwise the
answer gives the parts of the match and the outermost entry its name, an answer without such parts
is blamed on the leaf's own entry, and no table with other leaves after this one behaves
differently. -/
theorem match?_by_leaves (t : RouteTable) (candidate : Value) :
    ((∀ l ∈ t.leaves, l.answer? candidate = none) → t.match? candidate = .ok none) ∧
    ∀ {before after : List Matcher.Leaf} {l : Matcher.Leaf} {o : Outcome},
      t.leaves = before ++ l :: after → (∀ b ∈ before, b.answer? candidate = none) →
      l.answer? candidate = some o →
        (∀ {params search raw extra}, o.HasParts params search raw extra →
          t.match? candidate = .ok (some ⟨l.outermost, params, search, raw, extra⟩)) ∧
        ((∀ params search raw extra, ¬ o.HasParts params search raw extra) →
          ∃ v, o = .value v ∧ t.match? candidate = .error ⟨l.own, v.kind⟩) ∧
        ∀ {t' : RouteTable} {after' : List Matcher.Leaf}, t'.leaves = before ++ l :: after' →
          t'.match? candidate = t.match? candidate := by
  refine ⟨fun h => ?_, ?_⟩
  · rw [match?_eq_firstAnswer, firstAnswer_eq_none h]
  · intro before after l o hleaves hbefore ho
    have decided {t' : RouteTable} {after' : List Matcher.Leaf}
        (h : t'.leaves = before ++ l :: after') :
        t'.match? candidate = (l.routed o).map some := by
      rw [match?_eq_firstAnswer, h, firstAnswer_of_first hbefore ho]
    refine ⟨fun hparts => ?_, fun hparts => ?_, fun h => ?_⟩
    · rw [decided hleaves, Matcher.Leaf.routed, Outcome.named_of_hasParts hparts]
      rfl
    · obtain ⟨v, hv, hnamed⟩ := Outcome.named_of_not_hasParts hparts
      refine ⟨v, hv, ?_⟩
      rw [decided hleaves, Matcher.Leaf.routed, hnamed]
      rfl
    · rw [decided h, decided hleaves]

/-- A table inside a table, whose matches go by the name of the outer entry: a mapping, a match that
had a name before, and the match of a pattern with a parameter and two fields. An answer of another
form is blamed on the inner entry. -/
theorem match?_by_leaves_inner :
    let table (entries : List (Text × Matcher)) : RouteTable :=
      ⟨.ofList (entries.map fun e => (e.1, .matcher e.2)), entries⟩
    let quiet : Matcher := .custom fun _ => none
    let entries : List (Scalar × Value) := [(.text "raw".toList, .null),
      (.int 1, .text "one".toList), (.text "name".toList, .text "other".toList),
      (.text "params".toList, .mapping []),
      (.text "search".toList, .mapping []), (.text "lang".toList, .text "la".toList)]
    let page : Matcher := .custom fun _ => some (.value (.mapping entries))
    let former : Routed := ⟨"former".toList, .text "p".toList, .null, .null, [(.int 1, .null)]⟩
    let broken : Matcher := .custom fun _ => some (.value (.scalar (.bool false)))
    let good : RouteTable := table [("quiet".toList, quiet),
      ("site".toList, .table [("quiet".toList, quiet), ("page".toList, page)]),
      ("broken".toList, broken)]
    let kept : RouteTable := table [("site".toList, .table
      [("former".toList, .custom fun _ => some (.routed former))])]
    let bad : RouteTable := table [("site".toList, .table [("broken".toList, broken)]),
      ("page".toList, page)]
    let posts (p : Pattern) : RouteTable := table [("site".toList, .table
      [("quiet".toList, quiet), ("post".toList, .pattern p)]), ("broken".toList, broken)]
    let params : List (Scalar × Value) := [(.text "id".toList, .text "7".toList)]
    let search : List (Scalar × Value) := [(.text "page".toList, .text "2".toList),
      (.text "tag".toList, .list [.text "a".toList, .text "b".toList])]
    let url : Url :=
      ⟨"http", [], [], "localhost", none, true, "/posts/7", "tag=a&page=2&tag=b", []⟩
    good.match? .null = .ok (some ⟨"site".toList, .mapping [], .mapping [], .null,
      [(.int 1, .text "one".toList), (.text "lang".toList, .text "la".toList)]⟩) ∧
    kept.match? .null = .ok (some { former with name := "site".toList }) ∧
    bad.match? .null = .error ⟨"broken".toList, .bool⟩ ∧
    ∃ p, Pattern.compile "/posts/:id?page&tag[]".toList = .ok p ∧
      (posts p).match? (.text "/posts/7?tag=a&page=2&tag=b".toList) =
        .ok (some ⟨"site".toList, .mapping params, .mapping search, .url url, []⟩) := by
  intro table quiet entries page former broken good kept bad posts params search url
  refine ⟨?_, ?_, ?_, ?_⟩
  · have hgood : good.leaves = [⟨"quiet".toList, "quiet".toList, fun _ => none⟩,
        ⟨"site".toList, "quiet".toList, fun _ => none⟩] ++
        ⟨"site".toList, "page".toList, fun _ => some (.value (.mapping entries))⟩ ::
        [⟨"broken".toList, "broken".toList,
          fun _ => some (.value (.scalar (.bool false)))⟩] := rfl
    have hfirst := (match?_by_leaves good .null).2 hgood (by simp) rfl
    exact hfirst.1 (.mapping rfl rfl rfl)
  · have hkept : kept.leaves = [] ++
        ⟨"site".toList, "former".toList, fun _ => some (.routed former)⟩ :: [] := rfl
    have hfirst := (match?_by_leaves kept .null).2 hkept (by simp) rfl
    exact hfirst.1 (.routed former)
  · have hbad : bad.leaves = [] ++
        ⟨"site".toList, "broken".toList, fun _ => some (.value (.scalar (.bool false)))⟩ ::
        [⟨"page".toList, "page".toList, fun _ => some (.value (.mapping entries))⟩] := rfl
    obtain ⟨-, hblamed, -⟩ := (match?_by_leaves bad .null).2 hbad (by simp) rfl
    obtain ⟨v, hv, hmatch⟩ := hblamed nofun
    cases hv
    exact hmatch
  · let p : Pattern := ⟨"/posts/:id?page&tag[]", [.literal "posts", .capture "id"],
      [⟨"page", false, []⟩, ⟨"tag", true, []⟩], none⟩
    let candidate : Value := .text "/posts/7?tag=a&page=2&tag=b".toList
    have hp : Pattern.compile "/posts/:id?page&tag[]".toList = .ok p := by decide +kernel
    -- a match holds proofs, so its parts are evaluated and not the match itself
    have hparts : (p.respond? candidate).map
        (fun m => (m.params.entries, m.search.entries, m.url)) =
        some ([("id".toList, "7".toList)],
          [("page".toList, .one "2".toList), ("tag".toList, .many ["a".toList, "b".toList])],
          url) := by decide +kernel
    obtain ⟨m, hm, hparts⟩ := Option.map_eq_some_iff.1 hparts
    obtain ⟨hparams, hrest⟩ := Prod.mk.inj hparts
    obtain ⟨hsearch, hurl⟩ := Prod.mk.inj hrest
    have hposts : (posts p).leaves = [⟨"site".toList, "quiet".toList, fun _ => none⟩] ++
        ⟨"site".toList, "post".toList, fun c => (p.respond? c).map .located⟩ ::
        [⟨"broken".toList, "broken".toList,
          fun _ => some (.value (.scalar (.bool false)))⟩] := rfl
    have hanswer : (p.respond? candidate).map Outcome.located = some (.located m) :=
      congrArg (Option.map Outcome.located) hm
    have hfound : List.Forall₂ (fun e entry => entry.1 = .text e.1 ∧
        Outcome.IsFound e.2 entry.2) m.search.entries search := by
      rw [hsearch]
      exact .cons ⟨rfl, .one _⟩ (.cons ⟨rfl, .many _⟩ .nil)
    have hlocated := Outcome.HasParts.located hfound
    rw [hparams, hurl] at hlocated
    have hfirst := (match?_by_leaves (posts p) candidate).2 hposts (by simp) hanswer
    exact ⟨p, hp, hfirst.1 hlocated⟩

end RouteTable

end UrlRouting
