import Mathlib.Data.Option.Basic
import UrlRouting.Proofs.OrderedMap
import UrlRouting.Proofs.Pattern.Blocks
import UrlRouting.Proofs.Url.Rooted

/-!
# Rendering a pattern

A pattern is rendered by putting something in the place of each of its tokens: the segment that
spells a literal, and encoded values for the others.

* `Fills t f`: `f` may be put in the place of the token `t`.
* `rendered path fs`: the path that the fillings `fs` make of the path of a pattern.
* `match?_rendered`: **the pattern matches what it was rendered as, and its parameters are the
  values chosen**, if it has at most one `**`. A second `**` could read more than it was filled
  with.
-/

namespace UrlRouting.Pattern

/-! ## Fillings -/

/-- What is put in the place of a token. -/
inductive Filling where
  /-- The segment that spells the token. -/
  | own
  /-- One value. -/
  | value (v : Text)
  /-- Some values, each as a segment. -/
  | values (vs : List Text)

/-- The fillings of a token. A value is not a dot segment, which would be resolved. -/
inductive Fills : Token → Filling → Prop
  | literal {segment : Text} : Fills (.literal segment) .own
  | union {alternatives : List Text} {v : Text} : v ∈ alternatives → ¬ Path.IsDot v →
      Fills (.union alternatives) (.value v)
  | capture {name v : Text} : v ≠ [] → ¬ Path.IsDot v → Fills (.capture name) (.value v)
  | choice {name : Text} {alternatives : List Text} {v : Text} : v ∈ alternatives →
      ¬ Path.IsDot v → Fills (.choice name alternatives) (.value v)
  | anySegment {v : Text} : v ≠ [] → ¬ Path.IsDot v → Fills .anySegment (.value v)
  | anySegments {vs : List Text} : vs ≠ [] → (∀ v ∈ vs, v ≠ [] ∧ ¬ Path.IsDot v) →
      Fills .anySegments (.values vs)

/-- The segments of a filling of the token that `own` spells. -/
def Filling.segments (own : Text) : Filling → List Text
  | .own => [own]
  | value v => [Segment.encode v]
  | values vs => vs.map Segment.encode

/-- The segments that some fillings make of the segments of a pattern. -/
def rendering (segments : List Text) (fs : List Filling) : List Text :=
  (List.zipWith Filling.segments segments fs).flatten

/-- The path that some fillings make of the path of a pattern. -/
def rendered (path : Text) (fs : List Filling) : Text :=
  '/' :: Text.join '/' (rendering (Path.segments path) fs)

/-- The value of a filling with one. -/
def Filling.value? : Filling → Option Text
  | own => none
  | value v => some v
  | values _ => none

/-- The names of tokens with the values in their places. -/
def chosen (tokens : List Token) (fs : List Filling) : List (Text × Text) :=
  (tokens.zip fs).filterMap fun x => x.1.name?.bind fun name => x.2.value?.map fun v => (name, v)

/-! ## One filling -/

section

variable {s : Text} {t : Token} {f : Filling}

theorem Fills.segments_ne_nil (hf : Fills t f) (s : Text) : f.segments s ≠ [] := by
  cases hf with
  | anySegments hne hvs =>
    intro h
    exact hne (List.map_eq_nil_iff.1 h)
  | _ => exact List.cons_ne_nil _ _

theorem Fills.plain (hf : Fills t f) (hs : Token.Spells s t) (hp : Path.Plain s) :
    ∀ x ∈ f.segments s, Path.Plain x := by
  have one {v : Text} (hne : v ≠ []) (hdot : ¬ Path.IsDot v) :
      ∀ x ∈ (Filling.value v).segments s, Path.Plain x := by
    intro x hx
    rw [List.mem_singleton.1 hx]
    exact Path.plain_encode hne hdot
  cases hf with
  | literal =>
    intro x hx
    rw [List.mem_singleton.1 hx]
    exact hp
  | union hv hdot =>
    cases hs with
    | union _ _ hempty => exact one (fun h => hempty (h ▸ hv)) hdot
  | capture hne hdot => exact one hne hdot
  | choice hv hdot =>
    cases hs with
    | choice _ _ _ _ hempty => exact one (fun h => hempty (h ▸ hv)) hdot
  | anySegment hne hdot => exact one hne hdot
  | anySegments hne hvs =>
    intro x hx
    obtain ⟨v, hv, rfl⟩ := List.mem_map.1 hx
    exact Path.plain_encode (hvs v hv).1 (hvs v hv).2

/-- The block that a filling becomes in the normal form of a path. -/
def Filling.block (own : Text) (f : Filling) : Text :=
  Text.join '/' ((f.segments own).map Segment.normalForm)

theorem Filling.block_value (own v : Text) : (value v).block own = Segment.encode v := by
  rw [block, segments, List.map_singleton, Segment.normalForm_encode, Text.join,
    List.intercalate_singleton]

/-- The token of a segment reads the block of its filling. -/
theorem Fills.reads (hf : Fills t f) (hs : Token.Spells s t) : t.Reads (f.block s) := by
  have any {v : Text} (hne : v ≠ []) : Segment.encode v ≠ [] ∧ '/' ∉ Segment.encode v :=
    ⟨Text.Percent.encode_ne_nil isSegmentSafe hne, Segment.slash_not_mem_encode v⟩
  cases hf with
  | literal =>
    cases hs with
    | literal => exact List.intercalate_singleton
  | union hv hdot =>
    rw [Filling.block_value]
    exact ⟨_, hv, rfl⟩
  | capture hne hdot =>
    rw [Filling.block_value]
    exact any hne
  | choice hv hdot =>
    rw [Filling.block_value]
    exact ⟨_, hv, rfl⟩
  | anySegment hne hdot =>
    rw [Filling.block_value]
    exact any hne
  | @anySegments vs hne hvs =>
    obtain ⟨v, hv⟩ := List.exists_mem_of_ne_nil vs hne
    obtain ⟨c, hc⟩ := List.exists_mem_of_ne_nil _ (any (hvs v hv).1).1
    refine List.ne_nil_of_mem (Text.mem_join_of_mem (t := Segment.encode v) ?_ hc)
    rw [Filling.segments, List.map_map]
    exact List.mem_map.2 ⟨v, hv, Segment.normalForm_encode v⟩

end

/-! ## All fillings -/

section

variable {ss : List Text} {tokens : List Token} {fs : List Filling}
  (hs : List.Forall₂ Token.Spells ss tokens) (hf : List.Forall₂ Fills tokens fs)
include hs hf

theorem plain_of_mem_rendering (hp : ∀ s ∈ ss, Path.Plain s) :
    ∀ x ∈ rendering ss fs, Path.Plain x := by
  induction hs generalizing fs with
  | nil =>
    cases hf
    simp [rendering]
  | cons hst hs ih =>
    cases hf with
    | cons hft hf =>
      rw [List.forall_mem_cons] at hp
      intro x hx
      rcases List.mem_append.1 hx with hx | hx
      · exact hft.plain hst hp.1 x hx
      · exact ih hf hp.2 x hx

theorem reads_blocks :
    List.Forall₂ Token.Reads tokens (List.zipWith Filling.block ss fs) := by
  induction hs generalizing fs with
  | nil => exact .nil
  | cons hst hs ih =>
    cases hf with
    | cons hft hf => exact .cons (hft.reads hst) (ih hf)

theorem flatMap_blocks :
    (List.zipWith Filling.block ss fs).flatMap ('/' :: ·) =
      ((rendering ss fs).map Segment.normalForm).flatMap ('/' :: ·) := by
  induction hs generalizing fs with
  | nil =>
    cases hf
    rfl
  | @cons s t ss tokens hst hs ih =>
    cases hf with
    | @cons _ f _ fs hft hf =>
      have hne : (f.segments s).map Segment.normalForm ≠ [] := fun h =>
        hft.segments_ne_nil s (List.map_eq_nil_iff.1 h)
      have hrendering : rendering (s :: ss) (f :: fs) = f.segments s ++ rendering ss fs := rfl
      rw [hrendering, List.map_append, List.flatMap_append, ← Text.cons_join '/' hne, ← ih hf]
      rfl

theorem rendering_eq_nil_iff : rendering ss fs = [] ↔ tokens = [] := by
  cases hs with
  | nil => exact iff_of_true (by cases hf; rfl) rfl
  | cons hst hs =>
    cases hf with
    | cons hft hf =>
      refine iff_of_false (fun h => ?_) (List.cons_ne_nil _ _)
      exact hft.segments_ne_nil _ (List.append_eq_nil_iff.1 h).1

/-- The rendered path is one block for every token. -/
theorem decomposes_rendering :
    Decomposes tokens (List.zipWith Filling.block ss fs)
      ('/' :: Text.join '/' ((rendering ss fs).map Segment.normalForm)) := by
  have hnil := rendering_eq_nil_iff hs hf
  refine ⟨reads_blocks hs hf, ?_⟩
  rw [flatMap_blocks hs hf]
  by_cases h : rendering ss fs = []
  · rw [h]
    exact ⟨['/'], .inr rfl, rfl⟩
  · refine ⟨[], .inl rfl, ?_⟩
    rw [List.append_nil, Text.cons_join '/' (fun he => h (List.map_eq_nil_iff.1 he))]

theorem capturedBlocks_rendering :
    capturedBlocks tokens (List.zipWith Filling.block ss fs) =
      (chosen tokens fs).map fun x => Segment.encode x.2 := by
  induction hs generalizing fs with
  | nil => rfl
  | @cons s t ss tokens hst hs ih =>
    cases hf with
    | @cons _ f _ fs hft hf =>
      have htail := ih hf
      cases hft with
      | capture hne hdot | choice hv hdot =>
        refine (congrArg₂ List.cons (Filling.block_value s _) htail)
      | _ => exact htail

end

theorem map_fst_chosen {tokens : List Token} {fs : List Filling}
    (hf : List.Forall₂ Fills tokens fs) :
    (chosen tokens fs).map Prod.fst = tokens.filterMap Token.name? := by
  induction hf with
  | nil => rfl
  | cons hft hf ih =>
    cases hft with
    | capture hne hdot | choice hv hdot => exact congrArg (List.cons _) ih
    | _ => exact ih

/-! ## Matching -/

theorem mapM_decode?_encode (vs : List Text) :
    (vs.map Segment.encode).mapM Text.Percent.decode? = some vs := by
  rw [mapM_eq_some_iff, List.map_map]
  exact List.map_congr_left fun v _ => Segment.decode?_encode v

theorem params?_of_entries (entries : List (Text × Text)) :
    params? (entries.map Prod.fst) (entries.map fun x => Segment.encode x.2) =
      some (.ofList entries) := by
  have hsegments : (entries.map fun x => Segment.encode x.2) =
      (entries.map Prod.snd).map Segment.encode := by
    rw [List.map_map]
    rfl
  rw [params?, hsegments, mapM_decode?_encode, Option.map_some, ← List.unzip_fst,
    ← List.unzip_snd, List.zip_unzip]

theorem captures?_rendering {ss : List Text} {tokens : List Token} {fs : List Filling}
    (hs : List.Forall₂ Token.Spells ss tokens) (hf : List.Forall₂ Fills tokens fs)
    (hone : ∀ t ∈ tokens, t.OneSegment) (hruns : tokens.count .anySegments ≤ 1)
    (hp : ∀ s ∈ ss, Path.Plain s) :
    (Expression.ofTokens tokens).captures?
        (Path.normalForm ('/' :: Text.join '/' (rendering ss fs))) =
      some ((chosen tokens fs).map fun x => Segment.encode x.2) := by
  have hplain := plain_of_mem_rendering hs hf hp
  have hsafe : ∀ c ∈ '/' :: Text.join '/' (rendering ss fs), isPathSafe c = true := by
    refine List.forall_mem_cons.2 ⟨by decide, Text.forall_mem_join (by decide) fun t ht c hc => ?_⟩
    exact ((hplain t ht).safe c hc).1
  have hq := Path.newline_not_mem_normalForm hsafe
  rw [Path.normalForm_join hplain] at hq ⊢
  have hnil := rendering_eq_nil_iff hs hf
  have hend : tokens ≠ [] →
      ('/' :: Text.join '/' ((rendering ss fs).map Segment.normalForm)).getLast? ≠ some '/' := by
    intro hne
    refine Text.getLast?_cons_join (fun t ht => ?_) fun h =>
      hne (hnil.1 (List.map_eq_nil_iff.1 h))
    obtain ⟨x, hx, rfl⟩ := List.mem_map.1 ht
    exact ⟨Segment.normalForm_ne_nil (hplain x hx).ne_nil,
      Segment.slash_not_mem_normalForm (hplain x hx).slash_not_mem⟩
  have hblocks := (decomposes_rendering hs hf).preferred_of_one_run hone hruns hend
  rw [captures?_ofTokens_of_preferred hone hq hblocks, capturedBlocks_rendering hs hf]

theorem match?_of_accepts {p : Pattern} {t : Text} {u : Url} {segments : List Text}
    {params : OrderedMap Text Text} (hu : Url.parse t = .ok u) (haccepts : p.acceptsOrigin u = true)
    (hcaps : p.expression.captures? (Path.normalForm u.pathname) = some segments)
    (hparams : params? p.captureNames segments = some params) :
    p.match? t = some ⟨params, QueryField.search p.fields u.query, u⟩ := by
  simp only [match?, hu, matchUrl?, haccepts, guard_true, pure, bind, hcaps, hparams,
    Option.bind_some]

theorem match?_of_captures? {p : Pattern} {t : Text} {u : Url} {segments : List Text}
    {params : OrderedMap Text Text} (hu : Url.parse t = .ok u) (horigin : p.origin = none)
    (hcaps : p.expression.captures? (Path.normalForm u.pathname) = some segments)
    (hparams : params? p.captureNames segments = some params) :
    p.match? t = some ⟨params, QueryField.search p.fields u.query, u⟩ :=
  match?_of_accepts hu (by rw [acceptsOrigin, horigin]) hcaps hparams

/-- **Rendering and matching gives back the parameters**: the last value chosen for each name, the
names in the order of their declaration. -/
theorem match?_rendered {source : Text} {p : Pattern} {u : Url} {fs : List Filling}
    (hp : compile source = .ok p) (hu : Url.parse source = .ok u)
    (hrelative : Url.hasScheme source = false) (hruns : p.tokens.count .anySegments ≤ 1)
    (hf : List.Forall₂ Fills p.tokens fs) :
    ∃ m, p.match? (rendered u.pathname fs) = some m ∧
      m.params.keys = p.captureNames.eraseDups ∧
      ∀ name v, m.params.get? name = some v ↔ LastEntry (chosen p.tokens fs) name v := by
  obtain ⟨u', hu', ht, -, horigin⟩ := parts_of_compile hp
  obtain rfl := Except.ok.inj (hu.symm.trans hu')
  have hs := Token.ofPath_eq_ok_iff.1 ht
  have hone := Token.oneSegment_of_spells hs
  have hplain := Url.plain_of_mem_segments hu hrelative
  have hparse := Url.parse_rooted (plain_of_mem_rendering hs hf hplain)
  have horigin : p.origin = none := by rw [horigin, hrelative]; rfl
  have hcaps := captures?_rendering hs hf hone hruns hplain
  have hparams := params?_of_entries (chosen p.tokens fs)
  rw [map_fst_chosen hf] at hparams
  refine ⟨_, match?_of_captures? hparse horigin hcaps hparams, ?_, fun name v => ?_⟩
  · rw [OrderedMap.keys_ofList, map_fst_chosen hf]
    rfl
  · exact OrderedMap.get?_ofList_eq_some_iff

/-- A slash in a value stays in its segment, and the second `id` is the one that counts. -/
theorem match?_rendered_reserved :
    ∃ p u m, compile "/a b/:id/**/:kind\x7ba|b\x7d/:id".toList = .ok p ∧
      Url.parse "/a b/:id/**/:kind\x7ba|b\x7d/:id".toList = .ok u ∧
      Url.hasScheme "/a b/:id/**/:kind\x7ba|b\x7d/:id".toList = false ∧
      p.tokens.count .anySegments ≤ 1 ∧
      rendered u.pathname [.own, .value "1", .values ["\n", "..."], .value "b", .value "é/%?"] =
        "/a%20b/1/%0A/.../b/%C3%A9%2F%25%3F".toList ∧
      p.match? (rendered u.pathname
        [.own, .value "1", .values ["\n", "..."], .value "b", .value "é/%?"]) = some m ∧
      m.params.keys = ["id".toList, "kind"] ∧
      m.params.get? "id" = some "é/%?".toList := by
  have hp : compile "/a b/:id/**/:kind\x7ba|b\x7d/:id".toList =
      .ok ⟨"/a b/:id/**/:kind\x7ba|b\x7d/:id", [.literal "a%20b", .capture "id", .anySegments,
        .choice "kind" ["a", "b"], .capture "id"], [], none⟩ := by decide +kernel
  have hu : Url.parse "/a b/:id/**/:kind\x7ba|b\x7d/:id".toList =
      .ok ⟨"http", [], [], "localhost", none, true, "/a%20b/:id/**/:kind%7Ba|b%7D/:id", [], []⟩ :=
    rfl
  have hrelative : Url.hasScheme "/a b/:id/**/:kind\x7ba|b\x7d/:id".toList = false := rfl
  have hruns : [Token.literal "a%20b", .capture "id", .anySegments, .choice "kind" ["a", "b"],
      .capture "id"].count .anySegments ≤ 1 := by decide
  have hf : List.Forall₂ Fills [.literal "a%20b", .capture "id", .anySegments,
      .choice "kind" ["a", "b"], .capture "id"]
      [.own, .value "1", .values ["\n", "..."], .value "b", .value "é/%?"] :=
    .cons .literal <| .cons (.capture (by decide) (by decide)) <|
      .cons (.anySegments (by decide) (by decide)) <|
      .cons (.choice (by decide) (by decide)) <| .cons (.capture (by decide) (by decide)) .nil
  obtain ⟨m, hm, hkeys, hget⟩ := match?_rendered hp hu hrelative hruns hf
  refine ⟨_, _, m, hp, hu, hrelative, hruns, ?_, hm, ?_, ?_⟩
  · decide +kernel
  · rw [hkeys]
    decide
  · exact (hget _ _).2 ⟨[("id".toList, "1".toList), ("kind", "b")], [], rfl, by simp⟩

end UrlRouting.Pattern
