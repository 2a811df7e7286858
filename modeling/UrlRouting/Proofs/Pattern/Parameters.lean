import UrlRouting.Proofs.OrderedMap
import UrlRouting.Proofs.Pattern.TrailingSlash
import UrlRouting.Proofs.Url.NormalForm

/-!
# Parameters of a match

Where the parameters of a match come from. A token with a name reads one segment of the path, and
what the segment decodes to is put under the name; a name that is declared again gets the value of
its last segment. The alternatives of a token always decode, so that only a capture that admits any
segment can make a match fail.

* `namedBlocks`: the blocks of the tokens with a name, under these names.
* `params?_eq_some_iff`, `params?_eq_none_iff`: the parameters of some entries.
* `LastTaken`: the last token with a name, and the block that it reads.
* `Decomposes.mem_segments`, `LastTaken.mem_segments`: what is taken under a name is a segment of
  the path.
* `match?_eq_none_iff`: when a path that is read is not matched.
* `params_of_match?_sound`: **every name has the value of the last segment taken under it**, and
  only a segment that does not decode stands against a match.
-/

namespace UrlRouting.Pattern

open Text.Percent (decode decode? decode_of_decode? decode?_eq_some_decode)

/-! ## Entries that decode -/

/-- The parameters of some entries are what they decode to, the last value under each name. -/
theorem params?_eq_some_iff {entries : List (Text × Text)} {params : OrderedMap Text Text} :
    params? (entries.map Prod.fst) (entries.map Prod.snd) = some params ↔
      (∀ e ∈ entries, (decode? e.2).isSome = true) ∧
        params = .ofList (entries.map fun e => (e.1, decode e.2)) := by
  rw [params?, Option.map_eq_some_iff]
  simp only [mapM_eq_some_iff, List.map_map]
  constructor
  · rintro ⟨values, hvalues, rfl⟩
    have hall : ∀ e ∈ entries, (decode? e.2).isSome = true := by
      intro e he
      have hmem : decode? e.2 ∈ values.map some := by
        rw [← hvalues]
        exact List.mem_map_of_mem (f := decode? ∘ Prod.snd) he
      obtain ⟨v, -, hv⟩ := List.mem_map.1 hmem
      rw [← hv]
      rfl
    have hdecoded : values = entries.map fun e => decode e.2 := by
      apply List.map_injective_iff.2 (Option.some_injective Text)
      rw [← hvalues, List.map_map]
      exact List.map_congr_left fun e he => decode?_eq_some_decode (hall e he)
    exact ⟨hall, by rw [hdecoded, List.zip_map']⟩
  · rintro ⟨hall, rfl⟩
    refine ⟨entries.map fun e => decode e.2, ?_, by rw [List.zip_map']⟩
    rw [List.map_map]
    exact List.map_congr_left fun e he => decode?_eq_some_decode (hall e he)

theorem params?_eq_none_iff {entries : List (Text × Text)} :
    params? (entries.map Prod.fst) (entries.map Prod.snd) = none ↔
      ∃ e ∈ entries, decode? e.2 = none := by
  rw [Option.eq_none_iff_forall_not_mem]
  simp only [Option.mem_def, params?_eq_some_iff, not_and]
  constructor
  · intro h
    by_contra hno
    refine h _ (fun e he => ?_) rfl
    rw [Option.isSome_iff_ne_none]
    exact fun hnone => hno ⟨e, he, hnone⟩
  · rintro ⟨e, he, hnone⟩ params hall
    have hsome := hall e he
    rw [hnone] at hsome
    cases hsome

/-! ## The blocks of the names -/

/-- The blocks of the tokens with a name, under these names, from left to right. -/
def namedBlocks (tokens : List Token) (blocks : List Text) : List (Text × Text) :=
  (tokens.zip blocks).filterMap fun x => x.1.name?.map fun name => (name, x.2)

/-- The last token with the name reads the block `b`. -/
def LastTaken (tokens : List Token) (blocks : List Text) (name : Text) (t : Token) (b : Text) :
    Prop :=
  ∃ before after, tokens.zip blocks = before ++ (t, b) :: after ∧ t.name? = some name ∧
    ∀ x ∈ after, x.1.name? ≠ some name

theorem LastTaken.mem {tokens : List Token} {blocks : List Text} {name b : Text} {t : Token}
    (h : LastTaken tokens blocks name t b) : (t, b) ∈ tokens.zip blocks ∧ t.name? = some name := by
  obtain ⟨before, after, hsplit, hname, -⟩ := h
  refine ⟨?_, hname⟩
  rw [hsplit]
  exact List.mem_append_right _ List.mem_cons_self

section

variable {tokens : List Token} {blocks : List Text}

theorem map_fst_namedBlocks (h : tokens.length = blocks.length) :
    (namedBlocks tokens blocks).map Prod.fst = tokens.filterMap Token.name? := by
  have htokens : (tokens.zip blocks).map Prod.fst = tokens := List.map_fst_zip h.le
  conv_rhs => rw [← htokens, List.filterMap_map]
  rw [namedBlocks, List.map_filterMap]
  refine List.filterMap_congr fun x _ => ?_
  cases hname : x.1.name? with
  | none => simp [hname]
  | some name => simp [hname]

theorem map_snd_namedBlocks :
    (namedBlocks tokens blocks).map Prod.snd = capturedBlocks tokens blocks := by
  rw [namedBlocks, List.map_filterMap, capturedBlocks]
  refine List.filterMap_congr fun x _ => ?_
  rw [Option.map_map]
  rfl

theorem mem_namedBlocks {name b : Text} :
    (name, b) ∈ namedBlocks tokens blocks ↔
      ∃ t, (t, b) ∈ tokens.zip blocks ∧ t.name? = some name := by
  simp only [namedBlocks, List.mem_filterMap, Option.map_eq_some_iff, Prod.mk.injEq]
  constructor
  · rintro ⟨⟨t, _⟩, hmem, _, hname, rfl, rfl⟩
    exact ⟨t, hmem, hname⟩
  · rintro ⟨t, hmem, hname⟩
    exact ⟨(t, b), hmem, name, hname, rfl, rfl⟩

theorem exists_lastTaken {name v : Text}
    (h : LastEntry ((namedBlocks tokens blocks).map fun e => (e.1, decode e.2)) name v) :
    ∃ t b, LastTaken tokens blocks name t b ∧ decode b = v := by
  rw [namedBlocks, List.map_filterMap, lastEntry_filterMap_iff] at h
  obtain ⟨before, ⟨t, b⟩, after, hsplit, hentry, hafter⟩ := h
  simp only [Option.map_map, Option.map_eq_some_iff, Function.comp_apply, Prod.mk.injEq] at hentry
  obtain ⟨_, hname, rfl, rfl⟩ := hentry
  refine ⟨t, b, ⟨before, after, hsplit, hname, fun x hx hlater => ?_⟩, rfl⟩
  apply hafter x hx (decode x.2)
  rw [hlater]
  rfl

end

/-! ## Blocks of a path -/

theorem Decomposes.mem_segments {tokens : List Token} {blocks : List Text} {path b : Text}
    (h : Decomposes tokens blocks path) (hb : b ∈ blocks) (hslash : '/' ∉ b) (hne : b ≠ []) :
    b ∈ Path.segments path := by
  obtain ⟨-, closing, hclosing, rfl⟩ := h
  obtain ⟨before, after, rfl⟩ := List.append_of_mem hb
  have hpath : (before ++ b :: after).flatMap ('/' :: ·) ++ closing =
      before.flatMap ('/' :: ·) ++ '/' :: (b ++ (after.flatMap ('/' :: ·) ++ closing)) := by
    simp
  have hrest : after.flatMap ('/' :: ·) ++ closing = [] ∨
      ∃ r, after.flatMap ('/' :: ·) ++ closing = '/' :: r := by
    cases after with
    | nil => exact hclosing.imp id fun h => ⟨[], h⟩
    | cons a after => exact .inr ⟨_, rfl⟩
  refine List.mem_filter.2 ⟨?_, by simpa using hne⟩
  rw [hpath, List.splitOn_append_cons_self]
  apply List.mem_append_right
  rcases hrest with hrest | ⟨r, hrest⟩
  · rw [hrest, List.append_nil, List.splitOn_eq_singleton hslash]
    exact List.mem_singleton_self b
  · rw [hrest, List.splitOn_append_cons_self_of_not_mem hslash]
    exact List.mem_cons_self

theorem encode_of_mem_segments {path b v : Text} (hb : b ∈ Path.segments (Path.normalForm path))
    (hv : decode? b = some v) : Segment.encode v = b := by
  rw [Path.segments_normalForm] at hb
  obtain ⟨s, -, rfl⟩ := List.mem_map.1 hb
  rw [← Segment.normalForm_of_decode? hv, Segment.normalForm_normalForm]

/-! ## The parameters of a match -/

section

variable {tokens : List Token} {blocks : List Text} {name b : Text} {t : Token}
  (hreads : List.Forall₂ Token.Reads tokens blocks) (hmem : (t, b) ∈ tokens.zip blocks)
include hreads hmem

theorem reads_of_mem_zip : t.Reads b := (List.forall₂_iff_zip.1 hreads).2 hmem

theorem decode?_of_choice {alternatives : List Text} (ht : t = .choice name alternatives) :
    ∃ a ∈ alternatives, decode? b = some a := by
  subst ht
  obtain ⟨a, ha, rfl⟩ := reads_of_mem_zip hreads hmem
  exact ⟨a, ha, Segment.decode?_encode a⟩

theorem eq_capture_of_decode?_eq_none (hname : t.name? = some name) (hb : decode? b = none) :
    t = .capture name := by
  cases t with
  | capture other =>
    obtain rfl := Option.some.inj hname
    rfl
  | choice other alternatives =>
    obtain ⟨a, -, ha⟩ := decode?_of_choice hreads hmem rfl
    rw [hb] at ha
    cases ha
  | literal | union | anySegment | anySegments => cases hname

end

theorem tokens_of_compile {source : Text} {p : Pattern} (hp : compile source = .ok p) :
    (∀ t ∈ p.tokens, t.OneSegment) ∧ ∀ t ∈ p.tokens, ∀ b, t.Reads b → b ≠ [] := by
  obtain ⟨v, -, ht, -⟩ := parts_of_compile hp
  have hspells := Token.ofPath_eq_ok_iff.1 ht
  exact ⟨Token.oneSegment_of_spells hspells,
    Token.block_ne_nil_of_spells hspells fun s => Path.ne_nil_of_mem_segments⟩

theorem match?_of_preferred {source candidate : Text} {p : Pattern} {u : Url} {blocks : List Text}
    (hp : compile source = .ok p) (hu : Url.parse candidate = .ok u)
    (haccepts : p.acceptsOrigin u = true)
    (hblocks : Preferred p.tokens blocks (Path.normalForm u.pathname)) :
    p.match? candidate = (params? p.captureNames (capturedBlocks p.tokens blocks)).map
      fun params => ⟨params, QueryField.search p.fields u.query, u⟩ := by
  have hq := Path.newline_not_mem_normalForm (Url.isPathSafe_of_mem_pathname hu)
  have hcaps : p.expression.captures? (Path.normalForm u.pathname) =
      some (capturedBlocks p.tokens blocks) :=
    captures?_ofTokens_of_preferred (tokens_of_compile hp).1 hq hblocks
  simp only [match?, hu, matchUrl?, haccepts, guard_true, pure, bind, hcaps, Option.bind_some]
  cases params? p.captureNames (capturedBlocks p.tokens blocks) with
  | none => rfl
  | some params => rfl

theorem params?_eq_namedBlocks {p : Pattern} {blocks : List Text}
    (hreads : List.Forall₂ Token.Reads p.tokens blocks) :
    params? p.captureNames (capturedBlocks p.tokens blocks) =
      params? ((namedBlocks p.tokens blocks).map Prod.fst)
        ((namedBlocks p.tokens blocks).map Prod.snd) := by
  rw [map_fst_namedBlocks hreads.length_eq, map_snd_namedBlocks, captureNames]

/-- The parameters of a match are what the blocks with a name decode to. -/
theorem params_eq_of_match? {source candidate : Text} {p : Pattern} {m : Match}
    (hp : compile source = .ok p) (hm : p.match? candidate = some m) :
    ∃ blocks, Preferred p.tokens blocks (Path.normalForm m.url.pathname) ∧
      (∀ e ∈ namedBlocks p.tokens blocks, (decode? e.2).isSome = true) ∧
      m.params = .ofList ((namedBlocks p.tokens blocks).map fun e => (e.1, decode e.2)) := by
  obtain ⟨hu, -, -, segments, hcaps, hparams⟩ := parts_of_match? hm
  have hq := Path.newline_not_mem_normalForm (Url.isPathSafe_of_mem_pathname hu)
  obtain ⟨blocks, hblocks, rfl⟩ :=
    exists_preferred_of_captures? (tokens_of_compile hp).1 hq hcaps
  rw [params?_eq_namedBlocks hblocks.1.1, params?_eq_some_iff] at hparams
  exact ⟨blocks, hblocks, hparams⟩

theorem LastTaken.mem_segments {source path name b : Text} {p : Pattern} {blocks : List Text}
    {t : Token} (h : LastTaken p.tokens blocks name t b) (hp : compile source = .ok p)
    (hblocks : Decomposes p.tokens blocks path) : b ∈ Path.segments path := by
  obtain ⟨hone, hne⟩ := tokens_of_compile hp
  obtain ⟨hmem, hname⟩ := h.mem
  obtain ⟨ht, hb⟩ := List.of_mem_zip hmem
  have hreads := reads_of_mem_zip hblocks.1 hmem
  have hmany : t ≠ .anySegments := by
    rintro rfl
    cases hname
  exact hblocks.mem_segments hb (hreads.slash_not_mem (hone t ht) hmany) (hne t ht b hreads)

/-- A path that is read is matched unless a segment of a capture does not decode. -/
theorem match?_eq_none_iff {source candidate : Text} {p : Pattern} {u : Url} {blocks : List Text}
    (hp : compile source = .ok p) (hu : Url.parse candidate = .ok u)
    (haccepts : p.acceptsOrigin u = true)
    (hblocks : Preferred p.tokens blocks (Path.normalForm u.pathname)) :
    p.match? candidate = none ↔
      ∃ name b, (.capture name, b) ∈ p.tokens.zip blocks ∧ decode? b = none := by
  have hreads := hblocks.1.1
  rw [match?_of_preferred hp hu haccepts hblocks, Option.map_eq_none_iff,
    params?_eq_namedBlocks hreads, params?_eq_none_iff]
  constructor
  · rintro ⟨⟨name, b⟩, hmem, hb⟩
    obtain ⟨t, hmem, hname⟩ := mem_namedBlocks.1 hmem
    obtain rfl := eq_capture_of_decode?_eq_none hreads hmem hname hb
    exact ⟨name, b, hmem, hb⟩
  · rintro ⟨name, b, hmem, hb⟩
    exact ⟨(name, b), mem_namedBlocks.2 ⟨_, hmem, rfl⟩, hb⟩

/-- **The parameters of a match are sound**: every name has the value of the segment that the last
token with the name takes. A path that is read is matched unless a segment of a capture does not
decode. -/
theorem params_of_match?_sound {source : Text} {p : Pattern} (hp : compile source = .ok p) :
    (∀ candidate m, p.match? candidate = some m →
      Url.parse candidate = .ok m.url ∧ m.params.keys = p.captureNames.eraseDups ∧
      ∃ blocks, Preferred p.tokens blocks (Path.normalForm m.url.pathname) ∧
        ∀ name ∈ p.captureNames, ∃ t b v, LastTaken p.tokens blocks name t b ∧
          m.params.get? name = some v ∧ b ∈ Path.segments (Path.normalForm m.url.pathname) ∧
          decode? b = some v ∧ Segment.encode v = b ∧
          ∀ alternatives, t = .choice name alternatives → v ∈ alternatives) ∧
    ∀ candidate u, Url.parse candidate = .ok u → p.acceptsOrigin u = true →
      (p.expression.captures? (Path.normalForm u.pathname)).isSome = true →
      ∃ blocks, Preferred p.tokens blocks (Path.normalForm u.pathname) ∧
        (p.match? candidate = none ↔
          ∃ name b, (.capture name, b) ∈ p.tokens.zip blocks ∧ decode? b = none) := by
  constructor
  · intro candidate m hm
    obtain ⟨blocks, hblocks, hdecode, hparams⟩ := params_eq_of_match? hp hm
    have hreads := hblocks.1.1
    have hnames : (namedBlocks p.tokens blocks).map Prod.fst = p.captureNames :=
      map_fst_namedBlocks hreads.length_eq
    have hkeys : m.params.keys = p.captureNames.eraseDups := by
      rw [hparams, OrderedMap.keys_ofList, List.map_map, ← hnames]
      rfl
    refine ⟨(parts_of_match? hm).1, hkeys, blocks, hblocks, ?_⟩
    intro name hname
    have hvalue : (m.params.get? name).isSome = true := by
      rw [OrderedMap.get?_isSome, OrderedMap.contains_iff_mem_keys, hkeys, List.mem_eraseDups]
      exact hname
    obtain ⟨v, hv⟩ := Option.isSome_iff_exists.1 hvalue
    have hlast := hv
    rw [hparams, OrderedMap.get?_ofList_eq_some_iff] at hlast
    obtain ⟨t, b, htaken, rfl⟩ := exists_lastTaken hlast
    have hsegment := htaken.mem_segments hp hblocks.1
    have hb : decode? b = some (decode b) :=
      decode?_eq_some_decode (hdecode _ (mem_namedBlocks.2 ⟨t, htaken.mem⟩))
    refine ⟨t, b, decode b, htaken, hv, hsegment, hb, encode_of_mem_segments hsegment hb, ?_⟩
    intro alternatives hchoice
    obtain ⟨a, ha, hba⟩ := decode?_of_choice hreads htaken.mem.1 hchoice
    rwa [decode_of_decode? hba]
  · intro candidate u hu haccepts hread
    have hq := Path.newline_not_mem_normalForm (Url.isPathSafe_of_mem_pathname hu)
    obtain ⟨caps, hcaps⟩ := Option.isSome_iff_exists.1 hread
    obtain ⟨blocks, hblocks, -⟩ :=
      exists_preferred_of_captures? (tokens_of_compile hp).1 hq hcaps
    exact ⟨blocks, hblocks, match?_eq_none_iff hp hu haccepts hblocks⟩

/-- A name that is declared twice, and a last segment that is no text. -/
theorem params_of_match?_sound_repeated :
    ∃ p u m, compile "/:x/**/:k\x7ba|b c\x7d/:x" = .ok p ∧
      p.match? "/1/b%20c//%FF/b%20c/%c3%A9" = some m ∧ m.params.keys = ["x".toList, "k".toList] ∧
      (∃ blocks t b v, LastTaken p.tokens blocks "x" t b ∧ m.params.get? "x" = some v ∧
        Segment.encode v = b) ∧
      Url.parse "/1/b%20c//%FF/b%20c/%FF" = .ok u ∧ p.acceptsOrigin u = true ∧
      (p.expression.captures? (Path.normalForm u.pathname)).isSome = true ∧
      ∃ blocks name b, (.capture name, b) ∈ p.tokens.zip blocks ∧ decode? b = none := by
  have hp : compile "/:x/**/:k\x7ba|b c\x7d/:x" = .ok ⟨"/:x/**/:k\x7ba|b c\x7d/:x",
      [.capture "x", .anySegments, .choice "k" ["a", "b c"], .capture "x"], [], none⟩ := by
    decide +kernel
  obtain ⟨hsound, hnone⟩ := params_of_match?_sound hp
  have hm : ((Pattern.mk "/:x/**/:k\x7ba|b c\x7d/:x"
      [.capture "x", .anySegments, .choice "k" ["a", "b c"], .capture "x"] [] none).match?
      "/1/b%20c//%FF/b%20c/%c3%A9").isSome = true := by decide +kernel
  obtain ⟨m, hm⟩ := Option.isSome_iff_exists.1 hm
  obtain ⟨-, hkeys, blocks, -, hvalues⟩ := hsound _ m hm
  obtain ⟨t, b, v, htaken, hv, -, -, hencode, -⟩ := hvalues "x" (by decide)
  have hu : Url.parse "/1/b%20c//%FF/b%20c/%FF" =
      .ok ⟨"http", [], [], "localhost", none, true, "/1/b%20c//%FF/b%20c/%FF", [], []⟩ := rfl
  have hread : ((Expression.ofTokens [.capture "x", .anySegments, .choice "k" ["a", "b c"],
      .capture "x"]).captures? (Path.normalForm "/1/b%20c//%FF/b%20c/%FF")).isSome = true := by
    decide +kernel
  have hno : (Pattern.mk "/:x/**/:k\x7ba|b c\x7d/:x"
      [.capture "x", .anySegments, .choice "k" ["a", "b c"], .capture "x"] [] none).match?
      "/1/b%20c//%FF/b%20c/%FF" = none := Option.isNone_iff_eq_none.1 (by decide +kernel)
  obtain ⟨others, -, hiff⟩ := hnone _ _ hu rfl hread
  obtain ⟨name, c, hmem, hc⟩ := hiff.1 hno
  exact ⟨_, _, m, hp, hm, hkeys, ⟨blocks, t, b, v, htaken, hv, hencode⟩, hu, rfl, hread, others,
    name, c, hmem, hc⟩

end UrlRouting.Pattern
