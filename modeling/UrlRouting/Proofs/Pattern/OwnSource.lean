import UrlRouting.Proofs.Pattern.Rendering
import UrlRouting.Proofs.Pattern.TrailingSlash
import UrlRouting.Proofs.Text.Decoding

/-!
# The source of a pattern as a candidate

The source of a pattern is a URL itself. Every token but a union reads the segment that spells it,
so that the pattern matches its own source, however many `**` it has: the path has one slash for
each token, and no block can take more than one segment.

* `Decomposes.eq_of_slash_not_mem`: a path of blocks without slashes, one for each token, has no
  other decomposition.
* `Token.Spells.reads`: a token that is not a union reads its own segment.
* `captures?_own`: the expression of a path reads that path, and captures the own segments.
* `match?_own_source`: **a pattern matches its own source**, and every capture gets its own name
  behind a colon.
-/

namespace UrlRouting

open Text.Percent (decode decode?)

namespace Path

/-! ## Paths without inner empty segments -/

theorem eq_join_segments {q : Text} (h : [] ∉ (q.splitOn '/').dropLast) :
    q = Text.join '/' (segments q) ∨
      segments q ≠ [] ∧ q = Text.join '/' (segments q) ++ ['/'] := by
  have hjoin : q = Text.join '/' (q.splitOn '/') := (List.intercalate_splitOn '/').symm
  obtain ⟨init, last, hsplit⟩ := List.eq_nil_or_concat' (q.splitOn '/') |>.resolve_left
    (List.splitOn_ne_nil '/' q)
  have hinit : init.filter (· ≠ []) = init := by
    rw [hsplit, List.dropLast_concat] at h
    rw [List.filter_eq_self]
    intro s hs
    simpa using fun he : s = [] => h (he ▸ hs)
  rw [segments, hsplit, List.filter_append, hinit]
  rw [hsplit] at hjoin
  by_cases hlast : last = []
  · subst hlast
    by_cases hnil : init = []
    · subst hnil
      exact .inl hjoin
    · refine .inr ⟨by simp [hnil], ?_⟩
      rw [hjoin, Text.join_append hnil (by simp)]
      simp [Text.join]
  · left
    rw [hjoin]
    simp [hlast]

end Path

namespace Pattern

/-! ## Blocks without slashes -/

theorem length_le_count_flatMap (blocks : List Text) :
    blocks.length ≤ (blocks.flatMap ('/' :: ·)).count '/' := by
  induction blocks with
  | nil => exact Nat.le_refl 0
  | cons b bs ih =>
    rw [List.flatMap_cons, List.count_append, List.count_cons_self, List.length_cons]
    omega

theorem count_flatMap_of_slash_not_mem {blocks : List Text} (h : ∀ b ∈ blocks, '/' ∉ b) :
    (blocks.flatMap ('/' :: ·)).count '/' = blocks.length := by
  induction blocks with
  | nil => rfl
  | cons b bs ih =>
    rw [List.forall_mem_cons] at h
    rw [List.flatMap_cons, List.count_append, List.count_cons_self, List.count_eq_zero.2 h.1,
      ih h.2, List.length_cons]
    omega

/-- Every token takes a slash. -/
theorem Decomposes.length_le_count {tokens : List Token} {blocks : List Text} {path : Text}
    (h : Decomposes tokens blocks path) : tokens.length ≤ path.count '/' := by
  obtain ⟨hreads, closing, -, rfl⟩ := h
  have := length_le_count_flatMap blocks
  rw [List.count_append, hreads.length_eq]
  omega

/-- Blocks without slashes, one for each token, are the only decomposition of their path. -/
theorem Decomposes.eq_of_slash_not_mem {tokens : List Token} {blocks others : List Text}
    (h : Decomposes tokens others (blocks.flatMap ('/' :: ·)))
    (hlength : blocks.length = tokens.length) (hb : ∀ b ∈ blocks, '/' ∉ b) : others = blocks := by
  induction tokens generalizing blocks others with
  | nil =>
    obtain ⟨rfl, -⟩ := decomposes_nil_iff.1 h
    exact (List.eq_nil_of_length_eq_zero hlength).symm
  | cons t ts ih =>
    obtain ⟨b', bs', rest, rfl, he, hb', hbs'⟩ := decomposes_cons_iff.1 h
    cases blocks with
    | nil => cases hlength
    | cons b bs =>
      rw [List.forall_mem_cons] at hb
      have hlength : bs.length = ts.length := Nat.succ.inj hlength
      have he : b ++ bs.flatMap ('/' :: ·) = b' ++ rest := (List.cons.inj he).2
      -- the tokens that follow take all the slashes, which leaves none for this block
      have hslash : '/' ∉ b' := by
        have hcount := congrArg (List.count '/') he
        have hrest := hbs'.length_le_count
        rw [List.count_append, List.count_append, List.count_eq_zero.2 hb.1,
          count_flatMap_of_slash_not_mem hb.2] at hcount
        exact List.count_eq_zero.1 (by omega)
      have hboundary : bs.flatMap ('/' :: ·) = [] ∨ ∃ r, bs.flatMap ('/' :: ·) = '/' :: r := by
        cases bs with
        | nil => exact .inl rfl
        | cons x bs => exact .inr ⟨_, rfl⟩
      obtain rfl := eq_of_append_eq_at_boundary hb.1 hslash hboundary hbs'.at_boundary he
      rw [← List.append_cancel_left he] at hbs'
      rw [ih hbs' hlength hb.2]

theorem preferred_of_slash_not_mem {tokens : List Token} {blocks : List Text}
    (h : List.Forall₂ Token.Reads tokens blocks) (hb : ∀ b ∈ blocks, '/' ∉ b) :
    Preferred tokens blocks (blocks.flatMap ('/' :: ·)) := by
  refine ⟨⟨h, [], .inl rfl, (List.append_nil _).symm⟩, fun others ho => ?_⟩
  rw [ho.eq_of_slash_not_mem h.length_eq.symm hb]
  exact List.lex_irrefl Nat.lt_irrefl _

/-! ## Own segments -/

/-- Whether a token is a union, with or without a name. -/
def Token.isUnion : Token → Bool
  | union _ => true
  | choice _ _ => true
  | literal _ => false
  | capture _ => false
  | anySegment => false
  | anySegments => false

theorem Token.Spells.reads {s : Text} {t : Token} (h : Token.Spells s t)
    (hunion : t.isUnion = false) (hne : s ≠ []) (hslash : '/' ∉ s) :
    t.Reads (Segment.normalForm s) := by
  have hblock := Segment.normalForm_ne_nil hne
  have hone := Segment.slash_not_mem_normalForm hslash
  cases h with
  | literal => rfl
  | capture | anySegment => exact ⟨hblock, hone⟩
  | anySegments => exact hblock
  | union | choice => cases hunion

section

variable {ss : List Text} {tokens : List Token} (hs : List.Forall₂ Token.Spells ss tokens)
  (hunion : ∀ t ∈ tokens, t.isUnion = false)
include hs hunion

theorem reads_own (hne : ∀ s ∈ ss, s ≠ []) (hslash : ∀ s ∈ ss, '/' ∉ s) :
    List.Forall₂ Token.Reads tokens (ss.map Segment.normalForm) := by
  induction hs with
  | nil => exact .nil
  | cons hst hs ih =>
    rw [List.forall_mem_cons] at hunion hne hslash
    exact .cons (hst.reads hunion.1 hne.1 hslash.1) (ih hunion.2 hne.2 hslash.2)

theorem capturedBlocks_own
    (hd : ∀ s ∈ ss, ∀ name, Token.Spells s (.capture name) → (decode? s).isSome = true) :
    capturedBlocks tokens (ss.map Segment.normalForm) =
      (tokens.filterMap Token.name?).map fun name => Segment.encode (':' :: name) := by
  induction hs with
  | nil => rfl
  | @cons s t ss tokens hst hs ih =>
    rw [List.forall_mem_cons] at hunion hd
    have htail := ih hunion.2 hd.2
    cases hst with
    | @capture name hname hne hbrace =>
      obtain ⟨v, hv⟩ := Option.isSome_iff_exists.1 (hd.1 name (.capture hname hne hbrace))
      have hblock : Segment.normalForm s = Segment.encode (':' :: name) := by
        rw [Segment.normalForm_of_decode? hv, ← hname, Text.Percent.decode_of_decode? hv]
      exact congrArg₂ List.cons hblock htail
    | union | choice => cases hunion.1
    | literal | anySegment | anySegments => exact htail

end

/-- **The expression of a path reads that path**, with or without a slash at its end. -/
theorem captures?_own {q : Text} {tokens : List Token}
    (hs : List.Forall₂ Token.Spells (Path.segments q) tokens)
    (hunion : ∀ t ∈ tokens, t.isUnion = false) (hempty : [] ∉ (q.splitOn '/').dropLast)
    (hq : '\n' ∉ Path.normalForm ('/' :: q)) :
    (Expression.ofTokens tokens).captures? (Path.normalForm ('/' :: q)) =
      some (capturedBlocks tokens ((Path.segments q).map Segment.normalForm)) := by
  have hne : ∀ s ∈ Path.segments q, s ≠ [] := fun s => Path.ne_nil_of_mem_segments
  have hslash : ∀ s ∈ Path.segments q, '/' ∉ s := fun s => Path.slash_not_mem_of_mem_segments
  have hone := Token.oneSegment_of_spells hs
  have hblocks := Token.block_ne_nil_of_spells hs hne
  have hfilled : ∀ b ∈ (Path.segments q).map Segment.normalForm, b ≠ [] ∧ '/' ∉ b := by
    intro b hb
    obtain ⟨s, hs, rfl⟩ := List.mem_map.1 hb
    exact ⟨Segment.normalForm_ne_nil (hne s hs), Segment.slash_not_mem_normalForm (hslash s hs)⟩
  have hnormal := Path.normalForm_join_of_slash_not_mem hslash
  have hown := reads_own hs hunion hne hslash
  generalize hbs : (Path.segments q).map Segment.normalForm = blocks at *
  have hbase (hq : '\n' ∉ '/' :: Text.join '/' blocks) :
      (Expression.ofTokens tokens).captures? ('/' :: Text.join '/' blocks) =
        some (capturedBlocks tokens blocks) := by
    by_cases hnil : blocks = []
    · subst hnil
      cases hown
      exact captures?_ofTokens_nil ['/']
    · rw [Text.cons_join '/' hnil] at hq ⊢
      exact captures?_ofTokens_of_preferred hone hq
        (preferred_of_slash_not_mem hown fun b hb => (hfilled b hb).2)
  rcases Path.eq_join_segments hempty with he | ⟨hnil, he⟩
  · have hpath : Path.normalForm ('/' :: q) = '/' :: Text.join '/' blocks :=
      (congrArg (fun x => Path.normalForm ('/' :: x)) he).trans hnormal
    rw [hpath] at hq ⊢
    exact hbase hq
  · have hpath : Path.normalForm ('/' :: q) = ('/' :: Text.join '/' blocks) ++ ['/'] := by
      rw [← hnormal]
      exact (congrArg (fun x => Path.normalForm ('/' :: x)) he).trans
        (Path.normalForm_append_slash ('/' :: Text.join '/' (Path.segments q)) [])
    rw [hpath] at hq ⊢
    have hbefore : '\n' ∉ '/' :: Text.join '/' blocks := fun h => hq (List.mem_append_left _ h)
    have hend := Text.getLast?_cons_join hfilled (by rw [← hbs]; simpa using hnil)
    rw [captures?_ofTokens_slash hone hblocks hbefore hend]
    exact hbase hbefore

/-! ## Matching -/

/-- **A pattern matches its own source.** -/
theorem match?_own_source {source q : Text} {p : Pattern} {u : Url}
    (hp : compile source = .ok p) (hu : Url.parse source = .ok u) (hpath : u.pathname = '/' :: q)
    (hempty : [] ∉ (q.splitOn '/').dropLast) (hunion : ∀ t ∈ p.tokens, t.isUnion = false)
    (hd : ∀ s ∈ Path.segments u.pathname, ∀ name, Token.Spells s (.capture name) →
      (decode? s).isSome = true) :
    ∃ m, p.match? source = some m ∧ m.params.keys = p.captureNames.eraseDups ∧
      ∀ name ∈ p.captureNames, m.params.get? name = some (':' :: name) := by
  obtain ⟨u', hu', ht, -, horigin⟩ := parts_of_compile hp
  obtain rfl := Except.ok.inj (hu.symm.trans hu')
  have hs := Token.ofPath_eq_ok_iff.1 ht
  have hq := Path.newline_not_mem_normalForm (Url.isPathSafe_of_mem_pathname hu)
  have haccepts : p.acceptsOrigin u = true := by
    rw [acceptsOrigin, horigin]
    cases Url.hasScheme source with
    | false => rfl
    | true => exact beq_self_eq_true u.origin
  rw [hpath] at hq
  rw [hpath, Path.segments_cons_slash] at hs hd
  have hcaps := captures?_own hs hunion hempty hq
  rw [capturedBlocks_own hs hunion hd, ← hpath] at hcaps
  have hparams := params?_of_entries (p.captureNames.map fun name => (name, ':' :: name))
  simp only [List.map_map, Function.comp_def, List.map_id'] at hparams
  refine ⟨_, match?_of_accepts hu haccepts hcaps hparams, ?_, fun name hname => ?_⟩
  · rw [OrderedMap.keys_ofList, List.map_map]
    simp [Function.comp_def]
  · exact OrderedMap.get?_ofList_eq_some_iff.2 (lastEntry_map_iff.2 ⟨hname, rfl⟩)

/-- An opaque origin, octets that form no character, two `**`, and a slash at the end. -/
theorem match?_own_source_opaque :
    ∃ p u, compile "FOO:/a b%ff/*/**/:x%41/**/:é/?q".toList = .ok p ∧
      Url.parse "FOO:/a b%ff/*/**/:x%41/**/:é/?q".toList = .ok u ∧
      u.pathname = "/a%20b%ff/*/**/:x%41/**/:%C3%A9/".toList ∧
      [] ∉ ("a%20b%ff/*/**/:x%41/**/:%C3%A9/".toList.splitOn '/').dropLast ∧
      (∀ t ∈ p.tokens, t.isUnion = false) ∧
      (∀ s ∈ Path.segments u.pathname, ∀ name, Token.Spells s (.capture name) →
        (decode? s).isSome = true) ∧
      ∃ m, p.match? "FOO:/a b%ff/*/**/:x%41/**/:é/?q".toList = some m ∧
        m.params.keys = ["xA".toList, "é"] ∧ m.params.get? "é" = some (':' :: "é".toList) := by
  have hp : compile "FOO:/a b%ff/*/**/:x%41/**/:é/?q".toList =
      .ok ⟨"FOO:/a b%ff/*/**/:x%41/**/:é/?q", [.literal "a%20b%ff", .anySegment, .anySegments,
        .capture "xA", .anySegments, .capture "é"], [⟨"q", false, []⟩], some "null".toList⟩ := by
    decide +kernel
  have hu : Url.parse "FOO:/a b%ff/*/**/:x%41/**/:é/?q".toList =
      .ok ⟨"foo", [], [], [], none, false, "/a%20b%ff/*/**/:x%41/**/:%C3%A9/", "q", []⟩ := rfl
  have hempty : [] ∉ ("a%20b%ff/*/**/:x%41/**/:%C3%A9/".toList.splitOn '/').dropLast := by decide
  have hd : ∀ s ∈ Path.segments "/a%20b%ff/*/**/:x%41/**/:%C3%A9/", ∀ name,
      Token.Spells s (.capture name) → (decode? s).isSome = true := by
    have hmarked : ∀ s ∈ Path.segments "/a%20b%ff/*/**/:x%41/**/:%C3%A9/",
        (decode s).head? = some ':' → (decode? s).isSome = true := by decide +kernel
    intro s hs name hspells
    cases hspells with
    | capture hname =>
      apply hmarked s hs
      rw [hname]
      rfl
  obtain ⟨m, hm, hkeys, hget⟩ := match?_own_source hp hu rfl hempty (by decide) hd
  refine ⟨_, _, hp, hu, rfl, hempty, by decide, hd, m, hm, ?_, hget _ (by decide)⟩
  rw [hkeys]
  decide

end Pattern

end UrlRouting
