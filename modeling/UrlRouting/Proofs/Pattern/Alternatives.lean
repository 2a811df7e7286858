import UrlRouting.Proofs.Pattern.Alike
import UrlRouting.Proofs.Pattern.Rendering
import UrlRouting.Proofs.Pattern.TrailingSlash
import UrlRouting.Proofs.Url.RootedText

/-!
# Unions and their alternatives

A literal is the normal form of the segment as it is written, and an alternative of a union is
encoded again after the whole segment was decoded. Both are the same if the octets of the text form
characters. If they do not, the literal keeps its escapes, and the alternative has U+FFFD in their
place. A query or a fragment in one of the texts ends the path in the middle of the union.

* `isSome_match?_iff`: what a pattern of one token without a name matches.
* `SpellsOne`: a text whose path is one segment behind a slash. `Makes`: such a text, compiled.
* `slash_not_mem_of_union`: texts that spell one union are texts of one segment.
* `alternatives_of_union`: **the alternatives are the decoded texts**, if there are as many.
* `encode_ne_of_cut`: a text that ends the path is a literal with a closing brace, which no
  alternative has.
* `match?_union_iff_literals`: **a union matches what its alternatives match as literals, if and
  only if they are texts of a path, whose octets form characters**.
-/

namespace UrlRouting.Pattern

open Text.Percent (decode decode? isDelimiter)
open Url (kept PathOnly)

/-! ## One token -/

/-- A path that is one block of a token, or this with a slash at its end. -/
def Token.Takes (t : Token) (path : Text) : Prop :=
  ∃ b, t.Reads b ∧ (path = '/' :: b ∨ path = '/' :: (b ++ ['/']))

theorem takes_iff {t : Token} {path : Text} :
    t.Takes path ↔ ∃ blocks, Decomposes [t] blocks path := by
  constructor
  · rintro ⟨b, hb, rfl | rfl⟩
    · exact ⟨[b], .cons hb .nil, [], .inl rfl, by simp⟩
    · exact ⟨[b], .cons hb .nil, ['/'], .inr rfl, by simp⟩
  · rintro ⟨blocks, h⟩
    obtain ⟨b, bs, rest, rfl, rfl, hb, hbs⟩ := decomposes_cons_iff.1 h
    obtain ⟨-, rfl | rfl⟩ := decomposes_nil_iff.1 hbs
    · exact ⟨b, hb, .inl (by rw [List.append_nil])⟩
    · exact ⟨b, hb, .inr rfl⟩

theorem isSome_match?_iff {p : Pattern} {t : Token} {candidate : Text} (ht : p.tokens = [t])
    (hone : t.OneSegment) (hname : t.name? = none) (horigin : p.origin = none) :
    (p.match? candidate).isSome = true ↔
      ∃ u, Url.parse candidate = .ok u ∧ t.Takes (Path.normalForm u.pathname) := by
  have hones : ∀ t ∈ p.tokens, t.OneSegment := by
    rw [ht]
    simpa using hone
  have hnames : p.captureNames = [] := by simp [captureNames, ht, hname]
  constructor
  · intro h
    obtain ⟨m, hm⟩ := Option.isSome_iff_exists.1 h
    obtain ⟨hu, -, -, segments, hcaps, -⟩ := parts_of_match? hm
    have hq := Path.newline_not_mem_normalForm (Url.isPathSafe_of_mem_pathname hu)
    refine ⟨m.url, hu, takes_iff.2 ?_⟩
    rw [← ht]
    apply (isSome_captures?_ofTokens_iff hones hq).1
    exact Option.isSome_iff_exists.2 ⟨segments, hcaps⟩
  · rintro ⟨u, hu, htakes⟩
    have hq := Path.newline_not_mem_normalForm (Url.isPathSafe_of_mem_pathname hu)
    rw [takes_iff, ← ht] at htakes
    have hsome := (isSome_captures?_ofTokens_iff hones hq).2 htakes
    obtain ⟨segments, hcaps⟩ := Option.isSome_iff_exists.1 hsome
    obtain ⟨blocks, -, rfl⟩ := exists_preferred_of_captures? hones hq hcaps
    have haccepts : p.acceptsOrigin u = true := by rw [acceptsOrigin, horigin]
    have hcaptured : capturedBlocks p.tokens blocks = [] := by
      rw [ht]
      cases blocks with
      | nil => rfl
      | cons b bs => simp [capturedBlocks, hname]
    have hparams : params? p.captureNames (capturedBlocks p.tokens blocks) = some (.ofList []) := by
      rw [hnames, hcaptured]
      rfl
    rw [match?_of_accepts hu haccepts hcaps hparams]
    rfl

/-! ## Texts that make one token -/

/-- Behind a slash, the path of the text `w` is one segment, and it spells the token `t`. -/
def SpellsOne (w : Text) (t : Token) : Prop :=
  ∃ u s, Url.parse ('/' :: w) = .ok u ∧ Path.segments u.pathname = [s] ∧ Token.Spells s t

/-- Behind a slash, the text `w` compiles to the pattern `p` of the one token `t`. -/
structure Makes (w : Text) (p : Pattern) (t : Token) : Prop where
  compiled : compile ('/' :: w) = .ok p
  tokens : p.tokens = [t]

section

variable {w : Text} {p : Pattern} {t : Token} (h : Makes w p t)
include h

theorem Makes.spellsOne : SpellsOne w t := by
  obtain ⟨u, hu, ht, -⟩ := parts_of_compile h.compiled
  have hs := Token.ofPath_eq_ok_iff.1 ht
  rw [h.tokens] at hs
  obtain ⟨s, ss, hst, hnil, hsegments⟩ := List.forall₂_cons_right_iff.1 hs
  obtain rfl := List.forall₂_nil_right_iff.1 hnil
  exact ⟨u, s, hu, hsegments, hst⟩

theorem Makes.origin : p.origin = none := by
  obtain ⟨u, -, -, -, horigin⟩ := parts_of_compile h.compiled
  rw [horigin, Url.hasScheme_behind_slash]
  rfl

theorem Makes.oneSegment : t.OneSegment := by
  obtain ⟨u, s, -, hsegments, hst⟩ := h.spellsOne
  have hs : s ∈ Path.segments u.pathname := by simp [hsegments]
  exact hst.oneSegment (Path.slash_not_mem_of_mem_segments hs)

end

section

variable {w : Text} {t : Token} (hw : PathOnly w)
include hw

/-- What follows the path does not count. -/
theorem SpellsOne.before_cut {k : Text} (hk : ∀ c ∈ k.head?, c = '?' ∨ c = '#')
    (h : SpellsOne (w ++ k) t) : SpellsOne w t := by
  obtain ⟨u, s, hu, hsegments, hst⟩ := h
  obtain ⟨v, hv, hpath⟩ := Url.exists_parse_behind_slash hw hk hu
  exact ⟨v, s, hv, by rw [hpath, hsegments], hst⟩

variable (h : SpellsOne w t)
include h

theorem SpellsOne.spells_last {s : Text} (hlast : (Text.cutLast '/' (kept w)).2 = s) (hne : s ≠ [])
    (hdot : ¬ Path.IsDot s) : Token.Spells (Path.escape s) t := by
  obtain ⟨u, s', hu, hsegments, hst⟩ := h
  have hm := Url.last_mem_segments hw hu hlast hne hdot
  rw [hsegments] at hm
  rcases hm with hm | hm
  · cases hm
  · rwa [List.mem_singleton.1 hm]

theorem SpellsOne.of_slash_not_mem (hslash : '/' ∉ kept w) :
    ∃ u, Url.parse ('/' :: w) = .ok u ∧ u.pathname = '/' :: Path.escape (kept w) ∧
      Token.Spells (Path.escape (kept w)) t := by
  obtain ⟨u, s, hu, hsegments, hst⟩ := h
  have hpath := Url.pathname_of_one_segment hw hu hslash (by simp [hsegments])
  have hne : kept w ≠ [] := by
    intro hnil
    rw [hpath, hnil] at hsegments
    cases hsegments
  rw [hpath, Path.segments_of_slash_not_mem hne hslash] at hsegments
  obtain rfl := (List.cons.inj hsegments).1
  exact ⟨u, hu, hpath, hst⟩

end

/-! ## The texts of a union -/

theorem kept_join (vs : List Text) : kept (Text.join '|' vs) = Text.join '|' (vs.map kept) := by
  induction vs with
  | nil => rfl
  | cons v vs ih =>
    by_cases hnil : vs = []
    · subst hnil
      simp [Text.join]
    · have hbar : kept ('|' :: Text.join '|' vs) = '|' :: kept (Text.join '|' vs) := rfl
      rw [Text.join_cons hnil, kept, List.filter_append, ← kept, ← kept, hbar, ih, List.map_cons,
        Text.join_cons (by simpa using hnil)]

theorem kept_written (vs : List Text) : kept (Union.written (Text.join '|' vs)) =
    Union.written (Text.join '|' (vs.map kept)) := by
  rw [← kept_join, Union.written, List.cons_append, kept, List.filter_cons_of_pos (by decide),
    List.filter_append]
  rfl

theorem written_inj {a b : Text} (h : Union.written a = Union.written b) : a = b :=
  List.append_cancel_right (List.cons.inj h).2

theorem decode_written (body : Text) :
    decode (Union.written body) = Union.written (decode body) := by
  rw [Union.written, List.cons_append, Text.Percent.decode_cons (by decide),
    Text.Percent.decode_append (by decide)]
  rfl

theorem not_mem_written {c : Char} (hc : c ∉ ['\x7b', '|', '\x7d']) {vs : List Text}
    (h : ∀ v ∈ vs, c ∉ v) : c ∉ Union.written (Text.join '|' vs) := by
  simp only [List.mem_cons, List.not_mem_nil, or_false, not_or] at hc
  have hjoin : c ∉ Text.join '|' vs := by
    intro hm
    refine Text.forall_mem_join (P := (· ≠ c)) (Ne.symm hc.2.1) (fun v hv d hd => ?_) c hm rfl
    rintro rfl
    exact h v hv hd
  intro hm
  rcases List.mem_append.1 hm with hm | hm
  · rcases List.mem_cons.1 hm with hm | hm
    · exact hc.1 hm
    · exact hjoin hm
  · exact hc.2.2 (List.mem_singleton.1 hm)

theorem pathOnly_written {vs : List Text} (h : ∀ v ∈ vs, PathOnly v) :
    PathOnly (Union.written (Text.join '|' vs)) :=
  ⟨not_mem_written (by decide) fun v hv => (h v hv).1,
    not_mem_written (by decide) fun v hv => (h v hv).2⟩

theorem brace_not_mem_decode_last {v s : Text} (h : SpellsOne v (.literal s)) (hv : PathOnly v) :
    '\x7b' ∉ decode (Text.cutLast '/' (kept v)).2 := by
  generalize hlast : (Text.cutLast '/' (kept v)).2 = z
  by_cases hne : z = []
  · subst hne
    decide
  · by_cases hdot : Path.IsDot z
    · rcases hdot with rfl | rfl
      · decide
      · decide
    · have hspells := h.spells_last hv hlast hne hdot
      cases hspells with
      | literal hbrace => rwa [Path.decode_escape] at hbrace

section

variable {vs : List Text} {alternatives : List Text}
  (hp : SpellsOne (Union.written (Text.join '|' vs)) (.union alternatives))
  (hpath : ∀ v ∈ vs, PathOnly v)
include hp hpath

theorem slash_not_mem_of_union (hl : ∀ v ∈ vs, ∃ s, SpellsOne v (.literal s)) :
    ∀ v ∈ vs, '/' ∉ kept v := by
  intro v hv hslash
  -- the last slash is that of a text, whose last segment then starts the one that is read
  have hjoin := Text.mem_join_of_mem (d := '|') (List.mem_map_of_mem hv) hslash
  obtain ⟨a, b, hsplit, hb⟩ := Text.exists_last_cut hjoin
  obtain ⟨k, hk, -, hlast⟩ := Text.exists_mem_of_join_eq (by decide) hsplit hb
  obtain ⟨v', hv', rfl⟩ := List.mem_map.1 hk
  obtain ⟨s, hs⟩ := hl v' hv'
  have hbrace := brace_not_mem_decode_last hs (hpath v' hv')
  obtain ⟨c, r, hc, hne, hend⟩ : ∃ c r, isDelimiter c = true ∧ c ≠ '\x7b' ∧
      b ++ ['\x7d'] = (Text.cutLast '/' (kept v')).2 ++ c :: r := by
    rcases hlast with rfl | ⟨r, rfl⟩
    · exact ⟨'\x7d', [], by decide, by decide, rfl⟩
    · exact ⟨'|', r ++ ['\x7d'], by decide, by decide, by simp⟩
  have hwritten : (Text.cutLast '/' (kept (Union.written (Text.join '|' vs)))).2 =
      b ++ ['\x7d'] := by
    have hslash : '/' ∉ b ++ ['\x7d'] := by simp [hb]
    have hcut := Text.cutLast_some hslash ('\x7b' :: a)
    rw [kept_written, Union.written, hsplit]
    simpa using congrArg Prod.snd hcut
  have hdot : ¬ Path.IsDot (b ++ ['\x7d']) :=
    Path.not_isDot_of_mem (c := '\x7d') (by decide) (by simp)
  have hspells := hp.spells_last (pathOnly_written hpath) hwritten (by simp) hdot
  cases hspells with
  | union hd =>
    rw [Path.decode_escape, hend, Text.Percent.decode_append hc] at hd
    cases hz : decode (Text.cutLast '/' (kept v')).2 with
    | nil =>
      rw [hz] at hd
      exact hne (List.cons.inj hd).1
    | cons d z =>
      rw [hz] at hd hbrace
      exact hbrace (by simp [(List.cons.inj hd).1])

/-- **The alternatives are the decoded texts**, if there are as many of them. -/
theorem alternatives_of_union (hslash : ∀ v ∈ vs, '/' ∉ kept v)
    (hlength : alternatives.length = vs.length) :
    alternatives = vs.map fun v => decode (kept v) := by
  have hkept : '/' ∉ kept (Union.written (Text.join '|' vs)) := by
    rw [kept_written]
    apply not_mem_written (by decide)
    simpa using hslash
  obtain ⟨u, -, -, hspells⟩ := hp.of_slash_not_mem (pathOnly_written hpath) hkept
  cases hspells with
  | @union body hd hbody =>
    rw [Path.decode_escape, kept_written, decode_written,
      Text.Percent.decode_join (by decide), List.map_map] at hd
    obtain rfl := written_inj hd
    have hne : vs ≠ [] := by
      rintro rfl
      exact hbody.1 rfl
    apply Text.splitOn_join_of_length
    · simpa using hne
    · simpa using hlength

end

/-! ## Literals and alternatives -/

theorem normalForm_escape_of_isSome {k : Text} (h : (decode? k).isSome = true) :
    Segment.normalForm (Path.escape k) = Segment.encode (decode k) := by
  obtain ⟨t, ht⟩ := Option.isSome_iff_exists.1 h
  rw [Segment.normalForm_of_decode? ((Path.decode?_escape k).trans ht),
    Text.Percent.decode_of_decode? ht]

/-- Only octets that form characters have a normal form that encodes a text. -/
theorem decode?_of_normalForm_escape {k a : Text}
    (h : Segment.normalForm (Path.escape k) = Segment.encode a) : decode? k = some a := by
  rw [← Path.decode?_escape, ← Segment.decode?_normalForm, h, Segment.decode?_encode]

theorem SpellsOne.literal_eq {v s : Text} (h : SpellsOne v (.literal s)) (hv : PathOnly v)
    (hslash : '/' ∉ kept v) : s = Segment.normalForm (Path.escape (kept v)) := by
  obtain ⟨u, -, -, hspells⟩ := h.of_slash_not_mem hv hslash
  cases hspells with
  | literal => rfl

/-! ## Texts with a query or a fragment -/

/-- The first text with a query or a fragment ends the path of the joined texts. -/
theorem exists_cut_of_join {vs : List Text} {v : Text} (hv : v ∈ vs) (hcut : ¬ PathOnly v)
    (first : Char) (hfirst : ¬ (first = '?' ∨ first = '#')) :
    ∃ y d a c k r, a ++ c :: k ∈ vs ∧ (c = '?' ∨ c = '#') ∧ (d = first ∨ d = '|') ∧
      PathOnly (y ++ d :: a) ∧ first :: Text.join '|' vs = y ++ d :: (a ++ c :: r) := by
  induction vs generalizing first with
  | nil => cases hv
  | cons w vs ih =>
    have hjoin : ∃ rest, Text.join '|' (w :: vs) = w ++ rest ∧
        (vs ≠ [] → rest = '|' :: Text.join '|' vs) := by
      by_cases hnil : vs = []
      · exact ⟨[], by simp [hnil, Text.join], fun h => absurd hnil h⟩
      · exact ⟨_, Text.join_cons hnil, fun _ => rfl⟩
    obtain ⟨rest, hrest, hbar⟩ := hjoin
    by_cases hw : PathOnly w
    · have hvs : v ∈ vs := (List.mem_cons.1 hv).resolve_left fun h => hcut (h ▸ hw)
      obtain ⟨y, d, a, c, k, r, hmem, hc, hd, hpath, heq⟩ := ih hvs '|' (by decide)
      refine ⟨first :: (w ++ y), d, a, c, k, r, List.mem_cons_of_mem w hmem, hc, ?_, ?_, ?_⟩
      · exact .inr (or_self_iff.1 hd)
      · rw [List.cons_append, List.append_assoc]
        exact Url.pathOnly_cons hfirst (Url.pathOnly_append.2 ⟨hw, hpath⟩)
      · rw [hrest, hbar (List.ne_nil_of_mem hvs), heq]
        simp
    · obtain ⟨a, c, k, rfl, ha, hc⟩ := Url.exists_cut_of_not_pathOnly hw
      refine ⟨[], first, a, c, k, k ++ rest, List.mem_cons_self, hc, .inl rfl, ?_, ?_⟩
      · exact Url.pathOnly_cons hfirst ha
      · rw [hrest]
        simp

/-- The literal of a text that ends the path is none of the alternatives. -/
theorem encode_ne_of_cut {y a s : Text} {d : Char} {alternatives : List Text}
    (hp : SpellsOne (y ++ d :: a) (.union alternatives)) (hl : SpellsOne a (.literal s))
    (hd : d = '\x7b' ∨ d = '|') (hpath : PathOnly (y ++ d :: a))
    (hfirst : (kept (y ++ d :: a)).head? ≠ some '/') :
    ∀ b ∈ alternatives, Segment.encode b ≠ s := by
  obtain ⟨u, z, hu, hz, hspellsz⟩ := hp
  obtain ⟨v, z', hv, hz', hspells⟩ := hl
  have ha : PathOnly a := by
    rw [List.append_cons] at hpath
    exact (Url.pathOnly_append.1 hpath).2
  obtain ⟨hslash, hdot, hskip, hdelimiter, hclose⟩ : d ≠ '/' ∧ d ≠ '.' ∧
      Url.isSkipped d = false ∧ isDelimiter d = true ∧ d ≠ '\x7d' := by
    rcases hd with rfl | rfl
    · decide
    · decide
  rcases Url.segments_behind_char hslash hdot hfirst hskip hu hv hpath ha hz hz' with
    rfl | ⟨x, h, rfl, rfl⟩
  · cases hspellsz with
    | union hwritten =>
      cases hspells with
      | literal hbrace =>
        rw [hwritten] at hbrace
        exact absurd List.mem_cons_self hbrace
  · cases hspellsz with
    | @union body hwritten hbody =>
      rw [Path.decode_escape, Text.Percent.decode_append hdelimiter] at hwritten
      -- the closing brace stands in the text, but in no alternative
      have hlast := congrArg List.getLast? hwritten
      rw [List.getLast?_append_cons, Union.written, List.getLast?_concat] at hlast
      have hmem : '\x7d' ∈ decode h :=
        (List.mem_cons.1 (List.mem_of_getLast? hlast)).resolve_left (Ne.symm hclose)
      cases hspells with
      | literal =>
        intro b hb he
        have hb' : b = decode h :=
          (Text.Percent.decode_of_decode? (decode?_of_normalForm_escape he.symm)).symm
        rw [← hb'] at hmem
        refine Text.forall_mem_of_mem_splitOn (P := (· ≠ '\x7d')) ?_ hb '\x7d' hmem rfl
        rintro c hc rfl
        exact hbody.2 hc

/-! ## Unions and literals -/

/-- The pattern `p` matches what one of the texts matches behind a slash. -/
def MatchesAs (p : Pattern) (vs : List Text) : Prop :=
  ∀ t, (p.match? t).isSome = true ↔
    ∃ v ∈ vs, ∃ l, compile ('/' :: v) = .ok l ∧ (l.match? t).isSome = true

section

variable {vs : List Text} {p : Pattern} {alternatives : List Text}
  (hl : ∀ v ∈ vs, ∃ l s, Makes v l (.literal s))
  (hp : Makes (Union.written (Text.join '|' vs)) p (.union alternatives))

include hp in
/-- A literal matches the segment that spells it, so that an alternative has to be written so. -/
theorem exists_encode_of_matchesAs (h : p.MatchesAs vs) {v s : Text} {l : Pattern} (hv : v ∈ vs)
    (hm : Makes v l (.literal s)) : ∃ b ∈ alternatives, Segment.encode b = s := by
  obtain ⟨u, own, hu, hsegments, hspells⟩ := hm.spellsOne
  have hplain : ∀ t ∈ [own], Path.Plain t := by
    rw [← hsegments]
    exact Url.plain_of_mem_segments hu (Url.hasScheme_behind_slash v)
  have hslash := (hplain own List.mem_cons_self).slash_not_mem
  have hread := Url.parse_rooted hplain
  have hpath : Path.normalForm ('/' :: Text.join '/' [own]) = '/' :: Segment.normalForm own := by
    rw [Path.normalForm_cons_slash, Text.join, List.intercalate_singleton,
      Path.normalForm_of_slash_not_mem hslash]
  cases hspells with
  | literal =>
    have hown := (isSome_match?_iff hm.tokens hm.oneSegment rfl hm.origin).2
      ⟨_, hread, _, rfl, .inl hpath⟩
    obtain ⟨u', hu', b, ⟨a, ha, rfl⟩, htaken⟩ :=
      (isSome_match?_iff hp.tokens hp.oneSegment rfl hp.origin).1
        ((h _).2 ⟨v, hv, l, hm.compiled, hown⟩)
    obtain rfl := Except.ok.inj (hread.symm.trans hu')
    rw [hpath] at htaken
    rcases htaken with he | he
    · exact ⟨a, ha, (List.cons.inj he).2.symm⟩
    · have hmem : '/' ∈ Segment.normalForm own := by simp [(List.cons.inj he).2]
      exact absurd hmem (Segment.slash_not_mem_normalForm hslash)

include hl

theorem exists_spellsOne : ∀ v ∈ vs, ∃ s, SpellsOne v (.literal s) := by
  intro v hv
  obtain ⟨l, s, hm⟩ := hl v hv
  exact ⟨s, hm.spellsOne⟩

include hp

/-- No text that is cut makes a literal that the union matches. -/
theorem pathOnly_of_matchesAs (h : p.MatchesAs vs) : ∀ v ∈ vs, PathOnly v := by
  intro v hv
  by_contra hcut
  obtain ⟨y, d, a, c, k, r, hmem, hc, hd, hpath, heq⟩ :=
    exists_cut_of_join hv hcut '\x7b' (by decide)
  obtain ⟨l, s, hm⟩ := hl _ hmem
  obtain ⟨b, hb, hbs⟩ := exists_encode_of_matchesAs hp h hmem hm
  have ha : PathOnly a := by
    rw [List.append_cons] at hpath
    exact (Url.pathOnly_append.1 hpath).2
  have hwritten : Union.written (Text.join '|' vs) = y ++ d :: a ++ c :: (r ++ ['\x7d']) := by
    rw [Union.written, heq]
    simp
  have hunion := hp.spellsOne
  rw [hwritten] at hunion
  have hfirst : (kept (y ++ d :: a)).head? ≠ some '/' := by
    obtain ⟨x, hx⟩ : ∃ x, y ++ d :: a = '\x7b' :: x := by
      cases y with
      | nil => exact ⟨a, by rw [← (List.cons.inj heq).1]; rfl⟩
      | cons e y => exact ⟨y ++ d :: a, by rw [← (List.cons.inj heq).1]; rfl⟩
    have hkept : kept ('\x7b' :: x) = '\x7b' :: kept x := rfl
    rw [hx, hkept]
    simp
  exact encode_ne_of_cut (hunion.before_cut hpath (by simpa using hc))
    (hm.spellsOne.before_cut ha (by simpa using hc)) hd hpath hfirst b hb hbs

/-- Texts whose octets form characters are written as alternatives as they are as literals. -/
theorem matchesAs_of_decodes (hlength : alternatives.length = vs.length)
    (hpath : ∀ v ∈ vs, PathOnly v) (hd : ∀ v ∈ vs, (decode? (kept v)).isSome = true) :
    p.MatchesAs vs := by
  have hslash := slash_not_mem_of_union hp.spellsOne hpath (exists_spellsOne hl)
  have halternatives := alternatives_of_union hp.spellsOne hpath hslash hlength
  have hliteral {v s : Text} {l : Pattern} (hv : v ∈ vs) (hm : Makes v l (.literal s)) :
      s = Segment.encode (decode (kept v)) := by
    rw [hm.spellsOne.literal_eq (hpath v hv) (hslash v hv), normalForm_escape_of_isSome (hd v hv)]
  intro t
  rw [isSome_match?_iff hp.tokens hp.oneSegment rfl hp.origin]
  constructor
  · rintro ⟨u, hu, b, ⟨a, ha, rfl⟩, htaken⟩
    rw [halternatives] at ha
    obtain ⟨v, hv, rfl⟩ := List.mem_map.1 ha
    obtain ⟨l, s, hm⟩ := hl v hv
    refine ⟨v, hv, l, hm.compiled,
      (isSome_match?_iff hm.tokens hm.oneSegment rfl hm.origin).2 ⟨u, hu, _, ?_, htaken⟩⟩
    exact (hliteral hv hm).symm
  · rintro ⟨v, hv, l, hcompiled, hmatch⟩
    obtain ⟨l', s, hm⟩ := hl v hv
    obtain rfl := Except.ok.inj (hcompiled.symm.trans hm.compiled)
    obtain ⟨u, hu, b, rfl, htaken⟩ :=
      (isSome_match?_iff hm.tokens hm.oneSegment rfl hm.origin).1 hmatch
    refine ⟨u, hu, _, ⟨decode (kept v), ?_, hliteral hv hm⟩, htaken⟩
    rw [halternatives]
    exact List.mem_map_of_mem hv

/-- **A union matches what its alternatives match as literals**, if and only if they are texts of
a path, whose octets form characters. -/
theorem match?_union_iff_literals (hlength : alternatives.length = vs.length) :
    p.MatchesAs vs ↔ ∀ v ∈ vs, PathOnly v ∧ (decode? (kept v)).isSome = true := by
  constructor
  · intro h v hv
    have hpath := pathOnly_of_matchesAs hl hp h
    obtain ⟨l, s, hm⟩ := hl v hv
    obtain ⟨b, -, hb⟩ := exists_encode_of_matchesAs hp h hv hm
    have hslash := slash_not_mem_of_union hp.spellsOne hpath (exists_spellsOne hl) v hv
    rw [hm.spellsOne.literal_eq (hpath v hv) hslash] at hb
    exact ⟨hpath v hv, by rw [decode?_of_normalForm_escape hb.symm]; rfl⟩
  · intro h
    exact matchesAs_of_decodes hl hp hlength (fun v hv => (h v hv).1) fun v hv => (h v hv).2

end

/-- An escaped slash, an escaped letter before a tab, and a character of two octets. -/
theorem match?_union_iff_literals_spellings :
    ∃ p alternatives, (∀ v ∈ ["a b%2f".toList, "%41\t", "é"], ∃ l s, Makes v l (.literal s)) ∧
      Makes (Union.written (Text.join '|' ["a b%2f".toList, "%41\t", "é"])) p
        (.union alternatives) ∧
      alternatives = ["a b/".toList, "A", "é"] ∧
      p.MatchesAs ["a b%2f".toList, "%41\t", "é"] := by
  have hl : ∀ v ∈ ["a b%2f".toList, "%41\t", "é"], ∃ l s, Makes v l (.literal s) := by
    intro v hv
    simp only [List.mem_cons, List.not_mem_nil, or_false] at hv
    rcases hv with rfl | rfl | rfl
    · exact ⟨⟨"/a b%2f", [.literal "a%20b%2F"], [], none⟩, _, by decide +kernel, rfl⟩
    · exact ⟨⟨"/%41\t", [.literal "A"], [], none⟩, _, by decide +kernel, rfl⟩
    · exact ⟨⟨"/é", [.literal "%C3%A9"], [], none⟩, _, by decide +kernel, rfl⟩
  have hp : Makes (Union.written (Text.join '|' ["a b%2f".toList, "%41\t", "é"]))
      ⟨"/\x7ba b%2f|%41\t|é\x7d", [.union ["a b/", "A", "é"]], [], none⟩
      (.union ["a b/", "A", "é"]) := ⟨by decide +kernel, rfl⟩
  exact ⟨_, _, hl, hp, rfl, (match?_union_iff_literals hl hp rfl).2 (by decide +kernel)⟩

/-- An octet that forms no character is kept in a literal, but not in a union. -/
theorem not_match?_union_of_octet :
    ∃ p l, Makes "%FF" l (.literal "%FF") ∧
      Makes (Union.written (Text.join '|' ["%FF".toList])) p (.union ["\uFFFD"]) ∧
      (l.match? "/%FF").isSome = true ∧ (p.match? "/%FF").isSome = false ∧
      ¬ p.MatchesAs ["%FF".toList] := by
  have hl : compile "/%FF".toList = .ok ⟨"/%FF", [.literal "%FF"], [], none⟩ := by decide +kernel
  have hp : compile ('/' :: Union.written (Text.join '|' ["%FF".toList])) =
      .ok ⟨"/\x7b%FF\x7d", [.union ["\uFFFD"]], [], none⟩ := by decide +kernel
  have hmatch : (Pattern.match? ⟨"/%FF", [.literal "%FF"], [], none⟩ "/%FF").isSome = true := by
    decide +kernel
  have hno : (Pattern.match? ⟨"/\x7b%FF\x7d", [.union ["\uFFFD"]], [], none⟩ "/%FF").isSome =
      false := by decide +kernel
  refine ⟨_, _, ⟨hl, rfl⟩, ⟨hp, rfl⟩, hmatch, hno, fun h => ?_⟩
  have := (h "/%FF").2 ⟨_, List.mem_cons_self, _, hl, hmatch⟩
  rw [hno] at this
  cases this

/-- A query ends the path, and what stands before it is then the alternative. -/
example :
    (compile "/a\x7d?b".toList).map Pattern.tokens = .ok [.literal "a%7D"] ∧
      (compile "/\x7ba\x7d?b\x7d".toList).map Pattern.tokens = .ok [.union ["a"]] := by
  decide +kernel

end UrlRouting.Pattern
