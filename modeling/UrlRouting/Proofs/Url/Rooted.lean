import UrlRouting.Proofs.Url.Pathname

/-!
# Rooted paths

A text that starts with a slash is read as a path of the base, its dot segments are resolved, and
the rest is escaped. A **plain** segment is one that all of this leaves alone.

* `Path.IsDot`: the segments `.` and `..`. `Path.resolveAfter_here`, `Path.resolveAfter_up`: what
  they do to the segments kept before them.
* `Path.Plain`: a segment of safe characters that is neither empty nor a dot segment.
* `Url.plain_of_mem_segments`: the path of a URL without a scheme has plain segments.
* `Url.parse_rooted`: **plain segments after a slash are read as the path that they form**.
-/

namespace UrlRouting

namespace Path

/-! ## Dot segments -/

/-- A segment that is resolved away. -/
def IsDot (s : Text) : Prop := s = here ∨ s = up

instance (s : Text) : Decidable (IsDot s) := inferInstanceAs (Decidable (s = here ∨ s = up))

theorem not_isDot_nil : ¬ IsDot [] := by
  intro h
  rcases h with h | h
  · cases h
  · cases h

theorem not_isDot_of_mem {c : Char} {s : Text} (hc : c ≠ '.') (h : c ∈ s) : ¬ IsDot s := by
  rintro (rfl | rfl)
  · exact hc (List.mem_singleton.1 h)
  · simp [up, hc] at h

theorem not_isDot_iff {s : Text} : ¬ IsDot s ↔ s ≠ here ∧ s ≠ up := not_or

theorem here_or_up_or_not_isDot (s : Text) : s = here ∨ s = up ∨ ¬ IsDot s := by
  rw [← or_assoc]
  exact Decidable.em (IsDot s)

/-- The segments kept behind a dot segment: in last position it leaves an empty one behind. -/
def closed (kept rest : List Text) : List Text := if rest.isEmpty then [] :: kept else kept

theorem forall_mem_closed {P : Text → Prop} (hnil : P []) {kept : List Text}
    (h : ∀ s ∈ kept, P s) (rest : List Text) : ∀ s ∈ closed kept rest, P s := by
  rw [closed]
  split
  · exact List.forall_mem_cons.2 ⟨hnil, h⟩
  · exact h

theorem resolveAfter_here (kept rest : List Text) :
    resolveAfter kept (here :: rest) = resolveAfter (closed kept rest) rest := by
  rw [resolveAfter, if_pos rfl, closed]

theorem resolveAfter_up (kept rest : List Text) :
    resolveAfter kept (up :: rest) = resolveAfter (closed kept.tail rest) rest := by
  rw [resolveAfter, if_neg (by decide), if_pos rfl, closed]

theorem resolveAfter_cons_of_not_isDot {s : Text} (h : ¬ IsDot s) (kept rest : List Text) :
    resolveAfter kept (s :: rest) = resolveAfter (s :: kept) rest := by
  obtain ⟨hhere, hup⟩ := not_isDot_iff.1 h
  rw [resolveAfter, if_neg hhere, if_neg hup]

theorem resolveAfter_eq_append {segments : List Text} (h : ∀ s ∈ segments, ¬ IsDot s)
    (kept : List Text) : resolveAfter kept segments = kept.reverse ++ segments := by
  induction segments generalizing kept with
  | nil => simp [resolveAfter]
  | cons s rest ih =>
    rw [List.forall_mem_cons] at h
    rw [resolveAfter_cons_of_not_isDot h.1, ih h.2]
    simp

/-- What resolving leaves was there before, or is an empty segment at the end. -/
theorem forall_mem_resolveAfter {P : Text → Prop} (hnil : P []) {kept segments : List Text}
    (hk : ∀ s ∈ kept, P s) (hs : ∀ s ∈ segments, ¬ IsDot s → P s) :
    ∀ s ∈ resolveAfter kept segments, P s := by
  induction segments generalizing kept with
  | nil =>
    intro s h
    exact hk s (List.mem_reverse.1 h)
  | cons s rest ih =>
    rw [List.forall_mem_cons] at hs
    rcases here_or_up_or_not_isDot s with rfl | rfl | hdot
    · rw [resolveAfter_here]
      exact ih (forall_mem_closed hnil hk rest) hs.2
    · have htail : ∀ x ∈ kept.tail, P x := fun x hx => hk x (List.mem_of_mem_tail hx)
      rw [resolveAfter_up]
      exact ih (forall_mem_closed hnil htail rest) hs.2
    · rw [resolveAfter_cons_of_not_isDot hdot]
      exact ih (List.forall_mem_cons.2 ⟨hs.1 hdot, hk⟩) hs.2

theorem not_isDot_of_mem_resolveAfter {segments : List Text} :
    ∀ s ∈ resolveAfter [] segments, ¬ IsDot s :=
  forall_mem_resolveAfter not_isDot_nil (by simp) fun _ _ h => h

theorem slash_not_mem_resolveAfter (t : Text) :
    ∀ s ∈ resolveAfter [] (t.splitOn '/'), '/' ∉ s :=
  forall_mem_resolveAfter (by simp) (by simp) fun _ hs _ => Text.not_mem_of_mem_splitOn hs

/-- A path without dot segments is resolved. -/
theorem removeDots_eq_self {t : Text} (h : ∀ s ∈ t.splitOn '/', ¬ IsDot s) :
    removeDots ('/' :: t) = '/' :: t := by
  rw [removeDots, resolveAfter_eq_append h, List.reverse_nil, List.nil_append, Text.join,
    List.intercalate_splitOn]

/-! ## Segments -/

theorem segments_cons_slash (t : Text) : segments ('/' :: t) = segments t := by
  rw [segments, segments, List.splitOn_cons_eq_if_modifyHead, if_pos (beq_self_eq_true _)]
  simp

theorem segments_join {ts : List Text} (h : ∀ t ∈ ts, '/' ∉ t) :
    segments (Text.join '/' ts) = ts.filter (· ≠ []) := by
  by_cases hne : ts = []
  · subst hne
    rfl
  · rw [segments, Text.join, List.splitOn_intercalate '/' h hne]

theorem slash_not_mem_escape {s : Text} (h : '/' ∉ s) : '/' ∉ escape s := by
  intro hc
  obtain ⟨c, hs, hc⟩ := List.mem_flatMap.1 hc
  unfold Text.Percent.encodeChar at hc
  split at hc
  · rw [List.mem_singleton.1 hc] at h
    exact h hs
  · obtain ⟨b, -, hb⟩ := List.mem_flatMap.1 hc
    refine Text.Percent.forall_mem_escape (P := (· ≠ '/')) (by decide) ?_ b '/' hb rfl
    decide

theorem splitOn_escape (path : Text) :
    (escape path).splitOn '/' = (path.splitOn '/').map escape := by
  have hsafe : isPathSafe '/' = true := by decide
  have hjoin : escape path = Text.join '/' ((path.splitOn '/').map escape) := by
    have h := Text.Percent.encode_join hsafe (path.splitOn '/')
    rwa [Text.join, List.intercalate_splitOn] at h
  have hslash : ∀ s ∈ (path.splitOn '/').map escape, '/' ∉ s := by
    intro s hs
    obtain ⟨x, hx, rfl⟩ := List.mem_map.1 hs
    exact slash_not_mem_escape (Text.not_mem_of_mem_splitOn hx)
  rw [hjoin, Text.join, List.splitOn_intercalate '/' hslash (by simp [List.splitOn_ne_nil])]

theorem segments_escape (path : Text) : segments (escape path) = (segments path).map escape := by
  rw [segments, splitOn_escape, segments, List.filter_map]
  congr 1
  refine List.filter_congr fun s _ => ?_
  by_cases hs : s = []
  · subst hs
    rfl
  · have := Text.Percent.encode_ne_nil isPathSafe hs
    simp [hs, escape, this]

theorem isDot_of_isDot_encode {safe : Char → Bool} {s : Text}
    (h : IsDot (Text.Percent.encode safe s)) : IsDot s := by
  have hpercent : '%' ∉ Text.Percent.encode safe s :=
    fun hm => not_isDot_of_mem (by decide) hm h
  rwa [Text.Percent.encode_eq_self_of_not_mem hpercent] at h

/-- Resolving and escaping a rooted path leaves no dot segment. -/
theorem not_isDot_of_mem_segments (t : Text) :
    ∀ s ∈ segments (escape (removeDots ('/' :: t))), ¬ IsDot s := by
  intro s hs
  rw [segments_escape, removeDots, segments_cons_slash,
    segments_join (slash_not_mem_resolveAfter t)] at hs
  obtain ⟨x, hx, rfl⟩ := List.mem_map.1 hs
  exact fun h => not_isDot_of_mem_resolveAfter x (List.mem_filter.1 hx).1
    (isDot_of_isDot_encode h)

theorem not_isDot_of_mem_splitOn {t x : Text} (hx : escape (removeDots ('/' :: t)) = '/' :: x) :
    ∀ s ∈ x.splitOn '/', ¬ IsDot s := by
  have hdots := not_isDot_of_mem_segments t
  rw [hx, segments_cons_slash] at hdots
  intro s hs
  by_cases hnil : s = []
  · rw [hnil]
    exact not_isDot_nil
  · exact hdots s (List.mem_filter.2 ⟨hs, by simpa using hnil⟩)

/-- A rooted path that was resolved and escaped stays as it is. -/
theorem escape_removeDots_idem (t : Text) :
    escape (removeDots (escape (removeDots ('/' :: t)))) = escape (removeDots ('/' :: t)) := by
  have hroot : ∃ x, escape (removeDots ('/' :: t)) = '/' :: x := ⟨_, rfl⟩
  have hsafe := isPathSafe_of_mem_escape (removeDots ('/' :: t))
  obtain ⟨x, hx⟩ := hroot
  have hkeep := not_isDot_of_mem_splitOn hx
  rw [hx] at hsafe ⊢
  rw [removeDots_eq_self hkeep]
  exact Text.Percent.encode_eq_self hsafe

/-! ## Plain segments -/

/-- A segment that stands in a path as it is. -/
structure Plain (s : Text) : Prop where
  ne_nil : s ≠ []
  safe : ∀ c ∈ s, isPathSafe c = true ∧ c ≠ '/'
  not_isDot : ¬ IsDot s

theorem Plain.slash_not_mem {s : Text} (h : Plain s) : '/' ∉ s := fun hc => (h.safe '/' hc).2 rfl

theorem plain_encode {v : Text} (hne : v ≠ []) (hdot : ¬ IsDot v) : Plain (Segment.encode v) where
  ne_nil := Text.Percent.encode_ne_nil isSegmentSafe hne
  safe := Segment.safe_of_mem_encode v
  not_isDot := fun h => hdot (isDot_of_isDot_encode h)

theorem normalForm_cons_slash (t : Text) : normalForm ('/' :: t) = '/' :: normalForm t := by
  have hnil : Segment.normalForm [] = [] := rfl
  obtain ⟨s, rest, h⟩ := List.exists_cons_of_ne_nil (List.splitOn_ne_nil '/' t)
  rw [normalForm, List.splitOn_cons_eq_if_modifyHead, if_pos (beq_self_eq_true _), normalForm, h,
    List.map_cons, List.map_cons, hnil, Text.join, List.intercalate_cons_cons]
  rfl

theorem normalForm_join_of_slash_not_mem {ts : List Text} (h : ∀ t ∈ ts, '/' ∉ t) :
    normalForm ('/' :: Text.join '/' ts) = '/' :: Text.join '/' (ts.map Segment.normalForm) := by
  rw [normalForm_cons_slash]
  by_cases hne : ts = []
  · subst hne
    rfl
  · rw [normalForm, Text.join, List.splitOn_intercalate '/' h hne]

section

variable {ts : List Text} (hplain : ∀ t ∈ ts, Plain t)
include hplain

theorem mem_of_mem_splitOn_join {s : Text} (h : s ∈ (Text.join '/' ts).splitOn '/') :
    s ∈ ts ∨ ts = [] ∧ s = [] := by
  by_cases hne : ts = []
  · subst hne
    exact .inr ⟨rfl, by simpa using h⟩
  · rw [Text.join, List.splitOn_intercalate '/' (fun t ht => (hplain t ht).slash_not_mem) hne] at h
    exact .inl h

theorem normalForm_join :
    normalForm ('/' :: Text.join '/' ts) = '/' :: Text.join '/' (ts.map Segment.normalForm) :=
  normalForm_join_of_slash_not_mem fun t ht => (hplain t ht).slash_not_mem

theorem head?_join : (Text.join '/' ts).head? ≠ some '/' := by
  intro h
  obtain ⟨t, ht⟩ := List.head?_eq_some_iff.1 h
  have hempty : [] ∈ (Text.join '/' ts).splitOn '/' := by
    rw [ht, List.splitOn_cons_eq_if_modifyHead, if_pos (beq_self_eq_true _)]
    exact List.mem_cons_self
  rcases mem_of_mem_splitOn_join hplain hempty with hm | ⟨rfl, -⟩
  · exact (hplain [] hm).ne_nil rfl
  · cases ht

end

end Path

namespace Url

/-! ## A URL without a scheme -/

theorem pathOf_of_relative {r : Reference} (h : r.scheme = []) : ∃ t, pathOf r = '/' :: t := by
  unfold pathOf
  by_cases hp : r.path.head? = some '/'
  · obtain ⟨t, ht⟩ := List.head?_eq_some_iff.1 hp
    refine ⟨t, ?_⟩
    rw [if_neg (fun h => h.2 hp), ht]
    simp
  · exact ⟨r.path, if_pos ⟨h, hp⟩⟩

/-- The path of a URL without a scheme is resolved from the root. -/
theorem plain_of_mem_segments {t : Text} {u : Url} (h : parse t = .ok u)
    (hs : hasScheme t = false) : ∀ s ∈ Path.segments u.pathname, Path.Plain s := by
  have hsafe := isPathSafe_of_mem_pathname h
  obtain ⟨r, hr, hpath⟩ := pathname_of_parse h
  have hscheme : r.scheme = [] := by simpa [hasScheme, hr] using hs
  obtain ⟨p, hp⟩ := pathOf_of_relative hscheme
  intro s hs
  refine ⟨Path.ne_nil_of_mem_segments hs, fun c hc => ⟨?_, ?_⟩, ?_⟩
  · exact Path.safe_of_mem_segments hsafe hs c hc
  · intro he
    subst he
    exact Path.slash_not_mem_of_mem_segments hs hc
  · rw [hpath, hp] at hs
    exact Path.not_isDot_of_mem_segments p s hs

/-! ## Reading a rooted path -/

theorem space_lt_of_isPathSafe {c : Char} (h : isPathSafe c = true) : ¬ c ≤ ' ' := by
  intro hc
  have hn : c.toNat ≤ 32 := hc
  have low : ∀ n ≤ 32, isPathSafe (Char.ofNat n) = false := by decide
  have := low c.toNat hn
  rw [Char.ofNat_toNat, h] at this
  cases this

theorem not_isSkipped_of_isPathSafe {c : Char} (h : isPathSafe c = true) :
    isSkipped c = false := by
  have hc := space_lt_of_isPathSafe h
  simp only [isSkipped, Bool.or_eq_false_iff, decide_eq_false_iff_not]
  refine ⟨⟨?_, ?_⟩, ?_⟩
  · intro he
    subst he
    exact hc (by decide)
  · intro he
    subst he
    exact hc (by decide)
  · intro he
    subst he
    exact hc (by decide)

theorem clean_eq_self {t : Text} (h : ∀ c ∈ t, isPathSafe c = true) : clean t = t := by
  have hdrop : t.dropWhile (· ≤ ' ') = t := by
    cases t with
    | nil => rfl
    | cons c t =>
      have hc := space_lt_of_isPathSafe (h c List.mem_cons_self)
      exact List.dropWhile_cons_of_neg (by simpa using hc)
  rw [clean, hdrop, List.filter_eq_self]
  intro c hc
  rw [not_isSkipped_of_isPathSafe (h c hc)]
  rfl

theorem cutScheme_rooted (t : Text) : cutScheme ('/' :: t) = ([], '/' :: t) := by
  unfold cutScheme
  split
  · rename_i scheme rest hcut
    -- a scheme starts with a letter, and what stands before the first colon with the slash
    have hscheme : isScheme scheme = false := by
      obtain ⟨-, h⟩ := Text.cut_eq_some_iff.1 hcut
      cases scheme with
      | nil => cases h
      | cons c scheme =>
        obtain ⟨rfl, -⟩ := List.cons.inj h
        rfl
    rw [hscheme]
    rfl
  · rfl

theorem cutAuthority_rooted {t : Text} (h : t.head? ≠ some '/') :
    cutAuthority ('/' :: t) = ([], '/' :: t) := by
  unfold cutAuthority
  split
  · rename_i rest heq
    obtain rfl := (List.cons.inj heq).2
    exact absurd rfl h
  · rfl

theorem ofText_rooted {t : Text} (hsafe : ∀ c ∈ t, isPathSafe c = true)
    (hslash : t.head? ≠ some '/') :
    Reference.ofText ('/' :: t) = .ok ⟨[], [], '/' :: t, [], []⟩ := by
  have hsafe : ∀ c ∈ '/' :: t, isPathSafe c = true :=
    List.forall_mem_cons.2 ⟨by decide, hsafe⟩
  have free {d : Char} (hd : isPathSafe d = false) : d ∉ '/' :: t := fun h => by
    rw [hsafe d h] at hd
    cases hd
  have hvalid : Authority.validate [] = .ok () := rfl
  have hfragment : '#' ∉ '/' :: t := free (by decide)
  have hquery : '?' ∉ '/' :: t := free (by decide)
  simp only [Reference.ofText, clean_eq_self hsafe, cutScheme_rooted, cutAuthority_rooted hslash,
    hvalid, Text.cut_none hfragment, Text.cut_none hquery]
  rfl

/-- **Plain segments after a slash are read as the path that they form.** -/
theorem parse_rooted {ts : List Text} (h : ∀ t ∈ ts, Path.Plain t) :
    parse ('/' :: Text.join '/' ts) =
      .ok ⟨"http", [], [], "localhost", none, true, '/' :: Text.join '/' ts, [], []⟩ := by
  have hsafe : ∀ c ∈ Text.join '/' ts, isPathSafe c = true :=
    Text.forall_mem_join (by decide) fun t ht c hc => ((h t ht).safe c hc).1
  have hslash := Path.head?_join h
  have hdot : ∀ s ∈ (Text.join '/' ts).splitOn '/', ¬ Path.IsDot s := by
    intro s hs
    rcases Path.mem_of_mem_splitOn_join h hs with hs | ⟨-, rfl⟩
    · exact (h s hs).not_isDot
    · exact Path.not_isDot_nil
  generalize Text.join '/' ts = t at hsafe hslash hdot ⊢
  have hpath : Path.escape ('/' :: t) = '/' :: t :=
    Text.Percent.encode_eq_self (List.forall_mem_cons.2 ⟨by decide, hsafe⟩)
  have hauthority : authorityOf ('/' :: t) ⟨[], [], '/' :: t, [], []⟩ = "localhost".toList := by
    refine if_pos ⟨rfl, ?_⟩
    intro h
    obtain ⟨rest, h⟩ := h
    exact hslash (by rw [← (List.cons.inj h).2]; rfl)
  have hpathOf : pathOf ⟨[], [], '/' :: t, [], []⟩ = '/' :: t := by simp [pathOf]
  have hparts : Authority.ofText "localhost" = ⟨[], [], "localhost", []⟩ := rfl
  have hport : Authority.portNumber ⟨[], [], "localhost", []⟩ = .ok none := rfl
  simp only [parse, ofText_rooted hsafe hslash, bind, Except.bind, hauthority, hparts, hport,
    hpathOf, Path.removeDots_eq_self hdot, hpath]
  rfl

end Url

end UrlRouting
