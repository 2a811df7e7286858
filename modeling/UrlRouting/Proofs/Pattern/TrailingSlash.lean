import UrlRouting.Proofs.Pattern.Alike
import UrlRouting.Proofs.Pattern.Blocks
import UrlRouting.Proofs.Url.Rooted

/-!
# A slash at the end of a path

A path and the same path with a slash after it are read alike. The slash is either what the
expression allows at its end or the end of the block of a last `**`, and that block is not
captured.

* `Token.ways_slash`: a token other than `**` reads the same blocks before a slash.
* `ways_segments_slash`: a `**` can read one block more, the whole text.
* `captures?_ofTokens_slash`: **no expression tells the two paths apart**.
* `alike_of_trailing_slash`: **a trailing slash is insignificant** for a pattern.
-/

namespace UrlRouting

namespace Path

theorem normalForm_append_slash (x y : Text) :
    normalForm (x ++ '/' :: y) = normalForm x ++ '/' :: normalForm y := by
  have hx : (x.splitOn '/').map Segment.normalForm ≠ [] := by
    simp [List.splitOn_ne_nil]
  have hy : (y.splitOn '/').map Segment.normalForm ≠ [] := by
    simp [List.splitOn_ne_nil]
  rw [normalForm, List.splitOn_append_cons_self, List.map_append, Text.join_append hx hy]
  rfl

theorem normalForm_of_slash_not_mem {s : Text} (h : '/' ∉ s) :
    normalForm s = Segment.normalForm s := by
  rw [normalForm, List.splitOn_eq_singleton h]
  simp [Text.join]

/-- A path that does not end in a slash has a normal form that does not. -/
theorem getLast?_normalForm {path : Text} (h : path.getLast? ≠ some '/') :
    (normalForm path).getLast? ≠ some '/' := by
  by_cases hs : '/' ∈ path
  · obtain ⟨x, y, rfl, hy⟩ := Text.exists_last_cut hs
    have hne : y ≠ [] := by
      rintro rfl
      exact h List.getLast?_concat
    rw [normalForm_append_slash, normalForm_of_slash_not_mem hy, List.append_cons]
    exact Text.getLast?_append_ne (Segment.normalForm_ne_nil hne)
      (Segment.slash_not_mem_normalForm hy)
  · rw [normalForm_of_slash_not_mem hs]
    intro hlast
    exact Segment.slash_not_mem_normalForm hs (List.mem_of_getLast? hlast)

end Path

namespace Pattern

/-! ## Ways before a slash -/

/-- A way to read the start of a text, with a slash after the text. -/
def slashed (w : Text × Text) : Text × Text := (w.1, w.2 ++ ['/'])

theorem isPrefixOf?_slash {w : Text} (hw : '/' ∉ w) (t : Text) :
    w.isPrefixOf? (t ++ ['/']) = (w.isPrefixOf? t).map (· ++ ['/']) := by
  induction w generalizing t with
  | nil => rfl
  | cons a w ih =>
    obtain ⟨ha, hw⟩ := List.ne_and_not_mem_of_not_mem_cons hw
    cases t with
    | nil => simp [List.isPrefixOf?, Ne.symm ha]
    | cons c t =>
      rw [List.cons_append, List.isPrefixOf?, List.isPrefixOf?, ih hw]
      split
      · rfl
      · rfl

theorem wordWays_slash {words : List Text} (h : ∀ w ∈ words, '/' ∉ w) (t : Text) :
    wordWays words (t ++ ['/']) = (wordWays words t).map slashed := by
  rw [wordWays, wordWays, List.map_filterMap]
  refine List.filterMap_congr fun w hw => ?_
  rw [isPrefixOf?_slash (h w hw)]
  cases w.isPrefixOf? t with
  | none => rfl
  | some rest => rfl

theorem runWays_slash {allowed : Char → Bool} (h : allowed '/' = false) (t : Text) :
    runWays allowed (t ++ ['/']) = (runWays allowed t).map slashed := by
  induction t with
  | nil => simp [runWays, h]
  | cons c t ih =>
    rw [List.cons_append, runWays, runWays, ih]
    split
    · simp [slashed]
    · rfl

/-- A run that may hold a slash can take the whole text. -/
theorem runWays_slash_of_forall {allowed : Char → Bool} {t : Text} (hslash : allowed '/' = true)
    (h : ∀ c ∈ t, allowed c = true) :
    runWays allowed (t ++ ['/']) = (t ++ ['/'], []) :: (runWays allowed t).map slashed := by
  induction t with
  | nil => simp [runWays, hslash]
  | cons c t ih =>
    rw [List.forall_mem_cons] at h
    rw [List.cons_append, runWays, runWays, ih h.2, if_pos h.1, if_pos h.1]
    simp [slashed]

theorem runWays_first {allowed : Char → Bool} {t : Text} (h : ∀ c ∈ t, allowed c = true)
    (hne : t ≠ []) : ∃ ws, runWays allowed t = (t, []) :: ws := by
  induction t with
  | nil => exact absurd rfl hne
  | cons c t ih =>
    rw [List.forall_mem_cons] at h
    rw [runWays, if_pos h.1]
    by_cases ht : t = []
    · subst ht
      exact ⟨[], rfl⟩
    · obtain ⟨ws, hws⟩ := ih h.2 ht
      rw [hws]
      exact ⟨_, rfl⟩

theorem Token.ways_slash {t : Token} (hone : t.OneSegment) (hne : t ≠ .anySegments) (q : Text) :
    t.item.ways (q ++ ['/']) = (t.item.ways q).map slashed := by
  have encoded (alternatives : List Text) : ∀ w ∈ alternatives.map Segment.encode, '/' ∉ w := by
    intro w hw
    obtain ⟨a, -, rfl⟩ := List.mem_map.1 hw
    exact Segment.slash_not_mem_encode a
  cases t with
  | literal segment =>
    refine wordWays_slash (fun w hw => ?_) q
    rw [List.mem_singleton.1 hw]
    exact hone segment rfl
  | union alternatives | choice name alternatives => exact wordWays_slash (encoded alternatives) q
  | capture name | anySegment => exact runWays_slash (by decide) q
  | anySegments => exact absurd rfl hne

section

variable {q : Text} (hq : '\n' ∉ q)
include hq

theorem ne_newline_of_mem : ∀ c ∈ q, decide (c ≠ '\n') = true :=
  fun _ hc => decide_eq_true fun he => hq (he ▸ hc)

theorem ways_segments_slash :
    Item.segments.ways (q ++ ['/']) = (q ++ ['/'], []) :: (Item.segments.ways q).map slashed :=
  runWays_slash_of_forall (by decide) (ne_newline_of_mem hq)

/-- The first thing that a `**` tries is to take all that is left. -/
theorem ways_segments_first (hne : q ≠ []) : ∃ ws, Item.segments.ways q = (q, []) :: ws :=
  runWays_first (ne_newline_of_mem hq) hne

end

/-! ## The expression of some tokens -/

theorem findSome?_congr {α β : Type} {f g : α → Option β} {l : List α} (h : ∀ a ∈ l, f a = g a) :
    l.findSome? f = l.findSome? g := by
  induction l with
  | nil => rfl
  | cons a l ih =>
    rw [List.forall_mem_cons] at h
    rw [List.findSome?_cons, List.findSome?_cons, h.1, ih h.2]

/-- A token of a pattern reads no empty block. -/
theorem Token.Spells.block_ne_nil {s b : Text} {t : Token} (h : Token.Spells s t) (hs : s ≠ [])
    (hb : t.Reads b) : b ≠ [] := by
  cases h with
  | literal =>
    rw [hb]
    exact Segment.normalForm_ne_nil hs
  | union _ _ hempty | choice _ _ _ _ hempty =>
    obtain ⟨a, ha, rfl⟩ := hb
    exact Text.Percent.encode_ne_nil isSegmentSafe fun h => hempty (h ▸ ha)
  | capture | anySegment => exact hb.1
  | anySegments => exact hb

theorem Token.block_ne_nil_of_spells {segments : List Text} {tokens : List Token}
    (h : List.Forall₂ Token.Spells segments tokens) (hne : ∀ s ∈ segments, s ≠ []) :
    ∀ t ∈ tokens, ∀ b, t.Reads b → b ≠ [] := by
  intro t ht b
  obtain ⟨s, hs, hst⟩ := exists_of_forall₂ h t ht
  exact hst.block_ne_nil (hne s hs)

theorem captures?_ofTokens_cons_eq_none {t : Token} {ts : List Token} {path : Text}
    (h : path.head? ≠ some '/') : (Expression.ofTokens (t :: ts)).captures? path = none := by
  cases hc : (Expression.ofTokens (t :: ts)).captures? path with
  | none => rfl
  | some caps =>
    obtain ⟨q, rfl⟩ := slash_of_captures?_ofTokens_cons hc
    exact absurd rfl h

/-- A slash alone is read by no token. -/
theorem captures?_ofTokens_cons_slash {t : Token} {ts : List Token}
    (hne : ∀ b, t.Reads b → b ≠ []) : (Expression.ofTokens (t :: ts)).captures? ['/'] = none := by
  have hways : t.item.ways [] = [] := by
    refine List.eq_nil_iff_forall_not_mem.2 fun w hw => ?_
    obtain ⟨hb, he⟩ := (t.mem_ways_iff (by simp)).1 hw
    exact hne _ hb (List.append_eq_nil_iff.1 he.symm).1
  rw [captures?_ofTokens_cons, hways]
  rfl

/-- **A path and the path with a slash after it are read alike.** -/
theorem captures?_ofTokens_slash {tokens : List Token} {path : Text}
    (hone : ∀ t ∈ tokens, t.OneSegment) (hne : ∀ t ∈ tokens, ∀ b, t.Reads b → b ≠ [])
    (hq : '\n' ∉ path) (hend : path.getLast? ≠ some '/') :
    (Expression.ofTokens tokens).captures? (path ++ ['/']) =
      (Expression.ofTokens tokens).captures? path := by
  induction tokens generalizing path with
  | nil =>
    have hslash : path ≠ ['/'] := by
      rintro rfl
      exact hend rfl
    simp [captures?_ofTokens_nil, hslash]
  | cons t ts ih =>
    rw [List.forall_mem_cons] at hone hne
    cases path with
    | nil =>
      rw [List.nil_append, captures?_ofTokens_cons_slash hne.1,
        captures?_ofTokens_cons_eq_none (by simp)]
    | cons c q =>
      by_cases hc : c = '/'
      · subst hc
        have hq : '\n' ∉ q := List.not_mem_of_not_mem_cons hq
        -- what is left after a block ends as the path does
        have hrest : ∀ w ∈ t.item.ways q,
            ((Expression.ofTokens ts).captures? (slashed w).2).map
                (record t.item.captured (slashed w).1) =
              ((Expression.ofTokens ts).captures? w.2).map (record t.item.captured w.1) := by
          intro w hw
          obtain ⟨-, rfl⟩ := (t.mem_ways_iff hq).1 hw
          rw [slashed, ih hone.2 hne.2 (fun h => hq (List.mem_append_right _ h))
            (getLast?_ne_of_append (a := '/' :: w.1) hend)]
        have hfirst := findSome?_congr hrest
        rw [List.cons_append, captures?_ofTokens_cons, captures?_ofTokens_cons]
        by_cases ht : t = .anySegments
        · subst ht
          rw [Token.item, ways_segments_slash hq, List.findSome?_cons, List.findSome?_map]
          cases ts with
          | nil =>
            -- the `**` takes all that is left, with or without the slash
            have hne : q ≠ [] := by
              rintro rfl
              exact hend rfl
            obtain ⟨ws, hws⟩ := ways_segments_first hq hne
            rw [hws, List.findSome?_cons, captures?_ofTokens_nil]
            rfl
          | cons t' ts =>
            rw [captures?_ofTokens_cons_eq_none (by simp)]
            exact hfirst
        · rw [Token.ways_slash hone.1 ht, List.findSome?_map]
          exact hfirst
      · rw [List.cons_append, captures?_ofTokens_cons_eq_none (by simpa using hc),
          captures?_ofTokens_cons_eq_none (by simpa using hc)]

/-! ## Matching -/

/-- **A trailing slash is insignificant.** -/
theorem alike_of_trailing_slash {source s t : Text} {p : Pattern} {u v : Url}
    (hp : compile source = .ok p) (hu : Url.parse s = .ok u) (hv : Url.parse t = .ok v)
    (horigin : u.origin = v.origin) (hsearch : u.search = v.search)
    (hend : u.pathname.getLast? ≠ some '/') (hpath : v.pathname = u.pathname ++ ['/']) :
    p.Alike s t := by
  obtain ⟨w, -, ht, -⟩ := parts_of_compile hp
  have hspells := Token.ofPath_eq_ok_iff.1 ht
  have hone := Token.oneSegment_of_spells hspells
  have hne : ∀ t ∈ p.tokens, ∀ b, t.Reads b → b ≠ [] :=
    Token.block_ne_nil_of_spells hspells fun s => Path.ne_nil_of_mem_segments
  have hq := Path.newline_not_mem_normalForm (Url.isPathSafe_of_mem_pathname hu)
  have hnormal : Path.normalForm v.pathname = Path.normalForm u.pathname ++ ['/'] := by
    rw [hpath, Path.normalForm_append_slash]
    rfl
  refine alike_of_urls hu hv horigin (Url.query_eq_of_search_eq hsearch) ?_
  rw [hnormal]
  exact (captures?_ofTokens_slash hone hne hq (Path.getLast?_normalForm hend)).symm

/-- The slash after `b` ends the block of the second `**`. -/
theorem alike_of_trailing_slash_between_runs :
    ∃ p u v, compile "/**/:id/**?q".toList = .ok p ∧
      Url.parse "/a/x/../%2f/b?q=1".toList = .ok u ∧
      Url.parse "http://localhost:80/a/%2f/b/?q=1".toList = .ok v ∧
      u.origin = v.origin ∧ u.search = v.search ∧ u.pathname = "/a/%2f/b".toList ∧
      v.pathname = "/a/%2f/b/".toList ∧
      p.Alike "/a/x/../%2f/b?q=1" "http://localhost:80/a/%2f/b/?q=1" ∧
      ∃ m, p.match? "/a/x/../%2f/b?q=1" = some m ∧ m.params.entries = [("id".toList, ['/'])] := by
  have hp : compile "/**/:id/**?q".toList = .ok ⟨"/**/:id/**?q",
      [.anySegments, .capture "id", .anySegments], [⟨"q", false, []⟩], none⟩ := by
    decide +kernel
  have hu : Url.parse "/a/x/../%2f/b?q=1".toList =
      .ok ⟨"http", [], [], "localhost", none, true, "/a/%2f/b", "q=1", []⟩ := rfl
  have hv : Url.parse "http://localhost:80/a/%2f/b/?q=1".toList =
      .ok ⟨"http", [], [], "localhost", none, true, "/a/%2f/b/", "q=1", []⟩ := rfl
  have hm : (Pattern.match? ⟨"/**/:id/**?q", [.anySegments, .capture "id", .anySegments],
      [⟨"q", false, []⟩], none⟩ "/a/x/../%2f/b?q=1").map (fun m => m.params.entries) =
      some [("id".toList, ['/'])] := by decide +kernel
  exact ⟨_, _, _, hp, hu, hv, rfl, rfl, rfl, rfl,
    alike_of_trailing_slash hp hu hv rfl rfl (by decide) rfl, Option.map_eq_some_iff.1 hm⟩

end Pattern

end UrlRouting
