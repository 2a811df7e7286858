import UrlRouting.Proofs.Url.HostSpelling
import UrlRouting.Proofs.Url.RootedText

/-!
# Resolution against the base

A text without a scheme and without an authority is a path, a query and a fragment at the base. It
is read as it would be with the base written in front, and a slash between them where the path
does not start with one.

* `atBase k`: the URL of `k` behind the base and a slash. `parse_eq_atBase`: what it takes to be
  read as one.
* `parse_behind_slash`, `parse_behind_base`, `parse_unrooted`: texts that are.
* `parse_relative`: **resolving a relative text is writing the base in front**.
-/

namespace UrlRouting.Url

/-- The URL of what counts behind the base and a slash. -/
def atBase (k : Text) : Url := atHost baseScheme baseAuthority ('/' :: k)

theorem parse_eq_atBase {t k : Text} (hscheme : (Reference.parts t).scheme = [])
    (hauthority : (Reference.parts t).authority = []) (hslashes : ¬ ['/', '/'] <+: t)
    (hpath : pathOf (Reference.parts t) = pathBehind ('/' :: k))
    (hquery : (Reference.parts t).query = (Text.cut '?' (Text.cut '#' ('/' :: k)).1).2.getD [])
    (hfragment : (Reference.parts t).fragment = (Text.cut '#' ('/' :: k)).2.getD []) :
    parse t = .ok (atBase k) := by
  have hbase : Authority.ofText (authorityOf t (Reference.parts t)) =
      ⟨[], [], baseAuthority, []⟩ := by
    rw [authorityOf, if_pos ⟨hscheme, hslashes⟩]
    rfl
  exact parse_eq_atHost (by decide) (if_pos hscheme) (by rw [hauthority]; rfl) hbase ⟨rfl, rfl⟩
    (.inl rfl) hpath hquery hfragment

/-! ## With a slash in front -/

theorem parse_behind_slash {w : Text} (hw : (kept w).head? ≠ some '/') :
    parse ('/' :: w) = .ok (atBase (kept w)) := by
  have hcut := cutScheme_behind_slash w
  have hscheme : (Reference.parts ('/' :: w)).scheme = [] := congrArg Prod.fst hcut
  have hauthority : (Reference.parts ('/' :: w)).authority = [] := by
    rw [Reference.parts, hcut, cutAuthority_rooted hw]
  have hafter : afterAuthority ('/' :: w) = [] ++ '/' :: kept w := by
    rw [afterAuthority, hcut, cutAuthority_rooted hw]
    rfl
  have hslashes : ¬ ['/', '/'] <+: '/' :: w := by
    intro h
    obtain ⟨r, hr⟩ := h
    obtain rfl : '/' :: r = w := (List.cons.inj hr).2
    exact hw (congrArg List.head? (kept_cons (by decide) r))
  obtain ⟨hpath, hquery, hfragment⟩ := parts_behind hafter (by simp) (by simp)
  refine parse_eq_atBase hscheme hauthority hslashes ?_ hquery hfragment
  rw [pathOf, hpath]
  simp [pathBehind, Text.cut]

theorem parse_behind_base (w : Text) :
    parse ("http://localhost".toList ++ '/' :: w) = .ok (atBase (kept w)) := by
  have hhost : baseAuthority.all isHostChar = true := by decide
  have hspelled : parse (baseScheme ++ "://".toList ++ (baseAuthority ++ []) ++ '/' :: w) =
      .ok (atHost baseScheme (Text.lower baseAuthority) (kept ('/' :: w))) :=
    parse_spelled (by decide) rfl (List.all_eq_true.1 hhost) rfl .nothing (by simp [endsAuthority])
  rwa [kept_cons (by decide)] at hspelled

/-! ## Without a slash in front -/

theorem clean_eq_kept {s : Text} (h : ∀ c ∈ s.head?, ¬ c ≤ ' ') : clean s = kept s := by
  cases s with
  | nil => rfl
  | cons c s => exact clean_cons_of_not_le (h c rfl) s

theorem head?_kept_of_head? {s : Text} (h : ∀ c ∈ s.head?, ¬ c ≤ ' ') :
    (kept s).head? = s.head? := by
  cases s with
  | nil => rfl
  | cons c s =>
    have hc : isSkipped c = false := by
      cases hskip : isSkipped c with
      | false => rfl
      | true => exact absurd (le_space_of_isSkipped hskip) (h c rfl)
    rw [kept, List.filter_cons_of_pos (by simp [hc])]
    rfl

theorem cutScheme_of_no_scheme {t : Text} (h : (cutScheme t).1 = []) : cutScheme t = ([], t) := by
  rcases cutScheme_cases t with ⟨s, rest, hs, rfl⟩ | hno
  · rw [cutScheme_of_isScheme hs] at h
    obtain rfl := List.map_eq_nil_iff.1 h
    cases hs
  · exact cutScheme_of_not_isScheme hno

/-- A text without a scheme and without a slash in front is read from the root. -/
theorem parse_unrooted {s : Text} (hscheme : (Reference.parts s).scheme = [])
    (hhead : ∀ c ∈ s.head?, c ≠ '/' ∧ ¬ c ≤ ' ') : parse s = .ok (atBase (kept s)) := by
  have hclean := clean_eq_kept fun c hc => (hhead c hc).2
  have hfirst : (kept s).head? ≠ some '/' := by
    rw [head?_kept_of_head? fun c hc => (hhead c hc).2]
    exact fun h => (hhead '/' h).1 rfl
  have hcut : cutScheme (clean s) = ([], kept s) := by
    rw [cutScheme_of_no_scheme hscheme, hclean]
  have hcut' : cutAuthority (kept s) = ([], kept s) := by
    apply cutAuthority_of_not_isPrefix
    rintro ⟨r, hr⟩
    rw [← hr] at hfirst
    exact hfirst rfl
  have hauthority : (Reference.parts s).authority = [] := by
    rw [Reference.parts, hcut, hcut']
  have hafter : afterAuthority s = [] ++ kept s := by
    rw [afterAuthority, hcut, hcut']
    rfl
  have hslashes : ¬ ['/', '/'] <+: s := by
    rintro ⟨r, rfl⟩
    exact (hhead '/' rfl).1 rfl
  obtain ⟨hpath, hquery, hfragment⟩ := parts_behind hafter (by simp) (by simp)
  -- the path starts as the text does, so that the slash in front is put there by reading
  have hrelative : (Reference.parts s).path.head? ≠ some '/' := by
    rw [hpath]
    intro h
    obtain ⟨p, hp⟩ := List.head?_eq_some_iff.1 h
    obtain ⟨r, hr⟩ := (Text.cut_isPrefix '?' _).trans (Text.cut_isPrefix '#' (kept s))
    rw [← hr] at hfirst
    rw [List.nil_append] at hp
    rw [hp] at hfirst
    exact hfirst rfl
  refine parse_eq_atBase hscheme hauthority hslashes ?_ ?_ ?_
  · rw [pathOf, if_pos ⟨hscheme, hrelative⟩, hpath]
    simp [pathBehind, Text.cut]
  · rw [hquery]
    simp [Text.cut]
  · rw [hfragment]
    simp [Text.cut]

/-! ## Relative texts -/

/-- **Resolving a relative text is writing the base in front.** A text that is read, has no scheme
and starts neither with a slash nor with a character that is dropped in front is read as it is
behind a slash, and behind the base and a slash. A text that starts with one slash, not two of
them, is always read, and as it is behind the base. -/
theorem parse_relative :
    (∀ {s : Text} {u : Url}, parse s = .ok u → hasScheme s = false →
      (∀ c ∈ s.head?, c ≠ '/' ∧ ¬ c ≤ ' ') →
        parse ('/' :: s) = .ok u ∧ parse ("http://localhost/".toList ++ s) = .ok u) ∧
    ∀ {s : Text}, s.head? = some '/' → ¬ ['/', '/'] <+: kept s →
      ∃ u, parse s = .ok u ∧ parse ("http://localhost".toList ++ s) = .ok u := by
  constructor
  · intro s u hu hno hhead
    obtain ⟨r, port, hr, -, -⟩ := parse_eq_ok_iff.1 hu
    have hscheme : (Reference.parts s).scheme = [] := by
      obtain rfl := (Reference.ofText_eq_ok_iff.1 hr).2
      simpa [hasScheme, hr] using hno
    have hfirst : (kept s).head? ≠ some '/' := by
      rw [head?_kept_of_head? fun c hc => (hhead c hc).2]
      exact fun h => (hhead '/' h).1 rfl
    obtain rfl := Except.ok.inj (hu.symm.trans (parse_unrooted hscheme hhead))
    exact ⟨parse_behind_slash hfirst, parse_behind_base s⟩
  · intro s hslash hone
    obtain ⟨w, rfl⟩ := List.head?_eq_some_iff.1 hslash
    have hfirst : (kept w).head? ≠ some '/' := by
      intro h
      obtain ⟨r, hr⟩ := List.head?_eq_some_iff.1 h
      rw [kept_cons (by decide), hr] at hone
      exact hone ⟨r, rfl⟩
    exact ⟨_, parse_behind_slash hfirst, parse_behind_base w⟩

/-- A colon that ends no scheme, dot segments, line breaks, and empty segments left in front. -/
theorem parse_relative_colon :
    (∃ u, parse "1:b/..\n//c?/#:".toList = .ok u ∧ hasScheme "1:b/..\n//c?/#:".toList = false ∧
      (∀ c ∈ "1:b/..\n//c?/#:".toList.head?, c ≠ '/' ∧ ¬ c ≤ ' ') ∧
      parse ('/' :: "1:b/..\n//c?/#:".toList) = .ok u ∧
      parse ("http://localhost/".toList ++ "1:b/..\n//c?/#:".toList) = .ok u ∧
      u.pathname = "//c".toList) ∧
    ("/\n.//x".toList.head? = some '/' ∧ ¬ ['/', '/'] <+: kept "/\n.//x".toList ∧
      ∃ u, parse "/\n.//x".toList = .ok u ∧
        parse ("http://localhost".toList ++ "/\n.//x".toList) = .ok u) := by
  have hu : parse "1:b/..\n//c?/#:".toList =
      .ok ⟨"http", [], [], "localhost", none, true, "//c", "/", ":"⟩ := rfl
  have hno : hasScheme "1:b/..\n//c?/#:".toList = false := rfl
  have hhead : ∀ c ∈ "1:b/..\n//c?/#:".toList.head?, c ≠ '/' ∧ ¬ c ≤ ' ' := by
    rintro c ⟨rfl⟩
    decide
  have hone : ¬ ['/', '/'] <+: kept "/\n.//x".toList := by decide
  obtain ⟨hslash, hbase⟩ := parse_relative.1 hu hno hhead
  exact ⟨⟨_, hu, hno, hhead, hslash, hbase, rfl⟩, rfl, hone, parse_relative.2 rfl hone⟩

end UrlRouting.Url
