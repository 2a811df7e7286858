import UrlRouting.Proofs.Url.Href
import UrlRouting.Proofs.Url.Spelling

/-!
# URLs without a host

A URL without a host can still have an authority, of a user or of a port, or an empty one. Whether
`//` is written depends on the scheme and on the authority, but not on the path. What is written
is therefore read back only if the path ends what stands in front of it.

* `writable_of_hostless`: without a host there are no brackets, and an authority can be written
  and read back.
* `PathDelimited`: the path starts where the authority ends, or does not look like one.
* `reread_of_pathDelimited`: such a URL is read back without a host and with the same path.
* `pathDelimited_of_reread`: no other URL is.
* `reread_iff_pathDelimited`: **a URL without a host is read back if and only if its path is
  delimited**.
* `reread_path_as_authority`: in the other case the path can be taken for an authority.
-/

namespace UrlRouting

namespace Path

/-! ## Paths that were resolved -/

theorem head?_of_head?_escape {path : Text} (h : (escape path).head? = some '/') :
    path.head? = some '/' := by
  obtain ⟨r, hr⟩ := List.head?_eq_some_iff.1 h
  obtain ⟨t, rfl, -⟩ := Text.Percent.cons_of_encode hr (by decide)
  rfl

theorem removeDots_ne_nil {path : Text} (h : path ≠ []) : removeDots path ≠ [] := by
  unfold removeDots
  split
  · exact List.cons_ne_nil _ _
  · exact h

theorem escape_removeDots_fixed (path : Text) :
    escape (removeDots (escape (removeDots path))) = escape (removeDots path) := by
  by_cases h : path.head? = some '/'
  · obtain ⟨t, rfl⟩ := List.head?_eq_some_iff.1 h
    exact escape_removeDots_idem t
  · rw [removeDots_of_head h, removeDots_of_head fun he => h (head?_of_head?_escape he)]
    exact Text.Percent.encode_eq_self (isPathSafe_of_mem_escape path)

theorem fixed_of_fixed_append {x y : Text}
    (h : escape (removeDots ('/' :: (x ++ '/' :: y))) = '/' :: (x ++ '/' :: y)) :
    escape (removeDots ('/' :: y)) = '/' :: y := by
  have hdots := not_isDot_of_mem_splitOn h
  have hsafe := isPathSafe_of_mem_escape (removeDots ('/' :: (x ++ '/' :: y)))
  rw [h] at hsafe
  rw [List.splitOn_append_cons_self] at hdots
  rw [removeDots_eq_self fun s hs => hdots s (List.mem_append_right _ hs)]
  apply Text.Percent.encode_eq_self
  intro c hc
  exact hsafe c (List.mem_cons_of_mem _ (List.mem_append_right _ hc))

end Path

namespace Url

open Text (isAscii)

/-- The path of a URL starts where its authority ends, or is not taken for an authority. -/
def PathDelimited (u : Url) : Prop :=
  if u.hasAuthority then u.pathname = [] ∨ u.pathname.head? = some '/'
  else ¬ ['/', '/'] <+: u.pathname

instance (u : Url) : Decidable u.PathDelimited := by
  unfold PathDelimited
  infer_instance

theorem pathOf_eq_path {r : Reference} (hs : r.scheme ≠ [])
    (hpath : isSpecial r.scheme = true → r.path ≠ []) : pathOf r = r.path := by
  have hscheme : schemeOf r = r.scheme := if_neg hs
  unfold pathOf
  rw [if_neg fun hno => hs hno.1, hscheme]
  exact if_neg fun hno => hpath hno.1 hno.2

section

variable {t : Text} {u : Url} (h : parse t = .ok u)
include h

/-! ## What reading leaves -/

theorem escape_removeDots_pathname : Path.escape (Path.removeDots u.pathname) = u.pathname := by
  obtain ⟨r, -, hr⟩ := pathname_of_parse h
  rw [hr]
  exact Path.escape_removeDots_fixed (pathOf r)

theorem pathname_ne_nil_of_isSpecial (hs : isSpecial u.scheme = true) : u.pathname ≠ [] := by
  obtain ⟨r, port, -, -, rfl⟩ := parse_eq_ok_iff.1 h
  have hpath : pathOf r ≠ [] := by
    unfold pathOf
    split
    · exact List.cons_ne_nil _ _
    · split
      · exact List.cons_ne_nil _ _
      · rename_i hno
        exact fun hnil => hno ⟨hs, hnil⟩
  exact Text.Percent.encode_ne_nil _ (Path.removeDots_ne_nil hpath)

theorem pathOf_reference : pathOf u.reference = u.pathname :=
  pathOf_eq_path (scheme_ne_nil_of_parse h) (pathname_ne_nil_of_isSpecial h)

theorem authority_eq_nil (ha : u.hasAuthority = false) : u.authority = [] := by
  obtain ⟨r, port, -, hport, rfl⟩ := parse_eq_ok_iff.1 h
  have hnone : authorityOf t r = [] := by simpa using (Bool.or_eq_false_iff.1 ha).2
  rw [hnone] at hport
  obtain rfl := Except.ok.inj hport
  have hparts : Authority.ofText [] = ⟨[], [], [], []⟩ := rfl
  simp only [resolved, hnone, hparts, ite_self]
  rfl

theorem writable_of_hostless (hhost : u.hostname = [])
    (hascii : ∀ c ∈ u.username ++ u.password, isAscii c = true) : Writable u := by
  obtain ⟨r, port, hr, -, hu⟩ := parse_eq_ok_iff.1 h
  have hfree : '[' ∉ authorityOf t r ∧ ']' ∉ authorityOf t r := by
    refine not_or.1 fun hm => ?_
    apply Authority.hostname_ne_nil_of_bracket (validate_authorityOf hr) hm
    rw [hu] at hhost
    exact hhost
  apply writable_of_parse h
  rw [hhost, List.append_nil]
  intro c hc
  have hmem : c ∈ authorityOf t r := by
    rw [hu] at hc
    exact Authority.mem_of_mem_user (List.mem_append.1 hc)
  refine ⟨hascii c hc, ?_, ?_⟩
  · rintro rfl
    exact hfree.1 hmem
  · rintro rfl
    exact hfree.2 hmem

/-! ## Reading what was written -/

theorem parts_href_of_pathDelimited (hw : Writable u) (hd : u.PathDelimited) :
    Reference.parts u.href = u.reference := by
  cases ha : u.hasAuthority with
  | true =>
    rw [PathDelimited, if_pos ha] at hd
    refine parts_href_of_path h hw ha (hd.imp_right fun hhead => ?_)
    obtain ⟨p, hp⟩ := List.head?_eq_some_iff.1 hhead
    exact ⟨p, hp⟩
  | false =>
    rw [PathDelimited, if_neg (by simp [ha])] at hd
    obtain ⟨hscheme, hlower, -⟩ := isScheme_of_parse h
    have hhash := (query_and_fragment_of_parse h).1
    have hskip := not_isSkipped_of_mem_href h hw
    rw [href_eq_without_authority ha] at hskip ⊢
    rw [reference, authority_eq_nil h ha]
    exact parts_written_no_authority hscheme hlower hd (path_free_of_parse h) hhash hskip

theorem reread_of_pathDelimited (hw : Writable u) (hd : u.PathDelimited) :
    ∃ v, parse u.href = .ok v ∧ v.hostname = u.hostname ∧ v.pathname = u.pathname := by
  have hr : Reference.ofText u.href = .ok u.reference :=
    Reference.ofText_eq_ok_iff.2 ⟨hw.validate_authority,
      (parts_href_of_pathDelimited h hw hd).symm⟩
  have hauthority := authorityOf_reference_of_scheme (scheme_ne_nil_of_parse h) u.href
  have hport : (Authority.ofText (authorityOf u.href u.reference)).portNumber = .ok u.port := by
    rw [hauthority]
    exact hw.portNumber_authority
  refine ⟨_, parse_eq_ok_iff.2 ⟨u.reference, u.port, hr, hport, rfl⟩, ?_, ?_⟩
  · simp only [resolved, hauthority, hw.ofText_authority]
  · simp only [resolved, pathOf_reference h, escape_removeDots_pathname h]

/-- Behind two slashes, a path that is read back is empty or starts with a slash. -/
theorem pathname_head_of_reread {v : Url} (hw : Writable u) (ha : u.hasAuthority = true)
    (hv : parse u.href = .ok v) : v.pathname = [] ∨ v.pathname.head? = some '/' := by
  have hslashes : ['/', '/'] <+: (cutScheme (clean u.href)).2 := by
    obtain ⟨hscheme, -, -⟩ := isScheme_of_parse h
    have hskip := not_isSkipped_of_mem_href h hw
    rw [href_eq ha] at hskip ⊢
    rw [clean_of_scheme hscheme hskip, cutScheme_of_isScheme hscheme]
    exact ⟨_, rfl⟩
  obtain ⟨r, hr, hpath⟩ := pathname_of_parse hv
  obtain rfl := (Reference.ofText_eq_ok_iff.1 hr).2
  have hhead : pathOf (Reference.parts u.href) = [] ∨
      ∃ p, pathOf (Reference.parts u.href) = '/' :: p := by
    unfold pathOf
    split
    · exact .inr ⟨_, rfl⟩
    · split
      · exact .inr ⟨_, rfl⟩
      · exact path_head_of_slashes hslashes
  rw [hpath]
  rcases hhead with hnil | ⟨p, hp⟩
  · rw [hnil]
    exact .inl rfl
  · rw [hp]
    exact .inr rfl

/-- Without an authority, two slashes in front of the path are read as those of an authority. -/
theorem parts_href_of_slashes {a path : Text} (hw : Writable u) (ha : u.hasAuthority = false)
    (hx : ['/', '/'] ++ (a ++ path) = u.pathname) (hfree : '/' ∉ a)
    (hpath : path = [] ∨ ∃ y, path = '/' :: y) :
    Reference.parts u.href = ⟨u.scheme, a, path, u.query, u.fragment⟩ := by
  obtain ⟨hquery, hhash⟩ := path_free_of_parse h
  simp only [← hx, List.mem_append, not_or] at hquery hhash
  have hends : ∀ c ∈ a, endsAuthority c = false := by
    intro c hc
    simp only [endsAuthority, Bool.or_eq_false_iff, decide_eq_false_iff_not]
    refine ⟨⟨?_, ?_⟩, ?_⟩
    · rintro rfl
      exact hfree hc
    · rintro rfl
      exact hquery.2.1 hc
    · rintro rfl
      exact hhash.2.1 hc
  have hhref : u.href = u.scheme ++ ':' :: '/' :: '/' :: (a ++
      (path ++ marked '?' u.query ++ marked '#' u.fragment)) := by
    rw [href_eq_without_authority ha, ← hx]
    simp
  obtain ⟨hscheme, hlower, -⟩ := isScheme_of_parse h
  have hskip := not_isSkipped_of_mem_href h hw
  rw [hhref] at hskip ⊢
  exact parts_written hscheme hlower hends hpath ⟨hquery.2.2, hhash.2.2⟩
    (query_and_fragment_of_parse h).1 hskip

theorem pathname_ne_of_slashes {v : Url} (hw : Writable u) (ha : u.hasAuthority = false)
    (hslashes : ['/', '/'] <+: u.pathname) (hv : parse u.href = .ok v) :
    v.pathname ≠ u.pathname := by
  obtain ⟨x, hx⟩ := hslashes
  obtain ⟨a, path, rfl, hfree, hpath⟩ : ∃ a path : Text, x = a ++ path ∧ '/' ∉ a ∧
      (path = [] ∨ ∃ y, path = '/' :: y) := by
    by_cases hm : '/' ∈ x
    · obtain ⟨a, y, rfl, hfree⟩ := List.eq_append_cons_of_mem hm
      exact ⟨a, '/' :: y, rfl, hfree, .inr ⟨y, rfl⟩⟩
    · exact ⟨x, [], (List.append_nil x).symm, hm, .inl rfl⟩
  have hkeep : Path.escape (Path.removeDots path) = path := by
    rcases hpath with rfl | ⟨y, rfl⟩
    · rfl
    · have hfixed := escape_removeDots_pathname h
      rw [← hx] at hfixed
      exact Path.fixed_of_fixed_append (x := '/' :: a) hfixed
  have hpathOf : pathOf (Reference.parts u.href) = path := by
    rw [parts_href_of_slashes h hw ha hx hfree hpath]
    apply pathOf_eq_path (scheme_ne_nil_of_parse h)
    intro hs
    rw [hasAuthority_of_isSpecial h hs] at ha
    cases ha
  obtain ⟨r, hr, hread⟩ := pathname_of_parse hv
  obtain rfl := (Reference.ofText_eq_ok_iff.1 hr).2
  intro he
  rw [hread, hpathOf, hkeep, ← hx] at he
  have := congrArg List.length he
  simp only [List.length_append, List.length_cons, List.length_nil] at this
  omega

/-- **A URL without a host is read back if and only if its path is delimited.** -/
theorem reread_iff_pathDelimited (hhost : u.hostname = [])
    (hascii : ∀ c ∈ u.username ++ u.password, isAscii c = true) :
    (∃ v, parse u.href = .ok v ∧ v.hostname = [] ∧ v.pathname = u.pathname) ↔
      u.PathDelimited := by
  have hw := writable_of_hostless h hhost hascii
  constructor
  · rintro ⟨v, hv, -, hpath⟩
    cases ha : u.hasAuthority with
    | true =>
      rw [PathDelimited, if_pos ha, ← hpath]
      exact pathname_head_of_reread h hw ha hv
    | false =>
      rw [PathDelimited, if_neg (by simp [ha])]
      exact fun hslashes => pathname_ne_of_slashes h hw ha hslashes hv hpath
  · intro hd
    obtain ⟨v, hv, hname, hpath⟩ := reread_of_pathDelimited h hw hd
    exact ⟨v, hv, hname.trans hhost, hpath⟩

end

/-- An authority of a user and a port, before a path that starts with two slashes. -/
theorem reread_with_user_and_port :
    ∃ u, parse "FOO://u:p@:81//x/../y?q#f".toList = .ok u ∧ u.hostname = [] ∧
      (∀ c ∈ u.username ++ u.password, isAscii c = true) ∧ u.PathDelimited ∧
      u.href = "foo://u:p@:81//y?q#f".toList ∧
      ∃ v, parse u.href = .ok v ∧ v.hostname = [] ∧ v.pathname = u.pathname := by
  have hu : parse "FOO://u:p@:81//x/../y?q#f".toList =
      .ok ⟨"foo", "u", "p", [], some 81, true, "//y", "q", "f"⟩ := rfl
  have hascii : ∀ c ∈ "u".toList ++ "p".toList, isAscii c = true :=
    List.all_iff_forall_prop.1 (by decide)
  exact ⟨_, hu, rfl, hascii, by decide, rfl, (reread_iff_pathDelimited hu rfl hascii).2 (by decide)⟩

/-- A path that starts with two slashes once its dots are removed is taken for an authority. -/
theorem reread_path_as_authority :
    ∃ u, parse "foo:/.//bar".toList = .ok u ∧ u.hostname = [] ∧
      (∀ c ∈ u.username ++ u.password, isAscii c = true) ∧
      u.pathname = "//bar".toList ∧ u.href = "foo://bar".toList ∧
      parse u.href = .ok ⟨"foo", [], [], "bar", none, true, [], [], []⟩ ∧
      ¬ ∃ v, parse u.href = .ok v ∧ v.hostname = [] ∧ v.pathname = u.pathname := by
  have hu : parse "foo:/.//bar".toList =
      .ok ⟨"foo", [], [], [], none, false, "//bar", [], []⟩ := rfl
  have hv : parse "foo://bar".toList =
      .ok ⟨"foo", [], [], "bar", none, true, [], [], []⟩ := rfl
  refine ⟨_, hu, rfl, by simp, rfl, rfl, hv, ?_⟩
  rintro ⟨v, hread, hhost, -⟩
  obtain rfl := Except.ok.inj (hv.symm.trans hread)
  cases hhost

end Url

end UrlRouting
