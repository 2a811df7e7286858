import UrlRouting.Proofs.Pattern.Alike
import UrlRouting.Proofs.Url.BehindPath

/-!
# Matching and what stands behind the path

A text in front of its first `?` or `#` fixes all of a URL but the search and the hash, and fixes
whether there is a URL at all. A match looks at the search only for the fields that it takes, so
that query and fragment change neither whether there is a match nor its parameters.

* `Url.SameButTail u v`: the URLs agree in every part but the search and the hash.
* `params_congr`: parameters depend on the origin and the path of a URL only.
* `tail_confined`: **what stands behind the path stays there**.
-/

namespace UrlRouting

namespace Url

/-- The URLs agree in every part but the search and the hash. -/
structure SameButTail (u v : Url) : Prop where
  protocol : u.protocol = v.protocol
  username : u.username = v.username
  password : u.password = v.password
  host : u.host = v.host
  hostname : u.hostname = v.hostname
  port : u.portText = v.portText
  origin : u.origin = v.origin
  pathname : u.pathname = v.pathname

theorem sameButTail_with (u : Url) (query fragment : Text) :
    SameButTail { u with query, fragment } u :=
  ⟨rfl, rfl, rfl, rfl, rfl, rfl, rfl, rfl⟩

end Url

namespace Pattern

/-- Parameters depend on the origin and the path of a URL only. -/
theorem params_congr (p : Pattern) {u v : Url} (horigin : u.origin = v.origin)
    (hpath : u.pathname = v.pathname) :
    (p.matchUrl? u).map Match.params = (p.matchUrl? v).map Match.params := by
  rw [matchUrl?_congr horigin (by rw [hpath]), Option.map_map]
  rfl

/-- **What stands behind the path stays there.** A query and a fragment are found in the search
and the hash, as far as their characters count; all other parts of the URL, the error if there is
none, and the parameters that a pattern finds are those of the text without them. -/
theorem tail_confined {w q : Text} (hw : Url.PathOnly w) (hq : '#' ∉ q) (f : Text) :
    ((∃ e, Url.parse (w ++ '?' :: (q ++ '#' :: f)) = .error e ∧ Url.parse w = .error e) ∨
      ∃ u v, Url.parse (w ++ '?' :: (q ++ '#' :: f)) = .ok u ∧ Url.parse w = .ok v ∧
        u.SameButTail v ∧ u.search = Url.marked '?' (Url.kept q) ∧
        u.hash = Url.marked '#' (Url.kept f)) ∧
      ∀ p : Pattern, (p.match? (w ++ '?' :: (q ++ '#' :: f))).map Match.params =
        (p.match? w).map Match.params := by
  have hread := Url.parse_append_tail hw hq f
  cases hv : Url.parse w with
  | error e =>
    rw [hv] at hread
    refine ⟨.inl ⟨e, hread, rfl⟩, fun p => ?_⟩
    have hu : Url.parse (w ++ '?' :: (q ++ '#' :: f)) = .error e := hread
    simp only [match?, hu, hv]
  | ok v =>
    rw [hv] at hread
    have hu : Url.parse (w ++ '?' :: (q ++ '#' :: f)) =
      .ok { v with query := Url.kept q, fragment := Url.kept f } := hread
    have hsame := Url.sameButTail_with v (Url.kept q) (Url.kept f)
    refine ⟨.inr ⟨_, v, hu, rfl, hsame, rfl, rfl⟩, fun p => ?_⟩
    simp only [match?, hu, hv]
    exact p.params_congr hsame.origin hsame.pathname

/-- Delimiters behind an authority with a port, and behind a bracket that is not closed. -/
theorem tail_confined_delimiters :
    (Url.PathOnly "http://u@[::1]:81/a".toList ∧ '#' ∉ "?x://[\t:@".toList ∧
      ∃ u, Url.parse ("http://u@[::1]:81/a".toList ++ '?' :: ("?x://[\t:@".toList ++
          '#' :: "#?]".toList)) = .ok u ∧
        u.origin = "http://[::1]:81".toList ∧ u.pathname = "/a".toList ∧
        u.search = "??x://[:@".toList ∧ u.hash = "##?]".toList) ∧
      (Url.PathOnly "//[".toList ∧ '#' ∉ "]".toList ∧
        Url.parse ("//[".toList ++ '?' :: ("]".toList ++ '#' :: "]/".toList)) =
          .error .misplacedBracket) := by
  have hw : Url.PathOnly "http://u@[::1]:81/a".toList := by decide
  have hq : '#' ∉ "?x://[\t:@".toList := by decide
  have hw' : Url.PathOnly "//[".toList := by decide
  have hq' : '#' ∉ "]".toList := by decide
  refine ⟨⟨hw, hq, ?_⟩, hw', hq', ?_⟩
  · have hv : Url.parse "http://u@[::1]:81/a".toList =
        .ok ⟨"http", "u", [], "::1", some 81, true, "/a", [], []⟩ := rfl
    rcases (tail_confined hw hq "#?]".toList).1 with
      ⟨e, -, he⟩ | ⟨u, v, hu, hv', hsame, hsearch, hhash⟩
    · rw [hv] at he
      cases he
    · rw [hv] at hv'
      obtain rfl := Except.ok.inj hv'
      exact ⟨u, hu, hsame.origin, hsame.pathname, hsearch, hhash⟩
  · have hv : Url.parse "//[".toList = .error .misplacedBracket := rfl
    rcases (tail_confined hw' hq' "]/".toList).1 with ⟨e, hu, he⟩ | ⟨u, v, -, hv', -⟩
    · rw [hv] at he
      obtain rfl := Except.error.inj he
      exact hu
    · rw [hv] at hv'
      cases hv'

end Pattern

end UrlRouting
