import UrlRouting.Proofs.Pattern.Alike
import UrlRouting.Proofs.Pattern.Grammar
import UrlRouting.Proofs.Url.HostSpelling

/-!
# The origin of a match

A pattern whose source carries a scheme asks for the origin of its source. Origins are compared
as texts, so a source with an origin asks for its scheme, host and port, while a source without
one asks for any URL without one.

* `origin_of_match?`: **a match has the scheme, host and port of the source**, if the source has
  an origin, and else has no origin either.
* `match?_other_host`: without an origin, scheme and host may be others.
* `spellings_agree`: **the spelling of scheme, host and default port tells no two texts apart**.
-/

namespace UrlRouting.Pattern

/-- **A match has the origin of the source**: the same scheme, host and port, or none either. -/
theorem origin_of_match? {source t : Text} {p : Pattern} {v : Url} {m : Match}
    (hp : compile source = .ok p) (hs : Url.hasScheme source = true)
    (hv : Url.parse source = .ok v) (hm : p.match? t = some m) :
    Url.parse t = .ok m.url ∧ (m.url.HasOrigin ↔ v.HasOrigin) ∧
      (v.HasOrigin → m.url.scheme = v.scheme ∧ m.url.hostname = v.hostname ∧
        m.url.port = v.port) := by
  obtain ⟨hu, haccepts, -⟩ := parts_of_match? hm
  obtain ⟨w, hw, -, -, horigin⟩ := parts_of_compile hp
  obtain rfl := Except.ok.inj (hv.symm.trans hw)
  rw [if_pos hs] at horigin
  have heq : m.url.origin = v.origin := by
    simpa [acceptsOrigin, horigin] using haccepts
  have hiff : m.url.HasOrigin ↔ v.HasOrigin := by
    rw [Url.hasOrigin_iff, Url.hasOrigin_iff, heq]
  exact ⟨hu, hiff, fun hv' => Url.origin_inj hu hv (hiff.2 hv') heq⟩

/-- A default port that is written and letters in the other case make no other origin. -/
theorem origin_of_match?_default_port :
    ∃ p v m, compile "HTTPS://[::A]/:x".toList = .ok p ∧
      Url.hasScheme "HTTPS://[::A]/:x".toList = true ∧
      Url.parse "HTTPS://[::A]/:x".toList = .ok v ∧ v.HasOrigin ∧
      p.match? "https://u@[::a]:00443/1".toList = some m ∧
      Url.parse "https://u@[::a]:00443/1".toList = .ok m.url ∧
      (m.url.HasOrigin ↔ v.HasOrigin) ∧
      m.url.scheme = v.scheme ∧ m.url.hostname = v.hostname ∧ m.url.port = v.port := by
  have hp : compile "HTTPS://[::A]/:x".toList = .ok ⟨"HTTPS://[::A]/:x", [.capture "x"], [],
      some "https://[::a]".toList⟩ := by decide +kernel
  have hv : Url.parse "HTTPS://[::A]/:x".toList =
      .ok ⟨"https", [], [], "::a", none, true, "/:x", [], []⟩ := rfl
  have hm : ((Pattern.mk "HTTPS://[::A]/:x" [.capture "x"] []
      (some "https://[::a]".toList)).match? "https://u@[::a]:00443/1".toList).isSome = true := by
    decide +kernel
  obtain ⟨m, hm⟩ := Option.isSome_iff_exists.1 hm
  have horigin : (⟨"https", [], [], "::a", none, true, "/:x", [], []⟩ : Url).HasOrigin := by decide
  obtain ⟨hu, hiff, hequal⟩ := origin_of_match? hp (by decide) hv hm
  exact ⟨_, _, m, hp, by decide, hv, horigin, hm, hu, hiff, hequal horigin⟩

/-- A source without an origin matches a URL of another scheme and another host. -/
theorem match?_other_host :
    ∃ p v m, compile "foo://a/:x".toList = .ok p ∧ Url.hasScheme "foo://a/:x".toList = true ∧
      Url.parse "foo://a/:x".toList = .ok v ∧ p.match? "bar://b/1".toList = some m ∧
      m.url.scheme ≠ v.scheme ∧ m.url.hostname ≠ v.hostname := by
  have hp : compile "foo://a/:x".toList = .ok ⟨"foo://a/:x", [.capture "x"], [],
      some "null".toList⟩ := by decide +kernel
  have hv : Url.parse "foo://a/:x".toList =
      .ok ⟨"foo", [], "", "a", none, true, "/:x", [], []⟩ := rfl
  have hm : ((Pattern.mk "foo://a/:x" [.capture "x"] [] (some "null".toList)).match?
      "bar://b/1".toList).isSome = true := by decide +kernel
  obtain ⟨m, hm⟩ := Option.isSome_iff_exists.1 hm
  have hu : Url.parse "bar://b/1".toList =
      .ok ⟨"bar", [], [], "b", none, true, "/1", [], []⟩ := rfl
  have hurl := Except.ok.inj (hu.symm.trans (parts_of_match? hm).1)
  refine ⟨_, _, m, hp, by decide, hv, hm, ?_, ?_⟩
  · rw [← hurl]
    decide
  · rw [← hurl]
    decide

/-- **The spelling of an authority tells no two texts apart.** For a special scheme and a host that
is no address, letters of the other case and the default port, written out or left empty, give the
same URL, so that a pattern matches all of these texts or none. -/
theorem spellings_agree {scheme scheme' host host' port rest : Text}
    (hs : Url.isSpecial scheme = true) (hs' : Text.SameButCase scheme' scheme)
    (hhost : ∀ c ∈ host, Url.isHostChar c = true) (hhost' : Text.SameButCase host' host)
    (hport : Url.WritesDefaultPort scheme port)
    (hrest : ∀ c ∈ rest.head?, Url.endsAuthority c = true) :
    (∃ u, Url.parse (scheme ++ "://".toList ++ host ++ rest) = .ok u ∧
      Url.parse (scheme' ++ "://".toList ++ (host' ++ port) ++ rest) = .ok u) ∧
      ∀ p : Pattern, p.match? (scheme' ++ "://".toList ++ (host' ++ port) ++ rest) =
        p.match? (scheme ++ "://".toList ++ host ++ rest) := by
  have hspelled := Url.parse_spelled hs hs' hhost hhost' hport hrest
  have hplain := Url.parse_spelled hs rfl hhost rfl .nothing hrest
  rw [List.append_nil] at hplain
  exact ⟨⟨_, hplain, hspelled⟩, fun p => by rw [match?, hspelled, match?, hplain]⟩

/-- Four thousand zeros before the port, and a kelvin sign for a letter of the host. -/
theorem spellings_agree_zeros :
    Url.isSpecial "https".toList = true ∧ Text.SameButCase "hTTpS".toList "https".toList ∧
      (∀ c ∈ "k-9.Example".toList, Url.isHostChar c = true) ∧
      Text.SameButCase "\u212A-9.eXAMPLE".toList "k-9.Example".toList ∧
      Url.WritesDefaultPort "https".toList (':' :: (List.replicate 4000 '0' ++ Text.decimal 443)) ∧
      (∀ c ∈ "?q".toList.head?, Url.endsAuthority c = true) ∧
      ∃ p m, compile "https://k-9.example".toList = .ok p ∧
        p.match? ("hTTpS".toList ++ "://".toList ++ ("\u212A-9.eXAMPLE".toList ++
          ':' :: (List.replicate 4000 '0' ++ Text.decimal 443)) ++ "?q".toList) = some m ∧
        m.url.host = "k-9.example".toList := by
  have hs : Url.isSpecial "https".toList = true := rfl
  have hs' : Text.SameButCase "hTTpS".toList "https".toList := by decide +kernel
  have hhost : ∀ c ∈ "k-9.Example".toList, Url.isHostChar c = true := by simp [Url.isHostChar]
  have hhost' : Text.SameButCase "\u212A-9.eXAMPLE".toList "k-9.Example".toList := by
    decide +kernel
  have hlength : (Text.decimal 443).length = 3 := by decide
  have hport : Url.WritesDefaultPort "https".toList
      (':' :: (List.replicate 4000 '0' ++ Text.decimal 443)) :=
    .number rfl (by simp [hlength, Url.maxPortDigits])
  have hrest : ∀ c ∈ "?q".toList.head?, Url.endsAuthority c = true := by simp [Url.endsAuthority]
  have hp : compile "https://k-9.example".toList =
      .ok ⟨"https://k-9.example", [], [], some "https://k-9.example".toList⟩ := by decide +kernel
  have hm : ((Pattern.mk "https://k-9.example" [] [] (some "https://k-9.example".toList)).match?
      ("https".toList ++ "://".toList ++ "k-9.Example".toList ++ "?q".toList)).isSome = true := by
    decide +kernel
  obtain ⟨m, hm⟩ := Option.isSome_iff_exists.1 hm
  have hv : Url.parse ("https".toList ++ "://".toList ++ "k-9.Example".toList ++ "?q".toList) =
      .ok ⟨"https", [], [], "k-9.example", none, true, "/", "q", []⟩ := rfl
  have hurl := Except.ok.inj (hv.symm.trans (parts_of_match? hm).1)
  have hagree := (spellings_agree hs hs' hhost hhost' hport hrest).2
  refine ⟨hs, hs', hhost, hhost', hport, hrest, _, m, hp, (hagree _).trans hm, ?_⟩
  rw [← hurl]
  rfl

end UrlRouting.Pattern
