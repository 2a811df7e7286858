import UrlRouting.Proofs.Url.Authority
import UrlRouting.Proofs.Url.Reference

/-!
# Hosts and origins

A URL **has an origin** if its scheme is special and it has a host; the origin is then the text of
scheme, host and port, and every other URL has the origin `null`.

* `host_inj`: a written host gives the host name and the port, because only an address holds a
  colon and only brackets stand around it.
* `origin_inj`: **an origin gives scheme, host name and port**.
* `IsPortOf`: a port as it is written, and `isPortOf_of_parse`: reading a URL leaves such a port or
  none.
* `origin_iff_parts`: **origins are equal when scheme, host name and port are**.
-/

namespace UrlRouting.Url

/-! ## Written hosts -/

theorem host_eq (u : Url) : u.host = bracketed u.hostname ++ marked ':' u.portText := by
  unfold host portText
  cases u.port with
  | none => simp [marked]
  | some n => simp [marked, Authority.decimal_ne_nil]

theorem host_of_colon {u : Url} (h : ':' ∈ u.hostname) :
    u.host = '[' :: (u.hostname ++ ']' :: marked ':' u.portText) := by
  rw [host_eq, bracketed, if_pos (List.contains_iff_mem.2 h)]
  simp

theorem host_of_not_colon {u : Url} (h : ':' ∉ u.hostname) :
    u.host = u.hostname ++ marked ':' u.portText := by
  rw [host_eq, bracketed, if_neg fun hc => h (List.contains_iff_mem.1 hc)]

theorem portText_inj {u v : Url} (h : u.portText = v.portText) : u.port = v.port := by
  unfold portText at h
  cases hu : u.port with
  | none =>
    cases hv : v.port with
    | none => rfl
    | some n =>
      rw [hu, hv] at h
      exact absurd h.symm (Authority.decimal_ne_nil n)
  | some m =>
    cases hv : v.port with
    | none =>
      rw [hu, hv] at h
      exact absurd h (Authority.decimal_ne_nil m)
    | some n =>
      rw [hu, hv] at h
      have hdigits : Text.decimal m = Text.decimal n := h
      rw [← Text.decimal?_decimal m, ← Text.decimal?_decimal n, hdigits]

/-- No host name without a colon is written with a bracket in front. -/
theorem host_ne_of_colon {u v : Url} (hu : ':' ∈ u.hostname) (hv : ':' ∉ v.hostname)
    (hname : IsHostname v.hostname) (hne : v.hostname ≠ []) : u.host ≠ v.host := by
  rw [host_of_colon hu, host_of_not_colon hv]
  intro h
  cases hn : v.hostname with
  | nil => exact hne hn
  | cons c rest =>
    rw [hn, List.cons_append] at h
    apply hname.head
    rw [hn, ← (List.cons.inj h).1]
    rfl

/-- **A written host gives the host name and the port.** -/
theorem host_inj {u v : Url} (hu : IsHostname u.hostname) (hv : IsHostname v.hostname)
    (hune : u.hostname ≠ []) (hvne : v.hostname ≠ []) (h : u.host = v.host) :
    u.hostname = v.hostname ∧ u.port = v.port := by
  by_cases hcolon : ':' ∈ u.hostname
  · by_cases hcolon' : ':' ∈ v.hostname
    · rw [host_of_colon hcolon, host_of_colon hcolon'] at h
      have hcut := congrArg (Text.cut ']') (List.cons.inj h).2
      rw [Text.cut_some (hu.address hcolon).1, Text.cut_some (hv.address hcolon').1] at hcut
      obtain ⟨hname, hport⟩ := Prod.mk.inj hcut
      exact ⟨hname, portText_inj (marked_inj (Option.some.inj hport))⟩
    · exact absurd h (host_ne_of_colon hcolon hcolon' hv hvne)
  · by_cases hcolon' : ':' ∈ v.hostname
    · exact absurd h.symm (host_ne_of_colon hcolon' hcolon hu hune)
    · rw [host_of_not_colon hcolon, host_of_not_colon hcolon'] at h
      have hcut := cut_marked hcolon u.portText
      have hcut' := cut_marked hcolon' v.portText
      rw [h] at hcut
      exact ⟨hcut.1.symm.trans hcut'.1, portText_inj (hcut.2.symm.trans hcut'.2)⟩

/-! ## Origins -/

/-- A URL whose origin is that of its scheme, host and port. -/
def HasOrigin (u : Url) : Prop := isSpecial u.scheme = true ∧ u.hostname ≠ []

instance (u : Url) : Decidable u.HasOrigin :=
  inferInstanceAs (Decidable (isSpecial u.scheme = true ∧ u.hostname ≠ []))

theorem mem_of_isSpecial {scheme : Text} (h : isSpecial scheme = true) :
    scheme ∈ ["http".toList, "https".toList, "ws".toList, "wss".toList, "ftp".toList] := by
  by_contra hno
  simp only [List.mem_cons, List.not_mem_nil, or_false, not_or] at hno
  obtain ⟨hhttp, hhttps, hws, hwss, hftp⟩ := hno
  rw [isSpecial, defaultPort?, if_neg hhttp, if_neg hhttps, if_neg hws, if_neg hwss,
    if_neg hftp] at h
  cases h

theorem isScheme_of_isSpecial {scheme : Text} (h : isSpecial scheme = true) :
    isScheme scheme = true ∧ scheme.map Char.toLower = scheme ∧
      (scheme.all fun c => !isSkipped c) = true := by
  have hall : ∀ s ∈ ["http".toList, "https".toList, "ws".toList, "wss".toList, "ftp".toList],
      isScheme s = true ∧ s.map Char.toLower = s ∧ (s.all fun c => !isSkipped c) = true := by
    decide
  exact hall scheme (mem_of_isSpecial h)

theorem origin_of_hasOrigin {u : Url} (h : u.HasOrigin) :
    u.origin = u.scheme ++ ':' :: '/' :: '/' :: u.host := by
  have horigin : u.origin = u.scheme ++ "://".toList ++ u.host := if_pos h
  simp [horigin]

theorem hasOrigin_iff {u : Url} : u.HasOrigin ↔ u.origin ≠ "null".toList := by
  constructor
  · intro h hnull
    have hcolon : ':' ∈ u.origin := by simp [origin_of_hasOrigin h]
    rw [hnull] at hcolon
    revert hcolon
    decide
  · intro h
    by_contra hno
    exact h (if_neg hno)

/-! ## Origins of URLs that were read -/

theorem authorityOf_eq (t : Text) (r : Reference) :
    authorityOf t r = baseAuthority ∧ r.scheme = [] ∨ authorityOf t r = r.authority := by
  unfold authorityOf
  split
  · rename_i hr
    exact .inl ⟨rfl, hr.1⟩
  · exact .inr rfl

theorem validate_authorityOf {t : Text} {r : Reference} (h : Reference.ofText t = .ok r) :
    Authority.validate (authorityOf t r) = .ok () := by
  rcases authorityOf_eq t r with ⟨ha, -⟩ | ha
  · rw [ha]
    rfl
  · rw [ha]
    exact (Reference.ofText_eq_ok_iff.1 h).1

theorem isHostname_of_parse {t : Text} {u : Url} (h : parse t = .ok u) :
    IsHostname u.hostname := by
  obtain ⟨r, port, hr, -, rfl⟩ := parse_eq_ok_iff.1 h
  exact Authority.isHostname_of_validate (validate_authorityOf hr)

/-- **An origin gives scheme, host name and port.** -/
theorem origin_inj {s t : Text} {u v : Url} (hu : parse s = .ok u) (hv : parse t = .ok v)
    (horigin : u.HasOrigin) (h : u.origin = v.origin) :
    u.scheme = v.scheme ∧ u.hostname = v.hostname ∧ u.port = v.port := by
  have horigin' : v.HasOrigin := by
    rw [hasOrigin_iff, ← h]
    exact hasOrigin_iff.1 horigin
  rw [origin_of_hasOrigin horigin, origin_of_hasOrigin horigin'] at h
  have hcut := congrArg (Text.cut ':') h
  rw [Text.cut_some (colon_not_mem_of_isScheme (isScheme_of_isSpecial horigin.1).1),
    Text.cut_some (colon_not_mem_of_isScheme (isScheme_of_isSpecial horigin'.1).1)] at hcut
  obtain ⟨hscheme, hrest⟩ := Prod.mk.inj hcut
  have hhost : u.host = v.host :=
    (List.cons.inj (List.cons.inj (Option.some.inj hrest)).2).2
  exact ⟨hscheme, host_inj (isHostname_of_parse hu) (isHostname_of_parse hv) horigin.2 horigin'.2
    hhost⟩

theorem origin_congr {u v : Url} (hscheme : u.scheme = v.scheme)
    (hhostname : u.hostname = v.hostname) (hport : u.port = v.port) : u.origin = v.origin := by
  simp only [origin, host, hscheme, hhostname, hport]

/-! ## Ports -/

/-- The text `t` writes the port `n` of a URL with this scheme. -/
structure IsPortOf (scheme t : Text) (n : Nat) : Prop where
  number : Text.decimal? t = some n
  head : t.head? = some '0' → t = ['0']
  le : n ≤ 65535
  not_default : defaultPort? scheme ≠ some n

/-- A port that was read is in range and not the default one. -/
theorem port_of_parse {t : Text} {u : Url} {n : Nat} (h : parse t = .ok u)
    (hn : u.port = some n) : n ≤ maxPort ∧ defaultPort? u.scheme ≠ some n := by
  obtain ⟨r, port, -, hport, rfl⟩ := parse_eq_ok_iff.1 h
  have hn : (if port = defaultPort? (schemeOf r) then none else port) = some n := hn
  split at hn
  · cases hn
  · rename_i hdefault
    subst hn
    exact ⟨Authority.le_maxPort_of_portNumber hport, Ne.symm hdefault⟩

theorem isPortOf_of_parse {t : Text} {u : Url} (h : parse t = .ok u) :
    u.portText = [] ∨ ∃ n, IsPortOf u.scheme u.portText n := by
  unfold portText
  cases hport : u.port with
  | none => exact .inl rfl
  | some n =>
    obtain ⟨hle, hdefault⟩ := port_of_parse h hport
    refine .inr ⟨n, Text.decimal?_decimal n, ?_, hle, hdefault⟩
    intro hhead
    rw [Text.eq_zero_of_head?_decimal hhead]
    rfl

/-! ## Equal origins -/

theorem isSpecial_iff {scheme : Text} : isSpecial scheme = true ↔
    scheme ∈ ["http".toList, "https".toList, "ws".toList, "wss".toList, "ftp".toList] := by
  refine ⟨mem_of_isSpecial, ?_⟩
  have hall : ∀ s ∈ ["http".toList, "https".toList, "ws".toList, "wss".toList, "ftp".toList],
      isSpecial s = true := by decide
  exact hall scheme

/-- **Origins are equal when scheme, host name and port are.** The port is that of `IsPortOf` or
none, and every URL with a special scheme and a host has an origin. -/
theorem origin_iff_parts :
    (∀ {s t : Text} {u v : Url}, parse s = .ok u → parse t = .ok v →
      u.origin ≠ "null".toList → v.origin ≠ "null".toList →
        (u.origin = v.origin ↔
          u.scheme = v.scheme ∧ u.hostname = v.hostname ∧ u.portText = v.portText)) ∧
    ∀ {t : Text} {u : Url}, parse t = .ok u →
      (u.portText = [] ∨ ∃ n, IsPortOf u.scheme u.portText n) ∧
      (u.origin ≠ "null".toList ↔
        u.scheme ∈ ["http".toList, "https".toList, "ws".toList, "wss".toList, "ftp".toList] ∧
          u.hostname ≠ []) := by
  refine ⟨?_, ?_⟩
  · intro s t u v hu hv horigin _
    constructor
    · intro h
      obtain ⟨hscheme, hhostname, hport⟩ := origin_inj hu hv (hasOrigin_iff.2 horigin) h
      exact ⟨hscheme, hhostname, by rw [portText, portText, hport]⟩
    · rintro ⟨hscheme, hhostname, hport⟩
      exact origin_congr hscheme hhostname (portText_inj hport)
  · intro t u hu
    exact ⟨isPortOf_of_parse hu, by rw [← hasOrigin_iff, HasOrigin, isSpecial_iff]⟩

/-- A default port that is written with a leading zero makes no other origin, another port does. -/
theorem origin_iff_parts_default_port :
    ∃ u v w, parse "HTTPS://a@[::A]:0443/x".toList = .ok u ∧
      parse "https://[::a]".toList = .ok v ∧ parse "https://[::a]:080".toList = .ok w ∧
      u.origin = v.origin ∧ u.portText = [] ∧
      v.origin ≠ w.origin ∧ IsPortOf w.scheme w.portText 80 := by
  have hu : parse "HTTPS://a@[::A]:0443/x".toList =
      .ok ⟨"https", "a", [], "::a", none, true, "/x", [], []⟩ := rfl
  have hv : parse "https://[::a]".toList =
      .ok ⟨"https", [], [], "::a", none, true, "/", [], []⟩ := rfl
  have hw : parse "https://[::a]:080".toList =
      .ok ⟨"https", [], [], "::a", some 80, true, "/", [], []⟩ := rfl
  obtain ⟨hequal, hparts⟩ := origin_iff_parts
  refine ⟨_, _, _, hu, hv, hw, ?_, rfl, ?_, ?_⟩
  · exact (hequal hu hv (by decide) (by decide)).2 ⟨rfl, rfl, rfl⟩
  · intro h
    have := ((hequal hv hw (by decide) (by decide)).1 h).2.2
    revert this
    decide
  · obtain ⟨n, hn⟩ := (hparts hw).1.resolve_left (by decide)
    have h80 : n = 80 := by
      have : Text.decimal? ['8', '0'] = some n := hn.number
      exact (Option.some.inj this).symm
    exact h80 ▸ hn

end UrlRouting.Url
