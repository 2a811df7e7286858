import Mathlib.Data.Bool.AllAny
import UrlRouting.Proofs.Url.Origin
import UrlRouting.Proofs.Url.Rooted

/-!
# Reading a written URL

A URL with an origin is read back from its written form, part by part, if its user, password and
host are in ASCII and hold no bracket of their own.

* `Writable`: the parts from which an authority can be written and read back, and
  `Writable.ofText_authority`, `Writable.validate_authority` and
  `Writable.portNumber_authority`, which read it.
* `isScheme_of_parse`: reading a URL leaves a scheme in lower case.
* `writable_of_parse`: reading a URL leaves such parts.
* `parse_href`: **the written form of a URL is read as the same URL**.
-/

namespace UrlRouting.Url

open Text (isAscii)

/-! ## The written authority -/

/-- The authority of a URL as it is written. -/
def authority (u : Url) : Text := u.userinfo ++ u.host

/-- The parts of an authority that is read back as it was written. -/
structure Writable (u : Url) : Prop where
  ascii : ∀ c ∈ u.username ++ u.password ++ u.hostname, isAscii c = true ∧ c ≠ '[' ∧ c ≠ ']'
  delimited : ∀ c ∈ u.username ++ u.password ++ u.hostname,
    endsAuthority c = false ∧ isSkipped c = false
  username : ':' ∉ u.username
  host : '@' ∉ u.hostname
  hostname : IsHostname u.hostname
  lower : Authority.lowerHost u.hostname = u.hostname
  port : ∀ n, u.port = some n → n ≤ maxPort

theorem isDigit_of_mem_portText {u : Url} {c : Char} (h : c ∈ u.portText) : c.isDigit = true := by
  unfold portText at h
  split at h
  · exact Nat.isDigit_of_mem_toDigits (by decide) (by decide) h
  · cases h

theorem mem_userinfo {u : Url} {c : Char} (h : c ∈ u.userinfo) :
    c ∈ u.username ∨ c ∈ u.password ∨ c = ':' ∨ c = '@' := by
  unfold userinfo at h
  split at h
  · cases h
  · simp only [List.mem_append, List.mem_singleton] at h
    rcases h with (h | h) | h
    · exact .inl h
    · rcases mem_of_mem_marked h with h | h
      · exact .inr (.inr (.inl h))
      · exact .inr (.inl h)
    · exact .inr (.inr (.inr h))

theorem mem_host {u : Url} {c : Char} (h : c ∈ u.host) :
    c ∈ u.hostname ∨ c.isDigit = true ∨ c = ':' ∨
      ':' ∈ u.hostname ∧ (c = '[' ∨ c = ']') := by
  rw [host_eq] at h
  rcases List.mem_append.1 h with h | h
  · unfold bracketed at h
    split at h
    · rename_i hcolon
      have hcolon : ':' ∈ u.hostname := List.contains_iff_mem.1 hcolon
      simp only [List.cons_append, List.mem_cons, List.mem_append, List.not_mem_nil,
        or_false] at h
      rcases h with h | h | h
      · exact .inr (.inr (.inr ⟨hcolon, .inl h⟩))
      · exact .inl h
      · exact .inr (.inr (.inr ⟨hcolon, .inr h⟩))
    · exact .inl h
  · rcases mem_of_mem_marked h with h | h
    · exact .inr (.inr (.inl h))
    · exact .inr (.inl (isDigit_of_mem_portText h))

/-- What holds of the parts, of digits and of the marks holds of the authority. -/
theorem forall_mem_authority {u : Url} {P : Char → Prop}
    (hparts : ∀ c ∈ u.username ++ u.password ++ u.hostname, P c)
    (hdigit : ∀ c, c.isDigit = true → P c) (hmark : ∀ c ∈ [':', '@', '[', ']'], P c) :
    ∀ c ∈ u.authority, P c := by
  simp only [List.mem_append, List.mem_cons, List.not_mem_nil, or_false] at hparts hmark
  intro c hc
  rcases List.mem_append.1 hc with hc | hc
  · rcases mem_userinfo hc with hc | hc | hc | hc
    · exact hparts c (.inl (.inl hc))
    · exact hparts c (.inl (.inr hc))
    · exact hmark c (.inl hc)
    · exact hmark c (.inr (.inl hc))
  · rcases mem_host hc with hc | hc | hc | ⟨-, hc⟩
    · exact hparts c (.inr hc)
    · exact hdigit c hc
    · exact hmark c (.inl hc)
    · exact hmark c (.inr (.inr hc))

namespace Writable

variable {u : Url} (h : Writable u)
include h

theorem brackets_not_mem_hostname : '[' ∉ u.hostname ∧ ']' ∉ u.hostname :=
  ⟨fun hm => (h.ascii '[' (List.mem_append_right _ hm)).2.1 rfl,
    fun hm => (h.ascii ']' (List.mem_append_right _ hm)).2.2 rfl⟩

theorem at_not_mem_host : '@' ∉ u.host := by
  intro hm
  rcases mem_host hm with hm | hm | hm | ⟨-, hm | hm⟩
  · exact h.host hm
  · cases hm
  · cases hm
  · cases hm
  · cases hm

theorem isAscii_of_mem_authority : ∀ c ∈ u.authority, isAscii c = true :=
  forall_mem_authority (fun c hc => (h.ascii c hc).1)
    (fun c hc => isAscii_of_isAlphanum (by simp [Char.isAlphanum, hc]))
    (List.all_iff_forall_prop.1 (by decide))

theorem delimited_authority :
    ∀ c ∈ u.authority, endsAuthority c = false ∧ isSkipped c = false := by
  refine forall_mem_authority h.delimited (fun c hc => ?_) (List.all_iff_forall_prop.1 (by decide))
  have ha : isAscii c = true := isAscii_of_isAlphanum (by simp [Char.isAlphanum, hc])
  exact Text.of_isAscii
    (fun c => c.isDigit = true → endsAuthority c = false ∧ isSkipped c = false) (by decide) ha hc

/-- Without a colon in the host name, no bracket is written. -/
theorem brackets_not_mem_authority (hcolon : ':' ∉ u.hostname) :
    '[' ∉ u.authority ∧ ']' ∉ u.authority := by
  have free {d : Char} (hd : d = '[' ∨ d = ']')
      (hparts : d ∉ u.username ++ u.password ++ u.hostname) : d ∉ u.authority := by
    simp only [List.mem_append, not_or] at hparts
    intro hm
    rcases List.mem_append.1 hm with hm | hm
    · rcases mem_userinfo hm with hm | hm | hm | hm
      · exact hparts.1.1 hm
      · exact hparts.1.2 hm
      · simp [hm] at hd
      · simp [hm] at hd
    · rcases mem_host hm with hm | hm | hm | ⟨hm, -⟩
      · exact hparts.2 hm
      · rcases hd with rfl | rfl
        · cases hm
        · cases hm
      · simp [hm] at hd
      · exact hcolon hm
  exact ⟨free (.inl rfl) fun hm => (h.ascii _ hm).2.1 rfl,
    free (.inr rfl) fun hm => (h.ascii _ hm).2.2 rfl⟩

theorem hostAndPort_host : Authority.hostAndPort u.host = (u.hostname, u.portText) := by
  by_cases hcolon : ':' ∈ u.hostname
  · have hport := (cut_marked (List.not_mem_nil (a := ':')) u.portText).2
    have hcut := Text.cut_some h.brackets_not_mem_hostname.2 (marked ':' u.portText)
    have hhost := Authority.hostAndPort_bracketed []
      (u.hostname ++ ']' :: marked ':' u.portText) List.not_mem_nil
    rw [hcut] at hhost
    rw [host_of_colon hcolon]
    exact hhost.trans (Prod.ext rfl hport)
  · have hopen : '[' ∉ u.host := fun hm =>
      (h.brackets_not_mem_authority hcolon).1 (List.mem_append_right _ hm)
    have hcut := cut_marked hcolon u.portText
    rw [Authority.hostAndPort_of_not_mem hopen, host_of_not_colon hcolon]
    exact Prod.ext hcut.1 hcut.2

theorem cutLast_authority : ∃ user, Text.cutLast '@' u.authority = (user, u.host) ∧
    (Text.cut ':' (user.getD [])).1 = u.username ∧
    (Text.cut ':' (user.getD [])).2.getD [] = u.password := by
  by_cases hnone : u.username = [] ∧ u.password = []
  · have hinfo : u.userinfo = [] := if_pos hnone
    refine ⟨none, ?_, hnone.1.symm, hnone.2.symm⟩
    rw [authority, hinfo, List.nil_append, Text.cutLast_none h.at_not_mem_host]
  · have hinfo : u.userinfo = u.username ++ marked ':' u.password ++ ['@'] := if_neg hnone
    refine ⟨some (u.username ++ marked ':' u.password), ?_, cut_marked h.username u.password⟩
    rw [authority, hinfo, List.append_assoc, List.singleton_append,
      Text.cutLast_some h.at_not_mem_host]

/-- **A written authority has the parts it was written from.** -/
theorem ofText_authority :
    Authority.ofText u.authority = ⟨u.username, u.password, u.hostname, u.portText⟩ := by
  obtain ⟨user, hcut, husername, hpassword⟩ := h.cutLast_authority
  rw [Authority.ofText, hcut]
  simp only [h.hostAndPort_host, husername, hpassword, h.lower]

theorem validateBrackets_authority : Authority.validateBrackets u.authority = .ok () := by
  by_cases hcolon : ':' ∈ u.hostname
  · have hmem {d : Char} (hd : d ∈ u.host) : u.authority.contains d = true :=
      List.contains_iff_mem.2 (List.mem_append_right _ hd)
    have hopen : u.authority.contains '[' = true := hmem (by simp [host_of_colon hcolon])
    have hclose : u.authority.contains ']' = true := hmem (by simp [host_of_colon hcolon])
    have hinside : Text.cut '[' u.host =
        ([], some (u.hostname ++ ']' :: marked ':' u.portText)) := by
      rw [host_of_colon hcolon]
      rfl
    have hvalid := (h.hostname.address hcolon).2
    obtain ⟨user, hcut, -⟩ := h.cutLast_authority
    simp only [Authority.validateBrackets, hopen, hclose, hcut, Authority.validateHost, hinside,
      Text.cut_some h.brackets_not_mem_hostname.2]
    rcases marked_head (d := ':') u.portText with hp | hp
    · simp only [hp, hvalid]
    · simp only [hp, hvalid]
  · obtain ⟨hopen, hclose⟩ := h.brackets_not_mem_authority hcolon
    simp [Authority.validateBrackets, hopen, hclose]

theorem validate_authority : Authority.validate u.authority = .ok () := by
  have hnone : u.authority.any hidesDelimiter = false := by
    rw [List.any_eq_false]
    intro c hc
    have := Text.of_isAscii (fun c => hidesDelimiter c = false) (by decide)
      (h.isAscii_of_mem_authority c hc)
    simp [this]
  simp only [Authority.validate, h.validateBrackets_authority, hnone]
  rfl

theorem portNumber_authority : (Authority.ofText u.authority).portNumber = .ok u.port := by
  rw [h.ofText_authority]
  cases hport : u.port with
  | none =>
    have htext : u.portText = [] := by rw [portText, hport]
    rw [htext]
    rfl
  | some n =>
    refine Authority.portNumber_decimal ?_ (h.port n hport)
    rw [portText, hport]

end Writable

/-! ## The written scheme -/

theorem toLower_of_mem_scheme {s : Text} {d : Char} (h : isScheme s = true) (hd : d ∈ s) :
    (d.toLower.isAlphanum || d.toLower = '+' || d.toLower = '-' || d.toLower = '.') = true ∧
      d.toLower.toLower = d.toLower ∧ isSkipped d.toLower = false := by
  have hd : (d.isAlphanum || d = '+' || d = '-' || d = '.') = true := by
    cases s with
    | nil => cases hd
    | cons c t =>
      rw [isScheme, Bool.and_eq_true, List.all_eq_true] at h
      rcases List.mem_cons.1 hd with rfl | hd
      · simp [Char.isAlphanum, h.1]
      · exact h.2 d hd
  have ha : isAscii d = true := by
    simp only [Bool.or_eq_true, decide_eq_true_eq] at hd
    rcases hd with ((hd | rfl) | rfl) | rfl
    · exact isAscii_of_isAlphanum hd
    · rfl
    · rfl
    · rfl
  exact Text.of_isAscii (fun d => (d.isAlphanum || d = '+' || d = '-' || d = '.') = true →
    (d.toLower.isAlphanum || d.toLower = '+' || d.toLower = '-' || d.toLower = '.') = true ∧
      d.toLower.toLower = d.toLower ∧ isSkipped d.toLower = false) (by decide) ha hd

theorem isScheme_lowered {s : Text} (h : isScheme s = true) :
    isScheme (lowered s) = true ∧ lowered (lowered s) = lowered s ∧
      ∀ c ∈ lowered s, isSkipped c = false := by
  refine ⟨?_, ?_, ?_⟩
  · cases s with
    | nil => cases h
    | cons c t =>
      have hc : c.isAlpha = true := (Bool.and_eq_true_iff.1 h).1
      have ha : isAscii c = true := isAscii_of_isAlphanum (by simp [Char.isAlphanum, hc])
      have head : c.toLower.isAlpha = true :=
        Text.of_isAscii (fun c => c.isAlpha = true → c.toLower.isAlpha = true) (by decide) ha hc
      rw [lowered, List.map_cons, isScheme, head, Bool.true_and, List.all_map, List.all_eq_true]
      intro d hd
      exact (toLower_of_mem_scheme h (List.mem_cons_of_mem c hd)).1
  · rw [lowered, List.map_map]
    exact List.map_congr_left fun d hd => (toLower_of_mem_scheme h hd).2.1
  · intro d hd
    obtain ⟨e, he, rfl⟩ := List.mem_map.1 hd
    exact (toLower_of_mem_scheme h he).2.2

/-- Reading leaves a scheme in lower case. -/
theorem isScheme_of_parse {t : Text} {u : Url} (h : parse t = .ok u) :
    isScheme u.scheme = true ∧ lowered u.scheme = u.scheme ∧
      ∀ c ∈ u.scheme, isSkipped c = false := by
  obtain ⟨r, port, hr, -, rfl⟩ := parse_eq_ok_iff.1 h
  obtain rfl := (Reference.ofText_eq_ok_iff.1 hr).2
  simp only [resolved, schemeOf]
  split
  · exact ⟨rfl, rfl, List.all_iff_forall_prop.1 (by decide)⟩
  · rename_i hne
    simp only [Reference.parts] at hne ⊢
    rcases cutScheme_cases (clean t) with ⟨s, rest, hs, ht⟩ | hno
    · rw [ht, cutScheme_of_isScheme hs]
      exact isScheme_lowered hs
    · rw [cutScheme_of_not_isScheme hno] at hne
      exact absurd rfl hne

theorem scheme_ne_nil_of_parse {t : Text} {u : Url} (h : parse t = .ok u) : u.scheme ≠ [] := by
  intro hnil
  have hs := (isScheme_of_parse h).1
  rw [hnil] at hs
  cases hs

/-! ## A URL with an origin -/

theorem delimited_authorityOf (t : Text) : ∀ c ∈ authorityOf t (Reference.parts t),
    endsAuthority c = false ∧ isSkipped c = false := by
  rcases authorityOf_eq t (Reference.parts t) with ⟨ha, -⟩ | ha
  · rw [ha]
    exact List.all_iff_forall_prop.1 (by decide)
  · rw [ha]
    exact fun c hc => ⟨not_endsAuthority_of_mem_authority hc,
      not_isSkipped_of_mem_clean (mem_clean_of_mem_parts (.inl hc))⟩

/-- A special scheme with a host has a path from the root. -/
theorem pathOf_rooted {t : Text} (hs : isSpecial (schemeOf (Reference.parts t)) = true)
    (ha : authorityOf t (Reference.parts t) ≠ []) :
    ∃ p, pathOf (Reference.parts t) = '/' :: p := by
  by_cases hscheme : (Reference.parts t).scheme = []
  · exact pathOf_of_relative hscheme
  · have hauthority : (Reference.parts t).authority ≠ [] := by
      rcases authorityOf_eq t (Reference.parts t) with ⟨-, h⟩ | h
      · exact absurd h hscheme
      · rwa [h] at ha
    unfold pathOf
    rw [if_neg fun h => hscheme h.1]
    rcases path_head_of_authority hauthority with hp | ⟨p, hp⟩
    · rw [if_pos ⟨hs, hp⟩]
      exact ⟨[], rfl⟩
    · rw [if_neg (fun h => by rw [h.2] at hp; cases hp)]
      exact ⟨p, hp⟩

/-- The reference that a URL is written as. -/
def reference (u : Url) : Reference :=
  ⟨u.scheme, u.authority, u.pathname, u.query, u.fragment⟩

theorem HasOrigin.scheme_ne_nil {u : Url} (ho : u.HasOrigin) : u.scheme ≠ [] := by
  intro hnil
  have hs := ho.1
  rw [hnil] at hs
  cases hs

theorem authorityOf_reference_of_scheme {u : Url} (hs : u.scheme ≠ []) (t : Text) :
    authorityOf t u.reference = u.authority :=
  if_neg fun hno => hs hno.1

theorem authorityOf_reference {u : Url} (ho : u.HasOrigin) (t : Text) :
    authorityOf t u.reference = u.authority :=
  authorityOf_reference_of_scheme ho.scheme_ne_nil t

section

variable {t : Text} {u : Url} (h : parse t = .ok u)
include h

theorem writable_of_parse
    (hchars : ∀ c ∈ u.username ++ u.password ++ u.hostname,
      isAscii c = true ∧ c ≠ '[' ∧ c ≠ ']') : Writable u := by
  obtain ⟨r, port, hr, -, rfl⟩ := parse_eq_ok_iff.1 h
  have hparts := (Reference.ofText_eq_ok_iff.1 hr).2
  have hdelimited := delimited_authorityOf t
  rw [← hparts] at hdelimited
  refine ⟨hchars, ?_, Authority.colon_not_mem_username _, Authority.at_not_mem_hostname _,
    Authority.isHostname_of_validate (validate_authorityOf hr), ?_, ?_⟩
  · intro c hc
    have ha := (hchars c hc).1
    rcases List.mem_append.1 hc with hc | hc
    · exact hdelimited c (Authority.mem_of_mem_user (List.mem_append.1 hc))
    · rcases Authority.mem_of_mem_hostname hc ha with hc | hc
      · exact hdelimited c (Text.mem_of_mem_cutLast (.inr hc))
      · exact Text.of_isAscii
          (fun c => c.isLower = true → endsAuthority c = false ∧ isSkipped c = false)
          (by decide) ha hc
  · exact Authority.lowerHost_lowerHost fun c hc => (hchars c (List.mem_append_right _ hc)).1
  · exact fun n hn => (port_of_parse h hn).1

theorem pathname_rooted (ho : u.HasOrigin) :
    ∃ p, u.pathname = Path.escape (Path.removeDots ('/' :: p)) := by
  obtain ⟨r, port, hr, -, rfl⟩ := parse_eq_ok_iff.1 h
  obtain rfl := (Reference.ofText_eq_ok_iff.1 hr).2
  have hauthority : authorityOf t (Reference.parts t) ≠ [] := by
    intro ha
    apply ho.2
    show (Authority.ofText (authorityOf t (Reference.parts t))).hostname = []
    rw [ha]
    rfl
  obtain ⟨p, hp⟩ := pathOf_rooted ho.1 hauthority
  refine ⟨p, ?_⟩
  rw [← hp]
  rfl

/-- The query and the fragment end where they ended. -/
theorem query_and_fragment_of_parse : '#' ∉ u.query ∧
    (∀ c ∈ u.query, isSkipped c = false) ∧ ∀ c ∈ u.fragment, isSkipped c = false := by
  obtain ⟨r, port, hr, -, rfl⟩ := parse_eq_ok_iff.1 h
  obtain rfl := (Reference.ofText_eq_ok_iff.1 hr).2
  exact ⟨hash_not_mem_query t,
    fun c hc => not_isSkipped_of_mem_clean (mem_clean_of_mem_parts (.inr (.inl hc))),
    fun c hc => not_isSkipped_of_mem_clean (mem_clean_of_mem_parts (.inr (.inr hc)))⟩

/-- The port that was read is not the default one. -/
theorem port_not_default : (if u.port = defaultPort? u.scheme then none else u.port) = u.port := by
  cases hport : u.port with
  | none => exact ite_self none
  | some n => exact if_neg (port_of_parse h hport).2.symm

theorem hasAuthority_of_isSpecial (hs : isSpecial u.scheme = true) : u.hasAuthority = true := by
  obtain ⟨r, port, -, -, rfl⟩ := parse_eq_ok_iff.1 h
  exact Bool.or_eq_true_iff.2 (.inl hs)

theorem path_free_of_parse : '?' ∉ u.pathname ∧ '#' ∉ u.pathname :=
  ⟨fun hm => absurd (isPathSafe_of_mem_pathname h '?' hm) (by decide),
    fun hm => absurd (isPathSafe_of_mem_pathname h '#' hm) (by decide)⟩

/-- Nothing is skipped behind the authority of a written URL. -/
theorem not_isSkipped_behind {c : Char}
    (hc : c ∈ u.pathname ++ marked '?' u.query ++ marked '#' u.fragment) :
    isSkipped c = false := by
  obtain ⟨-, hquery, hfragment⟩ := query_and_fragment_of_parse h
  simp only [List.mem_append] at hc
  rcases hc with (hc | hc) | hc
  · exact not_isSkipped_of_isPathSafe (isPathSafe_of_mem_pathname h c hc)
  · rcases mem_of_mem_marked hc with rfl | hc
    · rfl
    · exact hquery c hc
  · rcases mem_of_mem_marked hc with rfl | hc
    · rfl
    · exact hfragment c hc

omit h in
theorem href_eq (ha : u.hasAuthority = true) :
    u.href = u.scheme ++ ':' :: '/' :: '/' :: (u.authority ++
      (u.pathname ++ marked '?' u.query ++ marked '#' u.fragment)) := by
  simp [href, protocol, ha, authority, search, hash]

omit h in
theorem href_eq_without_authority (ha : u.hasAuthority = false) :
    u.href = u.scheme ++ ':' :: (u.pathname ++ marked '?' u.query ++ marked '#' u.fragment) := by
  simp [href, protocol, ha, search, hash]

/-- Nothing is skipped in a written URL. -/
theorem not_isSkipped_of_mem_href (hw : Writable u) : ∀ c ∈ u.href, isSkipped c = false := by
  have hskip := (isScheme_of_parse h).2.2
  intro c hc
  cases ha : u.hasAuthority with
  | true =>
    rw [href_eq ha, List.mem_append, List.mem_cons, List.mem_cons, List.mem_cons,
      List.mem_append] at hc
    rcases hc with hc | rfl | rfl | rfl | hc | hc
    · exact hskip c hc
    · rfl
    · rfl
    · rfl
    · exact (hw.delimited_authority c hc).2
    · exact not_isSkipped_behind h hc
  | false =>
    rw [href_eq_without_authority ha, List.mem_append, List.mem_cons] at hc
    rcases hc with hc | rfl | hc
    · exact hskip c hc
    · rfl
    · exact not_isSkipped_behind h hc

/-- A URL with an authority is written from the parts of its reference, if its path is empty or
starts with a slash. -/
theorem parts_href_of_path (hw : Writable u) (ha : u.hasAuthority = true)
    (hpath : u.pathname = [] ∨ ∃ p, u.pathname = '/' :: p) :
    Reference.parts u.href = u.reference := by
  obtain ⟨hscheme, hlower, -⟩ := isScheme_of_parse h
  have hhash := (query_and_fragment_of_parse h).1
  have hskip := not_isSkipped_of_mem_href h hw
  rw [href_eq ha] at hskip ⊢
  exact parts_written hscheme hlower (fun c hc => (hw.delimited_authority c hc).1) hpath
    (path_free_of_parse h) hhash hskip

theorem parts_href (ho : u.HasOrigin) (hw : Writable u) :
    Reference.parts u.href = u.reference := by
  obtain ⟨p, hp⟩ := pathname_rooted h ho
  exact parts_href_of_path h hw (hasAuthority_of_isSpecial h ho.1) (.inr ⟨_, hp⟩)

/-- What was resolved stays as it is. -/
theorem resolved_reference (ho : u.HasOrigin) (hw : Writable u) :
    resolved u.href u.reference u.port = u := by
  obtain ⟨p, hp⟩ := pathname_rooted h ho
  have hscheme : schemeOf u.reference = u.scheme := if_neg ho.scheme_ne_nil
  have hroot : ∃ x, u.pathname = '/' :: x := ⟨_, hp⟩
  have hpath : pathOf u.reference = u.pathname := by
    obtain ⟨x, hx⟩ := hroot
    simp [pathOf, reference, hx]
  have hresolve : Path.escape (Path.removeDots u.pathname) = u.pathname := by
    rw [hp]
    exact Path.escape_removeDots_idem p
  simp only [resolved, hscheme, authorityOf_reference ho, hpath, hresolve, port_not_default h,
    hw.ofText_authority, ho.1, Bool.true_or]
  rw [← hasAuthority_of_isSpecial h ho.1]
  rfl

end

/-- **The written form of a URL is read as the same URL.** -/
theorem parse_href {t : Text} {u : Url} (h : parse t = .ok u) (horigin : u.origin ≠ "null".toList)
    (hchars : ∀ c ∈ u.username ++ u.password ++ u.hostname,
      isAscii c = true ∧ c ≠ '[' ∧ c ≠ ']') : parse u.href = .ok u := by
  have hw := writable_of_parse h hchars
  have ho := hasOrigin_iff.2 horigin
  have hr : Reference.ofText u.href = .ok u.reference :=
    Reference.ofText_eq_ok_iff.2 ⟨hw.validate_authority, (parts_href h ho hw).symm⟩
  have hport : (Authority.ofText (authorityOf u.href u.reference)).portNumber = .ok u.port := by
    rw [authorityOf_reference ho]
    exact hw.portNumber_authority
  exact parse_eq_ok_iff.2 ⟨u.reference, u.port, hr, hport, (resolved_reference h ho hw).symm⟩

/-- A user and a password with delimiters, an address with a scope, a port with a leading zero
and a path with dots. -/
theorem parse_href_scoped_address :
    ∃ u, parse " HTTPS://a@b:c:d@[FE80::1%Eth]:08443/x//../%2e/y z?q?#f#".toList = .ok u ∧
      u.origin ≠ "null".toList ∧
      (∀ c ∈ u.username ++ u.password ++ u.hostname, isAscii c = true ∧ c ≠ '[' ∧ c ≠ ']') ∧
      u.href = "https://a@b:c:d@[fe80::1%Eth]:8443/x/%2e/y%20z?q?#f#".toList ∧
      parse u.href = .ok u := by
  have hu : parse " HTTPS://a@b:c:d@[FE80::1%Eth]:08443/x//../%2e/y z?q?#f#".toList =
      .ok ⟨"https", "a@b", "c:d", "fe80::1%Eth", some 8443, true, "/x/%2e/y%20z", "q?", "f#"⟩ :=
    rfl
  have hchars : ∀ c ∈ "a@b".toList ++ "c:d".toList ++ "fe80::1%Eth".toList,
      isAscii c = true ∧ c ≠ '[' ∧ c ≠ ']' := List.all_iff_forall_prop.1 (by decide)
  exact ⟨_, hu, by decide, hchars, rfl, parse_href hu (by decide) hchars⟩

end UrlRouting.Url
