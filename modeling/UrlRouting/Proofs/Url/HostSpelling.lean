import UrlRouting.Proofs.Url.Origin
import UrlRouting.Proofs.Url.Skipped

/-!
# Spellings of a host

Scheme and host may be written in letters of either case, and the default port may be written with
zeros before it, or as a colon and nothing behind. Reading brings all of these to the host in lower
case without a port.

* `isHostChar`: the characters of a host that is no address. `Inert`: characters that an authority
  may hold without being cut or rejected.
* `WritesDefaultPort scheme port`: behind a host, `port` writes the default port of the scheme, or
  none.
* `isScheme_of_sameButCase`, `isHostChar_of_sameButCase`: what letters of the other case leave.
* `parse_spelled`: **all spellings are read as the URL of the host**, which is `atHost`.
-/

namespace UrlRouting.Url

open Text (SameButCase kelvinSign isAscii)

/-- The characters of a host that is no address: letters and digits, `-` and `.`. -/
def isHostChar (c : Char) : Bool := c.isAlphanum || c = '-' || c = '.'

/-- Behind a host, the text writes the default port of the scheme, or no port. -/
inductive WritesDefaultPort (scheme : Text) : Text → Prop
  | nothing : WritesDefaultPort scheme []
  | colon : WritesDefaultPort scheme [':']
  | number {zeros n : Nat} : defaultPort? scheme = some n →
      zeros + (Text.decimal n).length ≤ maxPortDigits →
      WritesDefaultPort scheme (':' :: (List.replicate zeros '0' ++ Text.decimal n))

/-- The path of what counts behind an authority, which is at least a slash. -/
def pathBehind (k : Text) : Text :=
  let path := (Text.cut '?' (Text.cut '#' k).1).1
  if path = [] then ['/'] else path

/-- The URL of a host without user and port, when `k` counts behind the authority. -/
def atHost (scheme hostname k : Text) : Url where
  scheme
  username := []
  password := []
  hostname
  port := none
  hasAuthority := true
  pathname := Path.escape (Path.removeDots (pathBehind k))
  query := (Text.cut '?' (Text.cut '#' k).1).2.getD []
  fragment := (Text.cut '#' k).2.getD []

/-- What it takes to be read as the URL of a host. -/
theorem parse_eq_atHost {t k scheme : Text} {a : Authority} (hs : isSpecial scheme = true)
    (hscheme : schemeOf (Reference.parts t) = scheme)
    (hvalid : Authority.validate (Reference.parts t).authority = .ok ())
    (ha : Authority.ofText (authorityOf t (Reference.parts t)) = a)
    (huser : a.username = [] ∧ a.password = [])
    (hport : a.portNumber = .ok none ∨ a.portNumber = .ok (defaultPort? scheme))
    (hpath : pathOf (Reference.parts t) = pathBehind k)
    (hquery : (Reference.parts t).query = (Text.cut '?' (Text.cut '#' k).1).2.getD [])
    (hfragment : (Reference.parts t).fragment = (Text.cut '#' k).2.getD []) :
    parse t = .ok (atHost scheme a.hostname k) := by
  have hof := Reference.ofText_eq_ok_iff.2 ⟨hvalid, rfl⟩
  rcases hport with hport | hport
  · refine parse_eq_ok_iff.2 ⟨_, none, hof, ha ▸ hport, ?_⟩
    simp only [resolved, hscheme, ha, huser.1, huser.2, hpath, hquery, hfragment, hs, Bool.true_or,
      ite_self]
    rfl
  · refine parse_eq_ok_iff.2 ⟨_, defaultPort? scheme, hof, ha ▸ hport, ?_⟩
    simp only [resolved, hscheme, ha, huser.1, huser.2, hpath, hquery, hfragment, hs, Bool.true_or,
      if_true]
    rfl

/-! ## Characters -/

/-- A character that an authority may hold and that neither ends nor divides it, the colon
apart. -/
structure Inert (c : Char) : Prop where
  counts : isSkipped c = false
  inside : endsAuthority c = false
  visible : hidesDelimiter c = false
  unmarked : c ∉ ['@', '[', ']']

theorem isAscii_of_isHostChar {c : Char} (h : isHostChar c = true) : isAscii c = true := by
  simp only [isHostChar, Bool.or_eq_true, decide_eq_true_eq] at h
  rcases h with (h | rfl) | rfl
  · exact isAscii_of_isAlphanum h
  · rfl
  · rfl

theorem inert_of_isHostChar {c : Char} (h : isHostChar c = true ∨ c = kelvinSign) :
    Inert c ∧ c ∉ [':', '%'] := by
  have hall : isSkipped c = false ∧ endsAuthority c = false ∧ hidesDelimiter c = false ∧
      c ∉ ['@', '[', ']'] ∧ c ∉ [':', '%'] := by
    rcases h with h | rfl
    · exact Text.of_isAscii (fun c => isHostChar c = true → isSkipped c = false ∧
        endsAuthority c = false ∧ hidesDelimiter c = false ∧ c ∉ ['@', '[', ']'] ∧
        c ∉ [':', '%']) (by decide) (isAscii_of_isHostChar h) h
    · decide
  obtain ⟨hskip, hends, hhides, hmarks, hcolon⟩ := hall
  exact ⟨⟨hskip, hends, hhides, hmarks⟩, hcolon⟩

theorem le_maxPort_of_defaultPort? {scheme : Text} {n : Nat} (h : defaultPort? scheme = some n) :
    n ≤ maxPort := by
  have hall : ∀ s ∈ ["http".toList, "https".toList, "ws".toList, "wss".toList, "ftp".toList],
      ∀ n ∈ defaultPort? s, n ≤ maxPort := by decide
  have hs : isSpecial scheme = true := by
    rw [isSpecial, h]
    rfl
  exact hall scheme (mem_of_isSpecial hs) n h

section

variable {scheme port : Text} (h : WritesDefaultPort scheme port)
include h

theorem WritesDefaultPort.inert : ∀ c ∈ port, Inert c := by
  have hcolon : Inert ':' := ⟨rfl, rfl, by decide, by decide⟩
  have digit {c : Char} (hc : c.isDigit = true) : Inert c :=
    (inert_of_isHostChar (.inl (by simp [isHostChar, Char.isAlphanum, hc]))).1
  cases h with
  | nothing => simp
  | colon => simpa using hcolon
  | number _ _ =>
    intro c hc
    rcases List.mem_cons.1 hc with rfl | hc
    · exact hcolon
    · rcases List.mem_append.1 hc with hc | hc
      · rw [(List.mem_replicate.1 hc).2]
        exact digit rfl
      · exact digit (Nat.isDigit_of_mem_toDigits (by decide) (by decide) hc)

theorem WritesDefaultPort.cut_fst : (Text.cut ':' port).1 = [] := by
  cases h with
  | nothing => rfl
  | colon => rfl
  | number _ _ => simp [Text.cut]

/-- The number of the port is none, or the default one. -/
theorem WritesDefaultPort.portNumber {a : Authority} (ha : a.port = (Text.cut ':' port).2.getD []) :
    a.portNumber = .ok none ∨ a.portNumber = .ok (defaultPort? scheme) := by
  cases h with
  | nothing => exact .inl (if_pos ha)
  | colon => exact .inl (if_pos ha)
  | @number zeros n hdefault hlength =>
    have hport : a.port = List.replicate zeros '0' ++ Text.decimal n := by
      simpa [Text.cut] using ha
    have hn : n ≤ maxPort := le_maxPort_of_defaultPort? hdefault
    rw [hdefault]
    exact .inr (Authority.portNumber_padded hport hlength hn)

end

/-! ## Letter case -/

theorem isScheme_of_lowered {s : Text} (hascii : ∀ c ∈ s, isAscii c = true)
    (h : isScheme (s.map Char.toLower) = true) : isScheme s = true := by
  cases s with
  | nil => exact h
  | cons c s =>
    rw [List.forall_mem_cons] at hascii
    rw [List.map_cons, isScheme, Bool.and_eq_true, List.all_map, List.all_eq_true] at h
    rw [isScheme, Bool.and_eq_true, List.all_eq_true]
    refine ⟨?_, fun d hd => ?_⟩
    · exact Text.of_isAscii (fun c => c.toLower.isAlpha = true → c.isAlpha = true) (by decide)
        hascii.1 h.1
    · exact Text.of_isAscii (fun d =>
        (d.toLower.isAlphanum || d.toLower = '+' || d.toLower = '-' || d.toLower = '.') = true →
          (d.isAlphanum || d = '+' || d = '-' || d = '.') = true) (by decide)
        (hascii.2 d hd) (h.2 d hd)

/-- Letters of the other case leave a special scheme what it is. -/
theorem isScheme_of_sameButCase {scheme scheme' : Text} (hs : isSpecial scheme = true)
    (h : SameButCase scheme' scheme) :
    isScheme scheme' = true ∧ scheme'.map Char.toLower = scheme := by
  have hspecial : scheme.all isAscii = true ∧ 'k' ∉ scheme := by
    have hall : ∀ s ∈ ["http".toList, "https".toList, "ws".toList, "wss".toList, "ftp".toList],
        s.all isAscii = true ∧ 'k' ∉ s := by decide
    exact hall scheme (mem_of_isSpecial hs)
  obtain ⟨hscheme, hfixed, -⟩ := isScheme_of_isSpecial hs
  have hlower : Text.lower scheme' = scheme := by
    rw [h, Text.lower_of_ascii (List.all_eq_true.1 hspecial.1), hfixed]
  have hascii : ∀ c ∈ scheme', isAscii c = true := by
    intro c hc
    obtain ⟨hkelvin, hmem⟩ := Text.isAscii_or_kelvin_of_lower
      (hlower ▸ List.all_eq_true.1 hspecial.1) c hc
    refine hkelvin.resolve_right ?_
    -- no special scheme has the letter that a kelvin sign lowers to
    rintro rfl
    exact hspecial.2 (hlower ▸ hmem 'k' (by decide +kernel))
  have hmap : scheme'.map Char.toLower = scheme := by
    rw [← Text.lower_of_ascii hascii, hlower]
  exact ⟨isScheme_of_lowered hascii (hmap ▸ hscheme), hmap⟩

/-- Letters of the other case leave a host what it is, kelvin signs for the letter `k` included. -/
theorem isHostChar_of_sameButCase {host host' : Text} (hhost : ∀ c ∈ host, isHostChar c = true)
    (h : SameButCase host' host) : ∀ c ∈ host', isHostChar c = true ∨ c = kelvinSign := by
  have case {c : Char} (hc : isAscii c = true) : isHostChar c.toLower = isHostChar c :=
    Text.of_isAscii (fun c => isHostChar c.toLower = isHostChar c) (by decide) hc
  have hlower : ∀ x ∈ Text.lower host', isHostChar x = true := by
    rw [h, Text.lower_of_ascii fun c hc => isAscii_of_isHostChar (hhost c hc)]
    intro x hx
    obtain ⟨c, hc, rfl⟩ := List.mem_map.1 hx
    rw [case (isAscii_of_isHostChar (hhost c hc))]
    exact hhost c hc
  intro c hc
  obtain ⟨hascii, hmem⟩ := Text.isAscii_or_kelvin_of_lower
    (fun x hx => isAscii_of_isHostChar (hlower x hx)) c hc
  refine hascii.imp_left fun hascii => ?_
  rw [← case hascii]
  exact hlower _ (hmem _ (by rw [Text.lowerChar_ascii hascii]; exact List.mem_cons_self))

/-! ## Reading -/

theorem validate_of_inert {a : Text} (h : ∀ c ∈ a, Inert c) : Authority.validate a = .ok () := by
  have free {c : Char} (hc : c ∈ ['@', '[', ']']) : a.contains c = false := by
    by_contra hm
    exact (h c (by simpa using hm)).unmarked hc
  have hnone : a.any hidesDelimiter = false := by
    rw [List.any_eq_false]
    intro c hc
    simp [(h c hc).visible]
  simp only [Authority.validate, Authority.validateBrackets, free (c := '[') (by decide),
    free (c := ']') (by decide), hnone]
  rfl

theorem ofText_of_inert {host port : Text} (h : ∀ c ∈ host ++ port, Inert c)
    (hhost : ':' ∉ host ∧ '%' ∉ host) (hport : (Text.cut ':' port).1 = []) :
    Authority.ofText (host ++ port) =
      ⟨[], [], Text.lower host, (Text.cut ':' port).2.getD []⟩ := by
  have free {c : Char} (hc : c ∈ ['@', '[', ']']) : c ∉ host ++ port :=
    fun hm => (h c hm).unmarked hc
  have hcut : Text.cut ':' (host ++ port) = (host, (Text.cut ':' port).2) := by
    rw [Text.cut_append hhost.1, hport, List.append_nil]
  rw [Authority.ofText, Text.cutLast_none (free (by decide))]
  simp only [Authority.hostAndPort_of_not_mem (free (by decide)), hcut,
    lowerHost_of_not_mem hhost.2]
  rfl

theorem clean_written {scheme m : Text} (hs : isScheme scheme = true)
    (hm : ∀ c ∈ scheme ++ m, isSkipped c = false) (rest : Text) :
    clean (scheme ++ (m ++ rest)) = scheme ++ (m ++ kept rest) := by
  cases scheme with
  | nil => cases hs
  | cons c s =>
    have hself : kept ((c :: s) ++ m) = (c :: s) ++ m := by
      apply List.filter_eq_self.2
      intro d hd
      simp [hm d hd]
    rw [← List.append_assoc, List.cons_append, List.cons_append,
      clean_cons_of_not_le (not_le_space_of_isScheme hs), ← List.cons_append, ← List.cons_append,
      kept, List.filter_append, ← kept, ← kept, hself, List.append_assoc]

/-- What ends an authority counts. -/
theorem kept_head_of_endsAuthority {rest : Text} (h : ∀ c ∈ rest.head?, endsAuthority c = true) :
    kept rest = [] ∨ ∃ c r, kept rest = c :: r ∧ endsAuthority c = true := by
  cases rest with
  | nil => exact .inl rfl
  | cons c r =>
    have hc := h c rfl
    have hskip : isSkipped c = false := by
      simp only [endsAuthority, Bool.or_eq_true, decide_eq_true_eq] at hc
      rcases hc with (rfl | rfl) | rfl
      · rfl
      · rfl
      · rfl
    exact .inr ⟨c, kept r, List.filter_cons_of_pos (by simp [hskip]), hc⟩

/-- An authority of characters that count is cut out, and all behind it is left. -/
theorem cuts_written {scheme authority rest : Text} (hs : isScheme scheme = true)
    (ha : ∀ c ∈ authority, Inert c) (hrest : ∀ c ∈ rest.head?, endsAuthority c = true) :
    (Reference.parts (scheme ++ "://".toList ++ authority ++ rest)).scheme =
        scheme.map Char.toLower ∧
      (Reference.parts (scheme ++ "://".toList ++ authority ++ rest)).authority = authority ∧
      afterAuthority (scheme ++ "://".toList ++ authority ++ rest) = [] ++ kept rest := by
  have ht : scheme ++ "://".toList ++ authority ++ rest =
      scheme ++ (':' :: '/' :: '/' :: authority ++ rest) := by simp
  have hskip : ∀ c ∈ scheme ++ ':' :: '/' :: '/' :: authority, isSkipped c = false := by
    intro c hc
    rcases List.mem_append.1 hc with hc | hc
    · exact isSkipped_of_mem_scheme hs hc
    · simp only [List.mem_cons] at hc
      rcases hc with rfl | rfl | rfl | hc
      · rfl
      · rfl
      · rfl
      · exact (ha c hc).counts
  have hcut : cutScheme (clean (scheme ++ "://".toList ++ authority ++ rest)) =
      (scheme.map Char.toLower, '/' :: '/' :: (authority ++ kept rest)) := by
    rw [ht, clean_written hs hskip, List.cons_append, cutScheme_of_isScheme hs]
    rfl
  have hcut' : cutAuthority ('/' :: '/' :: (authority ++ kept rest)) = (authority, kept rest) :=
    cutAuthority_written (fun c hc => (ha c hc).inside) (kept_head_of_endsAuthority hrest)
  rw [Reference.parts, afterAuthority, hcut, hcut']
  exact ⟨rfl, rfl, rfl⟩

/-- **All spellings of a host are read as its URL.** -/
theorem parse_spelled {scheme scheme' host host' port rest : Text} (hs : isSpecial scheme = true)
    (hs' : SameButCase scheme' scheme) (hhost : ∀ c ∈ host, isHostChar c = true)
    (hhost' : SameButCase host' host) (hport : WritesDefaultPort scheme port)
    (hrest : ∀ c ∈ rest.head?, endsAuthority c = true) :
    parse (scheme' ++ "://".toList ++ (host' ++ port) ++ rest) =
      .ok (atHost scheme (Text.lower host) (kept rest)) := by
  have hchars : ∀ c ∈ host', Inert c ∧ c ∉ [':', '%'] := fun c hc =>
    inert_of_isHostChar (isHostChar_of_sameButCase hhost hhost' c hc)
  have hinert : ∀ c ∈ host' ++ port, Inert c := fun c hc =>
    (List.mem_append.1 hc).elim (fun hc => (hchars c hc).1) (hport.inert c)
  have hfree : ':' ∉ host' ∧ '%' ∉ host' :=
    ⟨fun hm => (hchars _ hm).2 (by decide), fun hm => (hchars _ hm).2 (by decide)⟩
  obtain ⟨hisScheme, hlowered⟩ := isScheme_of_sameButCase hs hs'
  obtain ⟨hscheme, hauthority, hafter⟩ := cuts_written hisScheme hinert hrest
  generalize scheme' ++ "://".toList ++ (host' ++ port) ++ rest = t at *
  obtain ⟨hpath, hquery, hfragment⟩ := parts_behind hafter (by simp) (by simp)
  rw [hlowered] at hscheme
  have hne : (Reference.parts t).scheme ≠ [] := by
    rw [hscheme]
    rintro rfl
    cases hs
  have hof : authorityOf t (Reference.parts t) = host' ++ port := by
    rw [authorityOf, if_neg fun h => hne h.1, hauthority]
  have hresolved : schemeOf (Reference.parts t) = scheme := by
    rw [schemeOf, if_neg hne, hscheme]
  have hrooted : pathOf (Reference.parts t) = pathBehind (kept rest) := by
    rw [pathOf, if_neg fun h => hne h.1, hresolved, hpath, pathBehind]
    simp [hs]
  rw [← hhost']
  exact parse_eq_atHost hs hresolved (hauthority ▸ validate_of_inert hinert)
    (hof ▸ ofText_of_inert hinert hfree hport.cut_fst) ⟨rfl, rfl⟩ (hport.portNumber rfl) hrooted
    hquery hfragment

end UrlRouting.Url
