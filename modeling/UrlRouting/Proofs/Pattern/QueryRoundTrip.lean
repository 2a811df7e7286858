import UrlRouting.Proofs.Pattern.Rendering
import UrlRouting.Proofs.Pattern.Search
import UrlRouting.Proofs.Text.Octets
import UrlRouting.Proofs.Url.BehindPath
import UrlRouting.Proofs.Url.Spelling

/-!
# Writing a query and reading it

Keys and values are written into a query with every octet escaped that is no letter, digit, `-`,
`.`, `_` or `~`. No character that separates or that reading changes is left in them, so that the
pairs are read back, and a list takes the values of its name in order.

* `Query.Written t w`: `w` writes the text `t` in this way. `decode_of_written`: it decodes to `t`.
* `Query.Writes ps query`: `query` writes the pairs `ps`. `pairs_of_writes`: **the pairs are read
  back**.
* `match?_append_query`: a query behind the candidate changes nothing but what is searched.
* `search_of_writes`: **a list finds the values that were written under its name**.
-/

namespace UrlRouting

open Text.Percent (Escapes isUnreserved decode? octetsOf)

namespace Query

/-! ## Keys and values -/

/-- The text `w` writes `t`: letters, digits, `-`, `.`, `_` and `~` as they are, and all other
characters as escapes of their octets. -/
inductive Written : Text → Text → Prop
  | nil : Written [] []
  | keep {c : Char} {t w : Text} : isUnreserved c = true → Written t w → Written (c :: t) (c :: w)
  | escape {c : Char} {e t w : Text} : isUnreserved c = false →
      Escapes (String.utf8EncodeChar c) e → Written t w → Written (c :: t) (e ++ w)

theorem written_encode (t : Text) : Written t (Text.Percent.encode isUnreserved t) := by
  induction t with
  | nil => exact .nil
  | cons c t ih =>
    rw [Text.Percent.encode, List.flatMap_cons, ← Text.Percent.encode, Text.Percent.encodeChar]
    by_cases hc : isUnreserved c = true
    · rw [if_pos hc]
      exact .keep hc ih
    · rw [if_neg hc]
      exact .escape (by simpa using hc) (Text.Percent.escapes_flatMap_escape _) ih

section

variable {t w : Text} (h : Written t w)
include h

theorem Written.forall_mem : ∀ c ∈ w, isUnreserved c = true ∨ c = '%' := by
  have digit (c : Char) (hc : (Text.Percent.hexValue? c).isSome) :
      isUnreserved c = true ∨ c = '%' :=
    .inl (Text.of_isAscii (fun c => Url.isHexDigit c = true → isUnreserved c = true) (by decide)
      (Url.isAscii_of_isHexDigit hc) hc)
  induction h with
  | nil => simp
  | keep hc _ ih => exact List.forall_mem_cons.2 ⟨.inl hc, ih⟩
  | escape _ he _ ih =>
    intro c hc
    rcases List.mem_append.1 hc with hc | hc
    · exact he.forall_mem (.inr rfl) digit c hc
    · exact ih c hc

theorem Written.not_mem {c : Char} (hc : (isUnreserved c || c = '%') = false) : c ∉ w := by
  intro hm
  rcases h.forall_mem c hm with hc' | rfl
  · rw [hc'] at hc
    cases hc
  · revert hc
    decide

theorem Written.octetsOf_eq : octetsOf w = t.flatMap String.utf8EncodeChar := by
  induction h with
  | nil => rfl
  | @keep c t w hc _ ih =>
    have hpercent : c ≠ '%' := by
      rintro rfl
      cases hc
    rw [Text.Percent.octetsOf_cons fun he => absurd he hpercent, ih, List.flatMap_cons]
  | escape _ he _ ih => rw [he.octetsOf_append, ih, List.flatMap_cons]

/-- **What was written is read.** -/
theorem decode_of_written : decode w = t := by
  have hplus : (w.map fun c => if c = '+' then ' ' else c) = w := by
    have hmem : '+' ∉ w := h.not_mem (by decide)
    conv_rhs => rw [← List.map_id w]
    refine List.map_congr_left fun c hc => if_neg ?_
    rintro rfl
    exact hmem hc
  rw [decode, hplus]
  exact Text.Percent.decode_of_decode? (Text.Percent.decode?_eq_some_iff.2 h.octetsOf_eq)

end

/-! ## Pairs -/

/-- A piece writes a key, `=` and a value. -/
inductive WritesPair : Text × Text → Text → Prop
  | intro {key value w w' : Text} : Written key w → Written value w' →
      WritesPair (key, value) (w ++ '=' :: w')

/-- A query writes pairs as pieces between `&`. -/
def Writes (ps : List (Text × Text)) (query : Text) : Prop :=
  ∃ pieces, List.Forall₂ WritesPair ps pieces ∧ query = Text.join '&' pieces

theorem writes_encode (ps : List (Text × Text)) : Writes ps (Text.join '&' (ps.map fun p =>
    Text.Percent.encode isUnreserved p.1 ++ '=' :: Text.Percent.encode isUnreserved p.2)) := by
  refine ⟨_, ?_, rfl⟩
  rw [List.forall₂_map_right_iff, List.forall₂_same]
  exact fun p _ => .intro (written_encode p.1) (written_encode p.2)

section

variable {p : Text × Text} {piece : Text} (h : WritesPair p piece)
include h

theorem WritesPair.not_mem {c : Char} (hc : (isUnreserved c || c = '%' || c = '=') = false) :
    c ∉ piece := by
  rw [Bool.or_eq_false_iff, decide_eq_false_iff_not] at hc
  cases h with
  | intro hk hv =>
    simp only [List.mem_append, List.mem_cons, not_or]
    exact ⟨hk.not_mem hc.1, hc.2, hv.not_mem hc.1⟩

theorem WritesPair.ne_nil : piece ≠ [] := by
  cases h
  simp

theorem WritesPair.pair_eq : pair piece = p := by
  cases h with
  | intro hk hv =>
    rw [pair, Text.cut_some (hk.not_mem (by decide))]
    exact Prod.ext (decode_of_written hk) (decode_of_written hv)

end

section

variable {ps : List (Text × Text)} {query : Text} (h : Writes ps query)
include h

/-- **The pairs are read back.** -/
theorem pairs_of_writes : pairs query = ps := by
  obtain ⟨written, hps, rfl⟩ := h
  have hpieces : pieces (Text.join '&' written) = written := by
    have hall : ∀ piece ∈ written, '&' ∉ piece ∧ piece ≠ [] := by
      intro piece hpiece
      obtain ⟨p, -, hp⟩ := exists_of_forall₂ hps piece hpiece
      exact ⟨hp.not_mem (by decide), hp.ne_nil⟩
    by_cases hnil : written = []
    · subst hnil
      rfl
    · rw [pieces, Text.join, List.splitOn_intercalate '&' (fun x hx => (hall x hx).1) hnil]
      exact List.filter_eq_self.2 fun x hx => by simpa using (hall x hx).2
  rw [pairs, hpieces]
  clear hpieces
  induction hps with
  | nil => rfl
  | cons hp _ ih => rw [List.map_cons, hp.pair_eq, ih]

theorem Writes.not_mem {c : Char}
    (hc : (isUnreserved c || c = '%' || c = '=' || c = '&') = false) : c ∉ query := by
  obtain ⟨written, hps, rfl⟩ := h
  rw [Bool.or_eq_false_iff, decide_eq_false_iff_not] at hc
  intro hm
  refine Text.forall_mem_join (P := (· ≠ c)) (Ne.symm hc.2) (fun piece hpiece d hd => ?_) c hm rfl
  rintro rfl
  obtain ⟨p, -, hp⟩ := exists_of_forall₂ hps piece hpiece
  exact hp.not_mem hc.1 hd

end

theorem valuesOf_eq (n : Text) (ps : List (Text × Text)) :
    valuesOf n ps = (ps.filter (·.1 = n)).map Prod.snd := by
  induction ps with
  | nil => rfl
  | cons p ps ih =>
    rw [valuesOf] at ih ⊢
    by_cases hp : p.1 = n
    · have hfound : (if p.1 = n then some p.2 else none) = some p.2 := if_pos hp
      rw [List.filterMap_cons, hfound, List.filter_cons_of_pos (by simpa using hp), ih,
        List.map_cons]
    · have hother : (if p.1 = n then some p.2 else none) = none := if_neg hp
      rw [List.filterMap_cons, hother, List.filter_cons_of_neg (by simpa using hp), ih]

end Query

namespace Pattern

/-! ## What is found -/

namespace QueryField

section

variable {fields : List QueryField} {n : Text} (hn : fields.filter (·.name = n) = [⟨n, true, []⟩])
include hn

/-- The one list of a name takes all of its values. -/
theorem get?_search_of_one_list {query : Text}
    (hvalues : Query.valuesOf n (Query.pairs query) ≠ []) :
    (search fields query).get? n = some (.many (Query.valuesOf n (Query.pairs query))) := by
  obtain ⟨before, after, rfl, -, -, hafter⟩ := List.filter_eq_cons_iff.1 hn
  have hadmits : (Query.valuesOf n (Query.pairs query)).filter (admits ⟨n, true, []⟩) =
      Query.valuesOf n (Query.pairs query) := List.filter_eq_self.2 fun v _ => rfl
  have htakes : Contributes ⟨n, true, []⟩ (Query.valuesOf n (Query.pairs query))
      (.many (Query.valuesOf n (Query.pairs query))) := by
    have hmany := Contributes.many (f := ⟨n, true, []⟩) rfl hvalues
    rwa [hadmits] at hmany
  refine get?_search_eq_some_iff.2 ⟨before, _, after, rfl, rfl, htakes, fun g hg hname => ?_⟩
  exact absurd (decide_eq_true hname) (List.filter_eq_nil_iff.1 hafter g hg)

/-- **A list finds the values that were written under its name**, in order, and nothing if there
are none. -/
theorem search_of_writes {query : Text} {kvs : List (Text × Text)} (h : Query.Writes kvs query) :
    (n ∈ (search fields query).keys ↔ n ∈ kvs.map Prod.fst) ∧
      (n ∈ kvs.map Prod.fst → (search fields query).get? n =
        some (.many ((kvs.filter (·.1 = n)).map Prod.snd))) := by
  have hpairs := Query.pairs_of_writes h
  have hmem : ⟨n, true, []⟩ ∈ fields := by
    have hself : (⟨n, true, []⟩ : QueryField) ∈ fields.filter (·.name = n) := by
      rw [hn]
      exact List.mem_singleton_self _
    exact (List.mem_filter.1 hself).1
  constructor
  · rw [mem_keys_search_iff, hpairs]
    exact ⟨fun hkey => hkey.1, fun hkey => ⟨hkey, ⟨n, true, []⟩, hmem, rfl, .inl rfl⟩⟩
  · intro hkey
    rw [← Query.valuesOf_ne_nil_iff] at hkey
    rw [← Query.valuesOf_eq, ← hpairs]
    exact get?_search_of_one_list hn (hpairs ▸ hkey)

end

end QueryField

/-! ## A match -/

theorem match?_append_query {p : Pattern} {t query : Text} {m : Match} (ht : Url.PathOnly t)
    (hhash : '#' ∉ query) (hskip : ∀ c ∈ query, Url.isSkipped c = false)
    (hm : p.match? t = some m) :
    p.match? (t ++ '?' :: query) = some ⟨m.params, QueryField.search p.fields query,
      { m.url with query, fragment := [] }⟩ := by
  obtain ⟨hu, haccepts, -, segments, hcaps, hparams⟩ := parts_of_match? hm
  have hu' := Url.parse_append_query ht hhash hskip hu
  exact match?_of_accepts hu' haccepts hcaps hparams

/-- **Query values survive encoding**: whatever pairs are written behind a candidate that matches,
the parameters stay, and a list has the values under its name. -/
theorem match?_written_query {p : Pattern} {t query n : Text} {kvs : List (Text × Text)} {m : Match}
    (hn : p.fields.filter (·.name = n) = [⟨n, true, []⟩]) (ht : Url.PathOnly t)
    (hm : p.match? t = some m) (hquery : Query.Writes kvs query) :
    ∃ m', p.match? (t ++ '?' :: query) = some m' ∧ m'.params = m.params ∧
      (n ∈ m'.search.keys ↔ n ∈ kvs.map Prod.fst) ∧
      (n ∈ kvs.map Prod.fst →
        m'.search.get? n = some (.many ((kvs.filter (·.1 = n)).map Prod.snd))) := by
  have hskip : ∀ c ∈ query, Url.isSkipped c = false := by
    intro c hc
    by_contra hskipped
    simp only [Url.isSkipped, Bool.not_eq_false, Bool.or_eq_true, decide_eq_true_eq] at hskipped
    rcases hskipped with (rfl | rfl) | rfl
    · exact hquery.not_mem (by decide) hc
    · exact hquery.not_mem (by decide) hc
    · exact hquery.not_mem (by decide) hc
  have hm' := match?_append_query ht (hquery.not_mem (by decide)) hskip hm
  exact ⟨_, hm', rfl, QueryField.search_of_writes hn hquery⟩

/-- Empty texts, separators and line breaks, and a candidate with an authority. -/
theorem match?_written_query_separators :
    ∃ p m m', compile "/:x?b&a%20b[]" = .ok p ∧ p.match? "//h:81/%c3%A9" = some m ∧
      p.fields.filter (·.name = "a b".toList) = [⟨"a b", true, []⟩] ∧
      Url.PathOnly "//h:81/%c3%A9" ∧
      p.match? "//h:81/%c3%A9?a%20b=%C3%A9%26%3D%0A&=&a%20b=&b=%2B%23%25" = some m' ∧
      m'.params = m.params ∧ m'.search.get? "a b" = some (.many ["é&=\n", []]) := by
  have hp : compile "/:x?b&a%20b[]" = .ok ⟨"/:x?b&a%20b[]", [.capture "x"],
      [⟨"b", false, []⟩, ⟨"a b", true, []⟩], none⟩ := by decide +kernel
  have hm : ((Pattern.mk "/:x?b&a%20b[]" [.capture "x"]
      [⟨"b", false, []⟩, ⟨"a b", true, []⟩] none).match? "//h:81/%c3%A9").isSome = true := by
    decide +kernel
  obtain ⟨m, hm⟩ := Option.isSome_iff_exists.1 hm
  have hn : [(⟨"b", false, []⟩ : QueryField), ⟨"a b", true, []⟩].filter (·.name = "a b".toList) =
      [⟨"a b", true, []⟩] := by decide
  have hpath : Url.PathOnly "//h:81/%c3%A9" := by decide
  have hwritten := Query.writes_encode
    [("a b".toList, "é&=\n".toList), ([], []), ("a b".toList, []), ("b".toList, "+#%".toList)]
  have hquery : Text.join '&' ([("a b".toList, "é&=\n".toList), ([], []), ("a b".toList, []),
      ("b".toList, "+#%".toList)].map fun p => Text.Percent.encode isUnreserved p.1 ++
        '=' :: Text.Percent.encode isUnreserved p.2) =
      "a%20b=%C3%A9%26%3D%0A&=&a%20b=&b=%2B%23%25" := by decide +kernel
  rw [hquery] at hwritten
  obtain ⟨m', hm', hparams, -, hget⟩ := match?_written_query hn hpath hm hwritten
  exact ⟨_, m, m', hp, hm, hn, hpath, hm', hparams, hget (by decide)⟩

end Pattern

end UrlRouting
