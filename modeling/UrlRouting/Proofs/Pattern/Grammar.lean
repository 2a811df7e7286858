import UrlRouting.Pattern.Basic
import UrlRouting.Proofs.FirstFailure
import UrlRouting.Proofs.Pattern.FieldForm
import UrlRouting.Proofs.Url.Pathname

/-!
# The grammar of patterns

Which sources compile, and what is blamed when one does not.

* `Grammatical source`: `source` is a URL, every non-empty segment of its path is a token when it
  is decoded, and every non-empty piece of its query is a field.
* `Offender source blamed`: `blamed` is the first thing wrong with `source`. The URL comes before
  the path, and the whole path before the query.
* `compile_iff_grammatical_and_blames_offender`: **the sources that compile are the grammatical
  ones, and any other source fails with its first offender**.
* `error_of_compile`: what an error of a source tells, a too long source included.
-/

namespace UrlRouting

namespace Pattern

open Text.Percent (decode)

/-! ## Sources -/

/-- A source that the grammar of patterns admits. -/
def Grammatical (source : Text) : Prop :=
  ∃ u, Url.parse source = .ok u ∧
    (∀ s ∈ Path.segments u.pathname, Accepted TokenForm (decode s)) ∧
    ∀ piece ∈ Query.pieces u.query, Accepted FieldForm piece

/-- The first thing wrong with a source. -/
inductive Offender (source : Text) : Text → Prop
  | url {e : Url.Error} : Url.parse source = .error e → Offender source source
  | token {u : Url} {before after : List Text} {s blamed : Text} : Url.parse source = .ok u →
      Path.segments u.pathname = before ++ s :: after →
      (∀ x ∈ before, Accepted TokenForm (decode x)) → Blamed TokenForm (decode s) blamed →
      Offender source blamed
  | field {u : Url} {before after : List Text} {piece blamed : Text} : Url.parse source = .ok u →
      (∀ s ∈ Path.segments u.pathname, Accepted TokenForm (decode s)) →
      Query.pieces u.query = before ++ piece :: after → (∀ x ∈ before, Accepted FieldForm x) →
      Blamed FieldForm piece blamed → Offender source blamed

/-! ## The path and the query -/

theorem Token.ofPath_eq_ok_iff {path : Text} {tokens : List Token} :
    Token.ofPath path = .ok tokens ↔ List.Forall₂ Token.Spells (Path.segments path) tokens := by
  rw [Token.ofPath, mapM_eq_ok_iff]
  have h : ∀ s ∈ Path.segments path, s ≠ [] := fun s => Path.ne_nil_of_mem_segments
  simp only [Path.segments] at h ⊢
  generalize (path.splitOn '/').filter (· ≠ []) = l at h ⊢
  induction l generalizing tokens with
  | nil => simp
  | cons s l ih =>
    rw [List.forall_mem_cons] at h
    simp only [List.forall₂_cons_left_iff, ih h.2, Token.ofSegment_eq_ok_iff h.1]

theorem Token.exists_ofPath_eq_ok_iff {path : Text} :
    (∃ tokens, Token.ofPath path = .ok tokens) ↔
      ∀ s ∈ Path.segments path, Accepted TokenForm (decode s) := by
  rw [Token.ofPath, exists_mapM_eq_ok_iff]
  exact forall₂_congr fun s hs =>
    Token.exists_ofSegment_eq_ok_iff (Path.ne_nil_of_mem_segments hs)

theorem Token.ofPath_eq_error_iff {path blamed : Text} :
    Token.ofPath path = .error blamed ↔
      ∃ before s after, Path.segments path = before ++ s :: after ∧
        (∀ x ∈ before, Accepted TokenForm (decode x)) ∧ Blamed TokenForm (decode s) blamed := by
  rw [Token.ofPath, mapM_eq_error_iff]
  refine exists_congr fun before => exists_congr fun s => exists_congr fun after =>
    and_congr_right fun he => ?_
  have h : ∀ x ∈ before ++ s :: after, x ≠ [] := fun x hx =>
    Path.ne_nil_of_mem_segments (he.symm ▸ hx)
  refine and_congr (forall₂_congr fun x hx => ?_) ?_
  · exact Token.exists_ofSegment_eq_ok_iff (h x (by simp [hx]))
  · exact Token.ofSegment_eq_error_iff (h s (by simp))

theorem QueryField.exists_ofQuery_eq_ok_iff {query : Text} :
    (∃ fields, QueryField.ofQuery query = .ok fields) ↔
      ∀ piece ∈ Query.pieces query, Accepted FieldForm piece := by
  simp only [QueryField.ofQuery, exists_mapM_eq_ok_iff, QueryField.exists_ofPiece_eq_ok_iff]

theorem QueryField.ofQuery_eq_error_iff {query blamed : Text} :
    QueryField.ofQuery query = .error blamed ↔
      ∃ before piece after, Query.pieces query = before ++ piece :: after ∧
        (∀ x ∈ before, Accepted FieldForm x) ∧ Blamed FieldForm piece blamed := by
  simp only [QueryField.ofQuery, mapM_eq_error_iff, QueryField.exists_ofPiece_eq_ok_iff,
    QueryField.ofPiece_eq_error_iff]

/-! ## Compiling -/

theorem compile_of_tooLong {source : Text} (hlen : maxLength < source.length) :
    compile source = .error (.tooLong source.length) := by
  simp [compile, hlen, throw, throwThe, MonadExceptOf.throw, bind, Except.bind]

section

variable {source : Text} (hlen : source.length ≤ maxLength)
include hlen

theorem compile_of_url_error {e : Url.Error} (hu : Url.parse source = .error e) :
    compile source = .error (.badToken source source) := by
  simp [compile, Nat.not_lt.2 hlen, hu, Except.mapError, bind, Except.bind]

theorem compile_of_token_error {u : Url} {blamed : Text} (hu : Url.parse source = .ok u)
    (ht : Token.ofPath u.pathname = .error blamed) :
    compile source = .error (.badToken source blamed) := by
  simp [compile, Nat.not_lt.2 hlen, hu, ht, Except.mapError, bind, Except.bind]

theorem compile_of_field_error {u : Url} {tokens : List Token} {blamed : Text}
    (hu : Url.parse source = .ok u) (ht : Token.ofPath u.pathname = .ok tokens)
    (hf : QueryField.ofQuery u.query = .error blamed) :
    compile source = .error (.badToken source blamed) := by
  simp [compile, Nat.not_lt.2 hlen, hu, ht, hf, Except.mapError, bind, Except.bind]

theorem compile_of_ok {u : Url} {tokens : List Token} {fields : List QueryField}
    (hu : Url.parse source = .ok u) (ht : Token.ofPath u.pathname = .ok tokens)
    (hf : QueryField.ofQuery u.query = .ok fields) :
    compile source = .ok ⟨source, tokens, fields,
      if Url.hasScheme source then some u.origin else none⟩ := by
  simp [compile, Nat.not_lt.2 hlen, hu, ht, hf, Except.mapError, bind, Except.bind, pure,
    Except.pure]

theorem compile_of_grammatical (h : Grammatical source) : ∃ p, compile source = .ok p := by
  obtain ⟨u, hu, ht, hf⟩ := h
  obtain ⟨tokens, ht⟩ := Token.exists_ofPath_eq_ok_iff.2 ht
  obtain ⟨fields, hf⟩ := QueryField.exists_ofQuery_eq_ok_iff.2 hf
  exact ⟨_, compile_of_ok hlen hu ht hf⟩

theorem compile_of_offender {blamed : Text} (h : Offender source blamed) :
    compile source = .error (.badToken source blamed) := by
  cases h with
  | url hu => exact compile_of_url_error hlen hu
  | token hu hs hbefore hb =>
    exact compile_of_token_error hlen hu (Token.ofPath_eq_error_iff.2 ⟨_, _, _, hs, hbefore, hb⟩)
  | field hu ht hs hbefore hb =>
    obtain ⟨tokens, ht⟩ := Token.exists_ofPath_eq_ok_iff.2 ht
    exact compile_of_field_error hlen hu ht
      (QueryField.ofQuery_eq_error_iff.2 ⟨_, _, _, hs, hbefore, hb⟩)

end

/-- The parts of a pattern that a source compiles to. -/
theorem parts_of_compile {source : Text} {p : Pattern} (h : compile source = .ok p) :
    ∃ u, Url.parse source = .ok u ∧ Token.ofPath u.pathname = .ok p.tokens ∧
      QueryField.ofQuery u.query = .ok p.fields ∧
      p.origin = if Url.hasScheme source then some u.origin else none := by
  have hlen : source.length ≤ maxLength := by
    by_contra hlen
    rw [compile_of_tooLong (Nat.not_le.1 hlen)] at h
    cases h
  cases hu : Url.parse source with
  | error e =>
    rw [compile_of_url_error hlen hu] at h
    cases h
  | ok u =>
    cases ht : Token.ofPath u.pathname with
    | error blamed =>
      rw [compile_of_token_error hlen hu ht] at h
      cases h
    | ok tokens =>
      cases hf : QueryField.ofQuery u.query with
      | error blamed =>
        rw [compile_of_field_error hlen hu ht hf] at h
        cases h
      | ok fields =>
        rw [compile_of_ok hlen hu ht hf] at h
        obtain rfl := Except.ok.inj h
        exact ⟨u, rfl, ht, hf, rfl⟩

/-- A source is grammatical, or something is the first thing wrong with it. -/
theorem grammatical_or_offender (source : Text) :
    Grammatical source ∨ ∃ blamed, Offender source blamed := by
  cases hu : Url.parse source with
  | error e => exact .inr ⟨source, .url hu⟩
  | ok u =>
    cases ht : Token.ofPath u.pathname with
    | error blamed =>
      obtain ⟨before, s, after, hs, hbefore, hb⟩ := Token.ofPath_eq_error_iff.1 ht
      exact .inr ⟨blamed, .token hu hs hbefore hb⟩
    | ok tokens =>
      have ht := Token.exists_ofPath_eq_ok_iff.1 ⟨tokens, ht⟩
      cases hf : QueryField.ofQuery u.query with
      | error blamed =>
        obtain ⟨before, piece, after, hs, hbefore, hb⟩ := QueryField.ofQuery_eq_error_iff.1 hf
        exact .inr ⟨blamed, .field hu ht hs hbefore hb⟩
      | ok fields =>
        exact .inl ⟨u, hu, ht, QueryField.exists_ofQuery_eq_ok_iff.1 ⟨fields, hf⟩⟩

/-- The error of a source tells its length, or names the source and a token. -/
theorem error_of_compile {source : Text} {e : Error} (h : compile source = .error e) :
    e = .tooLong source.length ∨ ∃ token, e = .badToken source token := by
  rcases Nat.lt_or_ge maxLength source.length with hlen | hlen
  · rw [compile_of_tooLong hlen] at h
    exact .inl (Except.error.inj h).symm
  · rcases grammatical_or_offender source with hg | ⟨blamed, hb⟩
    · obtain ⟨p, hp⟩ := compile_of_grammatical hlen hg
      rw [hp] at h
      cases h
    · rw [compile_of_offender hlen hb] at h
      exact .inr ⟨blamed, (Except.error.inj h).symm⟩

/-- **The compiler accepts exactly its grammar and blames the first offender.** -/
theorem compile_iff_grammatical_and_blames_offender {source : Text}
    (hlen : source.length ≤ maxLength) :
    ((∃ p, compile source = .ok p) ↔ Grammatical source) ∧
      ∀ e, compile source = .error e ↔ ∃ blamed, Offender source blamed ∧
        e = .badToken source blamed := by
  rcases grammatical_or_offender source with hg | ⟨blamed, hb⟩
  · obtain ⟨p, hp⟩ := compile_of_grammatical hlen hg
    refine ⟨iff_of_true ⟨p, hp⟩ hg, fun e => ?_⟩
    rw [hp]
    refine iff_of_false (by simp) ?_
    intro h
    obtain ⟨blamed, hb, -⟩ := h
    rw [compile_of_offender hlen hb] at hp
    cases hp
  · have he := compile_of_offender hlen hb
    refine ⟨iff_of_false (by simp [he]) fun hg => ?_, fun e => ?_⟩
    · obtain ⟨p, hp⟩ := compile_of_grammatical hlen hg
      rw [hp] at he
      cases he
    · constructor
      · intro h
        rw [he] at h
        exact ⟨blamed, hb, (Except.error.inj h).symm⟩
      · intro h
        obtain ⟨b, hb', rfl⟩ := h
        exact compile_of_offender hlen hb'

/-- The path is read to its end before the query, and an empty alternative is blamed without the
name before it. -/
theorem offender_empty_alternative :
    "/:id\x7ba|\x7d?\x7bx\x7d".toList.length ≤ maxLength ∧
      ¬ Grammatical "/:id\x7ba|\x7d?\x7bx\x7d".toList ∧
      Offender "/:id\x7ba|\x7d?\x7bx\x7d".toList "\x7ba|\x7d" := by
  have hlen : "/:id\x7ba|\x7d?\x7bx\x7d".toList.length ≤ maxLength := by decide
  obtain ⟨hok, herr⟩ := compile_iff_grammatical_and_blames_offender hlen
  have he : compile "/:id\x7ba|\x7d?\x7bx\x7d".toList =
      .error (.badToken "/:id\x7ba|\x7d?\x7bx\x7d" "\x7ba|\x7d") := by decide +kernel
  refine ⟨hlen, fun hg => ?_, ?_⟩
  · obtain ⟨p, hp⟩ := hok.2 hg
    rw [he] at hp
    cases hp
  · obtain ⟨blamed, hb, heq⟩ := (herr _).1 he
    obtain ⟨-, rfl⟩ := Error.badToken.inj heq
    exact hb

end Pattern

end UrlRouting
