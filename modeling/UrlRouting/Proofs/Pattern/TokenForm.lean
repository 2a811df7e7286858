import Mathlib.Data.List.TakeWhile
import UrlRouting.Pattern.Token

/-!
# Forms of path tokens

Which decoded segments are tokens, said without the function that classifies them.

* `TokenForm t body`: `t` has the outer form of a token; `body` is the body of the union that ends
  it, if there is one.
* `Accepted` and `Blamed`: a text of such a form is accepted if no alternative of its union is
  empty. Otherwise the union is blamed, and a text of no form is blamed as a whole.
* `Token.Spells`: the token that a segment spells.
* `Token.ofSegment_eq_ok_iff`, `Token.ofSegment_eq_error_iff`: **classification gives the token
  that a segment spells, or the text to blame**.
-/

namespace UrlRouting.Pattern

/-! ## Forms -/

/-- A text of some form, no alternative of whose union is empty. -/
def Accepted (Form : Text → Option Text → Prop) (t : Text) : Prop :=
  ∃ body, Form t body ∧ ∀ b ∈ body, [] ∉ b.splitOn '|'

/-- The text to blame when `t` is not accepted: `t` if it has no form at all, the union if all that
is wrong is an empty alternative. -/
inductive Blamed (Form : Text → Option Text → Prop) (t : Text) : Text → Prop
  | form : (∀ body, ¬ Form t body) → Blamed Form t t
  | alternative {body : Text} : Form t (some body) → [] ∈ body.splitOn '|' →
      Blamed Form t (Union.written body)

/-- The outer form of a path token: a text without a brace other than a lone colon, or a union,
which may follow a colon and a name. -/
inductive TokenForm : Text → Option Text → Prop
  | plain {t : Text} : '\x7b' ∉ t → t ≠ [':'] → TokenForm t none
  | union {body : Text} : Union.IsBody body → TokenForm (Union.written body) (some body)
  | choice {name body : Text} : name ≠ [] → '\x7b' ∉ name → Union.IsBody body →
      TokenForm (':' :: name ++ Union.written body) (some body)

theorem accepted_or_blamed (Form : Text → Option Text → Prop) (t : Text) :
    Accepted Form t ∨ ∃ b, Blamed Form t b := by
  by_cases h : ∃ body, Form t body
  · obtain ⟨body, h⟩ := h
    cases body with
    | none => exact .inl ⟨none, h, by simp⟩
    | some b =>
      by_cases hb : [] ∈ b.splitOn '|'
      · exact .inr ⟨_, .alternative h hb⟩
      · exact .inl ⟨some b, h, by simpa using hb⟩
  · exact .inr ⟨t, .form fun body hf => h ⟨body, hf⟩⟩

namespace Token

open Text.Percent (decode)

/-- The token that a segment spells. Only its decoded form counts, but a literal keeps the normal
form of the segment. -/
inductive Spells (segment : Text) : Token → Prop
  | anySegment : decode segment = ['*'] → Spells segment anySegment
  | anySegments : decode segment = ['*', '*'] → Spells segment anySegments
  | literal : '\x7b' ∉ decode segment → (decode segment).head? ≠ some ':' →
      decode segment ≠ ['*'] → decode segment ≠ ['*', '*'] →
      Spells segment (literal (Segment.normalForm segment))
  | capture {name : Text} : decode segment = ':' :: name → name ≠ [] → '\x7b' ∉ name →
      Spells segment (capture name)
  | union {body : Text} : decode segment = Union.written body → Union.IsBody body →
      [] ∉ body.splitOn '|' → Spells segment (union (body.splitOn '|'))
  | choice {name body : Text} : decode segment = ':' :: name ++ Union.written body → name ≠ [] →
      '\x7b' ∉ name → Union.IsBody body → [] ∉ body.splitOn '|' →
      Spells segment (choice name (body.splitOn '|'))

/-! ## Cutting into the outer form -/

/-- Take off the colon of a marked text. -/
def Shape.unmark : Text → Bool × Text
  | ':' :: r => (true, r)
  | r => (false, r)

theorem Shape.unmark_of_head {t : Text} (h : t.head? ≠ some ':') : unmark t = (false, t) := by
  unfold unmark
  split
  · exact absurd rfl h
  · rfl

/-- The outer form of a text whose colon, if it is marked, has been taken off. -/
def Shape.ofUnmarked? (marked : Bool) (t : Text) : Option Shape :=
  match t.dropWhile (· ≠ '\x7b') with
  | [] => some ⟨marked, t.takeWhile (· ≠ '\x7b'), none⟩
  | _ :: r =>
    match Union.cut? r with
    | some (body, []) => some ⟨marked, t.takeWhile (· ≠ '\x7b'), some body⟩
    | _ => none

theorem Shape.ofText?_eq (t : Text) : ofText? t = ofUnmarked? (unmark t).1 (unmark t).2 := rfl

theorem Shape.ofText?_colon (t : Text) : ofText? (':' :: t) = ofUnmarked? true t := rfl

theorem Shape.ofText?_unmarked {t : Text} (h : t.head? ≠ some ':') :
    ofText? t = ofUnmarked? false t := by
  rw [ofText?_eq, unmark_of_head h]

theorem Shape.ofUnmarked?_plain (m : Bool) {t : Text} (h : '\x7b' ∉ t) :
    ofUnmarked? m t = some ⟨m, t, none⟩ := by
  have ht : ∀ c ∈ t, decide (c ≠ '\x7b') = true := by
    intro c hc
    simpa using fun he : c = '\x7b' => h (he ▸ hc)
  rw [ofUnmarked?, List.dropWhile_eq_nil_iff.2 ht, List.takeWhile_eq_self_iff.2 ht]

/-- A name before a brace is cut off at the brace. -/
theorem Shape.ofUnmarked?_brace (m : Bool) {name : Text} (h : '\x7b' ∉ name) (r : Text) :
    ofUnmarked? m (name ++ '\x7b' :: r) =
      match Union.cut? r with
      | some (body, []) => some ⟨m, name, some body⟩
      | _ => none := by
  have ht : ∀ c ∈ name, decide (c ≠ '\x7b') = true := by
    intro c hc
    simpa using fun he : c = '\x7b' => h (he ▸ hc)
  have hd : (name ++ '\x7b' :: r).dropWhile (· ≠ '\x7b') = '\x7b' :: r := by
    rw [List.dropWhile_append_of_pos ht, List.dropWhile_cons_of_neg (by simp)]
  have hw : (name ++ '\x7b' :: r).takeWhile (· ≠ '\x7b') = name := by
    rw [List.takeWhile_append_of_pos ht, List.takeWhile_cons_of_neg (by simp), List.append_nil]
  rw [ofUnmarked?, hd, hw]

theorem Shape.ofUnmarked?_union (m : Bool) {name body : Text} (h : '\x7b' ∉ name)
    (hb : Union.IsBody body) :
    ofUnmarked? m (name ++ Union.written body) = some ⟨m, name, some body⟩ := by
  have hc : Union.cut? (body ++ ['\x7d']) = some (body, []) := Union.cut?_eq_some_iff.2 ⟨hb, rfl⟩
  rw [Union.written, List.cons_append, ofUnmarked?_brace m h, hc]

/-- What follows a brace must be a body and the brace that ends it. -/
theorem Shape.ofUnmarked?_brace_eq_none (m : Bool) {name r : Text} (h : '\x7b' ∉ name)
    (hr : ∀ body, Union.IsBody body → r ≠ body ++ ['\x7d']) :
    ofUnmarked? m (name ++ '\x7b' :: r) = none := by
  rw [ofUnmarked?_brace m h]
  split
  · rename_i body hc
    obtain ⟨hb, he⟩ := Union.cut?_eq_some_iff.1 hc
    exact absurd he (hr body hb)
  · rfl

/-! ## Classification -/

theorem ofSegment_union {segment body : Text} (hd : decode segment = Union.written body)
    (hb : Union.IsBody body) : ofSegment segment = (alternatives body).map union := by
  have hs : Shape.ofText? (decode segment) = some ⟨false, [], some body⟩ := by
    rw [hd, Shape.ofText?_unmarked (by simp [Union.written])]
    exact @Shape.ofUnmarked?_union false [] body (by simp) hb
  simp only [ofSegment, hs]

theorem ofSegment_choice {segment name body : Text}
    (hd : decode segment = ':' :: name ++ Union.written body) (hn : name ≠ [])
    (hb : '\x7b' ∉ name) (hbody : Union.IsBody body) :
    ofSegment segment = (alternatives body).map (choice name) := by
  have hs : Shape.ofText? (decode segment) = some ⟨true, name, some body⟩ := by
    rw [hd, List.cons_append, Shape.ofText?_colon, Shape.ofUnmarked?_union true hb hbody]
  obtain ⟨c, r, rfl⟩ := List.exists_cons_of_ne_nil hn
  simp only [ofSegment, hs]

theorem ofSegment_of_spells {segment : Text} {t : Token} (hne : segment ≠ [])
    (h : Spells segment t) : ofSegment segment = .ok t := by
  cases h with
  | anySegment hd => simp only [ofSegment, hd]; rfl
  | anySegments hd => simp only [ofSegment, hd]; rfl
  | literal hb hm h1 h2 =>
    have hs : Shape.ofText? (decode segment) = some ⟨false, decode segment, none⟩ := by
      rw [Shape.ofText?_unmarked hm, Shape.ofUnmarked?_plain false hb]
    obtain ⟨c, r, hd⟩ := List.exists_cons_of_ne_nil (Text.Percent.decode_ne_nil hne)
    rw [hd] at hs h1 h2
    simp only [ofSegment, hd, hs]
    split <;> simp_all
  | @capture name hd hn hb =>
    have hs : Shape.ofText? (decode segment) = some ⟨true, name, none⟩ := by
      rw [hd, Shape.ofText?_colon, Shape.ofUnmarked?_plain true hb]
    obtain ⟨c, r, rfl⟩ := List.exists_cons_of_ne_nil hn
    simp only [ofSegment, hs]
  | union hd hb ha =>
    rw [ofSegment_union hd hb, alternatives, Union.alternatives?_eq_some ha]
    rfl
  | choice hd hn hb hbody ha =>
    rw [ofSegment_choice hd hn hb hbody, alternatives, Union.alternatives?_eq_some ha]
    rfl

theorem exists_spells {segment : Text} (h : Accepted TokenForm (decode segment)) :
    ∃ t, Spells segment t := by
  obtain ⟨body, hf, ha⟩ := h
  generalize hd : decode segment = d at hf
  cases hf with
  | plain hb hc =>
    by_cases hm : d.head? = some ':'
    · obtain ⟨r, rfl⟩ : ∃ r, d = ':' :: r := by
        cases d with
        | nil => cases hm
        | cons c r => exact ⟨r, by rw [Option.some.inj hm]⟩
      have hr : r ≠ [] := fun he => hc (by rw [he])
      exact ⟨_, .capture hd hr fun hi => hb (List.mem_cons_of_mem _ hi)⟩
    · by_cases h1 : d = ['*']
      · exact ⟨_, .anySegment (hd.trans h1)⟩
      · by_cases h2 : d = ['*', '*']
        · exact ⟨_, .anySegments (hd.trans h2)⟩
        · subst hd
          exact ⟨_, .literal hb hm h1 h2⟩
  | union hb => exact ⟨_, .union hd hb (ha _ rfl)⟩
  | choice hn hb hbody => exact ⟨_, .choice hd hn hb hbody (ha _ rfl)⟩

theorem Spells.accepted {segment : Text} {t : Token} (h : Spells segment t) :
    Accepted TokenForm (decode segment) := by
  cases h with
  | anySegment hd => exact ⟨none, hd ▸ .plain (by decide) (by decide), by simp⟩
  | anySegments hd => exact ⟨none, hd ▸ .plain (by decide) (by decide), by simp⟩
  | literal hb hm _ _ =>
    refine ⟨none, .plain hb fun he => hm ?_, by simp⟩
    rw [he]
    rfl
  | capture hd hn hb =>
    refine ⟨none, hd ▸ .plain ?_ ?_, by simp⟩
    · simpa using hb
    · simpa using hn
  | @union body hd hb ha => exact ⟨some body, hd ▸ .union hb, by simpa using ha⟩
  | @choice name body hd hn hb hbody ha =>
    exact ⟨some body, hd ▸ .choice hn hb hbody, by simpa using ha⟩

theorem head?_append_brace {a : Text} (h : a.head? ≠ some ':') (r : Text) :
    (a ++ '\x7b' :: r).head? ≠ some ':' := by
  cases a with
  | nil => simp
  | cons c a => simpa using h

/-- A brace that opens no union at the end of the text leaves no outer form. -/
theorem Shape.ofText?_brace_eq_none {a r : Text} (ha : '\x7b' ∉ a)
    (hr : ∀ body, Union.IsBody body → r ≠ body ++ ['\x7d']) :
    ofText? (a ++ '\x7b' :: r) = none := by
  by_cases hm : a.head? = some ':'
  · obtain ⟨name, rfl⟩ := List.head?_eq_some_iff.1 hm
    rw [List.mem_cons, not_or] at ha
    exact ofUnmarked?_brace_eq_none true ha.2 hr
  · rw [ofText?_unmarked (head?_append_brace hm r)]
    exact ofUnmarked?_brace_eq_none false ha hr

/-- A segment of no form is blamed as a whole. -/
theorem ofSegment_of_no_form {segment : Text} (h : ∀ body, ¬ TokenForm (decode segment) body) :
    ofSegment segment = .error (decode segment) := by
  generalize hd : decode segment = d at h
  by_cases hb : '\x7b' ∈ d
  · obtain ⟨a, r, rfl, ha⟩ := List.eq_append_cons_of_mem hb
    by_cases hr : ∃ body, Union.IsBody body ∧ r = body ++ ['\x7d']
    · -- A union ends the text, so what stands before it is neither nothing nor a marked name.
      obtain ⟨body, hbody, rfl⟩ := hr
      by_cases hm : a.head? = some ':'
      · obtain ⟨name, rfl⟩ := List.head?_eq_some_iff.1 hm
        rw [List.mem_cons, not_or] at ha
        have hn : name = [] := by
          by_contra hn
          exact h _ (.choice hn ha.2 hbody)
        subst hn
        have hs : Shape.ofText? ([':'] ++ '\x7b' :: (body ++ ['\x7d'])) =
            some ⟨true, [], some body⟩ := Shape.ofUnmarked?_union true ha.2 hbody
        simp only [ofSegment, hd, hs]
      · have hn : a ≠ [] := by
          intro he
          subst he
          exact h _ (.union hbody)
        obtain ⟨c, a, rfl⟩ := List.exists_cons_of_ne_nil hn
        have hs : Shape.ofText? (c :: a ++ '\x7b' :: (body ++ ['\x7d'])) =
            some ⟨false, c :: a, some body⟩ := by
          rw [Shape.ofText?_unmarked (head?_append_brace hm _)]
          exact Shape.ofUnmarked?_union false ha hbody
        simp only [ofSegment, hd, hs]
    · have hs : Shape.ofText? (a ++ '\x7b' :: r) = none :=
        Shape.ofText?_brace_eq_none ha fun body hbody he => hr ⟨body, hbody, he⟩
      simp only [ofSegment, hd, hs]
  · have hc : d = [':'] := by
      by_contra hc
      exact h _ (.plain hb hc)
    subst hc
    simp only [ofSegment, hd]
    rfl

theorem ofSegment_of_blamed {segment blamed : Text}
    (h : Blamed TokenForm (decode segment) blamed) : ofSegment segment = .error blamed := by
  generalize hd : decode segment = d at h
  cases h with
  | form hf =>
    subst hd
    exact ofSegment_of_no_form hf
  | alternative hf ha =>
    cases hf with
    | union hb =>
      rw [ofSegment_union hd hb, alternatives, Union.alternatives?_eq_none ha]
      rfl
    | choice hn hb hbody =>
      rw [ofSegment_choice hd hn hb hbody, alternatives, Union.alternatives?_eq_none ha]
      rfl

/-- **Classification gives the token that a segment spells.** -/
theorem ofSegment_eq_ok_iff {segment : Text} {t : Token} (hne : segment ≠ []) :
    ofSegment segment = .ok t ↔ Spells segment t := by
  refine ⟨fun h => ?_, ofSegment_of_spells hne⟩
  rcases accepted_or_blamed TokenForm (decode segment) with ha | ⟨b, hb⟩
  · obtain ⟨t', ht⟩ := exists_spells ha
    rw [ofSegment_of_spells hne ht] at h
    rwa [← Except.ok.inj h]
  · rw [ofSegment_of_blamed hb] at h
    cases h

/-- **A segment fails with the text to blame.** -/
theorem ofSegment_eq_error_iff {segment blamed : Text} (hne : segment ≠ []) :
    ofSegment segment = .error blamed ↔ Blamed TokenForm (decode segment) blamed := by
  refine ⟨fun h => ?_, ofSegment_of_blamed⟩
  rcases accepted_or_blamed TokenForm (decode segment) with ha | ⟨b, hb⟩
  · obtain ⟨t, ht⟩ := exists_spells ha
    rw [ofSegment_of_spells hne ht] at h
    cases h
  · rw [ofSegment_of_blamed hb] at h
    rwa [← Except.error.inj h]

theorem exists_ofSegment_eq_ok_iff {segment : Text} (hne : segment ≠ []) :
    (∃ t, ofSegment segment = .ok t) ↔ Accepted TokenForm (decode segment) := by
  simp only [ofSegment_eq_ok_iff hne]
  exact ⟨fun ⟨_, h⟩ => h.accepted, exists_spells⟩

end Token

end UrlRouting.Pattern
