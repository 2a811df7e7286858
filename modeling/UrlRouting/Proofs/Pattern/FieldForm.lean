import Mathlib.Data.List.TakeWhile
import UrlRouting.Pattern.QueryField
import UrlRouting.Proofs.Pattern.TokenForm

/-!
# Forms of query fields

Which pieces of a pattern's query are fields, said without the function that reads them. Unlike a
path token a field is not decoded before it is cut.

* `FieldForm t body`: `t` has the form of a field; `body` is the body of its union, if it has one.
* `QueryField.Spells`: the field that a piece spells.
* `QueryField.ofPiece_eq_ok_iff`, `QueryField.ofPiece_eq_error_iff`: **reading a piece gives the
  field that it spells, or the text to blame**.
-/

namespace UrlRouting.Pattern

/-! ## Forms -/

/-- A text that may stand as the name of a field. -/
def IsFieldName (name : Text) : Prop := name ≠ [] ∧ '\x7b' ∉ name ∧ '[' ∉ name ∧ ']' ∉ name

/-- What marks a field as a list. -/
def listMark (isList : Bool) : Text := if isList then ['[', ']'] else []

/-- The form of a field: a name, which a union and the mark of a list may follow. -/
inductive FieldForm : Text → Option Text → Prop
  | plain {name : Text} (isList : Bool) : IsFieldName name →
      FieldForm (name ++ listMark isList) none
  | union {name body : Text} (isList : Bool) : IsFieldName name → Union.IsBody body →
      FieldForm (name ++ Union.written body ++ listMark isList) (some body)

namespace QueryField

/-- The field that a piece spells. -/
inductive Spells (piece : Text) : QueryField → Prop
  | plain {name : Text} (isList : Bool) : piece = name ++ listMark isList → IsFieldName name →
      Spells piece ⟨Query.decode name, isList, []⟩
  | union {name body : Text} (isList : Bool) :
      piece = name ++ Union.written body ++ listMark isList → IsFieldName name →
      Union.IsBody body → [] ∉ body.splitOn '|' →
      Spells piece ⟨Query.decode name, isList, (body.splitOn '|').map Query.decode⟩

theorem isFieldName_iff {name : Text} :
    IsFieldName name ↔ name ≠ [] ∧ ∀ c ∈ name, endsName c = false := by
  simp only [IsFieldName, endsName, Bool.or_eq_false_iff, decide_eq_false_iff_not]
  refine and_congr_right fun _ => ?_
  constructor
  · rintro ⟨h1, h2, h3⟩ c hc
    exact ⟨⟨fun he => h1 (he ▸ hc), fun he => h2 (he ▸ hc)⟩, fun he => h3 (he ▸ hc)⟩
  · intro h
    exact ⟨fun hc => (h _ hc).1.1 rfl, fun hc => (h _ hc).1.2 rfl, fun hc => (h _ hc).2 rfl⟩

theorem listMark?_eq_some_iff {t : Text} {isList : Bool} :
    listMark? t = some isList ↔ t = listMark isList := by
  unfold listMark?
  split
  · cases isList <;> simp [listMark]
  · cases isList <;> simp [listMark]
  · cases isList <;> simp_all [listMark]

/-! ## Cutting a piece -/

/-- Take the union off the part of a piece that follows the name. -/
def cutUnion : Text → Option Text × Text
  | '\x7b' :: r =>
    match Union.cut? r with
    | some (body, rest) => (some body, rest)
    | none => (none, '\x7b' :: r)
  | rest => (none, rest)

/-- The field of a name, a union and what follows them; `piece` is the whole, for blame. -/
def ofParts (piece name : Text) (parts : Option Text × Text) : Except Text QueryField :=
  match name, listMark? parts.2, parts.1 with
  | [], _, _ => .error piece
  | _, none, _ => .error piece
  | name, some isList, none => .ok ⟨Query.decode name, isList, []⟩
  | name, some isList, some body =>
    match Union.alternatives? body with
    | some alternatives => .ok ⟨Query.decode name, isList, alternatives.map Query.decode⟩
    | none => .error (Union.written body)

theorem ofPiece_eq (piece : Text) :
    ofPiece piece =
      ofParts piece (piece.takeWhile (!endsName ·)) (cutUnion (piece.dropWhile (!endsName ·))) :=
  rfl

/-- The name ends where a character stands that may not be in it. -/
theorem ofPiece_append {name rest : Text} (hn : IsFieldName name)
    (hr : ∀ c ∈ rest.head?, endsName c = true) :
    ofPiece (name ++ rest) = ofParts (name ++ rest) name (cutUnion rest) := by
  have ht : ∀ c ∈ name, (!endsName c) = true := fun c hc => by
    rw [(isFieldName_iff.1 hn).2 c hc, Bool.not_false]
  rw [ofPiece_eq, List.takeWhile_append_of_pos ht, List.dropWhile_append_of_pos ht]
  cases rest with
  | nil => simp
  | cons c rest => simp [hr c rfl]

theorem cutUnion_eq_none {t r : Text} (h : cutUnion t = (none, r)) : r = t := by
  unfold cutUnion at h
  split at h
  · split at h
    · cases h
    · exact (Prod.mk.inj h).2.symm
  · exact (Prod.mk.inj h).2.symm

theorem cutUnion_eq_some {t body r : Text} (h : cutUnion t = (some body, r)) :
    Union.IsBody body ∧ t = '\x7b' :: (body ++ '\x7d' :: r) := by
  unfold cutUnion at h
  split at h
  · split at h
    · rename_i hc
      obtain ⟨hb, rfl⟩ := Prod.mk.inj h
      obtain rfl := Option.some.inj hb
      obtain ⟨hbody, rfl⟩ := Union.cut?_eq_some_iff.1 hc
      exact ⟨hbody, rfl⟩
    · cases h
  · cases h

theorem cutUnion_written {body : Text} (h : Union.IsBody body) (r : Text) :
    cutUnion (Union.written body ++ r) = (some body, r) := by
  have hc : Union.cut? (body ++ '\x7d' :: r) = some (body, r) :=
    Union.cut?_eq_some_iff.2 ⟨h, rfl⟩
  simp [Union.written, cutUnion, hc]

theorem cutUnion_listMark (isList : Bool) :
    cutUnion (listMark isList) = (none, listMark isList) := by
  cases isList <;> rfl

/-- Before a list mark stand the name and, if there is one, the union. -/
theorem ofPiece_union {name body : Text} (isList : Bool) (hn : IsFieldName name)
    (hb : Union.IsBody body) :
    ofPiece (name ++ Union.written body ++ listMark isList) =
      match Union.alternatives? body with
      | some alternatives => .ok ⟨Query.decode name, isList, alternatives.map Query.decode⟩
      | none => .error (Union.written body) := by
  rw [List.append_assoc, ofPiece_append hn (by simp [Union.written, endsName]),
    cutUnion_written hb]
  obtain ⟨c, name, rfl⟩ := List.exists_cons_of_ne_nil hn.1
  simp only [ofParts, listMark?_eq_some_iff.2 rfl]

theorem ofPiece_plain {name : Text} (isList : Bool) (hn : IsFieldName name) :
    ofPiece (name ++ listMark isList) = .ok ⟨Query.decode name, isList, []⟩ := by
  have hr : ∀ c ∈ (listMark isList).head?, endsName c = true := by
    cases isList <;> simp [listMark, endsName]
  rw [ofPiece_append hn hr, cutUnion_listMark]
  obtain ⟨c, name, rfl⟩ := List.exists_cons_of_ne_nil hn.1
  simp only [ofParts, listMark?_eq_some_iff.2 rfl]

/-! ## Reading a piece -/

/-- A piece of no form is blamed as a whole. -/
theorem ofPiece_of_no_form {piece : Text} (h : ∀ body, ¬ FieldForm piece body) :
    ofPiece piece = .error piece := by
  have hp : piece.takeWhile (!endsName ·) ++ piece.dropWhile (!endsName ·) = piece :=
    List.takeWhile_append_dropWhile
  have hall : ∀ c ∈ piece.takeWhile (!endsName ·), endsName c = false := fun c hc => by
    simpa using List.mem_takeWhile_imp hc
  rw [ofPiece_eq]
  generalize piece.takeWhile (!endsName ·) = name at hp hall ⊢
  generalize piece.dropWhile (!endsName ·) = rest at hp ⊢
  cases name with
  | nil => rfl
  | cons c name =>
    have hn : IsFieldName (c :: name) := isFieldName_iff.2 ⟨by simp, hall⟩
    cases hc : cutUnion rest with
    | mk body r =>
      cases hm : listMark? r with
      | none => simp only [ofParts, hm]
      | some isList =>
        rw [listMark?_eq_some_iff] at hm
        subst hm
        cases body with
        | none =>
          rw [← cutUnion_eq_none hc] at hp
          exact absurd (hp ▸ .plain isList hn) (h none)
        | some body =>
          obtain ⟨hb, hr⟩ := cutUnion_eq_some hc
          refine absurd ?_ (h (some body))
          rw [← hp, hr]
          simpa [Union.written] using FieldForm.union isList hn hb

theorem ofPiece_of_blamed {piece blamed : Text} (h : Blamed FieldForm piece blamed) :
    ofPiece piece = .error blamed := by
  cases h with
  | form hf => exact ofPiece_of_no_form hf
  | alternative hf ha =>
    cases hf with
    | union isList hn hb => rw [ofPiece_union isList hn hb, Union.alternatives?_eq_none ha]

theorem ofPiece_of_spells {piece : Text} {f : QueryField} (h : Spells piece f) :
    ofPiece piece = .ok f := by
  cases h with
  | plain isList hp hn => rw [hp, ofPiece_plain isList hn]
  | union isList hp hn hb ha =>
    rw [hp, ofPiece_union isList hn hb, Union.alternatives?_eq_some ha]

theorem exists_spells {piece : Text} (h : Accepted FieldForm piece) : ∃ f, Spells piece f := by
  obtain ⟨body, hf, ha⟩ := h
  cases hf with
  | plain isList hn => exact ⟨_, .plain isList rfl hn⟩
  | union isList hn hb => exact ⟨_, .union isList rfl hn hb (ha _ rfl)⟩

theorem Spells.accepted {piece : Text} {f : QueryField} (h : Spells piece f) :
    Accepted FieldForm piece := by
  cases h with
  | plain isList hp hn => exact ⟨none, hp ▸ .plain isList hn, by simp⟩
  | @union name body isList hp hn hb ha =>
    exact ⟨some body, hp ▸ .union isList hn hb, by simpa using ha⟩

/-- **Reading a piece gives the field that it spells.** -/
theorem ofPiece_eq_ok_iff {piece : Text} {f : QueryField} :
    ofPiece piece = .ok f ↔ Spells piece f := by
  refine ⟨fun h => ?_, ofPiece_of_spells⟩
  rcases accepted_or_blamed FieldForm piece with ha | ⟨b, hb⟩
  · obtain ⟨g, hg⟩ := exists_spells ha
    rw [ofPiece_of_spells hg] at h
    rwa [← Except.ok.inj h]
  · rw [ofPiece_of_blamed hb] at h
    cases h

/-- **A piece fails with the text to blame.** -/
theorem ofPiece_eq_error_iff {piece blamed : Text} :
    ofPiece piece = .error blamed ↔ Blamed FieldForm piece blamed := by
  refine ⟨fun h => ?_, ofPiece_of_blamed⟩
  rcases accepted_or_blamed FieldForm piece with ha | ⟨b, hb⟩
  · obtain ⟨f, hf⟩ := exists_spells ha
    rw [ofPiece_of_spells hf] at h
    cases h
  · rw [ofPiece_of_blamed hb] at h
    rwa [← Except.error.inj h]

/-- A piece is a field when it is accepted. -/
theorem exists_ofPiece_eq_ok_iff {piece : Text} :
    (∃ f, ofPiece piece = .ok f) ↔ Accepted FieldForm piece := by
  simp only [ofPiece_eq_ok_iff]
  exact ⟨fun ⟨_, h⟩ => h.accepted, exists_spells⟩

end QueryField

end UrlRouting.Pattern
