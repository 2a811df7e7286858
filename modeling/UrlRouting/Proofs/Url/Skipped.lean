import Mathlib.Logic.Relation
import UrlRouting.Proofs.Url.PathPlace

/-!
# Characters that are skipped

Characters up to the space are skipped in front of a text, and tabs and line breaks everywhere. A
text with more of them is therefore cut into the same parts. Only the test for two slashes in
front looks at the text as it is written.

* `Padding t t'`: `t'` is `t` with one more character that is skipped; `Padded` is any number of
  such steps. `clean_of_padding` says what one step keeps, and `clean_of_padded` what a run keeps.
* `parse_congr`: what reading depends on.
* `parse_padded`: **skipped characters change nothing**, unless two slashes are in front and the
  new characters stand before or between them.
* `parse_padded_slashes`: in that case the authority of the text is lost.
-/

namespace UrlRouting.Url

/-! ## One more character that is skipped -/

/-- `t'` is `t` with one more character that is skipped. -/
inductive Padding : Text → Text → Prop
  | front {c : Char} (t : Text) : c ≤ ' ' → Padding t (c :: t)
  | inside {c : Char} (a b : Text) : isSkipped c = true → Padding (a ++ b) (a ++ c :: b)

/-- `t'` is `t` with more characters that are skipped. -/
abbrev Padded : Text → Text → Prop := Relation.ReflTransGen Padding

theorem le_space_of_isSkipped {c : Char} (h : isSkipped c = true) : c ≤ ' ' := by
  simp only [isSkipped, Bool.or_eq_true, decide_eq_true_eq] at h
  rcases h with (rfl | rfl) | rfl
  · decide
  · decide
  · decide

theorem clean_cons_of_le {c : Char} (h : c ≤ ' ') (t : Text) : clean (c :: t) = clean t := by
  rw [clean, List.dropWhile_cons_of_pos (by simpa using h), clean]

theorem clean_cons_of_not_le {c : Char} (h : ¬ c ≤ ' ') (t : Text) :
    clean (c :: t) = kept (c :: t) := by
  rw [clean, List.dropWhile_cons_of_neg (by simpa using h), kept]

theorem kept_insert {c : Char} (h : isSkipped c = true) (a b : Text) :
    kept (a ++ c :: b) = kept (a ++ b) := by
  simp [kept, h]

theorem clean_insert {c : Char} (h : isSkipped c = true) (a b : Text) :
    clean (a ++ c :: b) = clean (a ++ b) := by
  induction a with
  | nil => exact clean_cons_of_le (le_space_of_isSkipped h) b
  | cons d a ih =>
    by_cases hd : d ≤ ' '
    · rw [List.cons_append, List.cons_append, clean_cons_of_le hd, clean_cons_of_le hd, ih]
    · rw [List.cons_append, List.cons_append, clean_cons_of_not_le hd, clean_cons_of_not_le hd]
      exact kept_insert h (d :: a) b

theorem clean_of_padding {t t' : Text} (h : Padding t t') : clean t' = clean t := by
  cases h with
  | front t hc => exact clean_cons_of_le hc t
  | inside a b hc => exact clean_insert hc a b

/-- **Characters that are skipped leave the characters that count.** -/
theorem clean_of_padded {t t' : Text} (h : Padded t t') : clean t' = clean t := by
  induction h with
  | refl => rfl
  | tail _ hstep ih => rw [clean_of_padding hstep, ih]

/-! ## What reading depends on -/

theorem ofText_congr {t t' : Text} (h : clean t' = clean t) :
    Reference.ofText t' = Reference.ofText t := by
  simp only [Reference.ofText, h]

/-- Reading depends on the characters that count, and on two slashes at the very start. -/
theorem parse_congr {t t' : Text} (hclean : clean t' = clean t)
    (hslashes : ['/', '/'] <+: t' ↔ ['/', '/'] <+: t) : parse t' = parse t := by
  simp only [parse, ofText_congr hclean, authorityOf, hslashes]

theorem slashes_isPrefix_clean {t : Text} (h : ['/', '/'] <+: t) : ['/', '/'] <+: clean t := by
  obtain ⟨r, rfl⟩ := h
  have hclean : clean ('/' :: '/' :: r) = '/' :: '/' :: kept r := by
    rw [clean_cons_of_not_le (by decide), kept_cons (by decide), kept_cons (by decide)]
  exact ⟨kept r, hclean.symm⟩

/-! ## Reading -/

/-- **Skipped characters change nothing**: the URL is the same, or the error is. Two slashes in
front must stay at the very start if they stood there. -/
theorem parse_padded {t t' : Text} (h : Padded t t')
    (hslashes : ['/', '/'] <+: clean t → (['/', '/'] <+: t' ↔ ['/', '/'] <+: t)) :
    parse t' = parse t := by
  have hclean := clean_of_padded h
  apply parse_congr hclean
  by_cases hs : ['/', '/'] <+: clean t
  · exact hslashes hs
  · refine iff_of_false (fun ht' => hs ?_) fun ht => hs (slashes_isPrefix_clean ht)
    rw [← hclean]
    exact slashes_isPrefix_clean ht'

/-- Tabs and line breaks inside a scheme, an authority and an escape, and a space in front. -/
theorem parse_padded_inside :
    Padded "//h:81/%41".toList "//h\n:8\t1/%4\r1".toList ∧
      (['/', '/'] <+: clean "//h:81/%41".toList →
        (['/', '/'] <+: "//h\n:8\t1/%4\r1".toList ↔ ['/', '/'] <+: "//h:81/%41".toList)) ∧
      parse "//h\n:8\t1/%4\r1".toList = parse "//h:81/%41".toList := by
  have hpadded : Padded "//h:81/%41".toList "//h\n:8\t1/%4\r1".toList :=
    .tail (.tail (.tail .refl (.inside "//h" ":81/%41" (c := '\n') rfl))
      (.inside "//h\n:8" "1/%41" (c := '\t') rfl)) (.inside "//h\n:8\t1/%4" "1" (c := '\r') rfl)
  have hslashes : ['/', '/'] <+: clean "//h:81/%41".toList →
      (['/', '/'] <+: "//h\n:8\t1/%4\r1".toList ↔ ['/', '/'] <+: "//h:81/%41".toList) :=
    fun _ => iff_of_true ⟨_, rfl⟩ ⟨_, rfl⟩
  exact ⟨hpadded, hslashes, parse_padded hpadded hslashes⟩

/-- Behind a space, two slashes no longer stand before an authority. -/
theorem parse_padded_slashes :
    Padded "//h/a".toList " //h/a".toList ∧
      parse "//h/a".toList = .ok ⟨"http", [], [], "h", none, true, "/a", [], []⟩ ∧
      parse " //h/a".toList = .ok ⟨"http", [], [], "localhost", none, true, "/a", [], []⟩ ∧
      parse " //h/a".toList ≠ parse "//h/a".toList := by
  have hu : parse "//h/a".toList = .ok ⟨"http", [], [], "h", none, true, "/a", [], []⟩ := rfl
  have hv : parse " //h/a".toList =
      .ok ⟨"http", [], [], "localhost", none, true, "/a", [], []⟩ := rfl
  refine ⟨.single (.front _ (by decide)), hu, hv, ?_⟩
  rw [hu, hv]
  intro h
  cases congrArg Url.hostname (Except.ok.inj h)

end UrlRouting.Url
