import UrlRouting.Proofs.Text.Pieces
import UrlRouting.Url.Basic

/-!
# The path of a URL

What a path looks like once a URL has been read: escaped, so that only the characters of
`isPathSafe` are left in it.

* `isPathSafe_of_mem_pathname`, `isPathSafe_of_mem_normalForm`: every character of the path of a
  URL, and of its normal form, is safe.
* `Segment.slash_not_mem_encode`: an encoded text is one segment.
* `Path.segments`: the segments that count; empty ones do not.
-/

namespace UrlRouting

/-! ## Safe characters -/

theorem isAscii_of_isAlphanum {c : Char} (h : c.isAlphanum = true) : Text.isAscii c = true := by
  change (decide (65 ≤ c.val ∧ c.val ≤ 90) || decide (97 ≤ c.val) && decide (c.val ≤ 122) ||
    decide (48 ≤ c.val) && decide (c.val ≤ 57)) = true at h
  simp only [Bool.or_eq_true, Bool.and_eq_true, decide_eq_true_eq] at h
  have hn : c.toNat = c.val.toNat := rfl
  simp only [Text.isAscii, decide_eq_true_eq, hn]
  have hz : c.val ≤ 122 := by
    rcases h with (⟨-, h⟩ | ⟨-, h⟩) | ⟨-, h⟩
    · exact UInt32.le_trans h (by decide)
    · exact h
    · exact UInt32.le_trans h (by decide)
  have := UInt32.le_iff_toNat_le.1 hz
  simp at this
  omega

theorem isAscii_of_isSegmentSafe (c : Char) (h : isSegmentSafe c = true) :
    Text.isAscii c = true := by
  have hunreserved : "-._~".toList.all Text.isAscii = true := by decide
  have hreserved : "!$&'()*+,;=:@[]|^".toList.all Text.isAscii = true := by decide
  simp only [isSegmentSafe, Text.Percent.isUnreserved, Bool.or_eq_true,
    List.contains_iff_mem] at h
  rcases h with (h | h) | h
  · exact isAscii_of_isAlphanum h
  · exact List.all_eq_true.1 hunreserved c h
  · exact List.all_eq_true.1 hreserved c h

theorem not_isSegmentSafe_slash : isSegmentSafe '/' = false := by decide

theorem not_isSegmentSafe_percent : isSegmentSafe '%' = false := by decide

theorem isPathSafe_hexDigit : ∀ n < 16, isPathSafe (Text.Percent.hexDigit n) = true := by decide

theorem not_isPathSafe_newline : isPathSafe '\n' = false := by decide

theorem isPathSafe_of_isSegmentSafe {c : Char} (h : isSegmentSafe c = true) :
    isPathSafe c = true := by
  simp [isPathSafe, h]

namespace Segment

/-! ## Segments -/

theorem safe_of_mem_encode (t : Text) : ∀ c ∈ encode t, isPathSafe c = true ∧ c ≠ '/' := by
  refine Text.Percent.forall_mem_encode (fun c hc => ⟨isPathSafe_of_isSegmentSafe hc, ?_⟩)
    (by decide) (fun n hn => ⟨isPathSafe_hexDigit n hn, ?_⟩) t
  · intro he
    subst he
    rw [not_isSegmentSafe_slash] at hc
    cases hc
  · revert n; decide

theorem slash_not_mem_encode (t : Text) : '/' ∉ encode t :=
  fun h => (safe_of_mem_encode t '/' h).2 rfl

theorem decode?_encode (t : Text) : Text.Percent.decode? (encode t) = some t :=
  Text.Percent.decode?_encode isAscii_of_isSegmentSafe not_isSegmentSafe_percent t

theorem normalForm_of_decode? {s t : Text} (h : Text.Percent.decode? s = some t) :
    normalForm s = encode t := by
  rw [normalForm, h]

theorem normalForm_of_eq_none {s : Text} (h : Text.Percent.decode? s = none) :
    normalForm s = s := by
  rw [normalForm, h]

theorem normalForm_encode (t : Text) : normalForm (encode t) = encode t :=
  normalForm_of_decode? (decode?_encode t)

/-- The normal form decodes to what the segment decodes to, or as little as the segment. -/
theorem decode?_normalForm (s : Text) :
    Text.Percent.decode? (normalForm s) = Text.Percent.decode? s := by
  cases h : Text.Percent.decode? s with
  | some t => rw [normalForm_of_decode? h, decode?_encode]
  | none => rw [normalForm_of_eq_none h, h]

/-- A segment of safe characters has a normal form of safe characters. -/
theorem safe_of_mem_normalForm {s : Text} (h : ∀ c ∈ s, isPathSafe c = true ∧ c ≠ '/') :
    ∀ c ∈ normalForm s, isPathSafe c = true ∧ c ≠ '/' := by
  unfold normalForm
  split
  · exact safe_of_mem_encode _
  · exact h

theorem normalForm_ne_nil {s : Text} (h : s ≠ []) : normalForm s ≠ [] := by
  unfold normalForm
  split
  · rename_i t ht
    exact Text.Percent.encode_ne_nil isSegmentSafe (Text.Percent.ne_nil_of_decode? h ht)
  · exact h

theorem slash_not_mem_normalForm {s : Text} (h : '/' ∉ s) : '/' ∉ normalForm s := by
  unfold normalForm
  split
  · exact slash_not_mem_encode _
  · exact h

end Segment

namespace Path

/-! ## Paths -/

/-- The segments of a path that are not empty. -/
def segments (path : Text) : List Text := (path.splitOn '/').filter (· ≠ [])

theorem ne_nil_of_mem_segments {path s : Text} (h : s ∈ segments path) : s ≠ [] := by
  simpa using (List.mem_filter.1 h).2

theorem slash_not_mem_of_mem_segments {path s : Text} (h : s ∈ segments path) : '/' ∉ s :=
  Text.not_mem_of_mem_splitOn (List.mem_filter.1 h).1

theorem safe_of_mem_segments {path s : Text} (hp : ∀ c ∈ path, isPathSafe c = true)
    (h : s ∈ segments path) : ∀ c ∈ s, isPathSafe c = true :=
  Text.forall_mem_of_mem_splitOn hp (List.mem_filter.1 h).1

theorem isPathSafe_of_mem_escape (path : Text) : ∀ c ∈ escape path, isPathSafe c = true :=
  Text.Percent.forall_mem_encode (fun _ h => h) (by decide) isPathSafe_hexDigit path

theorem isPathSafe_of_mem_normalForm {path : Text} (h : ∀ c ∈ path, isPathSafe c = true) :
    ∀ c ∈ normalForm path, isPathSafe c = true := by
  refine Text.forall_mem_join (by decide) fun t ht => ?_
  obtain ⟨s, hs, rfl⟩ := List.mem_map.1 ht
  have hsafe : ∀ c ∈ s, isPathSafe c = true ∧ c ≠ '/' := fun c hc =>
    ⟨Text.forall_mem_of_mem_splitOn h hs c hc,
      fun he => Text.not_mem_of_mem_splitOn hs (he ▸ hc)⟩
  exact fun c hc => (Segment.safe_of_mem_normalForm hsafe c hc).1

theorem newline_not_mem_normalForm {path : Text} (h : ∀ c ∈ path, isPathSafe c = true) :
    '\n' ∉ normalForm path := by
  intro hc
  have hsafe := isPathSafe_of_mem_normalForm h '\n' hc
  rw [not_isPathSafe_newline] at hsafe
  cases hsafe

end Path

namespace Url

theorem pathname_of_parse {t : Text} {u : Url} (h : parse t = .ok u) :
    ∃ r, Reference.ofText t = .ok r ∧ u.pathname = Path.escape (Path.removeDots (pathOf r)) := by
  simp only [parse, bind, Except.bind] at h
  split at h
  · cases h
  · rename_i r hr
    split at h
    · cases h
    · obtain rfl := Except.ok.inj h
      exact ⟨r, hr, rfl⟩

theorem isPathSafe_of_mem_pathname {t : Text} {u : Url} (h : parse t = .ok u) :
    ∀ c ∈ u.pathname, isPathSafe c = true := by
  obtain ⟨r, -, hr⟩ := pathname_of_parse h
  rw [hr]
  exact Path.isPathSafe_of_mem_escape _

end Url

end UrlRouting
