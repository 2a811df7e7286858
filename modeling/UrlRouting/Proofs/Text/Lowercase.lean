import UrlRouting.Text.Lowercase

/-!
# Lower case and ASCII

What lowering does to the ASCII characters of a text. Characters outside ASCII may become ASCII
letters, as the kelvin sign becomes `k`, but nothing else in ASCII comes from outside.

* `mem_of_mem_lower`: lowering brings in no ASCII character other than letters.
* `lower_of_ascii`, `lowerAfter_append_of_ascii`: in ASCII it lowers the letters, one by one.
* `lower_lower`: **a lower-case form in ASCII is its own lower-case form**.
* `SameButCase t t'`: the texts differ in letter case only. `isAscii_or_kelvin_of_lower`: a text
  with a lower-case form in ASCII is in ASCII, kelvin signs apart.
-/

namespace UrlRouting.Text

/-! ## One character -/

theorem isAscii_iff {c : Char} : isAscii c = true ↔ c.toNat < 128 := decide_eq_true_iff

/-- What holds of the first 128 characters holds of ASCII. -/
theorem of_isAscii (P : Char → Prop) (h : ∀ n < 128, P (Char.ofNat n)) {c : Char}
    (hc : isAscii c = true) : P c := by
  rw [← Char.ofNat_toNat c]
  exact h c.toNat (isAscii_iff.1 hc)

theorem toLower_eq_or_isLower {c : Char} (h : isAscii c = true) :
    c.toLower = c ∧ c.isUpper = false ∨ c.toLower.isLower = true :=
  of_isAscii (fun c => c.toLower = c ∧ c.isUpper = false ∨ c.toLower.isLower = true) (by decide) h

theorem toLower_of_not_ascii {c : Char} (h : ¬ isAscii c = true) : c.toLower = c := by
  refine dif_neg fun hc => ?_
  exact h (isAscii_iff.2 (Nat.lt_of_le_of_lt (UInt32.le_iff_toNat_le.1 hc.2) (by decide)))

theorem toNat_ofNat {n : Nat} (h : n < 0xD800 ∨ 0xE000 ≤ n ∧ n < 0x110000) :
    (Char.ofNat n).toNat = n := by
  have hv : n.isValidChar := by
    unfold Nat.isValidChar
    omega
  rw [Char.ofNat, dif_pos hv]
  rfl

/-- The kelvin sign, whose lower-case form is the letter `k`. -/
def kelvinSign : Char := '\u212A'

/-- Whether the lower-case forms of a run of the table are characters outside ASCII. The run of the
kelvin sign alone ends in ASCII. -/
def lowersOutButKelvin (run : Nat × Nat × Nat × Int) : Bool :=
  let (a, b, _, shift) := run
  0x80 ≤ a + shift && b + shift < 0xD800 || 0xE000 ≤ a + shift && b + shift < 0x110000 ||
    a = kelvinSign.toNat && b = kelvinSign.toNat && a + shift = 'k'.toNat

theorem all_lowersOutButKelvin : lowercaseRuns.all lowersOutButKelvin = true := by decide +kernel

theorem kelvin_of_run {c : Char} {a b step : Nat} {shift : Int}
    (hrun : (a, b, step, shift) ∈ lowercaseRuns)
    (hc : (a ≤ c.toNat && c.toNat ≤ b && (c.toNat - a) % step == 0) = true)
    (ha : isAscii (Char.ofNat (c.toNat + shift).toNat) = true) :
    c = kelvinSign ∧ Char.ofNat (c.toNat + shift).toNat = 'k' := by
  have hout := List.all_eq_true.1 all_lowersOutButKelvin _ hrun
  simp only [lowersOutButKelvin, Bool.or_eq_true, Bool.and_eq_true, decide_eq_true_eq] at hout hc
  rcases hout with hout | ⟨⟨rfl, rfl⟩, hk⟩
  · rw [isAscii_iff, toNat_ofNat (by omega)] at ha
    omega
  · have hkelvin : c.toNat = kelvinSign.toNat := by omega
    have hkelvin' : c = kelvinSign := by
      rw [← Char.ofNat_toNat c, hkelvin, Char.ofNat_toNat]
    refine ⟨hkelvin', ?_⟩
    rw [hkelvin, hk]
    rfl

/-- An ASCII character of a lower-case form is a lower-case letter, or stood there before. -/
theorem mem_lowerChar {c x : Char} (hx : x ∈ lowerChar c) (ha : isAscii x = true) :
    x = c ∧ c.isUpper = false ∨ x.isLower = true := by
  unfold lowerChar at hx
  split at hx
  · rename_i hc
    rw [List.mem_singleton.1 hx]
    exact toLower_eq_or_isLower hc
  · rename_i hc
    split at hx
    · right
      simp only [List.mem_cons, List.not_mem_nil, or_false] at hx
      rcases hx with rfl | rfl
      · decide
      · cases ha
    · split at hx
      · rename_i a b step shift hfind
        rw [List.mem_singleton.1 hx] at ha ⊢
        have hc := List.find?_some hfind
        rw [(kelvin_of_run (List.mem_of_find?_eq_some hfind) hc ha).2]
        exact .inr rfl
      · rw [List.mem_singleton.1 hx] at ha
        exact absurd ha hc

/-! ## A text -/

theorem mem_lowerAfter {before t : Text} {x : Char} (hx : x ∈ lowerAfter before t)
    (ha : isAscii x = true) : x ∈ t ∧ x.isUpper = false ∨ x.isLower = true := by
  induction t generalizing before with
  | nil => cases hx
  | cons c t ih =>
    rw [lowerAfter] at hx
    rcases List.mem_append.1 hx with hx | hx
    · split at hx
      · rw [List.mem_singleton.1 hx] at ha
        split at ha
        · cases ha
        · cases ha
      · rcases mem_lowerChar hx ha with ⟨rfl, hc⟩ | hx
        · exact .inl ⟨List.mem_cons_self, hc⟩
        · exact .inr hx
    · exact (ih hx).imp_left fun h => ⟨List.mem_cons_of_mem c h.1, h.2⟩

theorem lowerChar_ne_nil (c : Char) : lowerChar c ≠ [] := by
  unfold lowerChar
  split
  · simp
  · split
    · simp
    · split
      · simp
      · simp

theorem lowerAfter_ne_nil (before : Text) {t : Text} (h : t ≠ []) : lowerAfter before t ≠ [] := by
  cases t with
  | nil => exact absurd rfl h
  | cons c t =>
    rw [lowerAfter]
    intro he
    have he := (List.append_eq_nil_iff.1 he).1
    split at he
    · cases he
    · exact lowerChar_ne_nil c he

theorem not_isUpper_of_mem_lower {t : Text} {x : Char} (hx : x ∈ lower t)
    (ha : isAscii x = true) : x.isUpper = false := by
  rcases mem_lowerAfter hx ha with h | h
  · exact h.2
  · exact of_isAscii (fun c => c.isLower = true → c.isUpper = false) (by decide) ha h

/-- Lowering brings in no ASCII character other than letters. -/
theorem mem_of_mem_lower {t : Text} {d : Char} (hd : d ∈ lower t) (ha : isAscii d = true)
    (hletter : d.isLower = false) : d ∈ t := by
  rcases mem_lowerAfter hd ha with h | h
  · exact h.1
  · rw [hletter] at h
    cases h

/-- In ASCII the letters are lowered, and nothing depends on what stands around them. -/
theorem lowerAfter_append_of_ascii {s : Text} (h : ∀ c ∈ s, isAscii c = true) (before t : Text) :
    lowerAfter before (s ++ t) = s.map Char.toLower ++ lowerAfter (s.reverse ++ before) t := by
  induction s generalizing before with
  | nil => rfl
  | cons c s ih =>
    rw [List.forall_mem_cons] at h
    have hc : c ≠ capitalSigma := by
      rintro rfl
      cases h.1
    rw [List.cons_append, lowerAfter, if_neg hc, lowerChar_ascii h.1, ih h.2]
    simp

theorem lower_of_ascii {t : Text} (h : ∀ c ∈ t, isAscii c = true) :
    lower t = t.map Char.toLower := by
  have := lowerAfter_append_of_ascii h [] []
  rwa [List.append_nil, lowerAfter, List.append_nil] at this

theorem toLower_eq_self {c : Char} (ha : isAscii c = true) (h : c.isUpper = false) :
    c.toLower = c :=
  of_isAscii (fun c => c.isUpper = false → c.toLower = c) (by decide) ha h

/-- A lower-case form in ASCII is its own lower-case form. -/
theorem lower_lower {t : Text} (h : ∀ c ∈ lower t, isAscii c = true) :
    lower (lower t) = lower t := by
  rw [lower_of_ascii h]
  refine (List.map_congr_left fun c hc => ?_).trans (List.map_id _)
  exact toLower_eq_self (h c hc) (not_isUpper_of_mem_lower hc (h c hc))

/-! ## Letter case -/

/-- The texts differ in letter case only: they have the same lower-case form. -/
def SameButCase (t t' : Text) : Prop := lower t = lower t'

instance (t t' : Text) : Decidable (SameButCase t t') :=
  inferInstanceAs (Decidable (lower t = lower t'))

/-- Outside ASCII, only the kelvin sign has a lower-case form in ASCII. -/
theorem isAscii_or_kelvin_of_lowerChar {c : Char} (h : ∀ x ∈ lowerChar c, isAscii x = true) :
    isAscii c = true ∨ c = kelvinSign := by
  by_cases hascii : isAscii c = true
  · exact .inl hascii
  · right
    unfold lowerChar at h
    rw [if_neg hascii] at h
    split at h
    · exact absurd (h '\u0307' (by simp)) (by decide)
    · split at h
      · rename_i a b step shift hfind
        have hc := List.find?_some hfind
        exact (kelvin_of_run (List.mem_of_find?_eq_some hfind) hc (h _ List.mem_cons_self)).1
      · exact absurd (h c List.mem_cons_self) hascii

theorem mem_lowerAfter_of_mem {before t : Text} {c x : Char} (hc : c ∈ t)
    (hsigma : c ≠ capitalSigma) (hx : x ∈ lowerChar c) : x ∈ lowerAfter before t := by
  induction t generalizing before with
  | nil => cases hc
  | cons d t ih =>
    rw [lowerAfter]
    rcases List.mem_cons.1 hc with rfl | hc
    · rw [if_neg hsigma]
      exact List.mem_append_left _ hx
    · exact List.mem_append_right _ (ih hc)

theorem exists_mem_lowerAfter_of_sigma (before : Text) {t : Text} (h : capitalSigma ∈ t) :
    ∃ x ∈ lowerAfter before t, isAscii x = false := by
  induction t generalizing before with
  | nil => cases h
  | cons d t ih =>
    rw [lowerAfter]
    rcases List.mem_cons.1 h with rfl | h
    · rw [if_pos rfl]
      refine ⟨_, List.mem_append_left _ (List.mem_singleton_self _), ?_⟩
      split
      · rfl
      · rfl
    · obtain ⟨x, hx, ha⟩ := ih (d :: before) h
      exact ⟨x, List.mem_append_right _ hx, ha⟩

/-- **A text with a lower-case form in ASCII is in ASCII**, kelvin signs apart. -/
theorem isAscii_or_kelvin_of_lower {t : Text} (h : ∀ x ∈ lower t, isAscii x = true) :
    ∀ c ∈ t, (isAscii c = true ∨ c = kelvinSign) ∧ ∀ x ∈ lowerChar c, x ∈ lower t := by
  intro c hc
  have hsigma : c ≠ capitalSigma := by
    rintro rfl
    obtain ⟨x, hx, ha⟩ := exists_mem_lowerAfter_of_sigma [] hc
    rw [h x hx] at ha
    cases ha
  have hmem : ∀ x ∈ lowerChar c, x ∈ lower t := fun x hx => mem_lowerAfter_of_mem hc hsigma hx
  exact ⟨isAscii_or_kelvin_of_lowerChar fun x hx => h x (hmem x hx), hmem⟩

end UrlRouting.Text
