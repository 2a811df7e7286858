import UrlRouting.Proofs.Text.Lowercase
import UrlRouting.Proofs.Url.Pathname
import UrlRouting.Url.Authority

/-!
# Addresses in lower case

Which characters an address holds, and that its lower-case form is an address of the same kind.

* `isAddressChar_of_isIPv6Number`: hexadecimal digits, colons and dots.
* `colon_mem_of_isIPv6`: an IPv6 address has a colon.
* `isIPv6_lowerHost`: **its lower-case form is an IPv6 address**, with the same scope.
* `isFutureAddress_lowerHost`: a future address stays one too.
-/

namespace UrlRouting.Url

open Text (isAscii)

/-! ## Characters -/

theorem isAscii_of_isHexDigit {c : Char} (h : isHexDigit c = true) : isAscii c = true := by
  unfold isHexDigit Text.Percent.hexValue? at h
  have low {a b : Char} (hb : b.toNat < 128) (hc : a ≤ c ∧ c ≤ b) : isAscii c = true :=
    Text.isAscii_iff.2 (Nat.lt_of_le_of_lt (UInt32.le_iff_toNat_le.1 hc.2) hb)
  split at h
  · rename_i hc
    exact low (by decide) hc
  · split at h
    · rename_i hc
      exact low (by decide) hc
    · split at h
      · rename_i hc
        exact low (by decide) hc
      · cases h

theorem isHexDigit_toLower {c : Char} (h : isHexDigit c = true) :
    isHexDigit c.toLower = true :=
  Text.of_isAscii (fun c => isHexDigit c = true → isHexDigit c.toLower = true) (by decide)
    (isAscii_of_isHexDigit h) h

/-- A character of an IPv6 number. -/
def isAddressChar (c : Char) : Bool := isHexDigit c || c == ':' || c == '.'

theorem isAscii_of_isAddressChar {c : Char} (h : isAddressChar c = true) : isAscii c = true := by
  simp only [isAddressChar, Bool.or_eq_true, beq_iff_eq] at h
  rcases h with (h | rfl) | rfl
  · exact isAscii_of_isHexDigit h
  · rfl
  · rfl

theorem isAddressChar_of_isGroup {p : Text} (h : isGroup p = true) :
    ∀ c ∈ p, isAddressChar c = true := by
  simp only [isGroup, Bool.and_eq_true] at h
  intro c hc
  simp [isAddressChar, List.all_eq_true.1 h.2 c hc]

theorem isDigit_of_isDecimalOctet {p : Text} (h : isDecimalOctet p = true) :
    ∀ c ∈ p, c.isDigit = true := by
  simp only [isDecimalOctet, Bool.and_eq_true] at h
  have h := h.2
  unfold Text.decimal? at h
  split at h
  · rename_i n hn
    split at hn
    · rename_i hd
      exact List.all_eq_true.1 hd.2
    · cases hn
  · cases h

theorem isDigit_or_dot_of_isIPv4 {t : Text} (h : isIPv4 t = true) :
    ∀ c ∈ t, c.isDigit = true ∨ c = '.' := by
  simp only [isIPv4, Bool.and_eq_true, List.all_eq_true] at h
  have hj : Text.join '.' (t.splitOn '.') = t := List.intercalate_splitOn '.'
  rw [← hj]
  exact Text.forall_mem_join (.inr rfl) fun p hp c hc =>
    .inl (isDigit_of_isDecimalOctet (h.2 p hp) c hc)

theorem isAddressChar_of_isIPv4 {t : Text} (h : isIPv4 t = true) :
    ∀ c ∈ t, isAddressChar c = true := by
  intro c hc
  rcases isDigit_or_dot_of_isIPv4 h c hc with hd | rfl
  · have ha : isAscii c = true := isAscii_of_isAlphanum (by simp [Char.isAlphanum, hd])
    exact Text.of_isAscii (fun c => c.isDigit = true → isAddressChar c = true) (by decide) ha hd
  · rfl

theorem isAddressChar_of_groupCount? {ps : List Text} {n : Nat} (h : groupCount? ps = some n) :
    ∀ p ∈ ps, ∀ c ∈ p, isAddressChar c = true := by
  fun_induction groupCount? ps generalizing n with
  | case1 => simp
  | case2 p hp => simpa using isAddressChar_of_isGroup hp
  | case3 p _ hp => simpa using isAddressChar_of_isIPv4 hp
  | case4 => cases h
  | case5 p ps _ hp ih =>
    obtain ⟨m, hm, -⟩ := Option.map_eq_some_iff.1 h
    exact List.forall_mem_cons.2 ⟨isAddressChar_of_isGroup hp, ih hm⟩
  | case6 => cases h

theorem cutDoubleColon_eq_some {t a b : Text} (h : cutDoubleColon t = some (a, b)) :
    t = a ++ ':' :: ':' :: b := by
  fun_induction cutDoubleColon t generalizing a with
  | case1 => cases h
  | case2 t =>
    obtain ⟨rfl, rfl⟩ := Prod.mk.inj (Option.some.inj h)
    rfl
  | case3 c t _ ih =>
    obtain ⟨⟨a', b'⟩, hcut, he⟩ := Option.map_eq_some_iff.1 h
    obtain ⟨rfl, rfl⟩ := Prod.mk.inj he
    rw [ih hcut]
    rfl

theorem join_colonParts (t : Text) : Text.join ':' (colonParts t) = t := by
  unfold colonParts
  split
  · rename_i h
    rw [h]
    rfl
  · exact List.intercalate_splitOn ':'

theorem isAddressChar_of_isIPv6Number {t : Text} (h : isIPv6Number t = true) :
    ∀ c ∈ t, isAddressChar c = true := by
  have joined {ps : List Text} (hps : ∀ p ∈ ps, ∀ c ∈ p, isAddressChar c = true) :
      ∀ c ∈ Text.join ':' ps, isAddressChar c = true :=
    Text.forall_mem_join (P := fun c => isAddressChar c = true) rfl hps
  unfold isIPv6Number at h
  split at h
  · have hj : Text.join ':' (t.splitOn ':') = t := List.intercalate_splitOn ':'
    rw [← hj]
    exact joined (isAddressChar_of_groupCount? (beq_iff_eq.1 h))
  · rename_i a b hcut
    rw [cutDoubleColon_eq_some hcut]
    rw [Bool.and_eq_true, List.all_eq_true] at h
    have ha : ∀ c ∈ a, isAddressChar c = true := by
      rw [← join_colonParts a]
      exact joined fun p hp => isAddressChar_of_isGroup (h.1 p hp)
    have hb : ∀ c ∈ b, isAddressChar c = true := by
      have h := h.2
      split at h
      · rename_i n hn
        rw [← join_colonParts b]
        exact joined (isAddressChar_of_groupCount? hn)
      · cases h
    intro c hc
    simp only [List.mem_append, List.mem_cons] at hc
    rcases hc with hc | rfl | rfl | hc
    · exact ha c hc
    · rfl
    · rfl
    · exact hb c hc

theorem colon_mem_of_isIPv6Number {t : Text} (h : isIPv6Number t = true) : ':' ∈ t := by
  unfold isIPv6Number at h
  split at h
  · by_contra hno
    rw [List.splitOn_eq_singleton hno] at h
    unfold groupCount? at h
    split at h
    · cases h
    · split at h
      · cases h
      · cases h
  · rename_i a b hcut
    rw [cutDoubleColon_eq_some hcut]
    simp

/-! ## Lower case -/

/-- Lowering the letters of a text in ASCII. -/
abbrev lowered (t : Text) : Text := t.map Char.toLower

theorem isGroup_lowered {p : Text} (h : isGroup p = true) : isGroup (lowered p) = true := by
  simp only [isGroup, Bool.and_eq_true, bne_iff_ne, decide_eq_true_eq, List.all_eq_true] at h ⊢
  refine ⟨⟨by simpa using h.1.1, by simpa using h.1.2⟩, fun c hc => ?_⟩
  obtain ⟨x, hx, rfl⟩ := List.mem_map.1 hc
  exact isHexDigit_toLower (h.2 x hx)

theorem lowered_of_isIPv4 {t : Text} (h : isIPv4 t = true) : lowered t = t := by
  refine (List.map_congr_left fun c hc => ?_).trans (List.map_id _)
  rcases isDigit_or_dot_of_isIPv4 h c hc with hd | rfl
  · have ha : isAscii c = true := isAscii_of_isAlphanum (by simp [Char.isAlphanum, hd])
    exact Text.of_isAscii (fun c => c.isDigit = true → c.toLower = id c) (by decide) ha hd
  · rfl

theorem groupCount?_lowered {ps : List Text} {n : Nat} (h : groupCount? ps = some n) :
    groupCount? (ps.map lowered) = some n := by
  fun_induction groupCount? ps generalizing n with
  | case1 => exact h
  | case2 p hp => simpa [groupCount?, isGroup_lowered hp] using h
  | case3 p hp hv =>
    rw [List.map_singleton, lowered_of_isIPv4 hv, groupCount?, if_neg hp, if_pos hv]
    exact h
  | case4 => cases h
  | case5 p ps hne hp ih =>
    obtain ⟨m, hm, rfl⟩ := Option.map_eq_some_iff.1 h
    rw [List.map_cons, groupCount?, if_pos (isGroup_lowered hp), ih hm]
    · rfl
    · intro he
      exact hne (List.map_eq_nil_iff.1 he)
  | case6 => cases h

theorem toLower_eq_colon_iff {c : Char} : c.toLower = ':' ↔ c = ':' := by
  by_cases ha : isAscii c = true
  · exact Text.of_isAscii (fun c => c.toLower = ':' ↔ c = ':') (by decide) ha
  · rw [Text.toLower_of_not_ascii ha]

theorem splitOn_lowered (t : Text) : (lowered t).splitOn ':' = (t.splitOn ':').map lowered := by
  induction t with
  | nil => rfl
  | cons c t ih =>
    rw [lowered, List.map_cons, List.splitOn_cons_eq_if_modifyHead,
      List.splitOn_cons_eq_if_modifyHead, ← lowered, ih]
    by_cases hc : c = ':'
    · subst hc
      rfl
    · have hc' : c.toLower ≠ ':' := fun h => hc (toLower_eq_colon_iff.1 h)
      simp only [beq_iff_eq, hc, hc', if_false]
      cases t.splitOn ':' with
      | nil => rfl
      | cons p ps => rfl

theorem cutDoubleColon_lowered (t : Text) :
    cutDoubleColon (lowered t) = (cutDoubleColon t).map fun x => (lowered x.1, lowered x.2) := by
  fun_induction cutDoubleColon t with
  | case1 => rfl
  | case2 t => rfl
  | case3 c t hne ih =>
    rw [lowered, List.map_cons, ← lowered, cutDoubleColon, ih]
    · cases cutDoubleColon t with
      | none => rfl
      | some x => rfl
    · intro r hc ht
      obtain rfl := toLower_eq_colon_iff.1 hc
      cases t with
      | nil => cases ht
      | cons d t =>
        obtain ⟨hd, -⟩ := List.cons.inj ht
        obtain rfl := toLower_eq_colon_iff.1 hd
        exact hne t rfl rfl

theorem colonParts_lowered (t : Text) : colonParts (lowered t) = (colonParts t).map lowered := by
  unfold colonParts
  by_cases h : t = []
  · rw [h]
    rfl
  · rw [if_neg h, if_neg (by simpa using h), splitOn_lowered]

theorem isIPv6Number_lowered {t : Text} (h : isIPv6Number t = true) :
    isIPv6Number (lowered t) = true := by
  unfold isIPv6Number at h ⊢
  rw [cutDoubleColon_lowered]
  cases hcut : cutDoubleColon t with
  | none =>
    simp only [hcut, beq_iff_eq] at h
    simp [splitOn_lowered, groupCount?_lowered h]
  | some x =>
    obtain ⟨a, b⟩ := x
    simp only [hcut, Bool.and_eq_true, List.all_eq_true] at h
    obtain ⟨ha, hb⟩ := h
    simp only [Option.map_some, colonParts_lowered, Bool.and_eq_true, List.all_eq_true]
    refine ⟨fun p hp => ?_, ?_⟩
    · obtain ⟨q, hq, rfl⟩ := List.mem_map.1 hp
      exact isGroup_lowered (ha q hq)
    · split at hb
      · rename_i n hn
        rw [groupCount?_lowered hn]
        simpa using hb
      · cases hb

/-! ## The lower-case form of a host -/

open Authority (lowerHost validateBracketed)

theorem lowerHost_of_not_mem {t : Text} (h : '%' ∉ t) : lowerHost t = Text.lower t := by
  rw [lowerHost, Text.cut_none h]

theorem lowerHost_scoped {t : Text} (h : '%' ∉ t) (scope : Text) :
    lowerHost (t ++ '%' :: scope) = Text.lower t ++ '%' :: scope := by
  rw [lowerHost, Text.cut_some h]

theorem percent_not_mem_lower {t : Text} (h : '%' ∉ t) : '%' ∉ Text.lower t :=
  fun hm => h (Text.mem_of_mem_lower hm rfl rfl)

/-- A text is free of `%`, or has a first one. -/
theorem scoped_or_not (t : Text) :
    '%' ∉ t ∨ ∃ name scope, '%' ∉ name ∧ t = name ++ '%' :: scope := by
  by_cases h : '%' ∈ t
  · obtain ⟨name, scope, rfl, hname⟩ := List.eq_append_cons_of_mem h
    exact .inr ⟨name, scope, hname, rfl⟩
  · exact .inl h

theorem lower_of_isIPv6Number {t : Text} (h : isIPv6Number t = true) :
    Text.lower t = lowered t :=
  Text.lower_of_ascii fun c hc => isAscii_of_isAddressChar (isAddressChar_of_isIPv6Number h c hc)

theorem isIPv6_lowerHost {t : Text} (h : isIPv6 t = true) : isIPv6 (lowerHost t) = true := by
  unfold isIPv6 at h ⊢
  rcases scoped_or_not t with ht | ⟨name, scope, hname, rfl⟩
  · rw [Text.cut_none ht] at h
    rw [lowerHost_of_not_mem ht, Text.cut_none (percent_not_mem_lower ht)]
    simpa only [lower_of_isIPv6Number h] using isIPv6Number_lowered h
  · rw [Text.cut_some hname] at h
    simp only [Bool.and_eq_true] at h
    rw [lowerHost_scoped hname, Text.cut_some (percent_not_mem_lower hname)]
    simp only [Bool.and_eq_true, lower_of_isIPv6Number h.1.1]
    exact ⟨⟨isIPv6Number_lowered h.1.1, h.1.2⟩, h.2⟩

theorem colon_mem_of_isIPv6 {t : Text} (h : isIPv6 t = true) : ':' ∈ t := by
  unfold isIPv6 at h
  rcases scoped_or_not t with ht | ⟨name, scope, hname, rfl⟩
  · rw [Text.cut_none ht] at h
    exact colon_mem_of_isIPv6Number h
  · rw [Text.cut_some hname] at h
    simp only [Bool.and_eq_true] at h
    exact List.mem_append_left _ (colon_mem_of_isIPv6Number h.1.1)

theorem colon_not_mem_of_isIPv4 {t : Text} (h : isIPv4 t = true) : ':' ∉ t := by
  intro hc
  rcases isDigit_or_dot_of_isIPv4 h ':' hc with h | h
  · cases h
  · cases h

theorem isAddressChar_head_of_isIPv6 {c : Char} {t : Text} (h : isIPv6 (c :: t) = true) :
    isAddressChar c = true := by
  have head {name rest : Text} (hn : isIPv6Number name = true) (he : c :: t = name ++ rest) :
      isAddressChar c = true := by
    cases name with
    | nil => cases colon_mem_of_isIPv6Number hn
    | cons d name =>
      rw [(List.cons.inj he).1]
      exact isAddressChar_of_isIPv6Number hn d List.mem_cons_self
  unfold isIPv6 at h
  rcases scoped_or_not (c :: t) with ht | ⟨name, scope, hname, ht⟩
  · rw [Text.cut_none ht] at h
    exact head h (List.append_nil _).symm
  · rw [ht, Text.cut_some hname] at h
    simp only [Bool.and_eq_true] at h
    exact head h.1.1 ht

theorem isFutureAddress_iff {t : Text} : isFutureAddress t = true ↔
    ∃ digits x rest, digits ≠ [] ∧ (∀ c ∈ digits, isHexDigit c = true) ∧
      t = digits ++ '.' :: x :: rest := by
  unfold isFutureAddress
  constructor
  · intro h
    rw [Bool.and_eq_true, bne_iff_ne] at h
    obtain ⟨hne, h⟩ := h
    split at h
    · rename_i x rest hdrop
      refine ⟨_, x, rest, hne, List.all_eq_true.1 List.all_takeWhile, ?_⟩
      rw [← hdrop, List.takeWhile_append_dropWhile]
    · cases h
  · rintro ⟨digits, x, rest, hne, hall, rfl⟩
    have hdot : isHexDigit '.' = false := by decide
    rw [List.takeWhile_append_of_pos hall, List.dropWhile_append_of_pos hall]
    simp [hdot, hne]

theorem lowerHost_append_of_ascii {s r : Text} (hs : ∀ c ∈ s, isAscii c = true)
    (hpercent : '%' ∉ s) (hr : r ≠ []) :
    ∃ r', r' ≠ [] ∧ lowerHost (s ++ r) = lowered s ++ r' := by
  rcases scoped_or_not r with h | ⟨name, scope, hname, rfl⟩
  · have hno : '%' ∉ s ++ r := by simp [hpercent, h]
    rw [lowerHost_of_not_mem hno, Text.lower, Text.lowerAfter_append_of_ascii hs]
    exact ⟨_, Text.lowerAfter_ne_nil _ hr, rfl⟩
  · have hno : '%' ∉ s ++ name := by simp [hpercent, hname]
    rw [← List.append_assoc, lowerHost_scoped hno, Text.lower,
      Text.lowerAfter_append_of_ascii hs, List.append_assoc]
    exact ⟨_, by simp, rfl⟩

theorem isFutureAddress_lowerHost {t : Text} (h : isFutureAddress t = true) :
    ∃ t', lowerHost ('v' :: t) = 'v' :: t' ∧ isFutureAddress t' = true := by
  obtain ⟨digits, x, rest, hne, hall, rfl⟩ := isFutureAddress_iff.1 h
  have hascii : ∀ c ∈ 'v' :: (digits ++ ['.']), isAscii c = true := by
    intro c hc
    simp only [List.mem_cons, List.mem_append, List.not_mem_nil, or_false] at hc
    rcases hc with rfl | hc | rfl
    · rfl
    · exact isAscii_of_isHexDigit (hall c hc)
    · rfl
  have hpercent : '%' ∉ 'v' :: (digits ++ ['.']) := by
    intro hm
    simp only [List.mem_cons, List.mem_append, List.not_mem_nil, or_false] at hm
    rcases hm with hm | hm | hm
    · cases hm
    · cases hall _ hm
    · cases hm
  obtain ⟨r, hr, hlower⟩ := lowerHost_append_of_ascii hascii hpercent (List.cons_ne_nil x rest)
  obtain ⟨y, r, rfl⟩ := List.exists_cons_of_ne_nil hr
  refine ⟨lowered digits ++ '.' :: y :: r, ?_, isFutureAddress_iff.2 ⟨lowered digits, y, r,
    by simpa using hne, ?_, rfl⟩⟩
  · simpa using hlower
  · intro c hc
    obtain ⟨d, hd, rfl⟩ := List.mem_map.1 hc
    exact isHexDigit_toLower (hall d hd)

theorem validateBracketed_eq_ok_iff {t : Text} : validateBracketed t = .ok () ↔
    (∃ r, t = 'v' :: r ∧ isFutureAddress r = true) ∨ isIPv6 t = true := by
  unfold validateBracketed
  split
  · rename_i r
    have hno : ¬ isIPv6 ('v' :: r) = true := fun h => by cases isAddressChar_head_of_isIPv6 h
    simp [hno]
  · rename_i hv
    have hfuture : ¬ ∃ r, t = 'v' :: r ∧ isFutureAddress r = true := fun ⟨r, hr, _⟩ => hv r hr
    by_cases h4 : isIPv4 t = true
    · have h6 : ¬ isIPv6 t = true := fun h =>
        colon_not_mem_of_isIPv4 h4 (colon_mem_of_isIPv6 h)
      simp [h4, h6, hfuture]
    · simp [h4, hfuture]

/-- **What may stand between brackets may stand there in lower case.** -/
theorem validateBracketed_lowerHost {t : Text} (h : validateBracketed t = .ok ()) :
    validateBracketed (lowerHost t) = .ok () := by
  rcases validateBracketed_eq_ok_iff.1 h with ⟨r, rfl, hr⟩ | h
  · obtain ⟨r', he, hr'⟩ := isFutureAddress_lowerHost hr
    exact validateBracketed_eq_ok_iff.2 (.inl ⟨r', he, hr'⟩)
  · exact validateBracketed_eq_ok_iff.2 (.inr (isIPv6_lowerHost h))

end UrlRouting.Url
