import Mathlib.Data.Nat.Digits.Defs
import UrlRouting.Proofs.Url.Address

/-!
# The parts of an authority

What the parts of a valid authority look like.

* `IsHostname`: a host name that can be told from what stands around it, because a colon in it is
  that of an address. `isHostname_of_validate`: **every valid authority has such a host name**.
* `lowerHost_lowerHost`: a host name in ASCII is its own lower-case form.
* `mem_of_mem_user`, `mem_of_mem_hostname`: which characters the parts hold.
* `portNumber_padded`, `portNumber_decimal`: a port that is written in digits is read back.
-/

namespace UrlRouting.Url

open Text (isAscii cutLast)

/-- A host name as reading leaves it: without its brackets, which only an address can have had. -/
structure IsHostname (h : Text) : Prop where
  address : ':' ∈ h → ']' ∉ h ∧ Authority.validateBracketed h = .ok ()
  head : h.head? ≠ some '['

namespace Authority

/-! ## Hosts -/

theorem mem_lowerHost {t : Text} {c : Char} (hc : c ∈ lowerHost t) (ha : isAscii c = true) :
    c ∈ t ∨ c.isLower = true := by
  have lowered {t : Text} (h : c ∈ Text.lower t) : c ∈ t ∨ c.isLower = true :=
    (Text.mem_lowerAfter h ha).imp_left And.left
  rcases scoped_or_not t with ht | ⟨name, scope, hname, rfl⟩
  · rw [lowerHost_of_not_mem ht] at hc
    exact lowered hc
  · rw [lowerHost_scoped hname] at hc
    rcases List.mem_append.1 hc with hc | hc
    · exact (lowered hc).imp_left (List.mem_append_left _)
    · exact .inl (List.mem_append_right _ hc)

theorem mem_of_mem_lowerHost {t : Text} {d : Char} (hd : d ∈ lowerHost t) (ha : isAscii d = true)
    (hletter : d.isLower = false) : d ∈ t := by
  rcases mem_lowerHost hd ha with h | h
  · exact h
  · rw [hletter] at h
    cases h

/-- A lower-case form in ASCII is its own lower-case form. -/
theorem lowerHost_lowerHost {t : Text} (h : ∀ c ∈ lowerHost t, isAscii c = true) :
    lowerHost (lowerHost t) = lowerHost t := by
  rcases scoped_or_not t with ht | ⟨name, scope, hname, rfl⟩
  · rw [lowerHost_of_not_mem ht] at h ⊢
    rw [lowerHost_of_not_mem (percent_not_mem_lower ht), Text.lower_lower h]
  · rw [lowerHost_scoped hname] at h ⊢
    have hlower : ∀ c ∈ Text.lower name, isAscii c = true := fun c hc =>
      h c (List.mem_append_left _ hc)
    rw [lowerHost_scoped (percent_not_mem_lower hname), Text.lower_lower hlower]

theorem hostAndPort_of_not_mem {t : Text} (h : '[' ∉ t) :
    hostAndPort t = ((Text.cut ':' t).1, (Text.cut ':' t).2.getD []) := by
  rw [hostAndPort, Text.cut_none h]

theorem hostAndPort_bracketed (before inside : Text) (h : '[' ∉ before) :
    hostAndPort (before ++ '[' :: inside) = ((Text.cut ']' inside).1,
      ((Text.cut ':' ((Text.cut ']' inside).2.getD [])).2).getD []) := by
  rw [hostAndPort, Text.cut_some h]

theorem mem_of_mem_hostAndPort {t : Text} {c : Char} (h : c ∈ (hostAndPort t).1) : c ∈ t := by
  by_cases hm : '[' ∈ t
  · obtain ⟨before, inside, rfl, hbefore⟩ := List.eq_append_cons_of_mem hm
    rw [hostAndPort_bracketed _ _ hbefore] at h
    have := Text.mem_of_mem_cut ']' inside (.inl h)
    simp [this]
  · rw [hostAndPort_of_not_mem hm] at h
    exact Text.mem_of_mem_cut ':' t (.inl h)

theorem validateBrackets_of_validate {t : Text} (h : validate t = .ok ()) :
    validateBrackets t = .ok () := by
  unfold validate at h
  cases hb : validateBrackets t with
  | ok _ => rfl
  | error e =>
    rw [hb] at h
    cases h

/-- Brackets in a valid authority belong to a host that is valid with them. -/
theorem validateHost_of_validate {t : Text} (h : validate t = .ok ()) (hm : '[' ∈ t ∨ ']' ∈ t) :
    validateHost (cutLast '@' t).2 = .ok () := by
  have hb := validateBrackets_of_validate h
  unfold validateBrackets at hb
  split at hb
  · rename_i hopen hclose
    rcases hm with hm | hm
    · rw [List.contains_iff_mem.2 hm] at hopen
      cases hopen
    · rw [List.contains_iff_mem.2 hm] at hclose
      cases hclose
  · exact hb
  · cases hb

/-- Only an address can stand between the brackets of a valid authority. -/
theorem validateBracketed_of_validateHost {inside : Text}
    (h : validateHost ('[' :: inside) = .ok ()) :
    validateBracketed (Text.cut ']' inside).1 = .ok () := by
  have hcut : Text.cut '[' ('[' :: inside) = ([], some inside) :=
    Text.cut_some (List.not_mem_nil (a := '[')) inside
  unfold validateHost at h
  rw [hcut] at h
  dsimp only at h
  split at h
  · rename_i hc
    rwa [hc]
  · rename_i hc
    rwa [hc]
  · rename_i hc
    rwa [hc]
  · cases h

theorem before_bracket_of_validateHost {before inside : Text} (hb : '[' ∉ before)
    (h : validateHost (before ++ '[' :: inside) = .ok ()) : before = [] := by
  unfold validateHost at h
  rw [Text.cut_some hb] at h
  cases before with
  | nil => rfl
  | cons c before => cases h

theorem head_of_validateBracketed {h : Text} (hv : validateBracketed h = .ok ()) :
    h.head? ≠ some '[' := by
  intro hhead
  obtain ⟨t, rfl⟩ := List.head?_eq_some_iff.1 hhead
  rcases validateBracketed_eq_ok_iff.1 hv with ⟨r, hr, -⟩ | h6
  · cases hr
  · cases isAddressChar_head_of_isIPv6 h6

theorem isHostname_of_not_mem {t : Text} (h : '[' ∉ t) :
    IsHostname (lowerHost (Text.cut ':' t).1) where
  address := fun hm => absurd (mem_of_mem_lowerHost hm rfl rfl) (Text.not_mem_cut ':' t)
  head := by
    intro hhead
    have hm := mem_of_mem_lowerHost (List.mem_of_head? hhead) rfl rfl
    exact h (Text.mem_of_mem_cut ':' t (.inl hm))

theorem isHostname_of_validateBracketed {host : Text} (hb : ']' ∉ host)
    (hv : validateBracketed host = .ok ()) : IsHostname (lowerHost host) where
  address := fun _ =>
    ⟨fun hm => hb (mem_of_mem_lowerHost hm rfl rfl), validateBracketed_lowerHost hv⟩
  head := head_of_validateBracketed (validateBracketed_lowerHost hv)

/-- **A colon in the host name of a valid authority is that of an address.** -/
theorem isHostname_of_validate {t : Text} (h : validate t = .ok ()) :
    IsHostname (ofText t).hostname := by
  have hhost : (ofText t).hostname = lowerHost (hostAndPort (cutLast '@' t).2).1 := rfl
  rw [hhost]
  by_cases hm : '[' ∈ (cutLast '@' t).2
  · obtain ⟨before, inside, hsplit, hbefore⟩ := List.eq_append_cons_of_mem hm
    have hvalid := validateHost_of_validate h (.inl (Text.mem_of_mem_cutLast (.inr hm)))
    rw [hsplit] at hvalid
    obtain rfl := before_bracket_of_validateHost hbefore hvalid
    rw [hsplit, hostAndPort_bracketed _ _ hbefore]
    exact isHostname_of_validateBracketed (Text.not_mem_cut ']' inside)
      (validateBracketed_of_validateHost hvalid)
  · rw [hostAndPort_of_not_mem hm]
    exact isHostname_of_not_mem hm

theorem lowerHost_ne_nil {t : Text} (h : t ≠ []) : lowerHost t ≠ [] := by
  rcases scoped_or_not t with ht | ⟨name, scope, hname, rfl⟩
  · rw [lowerHost_of_not_mem ht]
    exact Text.lowerAfter_ne_nil [] h
  · simp [lowerHost_scoped hname]

theorem ne_nil_of_validateBracketed {t : Text} (h : validateBracketed t = .ok ()) : t ≠ [] := by
  rcases validateBracketed_eq_ok_iff.1 h with ⟨r, rfl, -⟩ | h6
  · exact List.cons_ne_nil _ _
  · exact List.ne_nil_of_mem (colon_mem_of_isIPv6 h6)

/-- A valid authority with a bracket has a host. -/
theorem hostname_ne_nil_of_bracket {t : Text} (h : validate t = .ok ())
    (hm : '[' ∈ t ∨ ']' ∈ t) : (ofText t).hostname ≠ [] := by
  have hvalid := validateHost_of_validate h hm
  show lowerHost (hostAndPort (cutLast '@' t).2).1 ≠ []
  generalize (cutLast '@' t).2 = host at hvalid ⊢
  apply lowerHost_ne_nil
  apply ne_nil_of_validateBracketed
  by_cases hopen : '[' ∈ host
  · obtain ⟨before, inside, rfl, hbefore⟩ := List.eq_append_cons_of_mem hopen
    obtain rfl := before_bracket_of_validateHost hbefore hvalid
    rw [hostAndPort_bracketed _ _ hbefore]
    exact validateBracketed_of_validateHost hvalid
  · rw [hostAndPort_of_not_mem hopen]
    rwa [validateHost, Text.cut_none hopen] at hvalid

/-! ## Characters of the parts -/

section

variable {t : Text} {c : Char}

theorem mem_of_mem_user (h : c ∈ (ofText t).username ∨ c ∈ (ofText t).password) : c ∈ t :=
  Text.mem_of_mem_cutLast (.inl (Text.mem_of_mem_cut ':' _ h))

theorem mem_of_mem_hostname (h : c ∈ (ofText t).hostname) (ha : isAscii c = true) :
    c ∈ (cutLast '@' t).2 ∨ c.isLower = true :=
  (mem_lowerHost h ha).imp_left mem_of_mem_hostAndPort

theorem colon_not_mem_username (t : Text) : ':' ∉ (ofText t).username := Text.not_mem_cut ':' _

theorem at_not_mem_hostname (t : Text) : '@' ∉ (ofText t).hostname := by
  intro h
  rcases mem_of_mem_hostname h rfl with h | h
  · exact Text.not_mem_cutLast '@' t h
  · cases h

end

/-! ## Ports -/

theorem le_maxPort_of_portNumber {a : Authority} {n : Nat} (h : a.portNumber = .ok (some n)) :
    n ≤ maxPort := by
  unfold portNumber at h
  split at h
  · cases h
  · split at h
    · cases h
    · split at h
      · cases h
      · split at h
        · cases h
        · cases h
          omega

theorem decimal_ne_nil (n : Nat) : Text.decimal n ≠ [] := by
  intro h
  have := Text.decimal?_decimal n
  rw [h] at this
  cases this

/-- A port is read back from its digits, with zeros before them as far as they are read. -/
theorem portNumber_padded {a : Authority} {zeros n : Nat}
    (ha : a.port = List.replicate zeros '0' ++ Text.decimal n)
    (hlength : zeros + (Text.decimal n).length ≤ maxPortDigits) (hn : n ≤ maxPort) :
    a.portNumber = .ok (some n) := by
  have hne : List.replicate zeros '0' ++ Text.decimal n ≠ [] := by
    simp [decimal_ne_nil]
  have hdigits : ¬ maxPortDigits < (List.replicate zeros '0' ++ Text.decimal n).length := by
    simpa using hlength
  unfold portNumber
  rw [ha, if_neg hne, Text.decimal?_padded]
  simp only [if_neg hdigits, if_neg (Nat.not_lt.2 hn)]

theorem portNumber_decimal {a : Authority} {n : Nat} (ha : a.port = Text.decimal n)
    (hn : n ≤ maxPort) : a.portNumber = .ok (some n) := by
  have hfive : (Text.decimal n).length ≤ 5 :=
    Nat.toDigits_length 10 n 5 (by decide) (Nat.lt_of_le_of_lt hn (by decide))
  have hmax : maxPortDigits = 4300 := rfl
  have hpadded : a.port = List.replicate 0 '0' ++ Text.decimal n := ha
  exact portNumber_padded hpadded (by omega) hn

end Authority

end UrlRouting.Url
