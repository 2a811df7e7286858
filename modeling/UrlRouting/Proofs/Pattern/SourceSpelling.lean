import UrlRouting.Proofs.Pattern.Grammar
import UrlRouting.Proofs.Url.NormalForm
import UrlRouting.Proofs.Url.PathPlace

/-!
# Spellings of a source

What token a segment spells is told by what it decodes to, and a literal keeps the normal form of
its segment. So a source can spell its path in many ways: the characters that mark a token mark it
as escapes too.

* `Token.ofPath_congr`: **paths of one normal form have the same tokens**.
* `compile_respelled`: **a source compiles to the same pattern with escapes in place of a character
  of its path**.
-/

namespace UrlRouting.Pattern

open Text.Percent (Escapes OfEscape decode?)
open Url (InPath)

/-! ## Segments of one normal form -/

theorem Token.Spells.congr {s s' : Text} {t : Token} (h : Token.Spells s t)
    (hs : Segment.normalForm s = Segment.normalForm s') : Token.Spells s' t := by
  have hd := Segment.decode_congr hs
  cases h with
  | anySegment h => exact .anySegment (hd ▸ h)
  | anySegments h => exact .anySegments (hd ▸ h)
  | literal hbrace hcolon hone hmany =>
    rw [hd] at hbrace hcolon hone hmany
    rw [hs]
    exact .literal hbrace hcolon hone hmany
  | capture h hne hbrace => exact .capture (hd ▸ h) hne hbrace
  | union h hbody halternatives => exact .union (hd ▸ h) hbody halternatives
  | choice h hne hbrace hbody halternatives =>
    exact .choice (hd ▸ h) hne hbrace hbody halternatives

theorem Token.forall₂_spells_congr {ss ss' : List Text} {ts : List Token}
    (h : List.Forall₂ Token.Spells ss ts)
    (hs : ss.map Segment.normalForm = ss'.map Segment.normalForm) :
    List.Forall₂ Token.Spells ss' ts := by
  induction h generalizing ss' with
  | nil =>
    obtain rfl := List.map_eq_nil_iff.1 hs.symm
    exact .nil
  | cons hst _ ih =>
    obtain ⟨s', rest', rfl, hs', hrest⟩ := List.map_eq_cons_iff.1 hs.symm
    exact .cons (hst.congr hs'.symm) (ih hrest.symm)

/-- **Paths of one normal form have the same tokens.** -/
theorem Token.ofPath_congr {path path' : Text} {tokens : List Token}
    (h : Path.normalForm path = Path.normalForm path') (ht : Token.ofPath path = .ok tokens) :
    Token.ofPath path' = .ok tokens := by
  rw [Token.ofPath_eq_ok_iff] at ht ⊢
  apply Token.forall₂_spells_congr ht
  rw [← Path.segments_normalForm, h, Path.segments_normalForm]

/-! ## Sources -/

/-- **A source compiles to the same pattern with escapes in place of a character of its path**,
whatever the character marks, if its segment decodes and is no dot segment. -/
theorem compile_respelled {before after left right w v : Text} {c : Char} {p : Pattern}
    (hp : compile (before ++ c :: after) = .ok p) (hplace : InPath before c after left right)
    (hc : c ≠ '/') (hescape : ¬ OfEscape left c right)
    (hv : decode? (Path.segmentAround left [c] right) = some v) (hdot : ¬ Path.IsDot v)
    (hw : Escapes (String.utf8EncodeChar c) w)
    (hlen : (before ++ (w ++ after)).length ≤ maxLength) :
    compile (before ++ (w ++ after)) = .ok { p with source := before ++ (w ++ after) } := by
  obtain ⟨u, hu, ht, hf, horigin⟩ := parts_of_compile hp
  have hsafe : ∀ d ∈ w, isPathSafe d = true :=
    hw.forall_mem (by decide) fun _ => Path.isPathSafe_of_isHexDigit
  obtain ⟨m, rfl⟩ := hw.exists_cons String.utf8EncodeChar_ne_nil
  obtain ⟨-, hm⟩ := List.forall_mem_cons.1 hsafe
  obtain ⟨lead, hlead, hpath, hu'⟩ := Url.parse_respelled hplace hc hm hu
  have hnormal := Path.normalForm_escapes hescape hw hv hc hdot lead hlead
  rw [hpath] at ht
  have hscheme := Url.hasScheme_respelled hplace hc hm hu
  have hcompile := compile_of_ok hlen hu' (Token.ofPath_congr hnormal.symm ht) hf
  rw [List.cons_append, hscheme] at hcompile
  rw [List.cons_append, hcompile, horigin]
  rfl

/-- The brace of a union, behind a `%` of its own and before the first half of an escape. -/
theorem compile_respelled_brace :
    ∃ p, compile ("\t/%/:x".toList ++ '\x7b' :: "é%4|%2a\t\x7d/**?y[]".toList) = .ok p ∧
      compile ("\t/%/:x".toList ++ ("%7b".toList ++ "é%4|%2a\t\x7d/**?y[]".toList)) =
        .ok { p with
          source := "\t/%/:x".toList ++ ("%7b".toList ++ "é%4|%2a\t\x7d/**?y[]".toList) } ∧
      p.tokens = [.literal "%25", .choice "x" ["é%4", "*"], .anySegments] := by
  have hp : compile ("\t/%/:x".toList ++ '\x7b' :: "é%4|%2a\t\x7d/**?y[]".toList) =
      .ok ⟨"\t/%/:x\x7bé%4|%2a\t\x7d/**?y[]",
        [.literal "%25", .choice "x" ["é%4", "*"], .anySegments], [⟨"y", true, []⟩], none⟩ := by
    decide +kernel
  have hplace : InPath "\t/%/:x" '\x7b' "é%4|%2a\t\x7d/**?y[]" "/%/:x" "é%4|%2a\x7d/**" :=
    ⟨rfl, rfl⟩
  have hescape : ¬ OfEscape "/%/:x" '\x7b' "é%4|%2a\x7d/**" := by
    rintro (h | ⟨h, -⟩)
    · revert h
      decide
    · cases h
  have hv : decode? (Path.segmentAround "/%/:x" ['\x7b'] "é%4|%2a\x7d/**") =
      some ":x\x7bé%4|*\x7d" := by decide +kernel
  have hw : Escapes (String.utf8EncodeChar '\x7b') "%7b" := .cons rfl .nil
  have hlen : ("\t/%/:x".toList ++ ("%7b".toList ++ "é%4|%2a\t\x7d/**?y[]".toList)).length ≤
      maxLength := by decide +kernel
  have hdot : ¬ Path.IsDot ":x\x7bé%4|*\x7d" := by decide +kernel
  exact ⟨_, hp, compile_respelled hp hplace (by decide) hescape hv hdot hw hlen, rfl⟩

end UrlRouting.Pattern
