import Mathlib.Control.Basic
import Mathlib.Data.Option.Basic
import UrlRouting.Pattern.Basic
import UrlRouting.Proofs.Url.Reference

/-!
# Texts that match alike

When a pattern tells two texts apart: it looks at the origin, at the normal form of the path and at
the query of a URL, and at nothing else.

* `parts_of_match?`: a match is about the URL that the text is read as.
* `matchUrl?_congr`: what a match depends on.
* `Alike p s t`: `p` finds the same parameters and the same fields in `s` and `t`, or matches
  neither.
* `alike_of_urls`: **URLs with the same origin, the same query and paths that are read alike match
  alike**.
-/

namespace UrlRouting

namespace Url

/-- The written query gives the query. -/
theorem query_eq_of_search_eq {u v : Url} (h : u.search = v.search) : u.query = v.query :=
  marked_inj h

end Url

namespace Pattern

/-- What a match is made of. -/
theorem parts_of_match? {p : Pattern} {t : Text} {m : Match} (h : p.match? t = some m) :
    Url.parse t = .ok m.url ∧ p.acceptsOrigin m.url = true ∧
      m.search = QueryField.search p.fields m.url.query ∧
      ∃ segments, p.expression.captures? (Path.normalForm m.url.pathname) = some segments ∧
        params? p.captureNames segments = some m.params := by
  unfold match? at h
  split at h
  · rename_i u hu
    simp only [matchUrl?, bind, Option.bind_eq_some_iff] at h
    obtain ⟨_, haccepts, segments, hcaps, params, hparams, hm⟩ := h
    obtain rfl := Option.some.inj hm
    refine ⟨hu, ?_, rfl, segments, hcaps, hparams⟩
    by_contra hno
    simp [hno] at haccepts
  · cases h

/-- Two texts match and give the same parameters and the same fields, or neither of them
matches. -/
def Alike (p : Pattern) (s t : Text) : Prop :=
  Option.Rel (fun m n => m.params = n.params ∧ m.search = n.search) (p.match? s) (p.match? t)

/-- A match depends on the origin and the path of a URL, and on its query for what is searched. -/
theorem matchUrl?_congr {p : Pattern} {u v : Url} (horigin : u.origin = v.origin)
    (hpath : p.expression.captures? (Path.normalForm u.pathname) =
      p.expression.captures? (Path.normalForm v.pathname)) :
    p.matchUrl? u = (p.matchUrl? v).map fun m =>
      { m with search := QueryField.search p.fields u.query, url := u } := by
  have haccepts : p.acceptsOrigin u = p.acceptsOrigin v := by
    simp only [acceptsOrigin, horigin]
  simp only [matchUrl?, haccepts, hpath]
  cases p.acceptsOrigin v with
  | false => rfl
  | true =>
    cases p.expression.captures? (Path.normalForm v.pathname) with
    | none => rfl
    | some segments =>
      simp only [guard_true, pure, bind, Option.bind_some]
      cases params? p.captureNames segments with
      | none => rfl
      | some params => rfl

theorem alike_of_urls {p : Pattern} {s t : Text} {u v : Url} (hu : Url.parse s = .ok u)
    (hv : Url.parse t = .ok v) (horigin : u.origin = v.origin) (hquery : u.query = v.query)
    (hpath : p.expression.captures? (Path.normalForm u.pathname) =
      p.expression.captures? (Path.normalForm v.pathname)) : p.Alike s t := by
  have hs : p.match? s = p.matchUrl? u := by simp only [match?, hu]
  have ht : p.match? t = p.matchUrl? v := by simp only [match?, hv]
  rw [Alike, hs, matchUrl?_congr horigin hpath, ← ht]
  cases hm : p.match? t with
  | none => exact .none
  | some m =>
    obtain ⟨hmv, -, hsearch, -⟩ := parts_of_match? hm
    obtain rfl := Except.ok.inj (hv.symm.trans hmv)
    refine .some ⟨rfl, ?_⟩
    rw [hsearch, ← hquery]

end Pattern

end UrlRouting
