import UrlRouting.Proofs.Url.Spelling

/-!
# Dot segments by the rules of RFC 3986

Section 5.2.4 of RFC 3986 removes dot segments with two buffers: it takes text from the front of
the input, puts it at the end of the output, and takes a segment off the output again where the
input goes up. `removeDots` has a stack of segments instead. Both agree, since a turn of the loop on
the buffers is a step on the stack: the output is the stack as it is written, and the input is what
is left of the segments.

* `Buffers.turn`, `Buffers.run`: the rules A to E, and the loop over them.
* `Buffers.ofSegments`: the buffers that stand for a stack and the segments after it.
  `turn_here`, `turn_up`, `turn_segment`: **one turn on these buffers**.
* `run_ofSegments`: what the loop leaves of them.
* `removeDots_eq_run`: **`removeDots` resolves a rooted path by these rules**. `removeDots_by_rules`
  adds what is then known of the result.
-/

namespace UrlRouting.Path

/-! ## The rules -/

/-- What is left of a path, and what has been put out. -/
structure Buffers where
  input : Text
  output : Text

namespace Buffers

/-- A text without its last segment and the slash in front of that one, if there is any. -/
def withoutLast (t : Text) : Text := (Text.cutLast '/' t).1.getD []

/-- One turn of the loop, by the first rule that applies. -/
def turn : Buffers → Buffers
  -- A: dot segments in front of a relative path
  | ⟨'.' :: '.' :: '/' :: input, output⟩ => ⟨input, output⟩
  | ⟨'.' :: '/' :: input, output⟩ => ⟨input, output⟩
  -- B: a segment that stays where it is
  | ⟨'/' :: '.' :: '/' :: input, output⟩ => ⟨'/' :: input, output⟩
  | ⟨['/', '.'], output⟩ => ⟨['/'], output⟩
  -- C: a segment that goes up
  | ⟨'/' :: '.' :: '.' :: '/' :: input, output⟩ => ⟨'/' :: input, withoutLast output⟩
  | ⟨['/', '.', '.'], output⟩ => ⟨['/'], withoutLast output⟩
  -- D: a dot segment that is all there is
  | ⟨['.'], output⟩ => ⟨[], output⟩
  | ⟨['.', '.'], output⟩ => ⟨[], output⟩
  -- E: any other segment, with the slash in front of it
  | ⟨c :: t, output⟩ => ⟨t.dropWhile (· ≠ '/'), output ++ c :: t.takeWhile (· ≠ '/')⟩
  | ⟨[], output⟩ => ⟨[], output⟩

/-- Every turn takes something off the input. -/
theorem length_turn_lt {b : Buffers} (h : b.input ≠ []) :
    b.turn.input.length < b.input.length := by
  unfold turn
  split
  case h_9 => exact Nat.lt_succ_of_le (List.dropWhile_sublist _).length_le
  case h_10 => exact absurd rfl h
  all_goals
    simp only [List.length_cons]
    omega

/-- Turn until the input is empty. -/
def run (b : Buffers) : Text := if b.input = [] then b.output else b.turn.run
termination_by b.input.length
decreasing_by exact length_turn_lt ‹_›

theorem run_of_nil (output : Text) : run ⟨[], output⟩ = output := by
  rw [run, if_pos rfl]

theorem run_turn {b : Buffers} (h : b.input ≠ []) : b.run = b.turn.run := by
  rw [run, if_neg h]

end Buffers

/-! ## The buffers of a stack -/

/-- Segments, with a slash in front of each. -/
def rooted (segments : List Text) : Text := segments.flatMap ('/' :: ·)

/-- The segments behind a dot segment: in last position it leaves an empty one behind. -/
def behindDots (rest : List Text) : List Text := if rest.isEmpty then [[]] else rest

theorem rooted_cons (s : Text) (rest : List Text) :
    rooted (s :: rest) = '/' :: (s ++ rooted rest) := by
  rw [rooted, List.flatMap_cons]
  rfl

theorem rooted_ne_nil {segments : List Text} (h : segments ≠ []) : rooted segments ≠ [] := by
  obtain ⟨s, rest, rfl⟩ := List.exists_cons_of_ne_nil h
  rw [rooted_cons]
  exact List.cons_ne_nil _ _

theorem rooted_reverse_cons (s : Text) (kept : List Text) :
    rooted (s :: kept).reverse = rooted kept.reverse ++ '/' :: s := by
  simp [rooted]

namespace Buffers

/-- The segments of a path that are left, and the stack of those that were put out. -/
def ofSegments (kept rest : List Text) : Buffers := ⟨rooted rest, rooted kept.reverse⟩

theorem turn_here (kept rest : List Text) :
    (ofSegments kept (here :: rest)).turn = ofSegments kept (behindDots rest) := by
  cases rest with
  | nil => rfl
  | cons s rest => rfl

theorem withoutLast_rooted {kept : List Text} (h : ∀ s ∈ kept, '/' ∉ s) :
    withoutLast (rooted kept.reverse) = rooted kept.tail.reverse := by
  cases kept with
  | nil => rfl
  | cons s kept =>
    rw [rooted_reverse_cons, withoutLast, Text.cutLast_some (h s List.mem_cons_self)]
    rfl

theorem turn_up {kept : List Text} (h : ∀ s ∈ kept, '/' ∉ s) (rest : List Text) :
    (ofSegments kept (up :: rest)).turn = ofSegments kept.tail (behindDots rest) := by
  rw [ofSegments.eq_def kept.tail, ← withoutLast_rooted h]
  cases rest with
  | nil => rfl
  | cons s rest => rfl

/-- What follows a slash is put out up to the next one, unless it is a dot segment. -/
theorem turn_slash {t output : Text} (h : ¬ IsDot (t.takeWhile (· ≠ '/'))) :
    turn ⟨'/' :: t, output⟩ =
      ⟨t.dropWhile (· ≠ '/'), output ++ '/' :: t.takeWhile (· ≠ '/')⟩ := by
  rw [turn]
  -- each rule before E takes a dot segment, or a text without the slash
  all_goals
    intros
    subst_vars
    simp_all [IsDot, here, up]

theorem takeWhile_segment {s : Text} (hslash : '/' ∉ s) (rest : List Text) :
    (s ++ rooted rest).takeWhile (· ≠ '/') = s ∧
      (s ++ rooted rest).dropWhile (· ≠ '/') = rooted rest := by
  have hs : ∀ c ∈ s, decide (c ≠ '/') = true := by
    intro c hc
    rw [decide_eq_true_eq]
    rintro rfl
    exact hslash hc
  rw [List.takeWhile_append_of_pos hs, List.dropWhile_append_of_pos hs]
  cases rest with
  | nil => simp [rooted]
  | cons s' rest => simp [rooted_cons]

theorem turn_segment {s : Text} (hslash : '/' ∉ s) (hdot : ¬ IsDot s) (kept rest : List Text) :
    (ofSegments kept (s :: rest)).turn = ofSegments (s :: kept) rest := by
  obtain ⟨htake, hdrop⟩ := takeWhile_segment hslash rest
  rw [ofSegments, rooted_cons, turn_slash (by rwa [htake]), htake, hdrop, ofSegments,
    rooted_reverse_cons]

/-- The empty segment behind the last dot segment takes one more turn. -/
theorem run_behindDots (kept rest : List Text) :
    (ofSegments kept (behindDots rest)).run = (ofSegments (closed kept rest) rest).run := by
  cases rest with
  | nil =>
    have hne : (ofSegments kept [[]]).input ≠ [] := rooted_ne_nil (List.cons_ne_nil [] [])
    exact (run_turn hne).trans (congrArg run (turn_segment (by simp) not_isDot_nil kept []))
  | cons s rest => rfl

/-- **The loop leaves what the stack leaves.** -/
theorem run_ofSegments {kept rest : List Text} (hk : ∀ s ∈ kept, '/' ∉ s)
    (hr : ∀ s ∈ rest, '/' ∉ s) :
    (ofSegments kept rest).run = rooted (resolveAfter kept rest) := by
  have hnil : '/' ∉ ([] : Text) := List.not_mem_nil
  induction rest generalizing kept with
  | nil => exact run_of_nil _
  | cons s rest ih =>
    rw [List.forall_mem_cons] at hr
    rw [run_turn (rooted_ne_nil (List.cons_ne_nil s rest))]
    rcases here_or_up_or_not_isDot s with rfl | rfl | hdot
    · rw [turn_here, run_behindDots, resolveAfter_here]
      exact ih (forall_mem_closed hnil hk rest) hr.2
    · have htail : ∀ s ∈ kept.tail, '/' ∉ s := fun s hs => hk s (List.mem_of_mem_tail hs)
      rw [turn_up hk, run_behindDots, resolveAfter_up]
      exact ih (forall_mem_closed hnil htail rest) hr.2
    · rw [turn_segment hr.1 hdot, resolveAfter_cons_of_not_isDot hdot]
      exact ih (List.forall_mem_cons.2 ⟨hr.1, hk⟩) hr.2

end Buffers

/-! ## Rooted paths -/

theorem rooted_splitOn (t : Text) : rooted (t.splitOn '/') = '/' :: t := by
  rw [rooted, ← Text.cons_join '/' (List.splitOn_ne_nil '/' t), Text.join,
    List.intercalate_splitOn]

theorem removeDots_eq_rooted (t : Text) :
    removeDots ('/' :: t) = rooted (resolveAfter [] (t.splitOn '/')) :=
  Text.cons_join '/' (resolveAfter_ne_nil [] (List.splitOn_ne_nil '/' t))

/-- A rooted path without its dot segments is what the loop leaves of it. -/
theorem removeDots_eq_run (t : Text) : removeDots ('/' :: t) = Buffers.run ⟨'/' :: t, []⟩ := by
  have hstart : (⟨'/' :: t, []⟩ : Buffers) = .ofSegments [] (t.splitOn '/') := by
    rw [Buffers.ofSegments, rooted_splitOn]
    rfl
  have hslash : ∀ s ∈ t.splitOn '/', '/' ∉ s := fun s hs => Text.not_mem_of_mem_splitOn hs
  rw [hstart, Buffers.run_ofSegments (by simp) hslash, removeDots_eq_rooted]

/-- A path from the root, and a relative one. -/
example : Buffers.run ⟨"/a/b/c/./../../g", []⟩ = "/a/g".toList ∧
    Buffers.run ⟨"mid/content=5/../6", []⟩ = "mid/6".toList := by
  decide +kernel

theorem not_isDot_of_mem_removeDots (t : Text) :
    ∀ s ∈ (removeDots ('/' :: t)).splitOn '/', ¬ IsDot s := by
  rw [splitOn_removeDots_rooted]
  exact List.forall_mem_cons.2 ⟨not_isDot_nil, not_isDot_of_mem_resolveAfter⟩

theorem removeDots_removeDots (t : Text) :
    removeDots (removeDots ('/' :: t)) = removeDots ('/' :: t) := by
  have hdots := not_isDot_of_mem_removeDots t
  obtain ⟨x, hx⟩ : ∃ x, removeDots ('/' :: t) = '/' :: x := ⟨_, rfl⟩
  rw [hx, List.splitOn_cons_eq_if_modifyHead, if_pos (beq_self_eq_true _)] at hdots
  rw [hx]
  exact removeDots_eq_self fun s hs => hdots s (List.mem_cons_of_mem _ hs)

/-- **A rooted path is resolved by the rules**: it is rooted again, has no dot segments, and stays
as it is when its dot segments are removed once more. -/
theorem removeDots_by_rules (t : Text) :
    removeDots ('/' :: t) = Buffers.run ⟨'/' :: t, []⟩ ∧
      (removeDots ('/' :: t)).head? = some '/' ∧
      here ∉ (removeDots ('/' :: t)).splitOn '/' ∧ up ∉ (removeDots ('/' :: t)).splitOn '/' ∧
      removeDots (removeDots ('/' :: t)) = removeDots ('/' :: t) := by
  have hdots := not_isDot_of_mem_removeDots t
  exact ⟨removeDots_eq_run t, rfl, fun h => hdots here h (.inl rfl), fun h => hdots up h (.inr rfl),
    removeDots_removeDots t⟩

end UrlRouting.Path
