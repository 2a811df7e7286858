import UrlRouting.Proofs.OrderedMap
import UrlRouting.RouteTable.Draft

/-!
# Runs of calls on a draft

What a draft holds after any calls, those that failed among them, and what it answers then.

* `Draft.run` makes calls one after the other.
* `Draft.additions`: the targets that were added by calls that did not fail. `entries_run`: **they
  are what the draft holds**, in the order of the calls.
* `FirstCall`: the first call that adds a target under a name. `mem_keys_run`: a name is there when
  some call has tried to add it, and `mem_targets_iff_firstCall`: it has the target of its first
  call.
* `run_append`, `run_without_failed`: calls made later change no answer, and a call that failed
  might as well not have been made.
* `draft_after_calls`: all of this together, with what the next call answers.
-/

namespace UrlRouting.RouteTable.Draft

/-! ## Runs -/

/-- What comes of calls that are made one after the other, and the draft after them. -/
def run (d : Draft) : List Call → List (Logged Error Answer) × Draft
  | [] => ([], d)
  | c :: calls =>
    let (result, d') := d.call c
    let (results, d'') := d'.run calls
    (result :: results, d'')

theorem run_cons (d : Draft) (c : Call) (calls : List Call) :
    d.run (c :: calls) = ((d.call c).1 :: ((d.call c).2.run calls).1, ((d.call c).2.run calls).2) :=
  rfl

/-- The calls of a run answer as they do when they are the last ones. -/
theorem run_append (d : Draft) (calls more : List Call) :
    d.run (calls ++ more) = ((d.run calls).1 ++ ((d.run calls).2.run more).1,
      ((d.run calls).2.run more).2) := by
  induction calls generalizing d with
  | nil => rfl
  | cons c calls ih => rw [List.cons_append, run_cons, ih, run_cons, List.cons_append]

/-! ## One call -/

theorem call_add_of_mem {d : Draft} {name : Text} (h : name ∈ d.targets.keys) (target : Target) :
    d.call (.add name target) = (⟨[], .error (.duplicate name)⟩, d) := by
  have hadd : d.add name target = .error (.duplicate name) :=
    if_pos ((OrderedMap.contains_iff_mem_keys _ _).2 h)
  rw [call, hadd]

theorem call_add_of_not_mem {d : Draft} {name : Text} (h : name ∉ d.targets.keys)
    (target : Target) :
    d.call (.add name target) = (⟨[], .ok .added⟩, ⟨d.targets.insert name target⟩) := by
  have hadd : d.add name target = .ok ⟨d.targets.insert name target⟩ :=
    if_neg fun hc => h ((OrderedMap.contains_iff_mem_keys _ _).1 hc)
  rw [call, hadd]

/-- What a call can do: it is refused, it adds a new name at the end, or it builds. -/
theorem call_cases (d : Draft) (c : Call) :
    (∃ name target, c = .add name target ∧ name ∈ d.targets.keys ∧
      d.call c = (⟨[], .error (.duplicate name)⟩, d)) ∨
    (∃ name target, c = .add name target ∧ name ∉ d.targets.keys ∧
      d.call c = (⟨[], .ok .added⟩, ⟨d.targets.insert name target⟩)) ∨
    (c = .build ∧ d.call c = ((RouteTable.build d.targets).map .built, d)) := by
  cases c with
  | build => exact .inr (.inr ⟨rfl, rfl⟩)
  | add name target =>
    by_cases h : name ∈ d.targets.keys
    · exact .inl ⟨name, target, rfl, h, call_add_of_mem h target⟩
    · exact .inr (.inl ⟨name, target, rfl, h, call_add_of_not_mem h target⟩)

/-- **A call that fails leaves the draft as it is.** -/
theorem call_of_error {d : Draft} {c : Call} {e : Error}
    (h : (d.call c).1.outcome = .error e) : (d.call c).2 = d := by
  rcases call_cases d c with ⟨name, target, -, -, hc⟩ | ⟨name, target, -, -, hc⟩ | ⟨-, hc⟩
  · rw [hc]
  · rw [hc] at h
    cases h
  · rw [hc]

/-- **An addition fails exactly under a name that is there already.** -/
theorem call_add_eq_error_iff {d : Draft} {name : Text} {target : Target} {e : Error} :
    (d.call (.add name target)).1.outcome = .error e ↔
      name ∈ d.targets.keys ∧ e = .duplicate name := by
  by_cases h : name ∈ d.targets.keys
  · rw [call_add_of_mem h]
    simp [h, eq_comm]
  · rw [call_add_of_not_mem h]
    simp [h]

/-! ## What was added -/

/-- The target that a call added, given what came of it. -/
def addition? : Call × Logged Error Answer → Option (Text × Target)
  | (.add name target, ⟨_, .ok _⟩) => some (name, target)
  | _ => none

theorem entries_call (d : Draft) (c : Call) :
    (d.call c).2.targets.entries =
      d.targets.entries ++ (addition? (c, (d.call c).1)).toList := by
  rcases call_cases d c with ⟨name, target, rfl, -, hc⟩ | ⟨name, target, rfl, hn, hc⟩ | ⟨rfl, hc⟩
  · rw [hc]
    exact (List.append_nil _).symm
  · rw [hc]
    exact OrderedMap.entries_insert_of_not_mem hn target
  · rw [hc]
    exact (List.append_nil _).symm

/-- **A run appends what its calls added**, in the order of the calls. -/
theorem entries_run (d : Draft) (calls : List Call) :
    (d.run calls).2.targets.entries =
      d.targets.entries ++ (calls.zip (d.run calls).1).filterMap addition? := by
  induction calls generalizing d with
  | nil => exact (List.append_nil _).symm
  | cons c calls ih =>
    rw [run_cons, ih, entries_call, List.zip_cons_cons, List.filterMap_cons]
    cases addition? (c, (d.call c).1) with
    | none => simp
    | some e => simp

/-! ## The first call under a name -/

/-- The first call that adds a target under this name adds this one. -/
def FirstCall (calls : List Call) (name : Text) (target : Target) : Prop :=
  ∃ before after, calls = before ++ .add name target :: after ∧ ∀ t, .add name t ∉ before

theorem not_firstCall_nil (name : Text) (target : Target) : ¬ FirstCall [] name target := by
  intro h
  obtain ⟨before, after, h, -⟩ := h
  simp at h

theorem firstCall_concat_iff {calls : List Call} {c : Call} {name : Text} {target : Target} :
    FirstCall (calls ++ [c]) name target ↔
      FirstCall calls name target ∨ c = .add name target ∧ ∀ t, .add name t ∉ calls := by
  constructor
  · intro h
    obtain ⟨before, after, h, hbefore⟩ := h
    rcases List.eq_nil_or_concat' after with rfl | ⟨after, x, rfl⟩
    · obtain ⟨rfl, hc⟩ := List.append_inj' h rfl
      exact .inr ⟨(List.cons.inj hc).1, hbefore⟩
    · rw [← List.cons_append, ← List.append_assoc] at h
      obtain ⟨rfl, -⟩ := List.append_inj' h rfl
      exact .inl ⟨before, after, rfl, hbefore⟩
  · rintro (⟨before, after, rfl, hbefore⟩ | ⟨rfl, hcalls⟩)
    · exact ⟨before, after ++ [c], by simp, hbefore⟩
    · exact ⟨calls, [], rfl, hcalls⟩

theorem run_concat (d : Draft) (calls : List Call) (c : Call) :
    (d.run (calls ++ [c])).2 = ((d.run calls).2.call c).2 := by
  rw [run_append]
  rfl

theorem mem_targets_call {d : Draft} {c : Call} {name : Text} {target : Target} :
    (name, target) ∈ (d.call c).2.targets.entries ↔
      (name, target) ∈ d.targets.entries ∨ c = .add name target ∧ name ∉ d.targets.keys := by
  rcases call_cases d c with ⟨n, t, rfl, hn, hc⟩ | ⟨n, t, rfl, hn, hc⟩ | ⟨rfl, hc⟩
  · rw [hc]
    refine (or_iff_left ?_).symm
    rintro ⟨hcall, hnew⟩
    cases hcall
    exact hnew hn
  · rw [hc]
    simp only [OrderedMap.entries_insert_of_not_mem hn, List.mem_append, List.mem_singleton]
    refine or_congr_right ⟨fun h => ?_, fun h => ?_⟩
    · cases h
      exact ⟨rfl, hn⟩
    · cases h.1
      rfl
  · rw [hc]
    refine (or_iff_left ?_).symm
    rintro ⟨hcall, -⟩
    cases hcall

theorem mem_keys_call {d : Draft} {c : Call} {name : Text} :
    name ∈ (d.call c).2.targets.keys ↔
      name ∈ d.targets.keys ∨ ∃ target, c = .add name target := by
  simp only [OrderedMap.mem_keys_iff, mem_targets_call, exists_or, exists_and_right]
  by_cases h : ∃ target, (name, target) ∈ d.targets.entries
  · simp [h]
  · simp [h]

/-- **A name is there when it was there before or some call has tried to add it.** -/
theorem mem_keys_run {d : Draft} {calls : List Call} {name : Text} :
    name ∈ (d.run calls).2.targets.keys ↔
      name ∈ d.targets.keys ∨ ∃ target, .add name target ∈ calls := by
  induction calls generalizing d with
  | nil => simp [run]
  | cons c calls ih =>
    rw [run_cons, ih, mem_keys_call, or_assoc, ← exists_or]
    simp only [List.mem_cons, eq_comm]

/-- **A name has the target of the first call under it.** -/
theorem mem_targets_iff_firstCall {calls : List Call} {name : Text} {target : Target} :
    (name, target) ∈ (empty.run calls).2.targets.entries ↔ FirstCall calls name target := by
  -- From the right: whether the last call adds its target depends on all calls before it.
  induction calls using List.reverseRecOn with
  | nil => exact iff_of_false List.not_mem_nil (not_firstCall_nil name target)
  | append_singleton calls c ih =>
    have hempty : name ∉ empty.targets.keys := List.not_mem_nil
    have hnew : name ∉ (empty.run calls).2.targets.keys ↔ ∀ t, .add name t ∉ calls := by
      rw [mem_keys_run, or_iff_right hempty, not_exists]
    rw [run_concat, mem_targets_call, firstCall_concat_iff, ih, hnew]

/-! ## All together -/

/-- The targets that some calls have added, in the order of the calls. -/
def additions (calls : List Call) : List (Text × Target) :=
  (calls.zip (empty.run calls).1).filterMap addition?

theorem entries_run_empty (calls : List Call) :
    (empty.run calls).2.targets.entries = additions calls :=
  entries_run empty calls

theorem call_build_after (calls : List Call) :
    (empty.run calls).2.call .build =
      ((RouteTable.build (.ofList (additions calls))).map .built, (empty.run calls).2) := by
  rw [← entries_run_empty, OrderedMap.ofList_entries]
  rfl

/-- **A call that failed might as well not have been made.** -/
theorem run_without_failed {d : Draft} {calls : List Call} {c : Call} {e : Error}
    (h : ((d.run calls).2.call c).1.outcome = .error e) (more : List Call) :
    ∃ results, (d.run (calls ++ more)).1 = (d.run calls).1 ++ results ∧
      (d.run (calls ++ c :: more)).1 =
        (d.run calls).1 ++ ((d.run calls).2.call c).1 :: results ∧
      (d.run (calls ++ c :: more)).2 = (d.run (calls ++ more)).2 := by
  refine ⟨((d.run calls).2.run more).1, ?_, ?_, ?_⟩
  · rw [run_append]
  · rw [run_append, run_cons, call_of_error h]
  · rw [run_append, run_append, run_cons, call_of_error h]

/-- **A draft after any calls.** It holds the targets of the calls that did not fail, each name
once and with the target of the first call under it. An addition fails exactly under a name that is
there already; a call that fails leaves the draft, and what comes of all later calls, as if it had
not been made; a table is built from what the draft holds; and what has come of a call, the tables
among it, is not changed by later calls. -/
theorem draft_after_calls (calls : List Call) :
    (empty.run calls).2.targets.keys.Nodup ∧
    (empty.run calls).2.targets.entries = additions calls ∧
    (∀ name target, (name, target) ∈ additions calls ↔ FirstCall calls name target) ∧
    (∀ name target e, ((empty.run calls).2.call (.add name target)).1.outcome = .error e ↔
      name ∈ (empty.run calls).2.targets.keys ∧ e = .duplicate name) ∧
    (∀ c e, ((empty.run calls).2.call c).1.outcome = .error e →
      ((empty.run calls).2.call c).2 = (empty.run calls).2 ∧
      ∀ more, ∃ results, (empty.run (calls ++ more)).1 = (empty.run calls).1 ++ results ∧
        (empty.run (calls ++ c :: more)).1 =
          (empty.run calls).1 ++ ((empty.run calls).2.call c).1 :: results ∧
        (empty.run (calls ++ c :: more)).2 = (empty.run (calls ++ more)).2) ∧
    (empty.run calls).2.call .build =
      ((RouteTable.build (.ofList (additions calls))).map .built, (empty.run calls).2) ∧
    ∀ more, (empty.run calls).1 <+: (empty.run (calls ++ more)).1 := by
  refine ⟨(empty.run calls).2.targets.nodup, entries_run_empty calls, ?_,
    fun name target e => call_add_eq_error_iff, ?_, call_build_after calls, ?_⟩
  · intro name target
    rw [← entries_run_empty]
    exact mem_targets_iff_firstCall
  · intro c e h
    exact ⟨call_of_error h, run_without_failed h⟩
  · intro more
    rw [run_append]
    exact List.prefix_append _ _

/-- A name that is added twice, and a bad target that stays in the draft over a table that cannot
be built. -/
theorem draft_after_calls_failed :
    let quiet : Target := .matcher (.custom fun _ => none)
    let number : Target := .value (.scalar (.int 3))
    let calls : List Call := [.add "a".toList quiet, .build, .add "a".toList number,
      .add "b".toList number, .build]
    (empty.run calls).2.targets.entries = [("a".toList, quiet), ("b".toList, number)] ∧
      FirstCall calls "a".toList quiet ∧
      ((empty.run calls).2.call (.add "a".toList number)).1.outcome =
        .error (.duplicate "a".toList) ∧
      (∀ more, (empty.run (calls ++ .add "a".toList number :: more)).2 =
        (empty.run (calls ++ more)).2) ∧
      (empty.run calls).2.call .build =
        (⟨[], .error (.badTarget "b".toList .int)⟩, (empty.run calls).2) := by
  intro quiet number calls
  obtain ⟨-, hentries, hfirst, hadd, hfailed, hbuild, -⟩ := draft_after_calls calls
  have hadded : additions calls = [("a".toList, quiet), ("b".toList, number)] := rfl
  rw [hadded] at hentries hfirst hbuild
  have hrefused : ((empty.run calls).2.call (.add "a".toList number)).1.outcome =
      .error (.duplicate "a".toList) := by
    refine (hadd _ _ _).2 ⟨?_, rfl⟩
    rw [OrderedMap.keys, hentries]
    simp
  refine ⟨hentries, (hfirst _ _).1 (by simp), hrefused, fun more => ?_, hbuild⟩
  obtain ⟨_, -, -, hdraft⟩ := (hfailed _ _ hrefused).2 more
  exact hdraft

end UrlRouting.RouteTable.Draft
