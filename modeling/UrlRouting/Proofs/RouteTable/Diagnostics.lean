import UrlRouting.Proofs.RouteTable.FirstBad
import UrlRouting.Proofs.RouteTable.Runs
import UrlRouting.Proofs.Text.OneLine
import UrlRouting.Proofs.Url.Href
import UrlRouting.RouteTable.Config

/-!
# Diagnostics

Log lines and error messages show texts from outside: sources, names, tokens, expressions and
origins. All but the origins are quoted, and a quoted text is on one line. An origin is written as
it is; it is on one line because reading a URL skips the line breaks in its authority.

* `Url.oneLine_origin_of_parse`: **the origin of a URL that was read is on one line**.
* `Pattern.Error.oneLine_message` and its siblings: so is the message of every error, whatever
  texts it carries. `Pattern.Error.quoted` and its siblings are those texts, and
  `Pattern.Error.quote_infix_message` finds them in the message.
* `Event.Occurs`: the events that can be logged. `RouteTable.occurs_of_build`,
  `RouteTable.Draft.occurs_of_call`: nothing else is logged.
* `Diagnostic`: the texts that are logged or raised. `diagnostics_on_one_line`: **they stay on one
  line and show what they are about**.
-/

namespace UrlRouting

open Text (OneLine quote oneLine_append oneLine_cons oneLine_decimal oneLine_quote)

/-! ## Origins -/

namespace Url

variable {t : Text} {u : Url}

/-- A host name is read without line breaks, and its lower-case form brings none in. -/
theorem oneLine_hostname_of_parse (h : parse t = .ok u) : OneLine u.hostname := by
  obtain ⟨r, port, hr, -, rfl⟩ := parse_eq_ok_iff.1 h
  obtain rfl := (Reference.ofText_eq_ok_iff.1 hr).2
  have hnone {c : Char} (ha : Text.isAscii c = true) (hlower : c.isLower = false)
      (hskipped : isSkipped c = true) :
      c ∉ (Authority.ofText (authorityOf t (Reference.parts t))).hostname := by
    intro hc
    rcases Authority.mem_of_mem_hostname hc ha with hc | hc
    · have hkept := (delimited_authorityOf t c (Text.mem_of_mem_cutLast (.inr hc))).2
      rw [hskipped] at hkept
      cases hkept
    · rw [hlower] at hc
      cases hc
  exact ⟨hnone rfl rfl rfl, hnone rfl rfl rfl⟩

theorem oneLine_bracketed (h : OneLine t) : OneLine (bracketed t) := by
  unfold bracketed
  split
  · rw [oneLine_append, oneLine_cons]
    exact ⟨⟨by decide, h⟩, by decide⟩
  · exact h

theorem oneLine_host_of_parse (h : parse t = .ok u) : OneLine u.host := by
  have hname := oneLine_bracketed (oneLine_hostname_of_parse h)
  unfold host
  split
  · rename_i n _
    rw [oneLine_append, oneLine_cons]
    exact ⟨hname, by decide, oneLine_decimal n⟩
  · exact hname

/-- **The origin of a URL that was read is on one line**, although it is not quoted anywhere. -/
theorem oneLine_origin_of_parse (h : parse t = .ok u) : OneLine u.origin := by
  by_cases ho : u.HasOrigin
  · have hschemes : ∀ s ∈ ["http".toList, "https".toList, "ws".toList, "wss".toList,
        "ftp".toList], OneLine s := by decide
    rw [origin_of_hasOrigin ho, oneLine_append]
    exact ⟨hschemes u.scheme (mem_of_isSpecial ho.1),
      oneLine_append (s := [':', '/', '/']).2 ⟨by decide, oneLine_host_of_parse h⟩⟩
  · have hnull : u.origin = "null".toList := if_neg ho
    rw [hnull]
    decide

end Url

/-! ## Messages

A message is some words of its own and texts that are on one line whatever they are. -/

theorem Kind.oneLine_name (k : Kind) : OneLine k.name := by
  cases k <;> decide

theorem Pattern.Error.oneLine_message (e : Pattern.Error) : OneLine e.message := by
  unfold message
  cases e with
  | notText | tooLong | badToken =>
    simp only [oneLine_append, oneLine_quote, oneLine_decimal, Kind.oneLine_name, and_true]
    decide +kernel

theorem RouteTable.Error.oneLine_message (e : RouteTable.Error) : OneLine e.message := by
  unfold message
  cases e with
  | tooMany | badPattern | badTarget | duplicate =>
    simp only [oneLine_append, oneLine_quote, oneLine_decimal, Kind.oneLine_name,
      Pattern.Error.oneLine_message, and_true]
    decide +kernel

theorem BadResult.oneLine_message (b : BadResult) : OneLine b.message := by
  unfold message
  simp only [oneLine_append, oneLine_quote, Kind.oneLine_name, and_true]
  decide +kernel

theorem Config.Error.oneLine_message (e : Config.Error) : OneLine e.message := by
  unfold message
  cases e with
  | noRoutes | emptyName => decide +kernel
  | notMapping | badRoutes | badRoute | missingField | badField | duplicate =>
    simp only [oneLine_append, oneLine_quote, Kind.oneLine_name, and_true]
    decide +kernel

/-! ## Texts between quotes -/

/-- The part and the pattern that an error tells. -/
def Pattern.Error.quoted : Pattern.Error → List Text
  | notText _ | tooLong _ => []
  | badToken source token => [token, source]

/-- The name that an error tells, and what the error of its pattern tells. -/
def RouteTable.Error.quoted : RouteTable.Error → List Text
  | tooMany _ => []
  | badPattern route cause => route :: cause.quoted
  | badTarget route _ | duplicate route => [route]

/-- The name that an error tells. -/
def Config.Error.quoted : Config.Error → List Text
  | duplicate route => [route]
  | notMapping _ | noRoutes | badRoutes _ | badRoute _ | missingField _ | badField _ _
  | emptyName => []

/-- The source and the expression that a line tells. -/
def Event.quoted : Event → List Text
  | compiled p => [p.source, p.expression.written]
  | built _ => []

theorem Pattern.Error.quote_infix_message (e : Pattern.Error) :
    ∀ s ∈ e.quoted, quote s <:+: e.message := by
  cases e with
  | notText | tooLong => exact List.forall_mem_nil _
  | badToken source token =>
    unfold quoted message
    rw [List.forall_mem_cons, List.forall_mem_singleton]
    exact ⟨List.infix_append_of_infix_left (List.infix_append _ _ _), List.infix_append_right⟩

theorem RouteTable.Error.quote_infix_message (e : RouteTable.Error) :
    ∀ s ∈ e.quoted, quote s <:+: e.message := by
  cases e with
  | tooMany => exact List.forall_mem_nil _
  | badPattern route cause =>
    unfold quoted message
    rw [List.forall_mem_cons]
    exact ⟨List.infix_append_of_infix_left (List.infix_append _ _ _),
      fun s hs => List.infix_append_of_infix_right (cause.quote_infix_message s hs)⟩
  | badTarget route kind =>
    unfold quoted message
    rw [List.forall_mem_singleton]
    exact List.infix_append_of_infix_left (List.infix_append _ _ _)
  | duplicate route =>
    unfold quoted message
    rw [List.forall_mem_singleton]
    exact List.infix_append_right

theorem BadResult.quote_infix_message (b : BadResult) : quote b.route <:+: b.message := by
  unfold message
  exact List.infix_append_of_infix_left (List.infix_append_of_infix_left (List.infix_append _ _ _))

theorem Config.Error.quote_infix_message (e : Config.Error) :
    ∀ s ∈ e.quoted, quote s <:+: e.message := by
  cases e with
  | notMapping | noRoutes | badRoutes | badRoute | missingField | badField | emptyName =>
    exact List.forall_mem_nil _
  | duplicate route =>
    unfold quoted message
    rw [List.forall_mem_singleton]
    exact List.infix_append_right

theorem Event.quote_infix_message (event : Event) :
    ∀ s ∈ event.quoted, quote s <:+: event.message := by
  cases event with
  | built => exact List.forall_mem_nil _
  | compiled p =>
    unfold quoted message
    rw [List.forall_mem_cons, List.forall_mem_singleton]
    simp only [List.append_assoc]
    exact ⟨List.infix_append' _ _ _, List.infix_append_of_infix_right
      (List.infix_append_of_infix_right (List.infix_append' _ _ _))⟩

/-- The origin of a pattern ends its line as it is. -/
theorem Event.origin_suffix_message {p : Pattern} {origin : Text} (h : p.origin = some origin) :
    origin <:+ (Event.compiled p).message := by
  unfold message
  simp only [h, Option.getD_some]
  exact List.suffix_append _ _

/-! ## Log lines -/

/-- What can be logged: a pattern that a source compiles to, or that a table was built. -/
inductive Event.Occurs : Event → Prop
  | compiled {source : Text} {p : Pattern} (h : Pattern.compile source = .ok p) :
      Occurs (.compiled p)
  | built (entries : Nat) : Occurs (.built entries)

/-- The origin of a compiled pattern is that of a URL that was read, or the word for none. -/
theorem Pattern.oneLine_origin_of_compile {source : Text} {p : Pattern}
    (h : compile source = .ok p) : OneLine (p.origin.getD "None".toList) := by
  obtain ⟨u, hu, -, -, horigin⟩ := parts_of_compile h
  rw [horigin]
  split
  · exact Url.oneLine_origin_of_parse hu
  · decide

theorem Event.Occurs.oneLine_message {event : Event} (h : event.Occurs) :
    OneLine event.message := by
  cases h with
  | compiled h =>
    unfold message
    simp only [oneLine_append, oneLine_quote, oneLine_decimal,
      Pattern.oneLine_origin_of_compile h, and_true]
    decide +kernel
  | built entries =>
    unfold message
    simp only [oneLine_append, oneLine_decimal, and_true]
    decide +kernel

namespace RouteTable

theorem Logs.occurs {entries : List (Text × Target)} {events : List Event}
    (h : Logs entries events) : ∀ event ∈ events, event.Occurs := by
  intro event hevent
  obtain ⟨source, -, p, hp, rfl⟩ := exists_of_forall₂ h event hevent
  exact .compiled hp

theorem FailsFirst.occurs {entries : List (Text × Target)} {events : List Event} {e : Error}
    (h : FailsFirst entries events e) : ∀ event ∈ events, event.Occurs := by
  cases h with
  | intro _ _ hevents => exact hevents.occurs

theorem occurs_of_build (targets : OrderedMap Text Target) :
    ∀ event ∈ (build targets).events, event.Occurs := by
  by_cases hsize : targets.size ≤ maxEntries
  · rcases build_cases hsize with ⟨-, events, t, hevents, -, h⟩ | ⟨events, e, hfirst, h⟩
    · rw [h, List.forall_mem_append, List.forall_mem_singleton]
      exact ⟨hevents.occurs, .built _⟩
    · rw [h]
      exact hfirst.occurs
  · rw [build, if_pos (Nat.not_le.1 hsize)]
    exact List.forall_mem_nil _

/-- Only a call that builds logs anything. -/
theorem Draft.occurs_of_call (d : Draft) (c : Call) :
    ∀ event ∈ (d.call c).1.events, event.Occurs := by
  rcases call_cases d c with ⟨_, _, -, -, h⟩ | ⟨_, _, -, -, h⟩ | ⟨-, h⟩
  · rw [h]
    exact List.forall_mem_nil _
  · rw [h]
    exact List.forall_mem_nil _
  · rw [h]
    exact occurs_of_build d.targets

/-- The texts that come of a construction, each with the texts it quotes: its log lines, and the
message of its error. -/
inductive Logged.Shows {α : Type} (l : Logged Error α) : List Text → Text → Prop
  | line {event : Event} (h : event ∈ l.events) : Shows l event.quoted event.message
  | error {e : Error} (h : l.outcome = .error e) : Shows l e.quoted e.message

end RouteTable

/-! ## All diagnostics -/

/-- The texts that are logged or raised, each with the texts it quotes. The data they are about
holds any texts. -/
inductive Diagnostic : List Text → Text → Prop
  | compiled {v : Value} {p : Pattern} (h : Pattern.ofValue v = .ok p) :
      Diagnostic (Event.compiled p).quoted (Event.compiled p).message
  | badPattern {v : Value} {e : Pattern.Error} (h : Pattern.ofValue v = .error e) :
      Diagnostic e.quoted e.message
  | table {targets : OrderedMap Text Target} {quoted : List Text} {t : Text}
      (h : (RouteTable.build targets).Shows quoted t) : Diagnostic quoted t
  | draft {d : RouteTable.Draft} {c : RouteTable.Draft.Call} {quoted : List Text} {t : Text}
      (h : (d.call c).1.Shows quoted t) : Diagnostic quoted t
  | config {c : Config} {quoted : List Text} {t : Text}
      (h : (RouteTable.ofConfig c).Shows quoted t) : Diagnostic quoted t
  | document {v : Value} {e : Config.Error} (h : Config.ofValue v = .error e) :
      Diagnostic e.quoted e.message
  | badResult {table : RouteTable} {candidate : Value} {b : BadResult}
      (h : table.match? candidate = .error b) : Diagnostic [b.route] b.message

/-- On one line, with each of these texts between quotes. -/
structure Displays (quoted : List Text) (t : Text) : Prop where
  oneLine : OneLine t
  quote_infix : ∀ s ∈ quoted, quote s <:+: t

theorem Event.Occurs.displays {event : Event} (h : event.Occurs) :
    Displays event.quoted event.message :=
  ⟨h.oneLine_message, event.quote_infix_message⟩

theorem RouteTable.Logged.Shows.displays {α : Type} {l : Logged Error α} {quoted : List Text}
    {t : Text} (h : l.Shows quoted t) (hevents : ∀ event ∈ l.events, event.Occurs) :
    Displays quoted t := by
  cases h with
  | line h => exact (hevents _ h).displays
  | @error e _ => exact ⟨e.oneLine_message, e.quote_infix_message⟩

theorem Pattern.compile_of_ofValue {v : Value} {p : Pattern} (h : ofValue v = .ok p) :
    ∃ source, compile source = .ok p := by
  unfold ofValue at h
  split at h
  · exact ⟨_, h⟩
  · cases h

/-- **Diagnostics stay on one line.** They show names, tokens, sources and expressions between
quotes, and the line of a pattern ends with its origin, which is not quoted. -/
theorem diagnostics_on_one_line :
    (∀ {quoted : List Text} {t : Text}, Diagnostic quoted t → Displays quoted t) ∧
      ∀ {p : Pattern} {origin : Text}, p.origin = some origin →
        origin <:+ (Event.compiled p).message := by
  refine ⟨fun h => ?_, Event.origin_suffix_message⟩
  cases h with
  | compiled h =>
    obtain ⟨source, hp⟩ := Pattern.compile_of_ofValue h
    exact (Event.Occurs.compiled hp).displays
  | @badPattern v e _ => exact ⟨e.oneLine_message, e.quote_infix_message⟩
  | table h => exact h.displays (RouteTable.occurs_of_build _)
  | draft h => exact h.displays (RouteTable.Draft.occurs_of_call _ _)
  | config h => exact h.displays (RouteTable.occurs_of_build _)
  | @document v e _ => exact ⟨e.oneLine_message, e.quote_infix_message⟩
  | @badResult _ _ b _ =>
    exact ⟨b.oneLine_message, List.forall_mem_singleton.2 b.quote_infix_message⟩

/-- Line breaks in a host, in a path, in a name and, by an escape, in a token. -/
theorem diagnostics_on_one_line_breaks :
    let line := ("compiled pattern 'http://a\\nb.c/\\r\\n:x': regex='^/([^/]+)/?$' " ++
      "params=1 query=0 origin=http://ab.c").toList
    let message := "route 'a\\r\\nb': invalid token '\x7b\\n' in pattern '/\x7b%0A'".toList
    let shown := ["http://a\nb.c/\r\n:x".toList, "^/([^/]+)/?$".toList]
    let named := ["a\r\nb".toList, "\x7b\n".toList, "/\x7b%0A".toList]
    (Diagnostic shown line ∧ Displays shown line ∧ "http://ab.c".toList <:+ line) ∧
      Diagnostic named message ∧ Displays named message := by
  intro line message shown named
  obtain ⟨hdisplays, horigin⟩ := diagnostics_on_one_line
  let p : Pattern :=
    ⟨"http://a\nb.c/\r\n:x", [.capture "x"], [], some "http://ab.c".toList⟩
  have hline : (Event.compiled p).message = line := by decide +kernel
  have hshown : (Event.compiled p).quoted = shown := by decide +kernel
  have hcompiled : Diagnostic shown line := by
    have hp : Pattern.ofValue (.text "http://a\nb.c/\r\n:x".toList) = .ok p := by decide +kernel
    rw [← hline, ← hshown]
    exact .compiled hp
  let e : RouteTable.Error :=
    .badPattern "a\r\nb".toList (.badToken "/\x7b%0A".toList "\x7b\n".toList)
  have hmessage : e.message = message := by decide +kernel
  have hrejected : Diagnostic named message := by
    have hbuild : (RouteTable.build
        (.ofList [("a\r\nb".toList, .source "/\x7b%0A".toList)])).outcome = .error e :=
      eq_error_of_map (g := fun _ => ()) (by decide +kernel)
    rw [← hmessage]
    exact .table (.error hbuild)
  refine ⟨⟨hcompiled, hdisplays hcompiled, ?_⟩, hrejected, hdisplays hrejected⟩
  rw [← hline]
  exact horigin (p := p) rfl

end UrlRouting
