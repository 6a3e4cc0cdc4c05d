import SourceOutline.Diagnostic.Journal
import SourceOutline.Proofs.Arguments
import SourceOutline.Proofs.EngineRun
import SourceOutline.Proofs.Lossless
import SourceOutline.Proofs.Outcome

/-! What is reported when an input cannot be filtered.
A lexer reports the failures of its text. They come up to the engine when it asks for a token, when
a filter looks behind its trigger and when it goes through arguments. The engine reports the errors
of filters. On every way there is one report, and no other event is an error. -/
namespace SourceOutline

namespace Event

/-- A message as it is reported: as it is, or the longest front that has ten thousand bytes or less
with dots behind it. -/
inductive Clipped : String → String → Prop
  | whole {m : String} (h : m.utf8ByteSize ≤ 10000) : Clipped m m
  | cut {front back : List Char} {c : Char} (hfront : byteSize front ≤ 10000)
      (hc : 10000 < byteSize front + c.utf8Size) :
      Clipped (String.ofList (front ++ c :: back)) (String.ofList front ++ "...")

theorem fitting_cases (room : Nat) (cs : List Char) :
    byteSize cs ≤ room ∨
      ∃ c back, cs = fitting room cs ++ c :: back ∧ byteSize (fitting room cs) ≤ room ∧
        room < byteSize (fitting room cs) + c.utf8Size := by
  induction cs generalizing room with
  | nil => exact .inl (Nat.zero_le room)
  | cons c cs ih =>
    rw [fitting]
    split
    · next hc =>
      rcases ih (room - c.utf8Size) with h | ⟨d, back, hcs, hle, hlt⟩
      · left
        rw [byteSize_cons]
        omega
      · refine .inr ⟨d, back, congrArg (c :: ·) hcs, ?_, ?_⟩
        · rw [byteSize_cons]
          omega
        · rw [byteSize_cons]
          omega
    · next hc => exact .inr ⟨c, cs, rfl, Nat.zero_le room, by simpa using hc⟩

theorem clipped_clip (m : String) : Clipped m (clip m) := by
  unfold clip
  split
  · next h => exact .whole h
  · next h =>
    rcases fitting_cases messageLimit m.toList with hle | ⟨c, back, hm, hle, hlt⟩
    · rw [byteSize_toList] at hle
      exact absurd hle h
    · have hcut : Clipped (String.ofList (fitting messageLimit m.toList ++ c :: back)) _ :=
        .cut hle hlt
      rwa [← hm, String.ofList_toList] at hcut

theorem Clipped.eq_of_le {m shown : String} (h : Clipped m shown) (hm : m.utf8ByteSize ≤ 10000) :
    shown = m := by
  cases h with
  | whole => rfl
  | @cut front back c _ hc =>
    have hsize : byteSize (front ++ c :: back) ≤ 10000 := hm
    rw [byteSize_append, byteSize_cons] at hsize
    omega

structure Tells (v : Event) (code : Code) (message : String) : Prop where
  level : v.level = .error
  code : v.code = code
  message : Clipped message v.message

theorem tells_error (code : Code) (message : String) : (error code message).Tells code message :=
  ⟨rfl, rfl, clipped_clip message⟩

def Quiet (events : List Event) : Prop := ∀ v ∈ events, v.level ≠ .error

/-- The last of the events is their only error, and this is its code and message. -/
def Reports (events : List Event) (code : Code) (message : String) : Prop :=
  ∃ before v, events = before ++ [v] ∧ Quiet before ∧ v.Tells code message

variable {vs ws : List Event} {code : Code} {message : String}

theorem quiet_nil : Quiet [] := by simp [Quiet]

theorem quiet_append : Quiet (vs ++ ws) ↔ Quiet vs ∧ Quiet ws := List.forall_mem_append

theorem quiet_reverse : Quiet vs.reverse ↔ Quiet vs := by simp [Quiet]

theorem Quiet.filter_isError (h : Quiet vs) : vs.filter isError = [] :=
  List.filter_eq_nil_iff.2 fun v hv => by simp [isError, h v hv]

theorem Tells.reports {v : Event} (h : v.Tells code message) : Reports [v] code message :=
  ⟨[], v, rfl, quiet_nil, h⟩

theorem Quiet.reports (h : Quiet vs) (hr : Reports ws code message) :
    Reports (vs ++ ws) code message := by
  obtain ⟨before, v, rfl, hquiet, hv⟩ := hr
  exact ⟨vs ++ before, v, (List.append_assoc vs before [v]).symm, quiet_append.2 ⟨h, hquiet⟩, hv⟩

@[simp] theorem level_withAll (e : Event) (entries : List (String × String)) :
    (e.withAll entries).level = e.level := by
  induction entries generalizing e with
  | nil => rfl
  | cons entry entries ih => exact ih _

end Event

namespace Journal
open Event

theorem mem_of_mem_newest {j : Journal} {vs : List Event} {v : Event}
    (h : v ∈ (vs.foldl record j).newest) : v ∈ vs ∨ v ∈ j.newest := by
  induction vs generalizing j with
  | nil => exact .inr h
  | cons w vs ih =>
    rcases ih h with h | h
    · exact .inl (List.mem_cons_of_mem w h)
    · unfold record at h
      split at h
      · rcases List.mem_cons.1 h with rfl | h
        · exact .inl List.mem_cons_self
        · exact .inr h
      · exact .inr h

theorem quiet_newest {vs : List Event} (h : Quiet vs) (least : Level) :
    Quiet (vs.foldl record (empty least)).newest := by
  intro v hv
  rcases mem_of_mem_newest hv with hv | hv
  · exact h v hv
  · cases hv

theorem errors_of_quiet {vs : List Event} (h : Quiet vs) (least : Level) :
    (vs.foldl record (empty least)).errors = [] := by
  have hevents : Quiet (vs.foldl record (empty least)).events := fun v hv =>
    quiet_newest h least v (List.mem_of_mem_take (List.mem_reverse.1 hv))
  exact hevents.filter_isError

/-- The error reported last is remembered, at every level and behind any number of other events. -/
theorem errors_of_last {vs : List Event} {v : Event} (h : Quiet vs) (hv : v.level = .error)
    (least : Level) : ((vs ++ [v]).foldl record (empty least)).errors = [v] := by
  let j := vs.foldl record (empty least)
  have hadmits : j.admits v.level = true := by
    simp [admits, hv, Level.passes, Level.rank]
  have hrest : Quiet (j.newest.take (capacity - 1)) :=
    fun w hw => quiet_newest h least w (List.mem_of_mem_take hw)
  have htake : (v :: j.newest).take capacity = v :: j.newest.take (capacity - 1) := rfl
  rw [List.foldl_append, List.foldl_cons, List.foldl_nil, record, if_pos hadmits, errors, events,
    htake, List.reverse_cons, List.filter_append, List.filter_reverse, hrest.filter_isError]
  simp [isError, hv]

end Journal

open Event

namespace FilterError

/-- The message that is reported. A failure of the source speaks for itself. -/
def reportedMessage : FilterError → String
  | source error => error.message
  | e => e.message

theorem report_own {e : FilterError} (h : ∀ error, e ≠ .source error) :
    Reports e.report e.code e.reportedMessage := by
  have hmessage : e.reportedMessage = e.message := by
    unfold reportedMessage
    split
    · exact absurd rfl (h _)
    · rfl
  have htells := tells_error e.code e.message
  rw [hmessage]
  unfold report
  split
  · exact absurd rfl (h _)
  · refine Tells.reports ?_
    split
    · exact ⟨htells.level, htells.code, htells.message⟩
    · exact htells

end FilterError

variable {α β : Type}

/-- What a source has reported: the failure that a result passes on, and no other error. -/
structure SourceReported (r : Except FilterError α) (events : List Event) : Prop where
  failure : ∀ error, r = .error (.source error) → Reports events error.code error.message
  quiet : (∀ error, r ≠ .error (.source error)) → Quiet events

/-- What is reported in the end: the error that a result is, and no other. -/
structure FullyReported (r : Except FilterError α) (events : List Event) : Prop where
  error : ∀ e, r = .error e → Reports events e.code e.reportedMessage
  quiet : ∀ a, r = .ok a → Quiet events

theorem SourceReported.other {r : Except FilterError α} {events : List Event}
    (hr : ∀ error, r ≠ .error (.source error)) (h : Quiet events) : SourceReported r events :=
  ⟨fun error he => absurd he (hr error), fun _ => h⟩

theorem sourceReported_ok {a : α} {events : List Event} :
    SourceReported (.ok a) events ↔ Quiet events :=
  ⟨fun h => h.quiet (by simp), fun h => .other (by simp) h⟩

theorem SourceReported.source {error : LexError} {events : List Event}
    (h : Reports events error.code error.message) :
    SourceReported (.error (.source error) : Except FilterError α) events :=
  ⟨fun _ hr => (by cases hr; exact h), fun hr => absurd rfl (hr error)⟩

theorem SourceReported.behind {r : Except FilterError α} {log events : List Event}
    (hlog : Quiet log) (h : SourceReported r events) : SourceReported r (log ++ events) :=
  ⟨fun error hr => hlog.reports (h.failure error hr),
    fun hr => quiet_append.2 ⟨hlog, h.quiet hr⟩⟩

theorem SourceReported.error {e : FilterError} {events : List Event}
    (h : SourceReported (.error e : Except FilterError α) events) :
    SourceReported (.error e : Except FilterError β) events :=
  ⟨fun error hr => h.failure error (by cases hr; rfl),
    fun hr => h.quiet fun error he => hr error (by cases he; rfl)⟩

/-- The engine adds the report that is missing. -/
theorem SourceReported.fully {e : FilterError} {events : List Event}
    (h : SourceReported (.error e : Except FilterError α) events) :
    FullyReported (.error e : Except FilterError β) (events ++ e.report) := by
  refine ⟨fun _ hr => ?_, fun _ hr => (by cases hr)⟩
  cases hr
  -- a failure of the source has been reported already, and no other error has
  by_cases he : ∃ error, e = .source error
  · obtain ⟨error, rfl⟩ := he
    rw [FilterError.report, List.append_nil]
    exact h.failure error rfl
  · have hown : ∀ error, e ≠ .source error := fun error hs => he ⟨error, hs⟩
    exact (h.quiet fun error hs => hown error (Except.error.inj hs)).reports
      (FilterError.report_own hown)

theorem LexFailure.tells_event (f : LexFailure) : f.event.Tells f.error.code f.error.message :=
  ⟨rfl, rfl, clipped_clip f.error.message⟩

theorem Lexer.sourceReported_next (l : Lexer) :
    SourceReported (l.next.value.1.mapError fun f => .source f.error) l.next.events := by
  unfold next
  split
  · next f m _ => exact .source f.tells_event.reports
  · split
    · next f m _ => exact .source f.tells_event.reports
    · exact sourceReported_ok.2 quiet_nil

namespace TokenSource

def IsText (s : TokenSource) : Prop := ∃ l, s = text l

/-- A text is read on, and its failures are reported. -/
structure Keeps (r : Except FilterError α) (s : TokenSource) (events : List Event) : Prop where
  isText : s.IsText
  reported : SourceReported r events

theorem IsText.keeps_next {s : TokenSource} (h : s.IsText) :
    Keeps (s.next.value.1.mapError .source) s.next.value.2 s.next.events := by
  obtain ⟨l, rfl⟩ := h
  refine ⟨⟨l.next.value.2, rfl⟩, ?_⟩
  have hl := l.sourceReported_next
  unfold TokenSource.next
  dsimp only
  cases hr : l.next.value.1 <;> rw [hr] at hl <;> exact hl

section Read
variable {s u : TokenSource} {events : List Event} {error : LexError}

theorem Keeps.failure (h : Keeps ((.error error : Except LexError β).mapError .source) s events) :
    Keeps (.error (.source error) : Except FilterError α) s events :=
  ⟨h.isText, h.reported.error⟩

theorem Keeps.token {a : β}
    (h : Keeps ((.ok a : Except LexError β).mapError FilterError.source) s events) :
    s.IsText ∧ Quiet events :=
  ⟨h.isText, sourceReported_ok.1 h.reported⟩

theorem IsText.keeps_next_failure (h : s.IsText) (hn : s.next.value = (.error error, u)) :
    Keeps (.error (.source error) : Except FilterError α) u s.next.events := by
  have hs := h.keeps_next
  rw [hn] at hs
  exact hs.failure

theorem IsText.keeps_next_token {t : Token} (h : s.IsText) (hn : s.next.value = (.ok t, u)) :
    u.IsText ∧ Quiet s.next.events := by
  have hs := h.keeps_next
  rw [hn] at hs
  exact hs.token

end Read
end TokenSource

open TokenSource (Keeps)

namespace TokenBuffer
variable {b c : TokenBuffer}

theorem keeps_next (h : b.source.IsText) :
    Keeps (b.next.value.1.mapError .source) b.next.value.2.source b.next.events := by
  unfold next
  split
  · exact ⟨h, sourceReported_ok.2 quiet_nil⟩
  · dsimp only [nextFromSource]
    rcases hn : b.source.next.value with ⟨error | t, s⟩
    · exact h.keeps_next_failure hn
    · obtain ⟨hs, hevents⟩ := h.keeps_next_token hn
      exact ⟨hs, sourceReported_ok.2 hevents⟩

theorem keeps_next_failure {error : LexError} (h : b.source.IsText)
    (hn : b.next.value = (.error error, c)) :
    Keeps (.error (.source error) : Except FilterError α) c.source b.next.events := by
  have hb := keeps_next h
  rw [hn] at hb
  exact hb.failure

theorem keeps_next_token {p : Pending} (h : b.source.IsText)
    (hn : b.next.value = (.ok p, c)) : c.source.IsText ∧ Quiet b.next.events := by
  have hb := keeps_next h
  rw [hn] at hb
  exact hb.token

end TokenBuffer

namespace Filter
open TokenBuffer (keeps_next_failure keeps_next_token)

theorem keeps_skipArguments (f : Filter) (trigger : Token) (room depth : Nat) {log : List Event}
    {b : TokenBuffer} (h : b.source.IsText) (hlog : Quiet log) :
    Keeps (f.skipArguments trigger room depth log b).value.1
      (f.skipArguments trigger room depth log b).value.2.source
      (f.skipArguments trigger room depth log b).events := by
  refine skipArguments_induct f trigger (P := fun log b r => b.source.IsText → Quiet log →
    Keeps r.value.1 r.value.2.source r.events) ?_ ?_ ?_ room depth log b h hlog
  · intro log b c error hn h hlog
    have hb := keeps_next_failure (α := Unit) h hn
    exact ⟨hb.isText, hb.reported.behind (quiet_reverse.2 hlog)⟩
  · intro log b c p r d hn hr hd h hlog
    obtain ⟨hc, hevents⟩ := keeps_next_token h hn
    exact ⟨hd ▸ hc, .other hr (quiet_append.2 ⟨quiet_reverse.2 hlog, hevents⟩)⟩
  · intro log b c p r hn hrest h hlog
    obtain ⟨hc, hevents⟩ := keeps_next_token h hn
    exact hrest hc (quiet_append.2 ⟨quiet_reverse.2 hevents, hlog⟩)

theorem keeps_apply (f : Filter) (trigger : Token) {b : TokenBuffer} (h : b.source.IsText) :
    Keeps (f.apply trigger b).value.1 (f.apply trigger b).value.2.source
      (f.apply trigger b).events := by
  unfold apply
  split
  · split
    · exact ⟨h, sourceReported_ok.2 quiet_nil⟩
    · dsimp only
      split
      · next hn => exact keeps_next_failure h hn
      · next p c hn =>
        obtain ⟨hc, hevents⟩ := keeps_next_token h hn
        split
        · have hs := f.keeps_skipArguments trigger FilterError.argumentLimit 0 hc
            (quiet_reverse.2 hevents)
          split
          · next hr =>
            rw [hr] at hs
            exact ⟨hs.isText, hs.reported.error⟩
          · next hr =>
            rw [hr] at hs
            exact ⟨hs.isText, sourceReported_ok.2 (sourceReported_ok.1 hs.reported)⟩
        · exact ⟨hc, sourceReported_ok.2 hevents⟩
  · exact ⟨h, sourceReported_ok.2 quiet_nil⟩

end Filter

namespace Engine

theorem quiet_substitution (e : Engine) (f : Filter) (t : Token) :
    Quiet (if e.preferences.logSubstitutions then [substitutionEvent f t] else []) := by
  split
  · simp [Quiet, substitutionEvent, Event.debug, plain]
  · exact quiet_nil

theorem keeps_substitute {e : Engine} (h : e.buffer.source.IsText) (t : Token) :
    Keeps (e.substitute t).value.1 (e.substitute t).value.2.buffer.source
      (e.substitute t).events := by
  unfold substitute
  split
  · exact ⟨h, sourceReported_ok.2 quiet_nil⟩
  · next f _ =>
    have ha := f.keeps_apply t h
    dsimp only
    split
    · next hr =>
      rw [hr] at ha
      exact ⟨ha.isText, ha.reported.error⟩
    · next hr =>
      rw [hr] at ha
      have hquiet := quiet_append.2 ⟨sourceReported_ok.1 ha.reported, e.quiet_substitution f t⟩
      exact ⟨ha.isText, sourceReported_ok.2 hquiet⟩
    · next hr =>
      rw [hr] at ha
      exact ⟨ha.isText, sourceReported_ok.2 (sourceReported_ok.1 ha.reported)⟩

structure Accounts (turn : Turn α) : Prop where
  isText : turn.engine.buffer.source.IsText
  reported : FullyReported turn.result turn.events

theorem Accounts.ok {a : α} {e : Engine} {events : List Event} (h : e.buffer.source.IsText)
    (hevents : Quiet events) : Accounts ⟨.ok a, e, events⟩ :=
  ⟨h, fun _ he => (by cases he), fun _ _ => hevents⟩

theorem keeps_offered {e : Engine} (h : e.buffer.source.IsText) {log : List Event}
    (hlog : Quiet log) {t : Token} {s : TokenSource}
    (hn : e.buffer.source.next.value = (.ok t, s)) :
    Keeps ((e.withSource s).substitute t).value.1
      ((e.withSource s).substitute t).value.2.buffer.source
      (((e.withSource s).substitute t).events.reverse ++
        (e.buffer.source.next.events.reverse ++ log)).reverse := by
  obtain ⟨hs, hevents⟩ := h.keeps_next_token hn
  have hq := keeps_substitute (e := e.withSource s) hs t
  simp only [List.reverse_append, List.reverse_reverse]
  exact ⟨hq.isText, hq.reported.behind (quiet_append.2 ⟨quiet_reverse.2 hlog, hevents⟩)⟩

theorem accounts_nextFrom {e : Engine} (h : e.buffer.source.IsText) {log : List Event}
    (hlog : Quiet log) : Accounts (e.nextFrom log) := by
  fun_induction nextFrom e log with
  | case1 e log p rest hp out => exact .ok h (quiet_reverse.2 hlog)
  | case2 e log hp r error s hn =>
    have hs := h.keeps_next_failure (α := Token) hn
    have hfully := (hs.reported.behind (quiet_reverse.2 hlog)).fully (β := Token)
    rw [FilterError.report, List.append_nil] at hfully
    exact ⟨hs.isText, hfully⟩
  | case3 e log hp r t s hn ht out =>
    obtain ⟨hs, hevents⟩ := h.keeps_next_token hn
    exact .ok hs (quiet_append.2 ⟨quiet_reverse.2 hlog, hevents⟩)
  | case4 e log hp r t s hn ht q log' error after hq =>
    have hkeeps := keeps_offered h hlog hn
    rw [show ((e.withSource s).substitute t).value = _ from hq] at hkeeps
    exact ⟨hkeeps.isText, hkeeps.reported.fully⟩
  | case5 e log hp r t s hn ht q log' after hq out =>
    have hkeeps := keeps_offered h hlog hn
    rw [show ((e.withSource s).substitute t).value = _ from hq] at hkeeps
    exact .ok hkeeps.isText (sourceReported_ok.1 hkeeps.reported)
  | case6 e log hp r t s hn ht q log' f after hq _ ih =>
    have hkeeps := keeps_offered h hlog hn
    rw [show ((e.withSource s).substitute t).value = _ from hq] at hkeeps
    exact ih hkeeps.isText (quiet_reverse.1 (sourceReported_ok.1 hkeeps.reported))

theorem accounts_runFrom {e : Engine} (h : e.buffer.source.IsText) (found : List Token)
    {log : List Event} (hlog : Quiet log) : Accounts (e.runFrom found log) := by
  fun_induction runFrom e found log with
  | case1 e found log turn error hr =>
    have hturn : Accounts turn := accounts_nextFrom h quiet_nil
    refine ⟨hturn.isText, fun _ he => ?_, fun _ he => (by cases he)⟩
    cases he
    exact (quiet_reverse.2 hlog).reports (hturn.reported.error error hr)
  | case2 e found log turn t hr ht =>
    have hturn : Accounts turn := accounts_nextFrom h quiet_nil
    exact .ok hturn.isText (quiet_append.2 ⟨quiet_reverse.2 hlog, hturn.reported.quiet t hr⟩)
  | case3 e found log turn t hr ht _ ih =>
    have hturn : Accounts turn := accounts_nextFrom h quiet_nil
    exact ih hturn.isText
      (quiet_append.2 ⟨quiet_reverse.2 (hturn.reported.quiet t hr), hlog⟩)

theorem quiet_completion (m : EngineMetrics) : Quiet [completionEvent m] := by
  simp [Quiet, completionEvent, Event.debug, plain]

theorem fullyReported_tokenizeAll {e : Engine} {l : Lexer} (he : e.buffer.source = .text l)
    (input : String) :
    FullyReported (e.tokenizeAll input).result (e.tokenizeAll input).events := by
  have htext : (e.reset input).buffer.source.IsText :=
    ⟨l.reset input, congrArg (TokenSource.reset · input) he⟩
  have hrun := (accounts_runFrom htext [] quiet_nil).reported
  unfold tokenizeAll
  dsimp only
  split
  · exact hrun
  · next tokens hr =>
    refine ⟨fun error he => ?_, fun _ _ => ?_⟩
    · rw [hr] at he
      cases he
    · exact quiet_append.2 ⟨hrun.quiet tokens hr, quiet_completion _⟩

/-- When a text cannot be filtered, the last event reported is the one error, under the code and
with the message of what went wrong. A journal of any level has it and no other error. When a text
is filtered to its end, no error is reported. -/
theorem failures_reported_once {e : Engine} {l : Lexer} (he : e.buffer.source = .text l)
    (input : String) :
    let turn := e.tokenizeAll input
    (∀ error, turn.result = .error error →
      ∃ before event, turn.events = before ++ [event] ∧
        turn.events.filter Event.isError = [event] ∧ event.level = .error ∧
        event.code = error.code ∧ Event.Clipped error.reportedMessage event.message ∧
        ∀ least, (turn.events.foldl Journal.record (.empty least)).errors = [event]) ∧
    ∀ tokens, turn.result = .ok tokens →
      turn.events.filter Event.isError = [] ∧
        ∀ least, (turn.events.foldl Journal.record (.empty least)).errors = [] := by
  intro turn
  have hturn : FullyReported turn.result turn.events := fullyReported_tokenizeAll he input
  constructor
  · intro error hr
    obtain ⟨before, event, hevents, hbefore, htells⟩ := hturn.error error hr
    refine ⟨before, event, hevents, ?_, htells.level, htells.code, htells.message,
      fun least => ?_⟩
    · rw [hevents, List.filter_append, hbefore.filter_isError]
      simp [isError, htells.level]
    · rw [hevents]
      exact Journal.errors_of_last hbefore htells.level least
  · intro tokens hr
    have hquiet := hturn.quiet tokens hr
    exact ⟨hquiet.filter_isError, Journal.errors_of_quiet hquiet⟩

/-- A literal that is open in the main text, behind the name of a macro and within its arguments, an
argument list that is open, and a text that is filtered to its end. -/
theorem failures_reported_once_open :
    let e := (((ofSource (.text (.ofString .full "")) ⟨true, false⟩).register
      .define "D" "").value.2.register .call "M" "y").value.2
    let reports := fun (input : String) (code : Code) (message : String) =>
      let turn := e.tokenizeAll input
      turn.result.toOption = none ∧
        ∃ event, turn.events.filter isError = [event] ∧ event.code = code ∧
          event.message = message ∧
          (turn.events.foldl Journal.record (.empty .error)).errors = [event]
    (∃ l, e.buffer.source = .text l) ∧
      reports "D \"" .unterminatedLiteral "Unterminated literal starting at line 1, column 3" ∧
      reports "D M \"" .unterminatedLiteral "Unterminated literal starting at line 1, column 5" ∧
      reports "D M(D \"" .unterminatedLiteral "Unterminated literal starting at line 1, column 7" ∧
      reports "D M(D" .unbalancedArguments
        "Argument list of macro 'M' invoked at 1:3-4 is not closed before end of input" ∧
      (e.tokenizeAll "D").result.toOption.isSome = true ∧
      (e.tokenizeAll "D").events.filter isError = [] := by
  intro e reports
  have he : e.buffer.source = .text (.ofString .full "") := by
    simp only [e, buffer_register]
    rfl
  have hreports {input message : String} (error : FilterError)
      (hnext : (e.reset input).next.result = .error error)
      (hmessage : error.reportedMessage = message) (hsize : message.utf8ByteSize ≤ 10000) :
      reports input error.code message := by
    have hresult := (result_tokenizeAll e input).trans (output_error hnext)
    subst hmessage
    obtain ⟨_, v, _, hv, _, hcode, hclipped, hjournal⟩ :=
      (failures_reported_once he input).1 error hresult
    exact ⟨by rw [hresult]; rfl, v, hv, hcode, hclipped.eq_of_le hsize, hjournal .error⟩
  have hwhole : (e.tokenizeAll "D").result = .ok [.endMark (.point ⟨1, 1, 2⟩)] := by
    rw [result_tokenizeAll]
    exact output_endMark (by decide +kernel) rfl
  refine ⟨⟨_, he⟩,
    hreports (.source (.unterminatedLiteral 1 3)) ?_ ?_ ?_,
    hreports (.source (.unterminatedLiteral 1 5)) ?_ ?_ ?_,
    hreports (.source (.unterminatedLiteral 1 7)) ?_ ?_ ?_,
    hreports (.unbalancedArguments "M" ⟨⟨2, 1, 3⟩, ⟨3, 1, 4⟩⟩) ?_ ?_ ?_,
    by rw [hwhole]; rfl, ((failures_reported_once he "D").2 _ hwhole).1⟩
  all_goals decide +kernel

end Engine
end SourceOutline
