import SourceOutline.Filter

/-! Replacing tokens of a stream by filters.
Tokens that a filter produced, and a token that a call filter looked at and left, are given out as
they are. Trivia of replaced tokens moves to the next token given out. -/
namespace SourceOutline

structure EngineMetrics where
  emitted : Nat
  defines : Nat
  calls : Nat
  /-- Names of call filters that were not called. -/
  declined : Nat
  deriving DecidableEq, Repr

def EngineMetrics.zero : EngineMetrics := ⟨0, 0, 0, 0⟩

def EngineMetrics.countUse (m : EngineMetrics) : FilterKind → EngineMetrics
  | .define => { m with defines := m.defines + 1 }
  | .call => { m with calls := m.calls + 1 }

/-- A decline of a define cannot happen and is not counted. -/
def EngineMetrics.countDecline (m : EngineMetrics) : FilterKind → EngineMetrics
  | .define => m
  | .call => { m with declined := m.declined + 1 }

structure Engine where
  /-- The filters, the one registered last first. -/
  registered : List Filter
  buffer : TokenBuffer
  /-- Trivia of replaced tokens, last item first. -/
  carried : List Trivia
  metrics : EngineMetrics
  preferences : FilterPreferences

namespace Engine

def ofSource (source : TokenSource) (preferences : FilterPreferences) : Engine :=
  ⟨[], .ofSource source, [], .zero, preferences⟩

/-- Starts over on the input with the same filters. -/
def reset (e : Engine) (input : String) : Engine :=
  { e with buffer := e.buffer.reset input, carried := [], metrics := .zero }

/-- The filters in the order of their registration. -/
def filters (e : Engine) : List Filter := e.registered.reverse

def find? (e : Engine) (name : String) : Option Filter :=
  e.registered.find? fun f => f.name == name

def registrationEvent (f : Filter) : Event :=
  (Event.success .filterRegistered "Filter registered").withAll
    [("kind", f.kind.name), ("name", f.name),
     ("replacement_tokens", toString f.template.length)]

/-- Adds a filter under a name that is not in use. -/
def add (e : Engine) (f : Filter) : Reported (Except FilterError Unit × Engine) :=
  match e.find? f.name with
  | some old =>
    let error := .duplicateFilter f.name f.kind old.kind
    ⟨(.error error, e), error.report⟩
  | none =>
    if e.registered.length < FilterError.filterLimit then
      ⟨(.ok (), { e with registered := f :: e.registered }),
        if e.preferences.logRegistrations then [registrationEvent f] else []⟩
    else
      let error := .tooManyFilters (e.registered.length + 1)
      ⟨(.error error, e), error.report⟩

/-- Makes a filter and adds it. -/
def register (e : Engine) (kind : FilterKind) (name value : String) :
    Reported (Except FilterError Unit × Engine) :=
  let made := Filter.ofTexts kind name value
  match made.value with
  | .error error => ⟨(.error error, e), made.events ++ error.report⟩
  | .ok f =>
    let added := e.add f
    ⟨added.value, made.events ++ added.events⟩

/-- What is to be registered: a kind, a name, a replacement. -/
abbrev Definition := FilterKind × String × String

/-- Registers in turn up to the first failure. `log` holds the events so far, last one first. -/
def registerFrom (e : Engine) (log : List Event) :
    List Definition → Reported (Except FilterError Unit × Engine)
  | [] => ⟨(.ok (), e), log.reverse⟩
  | (kind, name, value) :: rest =>
    let r := e.register kind name value
    match r.value with
    | (.error error, e) => ⟨(.error error, e), (r.events.reverse ++ log).reverse⟩
    | (.ok (), e) => registerFrom e (r.events.reverse ++ log) rest

def registerAll (e : Engine) (definitions : List Definition) :
    Reported (Except FilterError Unit × Engine) :=
  e.registerFrom [] definitions

/-- Gives a token out, in front of its own trivia that of the tokens replaced before it. -/
def emit (e : Engine) (t : Token) : Token × Engine :=
  ({ t with trivia := e.carried.reverseAux t.trivia },
   { e with carried := [], metrics := { e.metrics with emitted := e.metrics.emitted + 1 } })

def substitutionEvent (f : Filter) (t : Token) : Event :=
  (Event.debug "Token substituted").withAll
    [("kind", f.kind.name), ("name", f.name), ("line", toString t.beginLine),
     ("column", toString t.beginColumn)]

/-- Offers a token to the filter of its name. The answer is the filter that replaced it. -/
def substitute (e : Engine) (t : Token) : Reported (Except FilterError (Option Filter) × Engine) :=
  match e.registered.find? (·.fits t) with
  | none => .silent (.ok none, e)
  | some f =>
    let r := f.apply t e.buffer
    match r.value with
    | (.error error, b) => ⟨(.error error, { e with buffer := b }), r.events⟩
    | (.ok true, b) =>
      ⟨(.ok (some f), { e with buffer := b, metrics := e.metrics.countUse f.kind }),
        r.events ++ if e.preferences.logSubstitutions then [substitutionEvent f t] else []⟩
    | (.ok false, b) =>
      ⟨(.ok none, { e with buffer := b, metrics := e.metrics.countDecline f.kind }), r.events⟩

def remaining (e : Engine) : Nat := e.buffer.source.remaining

theorem remaining_substitute_le (e : Engine) (t : Token) :
    (e.substitute t).value.2.remaining ≤ e.remaining := by
  unfold substitute
  split
  · exact Nat.le_refl _
  · next f _ =>
    have h := f.remaining_apply_le t e.buffer
    dsimp only
    split
    all_goals
      next heq =>
      rw [heq] at h
      exact h

/-- The result of one step: a token or an error, the engine after it, the events reported. -/
structure Turn (α : Type) where
  result : Except FilterError α
  engine : Engine
  events : List Event

/-- The engine after the source has moved on. -/
def withSource (e : Engine) (s : TokenSource) : Engine :=
  { e with buffer := { e.buffer with source := s } }

/-- The engine after `f` has replaced `t`. -/
def carry (e : Engine) (t : Token) : Engine :=
  { e with carried := t.trivia.reverse ++ e.carried }

/-- The next token of the filtered stream. `log` holds the events so far, last one first. -/
def nextFrom (e : Engine) (log : List Event) : Turn Token :=
  match e.buffer.pending with
  | p :: rest =>
    let out := { e with buffer := { e.buffer with pending := rest } }.emit p.token
    ⟨.ok out.1, out.2, log.reverse⟩
  | [] =>
    let r := e.buffer.source.next
    match h : r.value with
    | (.error error, s) => ⟨.error (.source error), e.withSource s, log.reverse ++ r.events⟩
    | (.ok t, s) =>
      if ht : t.isEof = true then
        let out := (e.withSource s).emit t
        ⟨.ok out.1, out.2, log.reverse ++ r.events⟩
      else
        let q := (e.withSource s).substitute t
        let log := q.events.reverse ++ (r.events.reverse ++ log)
        match hs : q.value with
        | (.error error, after) => ⟨.error error, after, log.reverse ++ error.report⟩
        | (.ok none, after) =>
          let out := after.emit t
          ⟨.ok out.1, out.2, log.reverse⟩
        | (.ok (some f), after) =>
          have : after.remaining < e.remaining := by
            have hle := (e.withSource s).remaining_substitute_le t
            rw [hs] at hle
            exact Nat.lt_of_le_of_lt hle (TokenSource.remaining_next_lt h (eq_false_of_ne_true ht))
          nextFrom (after.carry t) log
termination_by e.remaining

def next (e : Engine) : Turn Token := e.nextFrom []

/-- A step never lengthens the source. -/
theorem remaining_nextFrom_le (e : Engine) (log : List Event) :
    (e.nextFrom log).engine.remaining ≤ e.remaining := by
  fun_induction nextFrom e log with
  | case1 => exact Nat.le_refl _
  | case2 e log _ r error s h =>
    have := e.buffer.source.remaining_next_le
    rw [h] at this
    exact this
  | case3 e log _ r t s h ht =>
    have := e.buffer.source.remaining_next_le
    rw [h] at this
    exact this
  | case4 e log _ r t s h ht q _ error after hs =>
    have hle := (e.withSource s).remaining_substitute_le t
    rw [hs] at hle
    exact Nat.le_trans hle (Nat.le_of_lt
      (TokenSource.remaining_next_lt h (eq_false_of_ne_true ht)))
  | case5 e log _ r t s h ht q _ after hs =>
    have hle := (e.withSource s).remaining_substitute_le t
    rw [hs] at hle
    exact Nat.le_trans hle (Nat.le_of_lt
      (TokenSource.remaining_next_lt h (eq_false_of_ne_true ht)))
  | case6 e log _ r t s h ht q _ f after hs hlt ih => exact Nat.le_trans ih (Nat.le_of_lt hlt)

/-- A token other than the end mark uses up a token of the source or a pending one. -/
theorem next_progress {e : Engine} {t : Token} (h : e.next.result = .ok t)
    (ht : t.isEof = false) :
    e.next.engine.remaining < e.remaining ∨
      e.next.engine.remaining = e.remaining ∧
        e.next.engine.buffer.pending.length < e.buffer.pending.length := by
  unfold next at h ⊢
  unfold nextFrom at h ⊢
  split
  · next p rest hp =>
    right
    exact ⟨rfl, by simp [emit, hp]⟩
  · next hp =>
    left
    rw [hp] at h
    dsimp only at h ⊢
    split at h
    · cases h
    · next t' s hn =>
      split at h
      · next heof =>
        cases h
        simp only [emit, Token.isEof, Token.is] at ht heof
        rw [heof] at ht
        cases ht
      · next heof =>
        have hlt := TokenSource.remaining_next_lt hn (eq_false_of_ne_true heof)
        have hle := (e.withSource s).remaining_substitute_le t'
        rw [dif_neg heof]
        split at h
        · cases h
        · next hs =>
          rw [hs] at hle
          exact Nat.lt_of_le_of_lt hle hlt
        · next f after hs =>
          rw [hs] at hle
          exact Nat.lt_of_le_of_lt (remaining_nextFrom_le _ _) (Nat.lt_of_le_of_lt hle hlt)

/-- Tokens through the end mark. `found` and `log` hold the tokens and events so far, last one
first. -/
def runFrom (e : Engine) (found : List Token) (log : List Event) : Turn (List Token) :=
  let turn := e.next
  match h : turn.result with
  | .error error => ⟨.error error, turn.engine, log.reverse ++ turn.events⟩
  | .ok t =>
    if ht : t.isEof = true then
      ⟨.ok (t :: found).reverse, turn.engine, log.reverse ++ turn.events⟩
    else
      have := next_progress h (eq_false_of_ne_true ht)
      runFrom turn.engine (t :: found) (turn.events.reverse ++ log)
termination_by (e.remaining, e.buffer.pending.length)
decreasing_by
  rcases this with hlt | ⟨heq, hlt⟩
  · exact Prod.Lex.left _ _ hlt
  · show Prod.Lex _ _ (turn.engine.remaining, _) (e.remaining, _)
    rw [heq]
    exact Prod.Lex.right _ hlt

def completionEvent (m : EngineMetrics) : Event :=
  (Event.debug "Preprocessing complete").withAll
    [("tokens", toString m.emitted), ("define_substitutions", toString m.defines),
     ("macro_substitutions", toString m.calls)]

/-- All tokens of the filtered input. The last one is the end mark. -/
def tokenizeAll (e : Engine) (input : String) : Turn (List Token) :=
  let turn := (e.reset input).runFrom [] []
  match turn.result with
  | .error _ => turn
  | .ok _ => { turn with events := turn.events ++ [completionEvent turn.engine.metrics] }

end Engine
end SourceOutline
