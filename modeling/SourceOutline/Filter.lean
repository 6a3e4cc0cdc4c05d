import SourceOutline.Filter.Error
import SourceOutline.QualifiedName
import SourceOutline.TokenBuffer

/-! Rules that replace one identifier by a template of tokens. -/
namespace SourceOutline

structure Filter where
  kind : FilterKind
  name : String
  template : List Token
  deriving DecidableEq, Repr

namespace Filter

/-- What reading a name as tokens says about it as a trigger. -/
def checkTokens (kind : FilterKind) (name : String) : List Token → Except FilterError Unit
  | [t] =>
    if t.isIdentifier name then .ok ()
    else if t.is .keyword || Vocabulary.isKeyword t.image then
      .error (.invalidTriggerName kind name "name is a C++ keyword")
    else .error (.invalidTriggerName kind name "name must be a single identifier")
  | _ => .error (.invalidTriggerName kind name "name must be a single identifier")

/-- A trigger is one identifier and nothing else. -/
def checkName (kind : FilterKind) (name : String) : Reported (Except FilterError Unit) :=
  if name.isEmpty then .silent (.error (.invalidTriggerName kind name "name is empty"))
  else if QualifiedName.isQualified name then
    .silent (.error (.invalidTriggerName kind name "name must not contain '::'"))
  else
    let r := Lexer.tokenize name
    ⟨match r.value with
      | .error e => .error (.invalidTriggerName kind name e.message)
      | .ok tokens => checkTokens kind name tokens, r.events⟩

/-- Tokens of a template have no trivia. -/
def bare (t : Token) : Token := { t with trivia := [] }

/-- The filter whose template is the tokens of `value`. -/
def ofTexts (kind : FilterKind) (name value : String) : Reported (Except FilterError Filter) := do
  match ← checkName kind name with
  | .error e => return .error e
  | .ok () =>
    match ← Lexer.tokenize value with
    | .error e => return .error (.invalidReplacement name e)
    | .ok tokens => return .ok ⟨kind, name, tokens.map bare⟩

def fits (f : Filter) (t : Token) : Bool := t.isIdentifier f.name

/-- The template at the place of the trigger. -/
def instantiate (f : Filter) (trigger : Token) : List Token :=
  f.template.map (·.stamped trigger.span)

/-- Drops tokens through the parenthesis that closes `depth + 1` open ones. At most `room` more
tokens may be dropped. `log` holds the events so far, last one first. -/
def skipArguments (f : Filter) (trigger : Token) (room depth : Nat) (log : List Event)
    (b : TokenBuffer) : Reported (Except FilterError Unit × TokenBuffer) :=
  let r := b.next
  match r.value with
  | (.error error, b) => ⟨(.error (.source error), b), log.reverse ++ r.events⟩
  | (.ok p, b) =>
    if p.token.isEof then
      ⟨(.error (.unbalancedArguments f.name trigger.span), b.restore (.lookahead p.token)),
        log.reverse ++ r.events⟩
    else
      match room with
      | 0 => ⟨(.error (.argumentsTooLong f.name trigger.span), b), log.reverse ++ r.events⟩
      | room + 1 =>
        let log := r.events.reverse ++ log
        match p.token.kind with
        | .leftParen => skipArguments f trigger room (depth + 1) log b
        | .rightParen =>
          match depth with
          | 0 => ⟨(.ok (), b), log.reverse⟩
          | depth + 1 => skipArguments f trigger room depth log b
        | _ => skipArguments f trigger room depth log b

/-- Replaces the trigger in front of the buffer, if the filter applies there. A filter that does
not apply leaves the tokens as they were. -/
def apply (f : Filter) (trigger : Token) (b : TokenBuffer) :
    Reported (Except FilterError Bool × TokenBuffer) :=
  if f.fits trigger then
    match f.kind with
    | .define => .silent (.ok true, b.pushReplacement (f.instantiate trigger))
    | .call =>
      let r := b.next
      match r.value with
      | (.error error, b) => ⟨(.error (.source error), b), r.events⟩
      | (.ok p, b) =>
        if p.token.is .leftParen then
          let s := f.skipArguments trigger FilterError.argumentLimit 0 r.events.reverse b
          match s.value with
          | (.error e, b) => ⟨(.error e, b), s.events⟩
          | (.ok (), b) => ⟨(.ok true, b.pushReplacement (f.instantiate trigger)), s.events⟩
        else ⟨(.ok false, b.restore p), r.events⟩
  else .silent (.ok false, b)

theorem remaining_skipArguments_le (f : Filter) (trigger : Token) (room depth : Nat)
    (log : List Event) (b : TokenBuffer) :
    (f.skipArguments trigger room depth log b).value.2.source.remaining ≤ b.source.remaining := by
  induction room generalizing depth log b with
  | zero =>
    have hb := b.remaining_next_le
    unfold skipArguments
    dsimp only
    split
    · next hn => rw [hn] at hb; exact hb
    · next hn =>
      rw [hn] at hb
      split <;> exact hb
  | succ room ih =>
    have hb := b.remaining_next_le
    unfold skipArguments
    dsimp only
    split
    · next hn => rw [hn] at hb; exact hb
    · next p c hn =>
      rw [hn] at hb
      split
      · exact hb
      · split
        · exact Nat.le_trans (ih _ _ c) hb
        · split
          · exact hb
          · exact Nat.le_trans (ih _ _ c) hb
        · exact Nat.le_trans (ih _ _ c) hb

theorem remaining_apply_le (f : Filter) (trigger : Token) (b : TokenBuffer) :
    (f.apply trigger b).value.2.source.remaining ≤ b.source.remaining := by
  have hb := b.remaining_next_le
  unfold apply
  split
  · split
    · exact Nat.le_refl _
    · dsimp only
      split
      · next hn => rw [hn] at hb; exact hb
      · next p c hn =>
        rw [hn] at hb
        split
        · have hs := f.remaining_skipArguments_le trigger FilterError.argumentLimit 0
            b.next.events.reverse c
          split
          · next h => rw [h] at hs; exact Nat.le_trans hs hb
          · next h => rw [h] at hs; exact Nat.le_trans hs hb
        · exact hb
  · exact Nat.le_refl _

end Filter
end SourceOutline
