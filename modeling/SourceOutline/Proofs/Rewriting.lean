import SourceOutline.Proofs.SourceParts

/-! The filtered stream as a function of the tokens that come in.
What an engine gives out in the end is a rewriting of its input from left to right. Every token is
read once. Tokens of templates, and the token after the name of a call filter that is not called, are
never looked up. -/
namespace SourceOutline
namespace Rewriting

/-- What is written for the parts of the source, one after the other. -/
def rewrite (filters : List Filter) (ts : List Token) : Except FilterError (List Token) :=
  (parts filters ts).map (·.flatMap Part.written)

def face (t : Token) : TokenKind × String × Span := (t.kind, t.image, t.span)

@[simp] theorem map_face_lead (vs : List Trivia) (ts : List Token) :
    (Token.lead vs ts).map face = ts.map face := by
  cases ts <;> rfl

theorem map_face_given (ps : List Part) :
    (given ps).map face = (ps.flatMap Part.written).map face := by
  induction ps with
  | nil => rfl
  | cons p ps ih => cases p <;> simp [Part.given, Part.written, ih]

end Rewriting

open Rewriting

namespace Engine

/-- What an engine makes of an input without faults is the rewriting of its tokens, compared by kind,
image and span. -/
theorem tokenizeAll_eq_rewrite {e : Engine} (he : e.Reached) (input : String) {ts : List Token}
    {s : TokenSource} (h : Yields TokenSource.next (e.buffer.source.reset input) ts s) :
    (e.tokenizeAll input).result.map (List.map face) =
      (rewrite e.filters ts).map (List.map face) := by
  rw [result_of_yields he.wellFormed input h, rewrite]
  cases parts e.filters ts with
  | error x => rfl
  | ok ps => exact congrArg Except.ok (map_face_given ps)

/-- A template with its own trigger in it, a call, a name that is not called in front of a trigger,
and a list of arguments that stays open. -/
theorem tokenizeAll_eq_rewrite_mixed :
    let place (n : Nat) : Span := ⟨⟨n, 1, n + 1⟩, ⟨n + 1, 1, n + 2⟩⟩
    let t (kind : TokenKind) (image : String) (n : Nat) := Token.plain kind image (place n)
    let ts := [t .identifier "D" 0, t .identifier "M" 1, t .leftParen "(" 2, t .leftParen "(" 3,
      t .rightParen ")" 4, t .rightParen ")" 5, t .identifier "M" 6, t .identifier "D" 7,
      t .eof "" 8]
    let us := [t .identifier "D" 0, t .identifier "M" 1, t .leftParen "(" 2, t .eof "" 3]
    let engine (ts : List Token) :=
      (((ofSource (.script (.ofItems (ts.map .ok))) ⟨false, false⟩).register
        .define "D" "D E").value.2.register .call "M" "x").value.2
    let read (ts : List Token) :=
      ∃ s, Yields TokenSource.next ((engine ts).buffer.source.reset "") ts s
    let shown (ts : List Token) := ((engine ts).tokenizeAll "").result.map (List.map face)
    (∀ ts, (engine ts).Reached) ∧ read ts ∧ read us ∧
      shown ts = .ok [(.identifier, "D", place 0), (.identifier, "E", place 0),
        (.identifier, "x", place 1), (.identifier, "M", place 6), (.identifier, "D", place 7),
        (.eof, "", place 8)] ∧
      shown us = .error (.unbalancedArguments "M" (place 1)) := by
  intro place t ts us engine read shown
  have he (ts : List Token) : (engine ts).Reached := .register (.register (.start _ _) _ _ _) _ _ _
  have hts : read ts := by
    simp only [read, engine, buffer_register]
    exact ⟨_, .more rfl rfl (.more rfl rfl (.more rfl rfl (.more rfl rfl (.more rfl rfl
      (.more rfl rfl (.more rfl rfl (.more rfl rfl (.last rfl rfl))))))))⟩
  have hus : read us := by
    simp only [read, engine, buffer_register]
    exact ⟨_, .more rfl rfl (.more rfl rfl (.more rfl rfl (.last rfl rfl)))⟩
  refine ⟨he, hts, hus, ?_, ?_⟩
  · obtain ⟨s, hs⟩ := hts
    refine (tokenizeAll_eq_rewrite (he ts) "" hs).trans ?_
    decide +kernel
  · obtain ⟨s, hs⟩ := hus
    refine (tokenizeAll_eq_rewrite (he us) "" hs).trans ?_
    decide +kernel

end Engine
end SourceOutline
