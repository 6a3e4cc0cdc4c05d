import SourceOutline.Proofs.SourceParts

/-! Where the trivia of a filtered stream comes from.
Trivia of replaced triggers waits for the next token that is given out, whether that comes from a
template, from the source or is the end mark. -/
namespace SourceOutline
namespace Rewriting

inductive Act
  /-- A trigger is put away. -/
  | replace (trigger : Token)
  /-- A token is given out, here with the trivia it has by itself. -/
  | give (t : Token)

def Act.token : Act → Token
  | replace t => t
  | give t => t

/-- What is done with a part. Tokens of a template have no trivia by themselves. -/
def Part.acts : Part → List Act
  | kept t => [.give t]
  | passed t u => [.give t, .give u]
  | replaced f t _ => .replace t :: (copies f.template t.span).map .give

/-- Each token has the trivia of the triggers put away since the token before it, oldest first, and
then its own. -/
inductive Carried : List Act → List Token → Prop
  | nil : Carried [] []
  | give (triggers : List Token) (t : Token) {acts : List Act} {us : List Token}
      (h : Carried acts us) :
      Carried (triggers.map .replace ++ .give t :: acts)
        ({ t with trivia := triggers.flatMap Token.trivia ++ t.trivia } :: us)

namespace Carried
variable {acts : List Act} {us : List Token}

theorem gave (h : Carried acts us) (t : Token) : Carried (.give t :: acts) (t :: us) :=
  .give [] t h

theorem gaveAll (h : Carried acts us) (ts : List Token) :
    Carried (ts.map .give ++ acts) (ts ++ us) := by
  induction ts with
  | nil => exact h
  | cons t ts ih => exact ih.gave t

theorem replaced (h : Carried acts us) (hne : us ≠ []) (t : Token) :
    Carried (.replace t :: acts) (Token.lead t.trivia us) := by
  cases h with
  | nil => exact absurd rfl hne
  | give triggers u h => simpa using Carried.give (t :: triggers) u h

/-- No trivia is lost, doubled or moved. -/
theorem flatMap_trivia (h : Carried acts us) :
    us.flatMap Token.trivia = acts.flatMap fun a => a.token.trivia := by
  induction h with
  | nil => rfl
  | give _ _ _ ih => simp [List.flatMap_map, Act.token, ih]

end Carried

theorem flatMap_trivia_acts (p : Part) :
    (p.acts.flatMap fun a => a.token.trivia) = p.spared.flatMap Token.trivia := by
  cases p <;> simp [Part.acts, Part.spared, Act.token, copies, List.flatMap_map]

theorem carried_part {acts : List Act} {us : List Token} (h : Carried acts us) (hne : us ≠ [])
    (p : Part) : Carried (p.acts ++ acts) (p.given us) ∧ p.given us ≠ [] := by
  cases p with
  | kept t => exact ⟨h.gave t, by simp [Part.given]⟩
  | passed t u => exact ⟨(h.gave u).gave t, by simp [Part.given]⟩
  | replaced f t dropped =>
    have hgave := h.gaveAll (copies f.template t.span)
    have hsome : copies f.template t.span ++ us ≠ [] := by simp [hne]
    exact ⟨hgave.replaced hsome t, Token.lead_ne_nil hsome⟩

/-- What is given out for a run. The end mark comes last, so that there is always a token for trivia
to go to. -/
theorem Cut.carried {filters : List Filter} {ts : List Token} {ps : List Part}
    (h : Cut filters ts ps) : Carried (ps.flatMap Part.acts) (given ps) ∧ given ps ≠ [] := by
  induction h with
  | @endMark t _ => exact ⟨Carried.nil.gave t, by simp [Part.given]⟩
  | kept _ _ _ ih => exact carried_part ih.1 ih.2 _
  | define _ _ _ ih => exact carried_part ih.1 ih.2 _
  | call _ _ _ _ _ _ ih => exact carried_part ih.1 ih.2 _
  | passed _ _ _ _ _ ih => exact carried_part ih.1 ih.2 _
  | @passedEnd f t u _ _ _ => exact ⟨(Carried.nil.gave u).gave t, by simp [Part.given]⟩

end Rewriting

namespace Engine
open Rewriting

/-- Where the trivia of a filtered input comes from. The source is cut into parts; every token given
out has the trivia of the triggers replaced since the one before it and then its own, so that in the
end just the trivia of dropped arguments is missing. -/
theorem carried_tokenizeAll {e : Engine} (he : e.Reached) (input : String) {us : List Token}
    (h : (e.tokenizeAll input).result = .ok us) :
    ∃ ts s ps, Yields TokenSource.next (e.buffer.source.reset input) ts s ∧
      parts e.filters ts = .ok ps ∧ (ps.flatMap fun p => p.spared ++ p.dropped) = ts ∧
      Carried (ps.flatMap Part.acts) us ∧
      us.flatMap Token.trivia = (ps.flatMap Part.spared).flatMap Token.trivia := by
  obtain ⟨ts, s, ps, hy, hcut, rfl⟩ := cut_of_tokenizeAll he h
  have hcarried := hcut.carried.1
  refine ⟨ts, s, ps, hy, hcut.parts_eq, hcut.flatMap_source, hcarried, ?_⟩
  rw [hcarried.flatMap_trivia, List.flatMap_assoc, List.flatMap_assoc]
  simp only [flatMap_trivia_acts]

theorem carried_tokenizeAll_erased :
    let note (image : String) : Trivia := ⟨.blockComment, image, .point .start⟩
    let t (kind : TokenKind) (image before : String) : Token :=
      { Token.plain kind image (.point .start) with trivia := [note before] }
    let ts := [t .identifier "D" "/*1*/", t .identifier "M" "/*2*/", t .leftParen "(" "/*3*/",
      t .rightParen ")" "/*4*/", t .identifier "x" "/*5*/", t .identifier "M" "/*6*/",
      t .identifier "D" "/*7*/", t .identifier "D" "/*8*/", t .eof "" "/*9*/"]
    let e := (((ofSource (.script (.ofItems (ts.map .ok))) ⟨false, false⟩).register
      .define "D" "").value.2.register .call "M" "").value.2
    let us := [
      { t .identifier "x" "" with trivia := [note "/*1*/", note "/*2*/", note "/*5*/"] },
      t .identifier "M" "/*6*/", t .identifier "D" "/*7*/",
      { t .eof "" "" with trivia := [note "/*8*/", note "/*9*/"] }]
    (e.tokenizeAll "").result = .ok us ∧
      ∃ ts s ps, Yields TokenSource.next (e.buffer.source.reset "") ts s ∧
        parts e.filters ts = .ok ps ∧ (ps.flatMap fun p => p.spared ++ p.dropped) = ts ∧
        Carried (ps.flatMap Part.acts) us ∧
        us.flatMap Token.trivia = (ps.flatMap Part.spared).flatMap Token.trivia := by
  intro note t ts e us
  have he : e.Reached := .register (.register (.start _ _) _ _ _) _ _ _
  have hresult : (e.tokenizeAll "").result = .ok us := by
    have hy : ∃ s, Yields TokenSource.next (e.buffer.source.reset "") ts s := by
      rw [buffer_register, buffer_register]
      exact ⟨_, .more rfl rfl (.more rfl rfl (.more rfl rfl (.more rfl rfl (.more rfl rfl
        (.more rfl rfl (.more rfl rfl (.more rfl rfl (.last rfl rfl))))))))⟩
    obtain ⟨s, hy⟩ := hy
    rw [result_of_yields he.wellFormed "" hy]
    decide +kernel
  exact ⟨hresult, carried_tokenizeAll he "" hresult⟩

end Engine
end SourceOutline
