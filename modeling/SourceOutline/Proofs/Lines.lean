import SourceOutline.Proofs.Locality
import SourceOutline.Proofs.Lossless
import SourceOutline.Proofs.Outcome
import SourceOutline.Proofs.Shift

/-! Reading a text line by line.
A text with another text on the lines below it is read as the first and then the second, unless the
end of the first joins the lines. In the names below `b` is the text on the lines below. -/
namespace SourceOutline

namespace Lexeme
open Text
variable {cs b : List Char}

/-- The end of the text takes no part in the end of its line. -/
def EndsPlain (cs : List Char) : Prop := cs.getLast? ≠ some '\\' ∧ cs.getLast? ≠ some '\r'

instance : DecidablePred EndsPlain := fun cs =>
  inferInstanceAs (Decidable (cs.getLast? ≠ some '\\' ∧ cs.getLast? ≠ some '\r'))

theorem EndsPlain.suffix {ds : List Char} (h : EndsPlain cs) (hs : ds <:+ cs) : EndsPlain ds := by
  obtain ⟨us, rfl⟩ := hs
  constructor
  · intro hlast
    exact h.1 (by simp [List.getLast?_append, hlast])
  · intro hlast
    exact h.2 (by simp [List.getLast?_append, hlast])

theorem spliceLength_line (hne : cs ≠ []) (h : EndsPlain cs) :
    spliceLength (cs ++ '\n' :: b) = spliceLength cs := by
  match cs with
  | [c] =>
    have hc : c ≠ '\\' := by simpa using h.1
    simp [spliceLength_cons, hc]
  | [c, d] =>
    have hd : d ≠ '\r' := by simpa using h.2
    simp [spliceLength_cons, hd]
  | c :: d :: e :: cs => simp [spliceLength_cons]

theorem blankUnit_line (hne : cs ≠ []) (h : EndsPlain cs) :
    blankUnit (cs ++ '\n' :: b) = blankUnit cs := by
  cases cs with
  | nil => exact absurd rfl hne
  | cons c cs =>
    rw [List.cons_append, blankUnit, blankUnit, ← List.cons_append, spliceLength_line hne h]

theorem lineUnit_line (hne : cs ≠ []) (h : EndsPlain cs) :
    lineUnit (cs ++ '\n' :: b) = lineUnit cs := by
  cases cs with
  | nil => exact absurd rfl hne
  | cons c cs =>
    have hreturn : (c = '\r' && (cs ++ '\n' :: b).head? = some '\n') =
        (c = '\r' && cs.head? = some '\n') := by
      cases cs with
      | nil =>
        have hc : c ≠ '\r' := by simpa using h.2
        simp [hc]
      | cons d cs => rfl
    rw [List.cons_append, lineUnit, lineUnit, hreturn, ← List.cons_append, spliceLength_line hne h]

theorem lineUnit_le (cs : List Char) : lineUnit cs ≤ cs.length := by
  cases cs with
  | nil => exact Nat.le_refl _
  | cons c cs =>
    have hs := spliceLength_le (c :: cs)
    simp only [lineUnit, List.length_cons] at hs ⊢
    split
    · omega
    · split <;> omega

section Units
variable {unit : List Char → Nat} (hle : ∀ ds, unit ds ≤ ds.length)
  (hunit : ∀ ds, ds ≠ [] → EndsPlain ds → unit (ds ++ '\n' :: b) = unit ds)
include hle hunit

/-- A line below does not change the units of the text, if it changes none of them. -/
theorem units_line (h : EndsPlain cs) :
    Units unit (spanUnits unit cs).1 ((spanUnits unit cs).2 ++ '\n' :: b) := by
  have hcs : Units unit (spanUnits unit cs).1 ((spanUnits unit cs).2 ++ []) := by
    rw [List.append_nil]
    exact units_of_spanUnits rfl (.inl hle)
  refine hcs.recut ?_ (fun _ => .inl rfl)
  intro u v hu hsuf _ _ hlen
  rw [spanUnits_append] at hsuf
  rw [List.append_nil] at hlen
  rw [← hlen, ← List.append_assoc]
  exact hunit (u ++ v) (by simp [hu]) (h.suffix hsuf)

theorem spanUnits_line (h : EndsPlain cs)
    (hend : (spanUnits unit cs).2 ≠ [] ∨ unit ('\n' :: b) = 0) :
    spanUnits unit (cs ++ '\n' :: b) =
      ((spanUnits unit cs).1, (spanUnits unit cs).2 ++ '\n' :: b) := by
  have hstop : unit ((spanUnits unit cs).2 ++ '\n' :: b) = 0 := by
    by_cases hnil : (spanUnits unit cs).2 = []
    · rw [hnil]
      exact hend.resolve_left (fun hne => hne hnil)
    · rw [hunit _ hnil (h.suffix ⟨_, spanUnits_append unit cs⟩)]
      exact unit_spanUnits_snd unit cs hnil
  have hspan := (units_line hle hunit h).spanUnits_eq (.inr hstop)
  rwa [← List.append_assoc, spanUnits_append] at hspan

end Units

theorem blanks_line (h : EndsPlain cs) (hne : (blanks cs).2 ≠ []) :
    blanks (cs ++ '\n' :: b) = ((blanks cs).1, (blanks cs).2 ++ '\n' :: b) :=
  spanUnits_line blankUnit_le (fun _ => blankUnit_line) h (.inl hne)

theorem blanks_line_of_nil (h : EndsPlain cs) (hnil : (blanks cs).2 = []) :
    blanks (cs ++ '\n' :: b) = ((blanks cs).1 ++ '\n' :: (blanks b).1, (blanks b).2) := by
  have hunits := units_line (b := b) blankUnit_le (fun _ => blankUnit_line) h
  have hbelow : spanUnits blankUnit ('\n' :: b) = ('\n' :: (blanks b).1, (blanks b).2) :=
    spanUnits_of_unit (n := 0) (by simp) rfl
  have hspan := hunits.spanUnits_append
  rw [← List.append_assoc, spanUnits_append, ← blanks, ← blanks, hnil, List.nil_append,
    hbelow] at hspan
  exact hspan

theorem line_line (h : EndsPlain cs) :
    line (cs ++ '\n' :: b) = ((line cs).1, (line cs).2 ++ '\n' :: b) :=
  spanUnits_line lineUnit_le (fun _ => lineUnit_line) h (.inr rfl)

/-- A comment that is closed stays as it is, whatever follows. -/
theorem blockComment_append {k : TriviaKind} (h : (blockComment cs).outcome = .ok k)
    (y : List Char) :
    blockComment (cs ++ y) = ⟨.ok k, (blockComment cs).taken, (blockComment cs).rest ++ y⟩ := by
  obtain ⟨t, r, hbody⟩ : ∃ t r,
      spanUnits (untilUnit ['*', '/']) (cs.drop 2) = (t, ['*', '/'] ++ r) := by
    unfold blockComment at h
    dsimp only at h
    split at h
    · cases h
    · next hne =>
      have hz := unit_spanUnits_snd (untilUnit ['*', '/']) (cs.drop 2) (by simpa using hne)
      exact ⟨_, _, Prod.ext rfl (append_drop_of_untilUnit hz).symm⟩
  have happ : t ++ (['*', '/'] ++ r) = cs.drop 2 := by
    have := spanUnits_append (untilUnit ['*', '/']) (cs.drop 2)
    rwa [hbody] at this
  have hlen : 2 ≤ cs.length := by
    have := congrArg List.length happ
    simp only [List.length_append, List.length_cons, List.length_drop] at this
    omega
  have hbody' : spanUnits (untilUnit ['*', '/']) ((cs ++ y).drop 2) =
      (t, ['*', '/'] ++ (r ++ y)) := by
    rw [List.drop_append_of_le_length hlen, ← happ, List.append_assoc, List.append_assoc]
    rw [← happ] at hbody
    exact spanUnits_until_recut hbody (by simp)
  unfold blockComment at h ⊢
  rw [hbody] at h ⊢
  rw [hbody']
  simp_all [List.take_append_of_le_length hlen]

theorem trivia_line {kind k : TriviaKind} (h : EndsPlain cs)
    (hs : (trivia kind cs).outcome = .ok k) :
    trivia kind (cs ++ '\n' :: b) =
      ⟨.ok k, (trivia kind cs).taken, (trivia kind cs).rest ++ '\n' :: b⟩ := by
  cases kind with
  | blockComment => exact blockComment_append hs _
  | lineComment =>
    cases hs
    simp only [trivia, line_line h]
  | directive =>
    cases hs
    simp only [trivia, line_line h]

theorem endsLine_append {us ds : List Char} (hu : Blank us) (hd : endsLine ds = true) :
    endsLine (us ++ ds) = true := by
  induction hu with
  | nil => exact hd
  | @char c cs hc _ ih =>
    have hslash : c ≠ '\\' := by
      rintro rfl
      simp [blankChars] at hc
    rw [List.cons_append, endsLine.eq_def]
    split
    · next heq => exact absurd (List.cons.inj heq).1 hslash
    · next heq => exact absurd (List.cons.inj heq).1 hslash
    · next heq =>
      obtain ⟨rfl, rfl⟩ := List.cons.inj heq
      simp [ih]
    · next heq => cases heq
  | splice _ ih => simpa [endsLine] using ih
  | spliceReturn _ ih => simpa [endsLine] using ih

end Lexeme

namespace Lexer
open Lexeme Text
variable {l m : Lexer} {text b : List Char} {found vs : List Trivia}

def above (l : Lexer) (b : List Char) : Lexer := { l with rest := l.rest ++ '\n' :: b }

def below (l : Lexer) (b : List Char) : Lexer :=
  { l with rest := b, position := l.position.advance '\n', lineStart := true }

theorem At.endsPlain (h : l.At text) (ht : EndsPlain text) : EndsPlain l.rest := by
  obtain ⟨before, hbefore, _⟩ := h
  exact ht.suffix ⟨before, hbefore⟩

theorem skipBlanks_above (h : EndsPlain l.rest) (hne : l.skipBlanks.rest ≠ []) :
    (l.above b).skipBlanks = l.skipBlanks.above b := by
  have hblanks : blanks (l.above b).rest = _ := blanks_line h hne
  rw [skipBlanks, hblanks]
  rfl

theorem skipBlanks_below (h : EndsPlain l.rest) (hnil : l.skipBlanks.rest = []) :
    (l.above b).skipBlanks = (l.skipBlanks.below b).skipBlanks := by
  have hblanks : blanks (l.above b).rest = _ := blanks_line_of_nil h hnil
  have hends : endsLine ((blanks l.rest).1 ++ '\n' :: (blanks b).1) = true :=
    endsLine_append (blanks_blank l.rest) (by simp [endsLine])
  rw [skipBlanks, hblanks, hends]
  simp [above, below, skipBlanks, moveOver, Position.advanceAll_append]

theorem Gathers.congr {l' : Lexer} (h : Gathers l found vs m) (hl : l'.skipBlanks = l.skipBlanks) :
    Gathers l' found vs m := by
  cases h with
  | stop hk =>
    rw [← hl] at hk ⊢
    exact .stop hk
  | pass hk hs hg =>
    rw [← hl] at hk hs hg
    exact .pass hk hs hg

/-- With more text below, trivia in front of a token is gathered as before, and trivia at the end of
the text goes to what is below. -/
theorem gathers_above (ht : EndsPlain text) (hl : l.At text) (hg : Gathers l found vs m) :
    (m.rest ≠ [] → Gathers (l.above b) found vs (m.above b)) ∧
      (m.rest = [] →
        ∀ ws n, Gathers (m.below b) vs.reverse ws n → Gathers (l.above b) found ws n) := by
  induction hg with
  | @stop l found hk =>
    constructor
    · intro hne
      have hskip := skipBlanks_above (b := b) (hl.endsPlain ht) hne
      rw [← hskip]
      refine .stop ?_
      rw [hskip, above, triviaKind?_break hne (breaks_cons rfl _)]
      exact hk
    · intro hnil ws n hg
      rw [List.reverse_reverse] at hg
      exact hg.congr (skipBlanks_below (hl.endsPlain ht) hnil)
  | @pass l m found vs kind k hk hs _ ih =>
    have hb : l.skipBlanks.At text := hl.skipBlanks
    have hne : l.skipBlanks.rest ≠ [] := by
      intro hnil
      rw [hnil] at hk
      cases hk
    have hskip := skipBlanks_above (b := b) (hl.endsPlain ht) hne
    have hrest : l.skipBlanks.rest ++ '\n' :: b = (l.above b).skipBlanks.rest := by
      rw [hskip]
      rfl
    have hscan := trivia_line (b := b) (hb.endsPlain ht) hs
    rw [hrest] at hscan
    have hk' : triviaKind? (l.above b).skipBlanks.lineStart (l.above b).skipBlanks.rest =
        some kind := by
      rw [hskip, above, triviaKind?_break hne (breaks_cons rfl _)]
      exact hk
    have hpass : ∀ ws n, Gathers ((l.skipBlanks.passTrivia kind
        (trivia kind l.skipBlanks.rest)).above b)
        (if l.skipBlanks.keeps kind then l.skipBlanks.triviaItem kind :: found else found) ws n →
        Gathers (l.above b) found ws n := by
      intro ws n hg
      refine .pass hk' (congrArg Scan.outcome hscan) ?_
      rw [triviaItem, hscan, hskip]
      exact hg
    obtain ⟨htoken, hend⟩ := ih (hb.moveOver (trivia_splits kind _))
    exact ⟨fun hm => hpass _ _ (htoken hm), fun hm ws n hg => hpass _ _ (hend hm ws n hg)⟩

theorem next_above {t : Token} (ht : EndsPlain text) (hl : l.At text) (hn : l.next.value = (.ok t, m))
    (hf : t.isEof = false) : (l.above b).next.value = (.ok t, m.above b) := by
  obtain ⟨vs, d, hg, hr⟩ := next_cases hn
  rcases readToken_cases hr with ⟨_, rfl, _⟩ | ⟨c, cs, kind, hrest, hi, hs, rfl, rfl⟩
  · cases hf
  · have hg' := (gathers_above (b := b) ht hl hg).1 (by simp [hrest])
    have hscan : token c (cs ++ '\n' :: b) =
        ⟨.ok kind, (token c cs).taken, (token c cs).rest ++ '\n' :: b⟩ := by
      refine token_recut (x := []) ?_ (token_splits c cs).symm (breaks_cons rfl b)
      rw [List.append_nil, List.append_nil, ← hs]
    have hrest' : (d.above b).rest = c :: (cs ++ '\n' :: b) := by
      rw [above, hrest, List.cons_append]
    rw [hg'.next_eq, readToken_cons hrest' hi (congrArg Scan.outcome hscan), hscan]
    rfl

theorem next_below {t : Token} (ht : EndsPlain text) (hl : l.At text) (hn : l.next.value = (.ok t, m))
    (he : t.isEof = true) :
    ∀ vs n, Gathers (m.below b) t.trivia.reverse vs n → Gathers (l.above b) [] vs n := by
  obtain ⟨vs, d, hg, hr⟩ := next_cases hn
  rcases readToken_cases hr with ⟨hrest, rfl, rfl⟩ | ⟨c, cs, kind, _, _, hs, rfl, _⟩
  · exact (gathers_above ht hl hg).2 hrest
  · rw [tokenItem_isEof hs] at he
    cases he

/-- A run over the text is followed by a run over what is below, which starts with the trivia of the
end mark. -/
theorem yields_above {ts us : List Token} {e : Token} (ht : EndsPlain text) (hl : l.At text)
    (hy : Yields next l (ts ++ [e]) m)
    (hus : ∀ l₀, (∀ vs n, Gathers (m.below b) e.trivia.reverse vs n → Gathers l₀ [] vs n) →
      ∃ n, Yields next l₀ us n) :
    ∃ n, Yields next (l.above b) (ts ++ us) n := by
  induction ts generalizing l with
  | nil =>
    cases hy with
    | last hn he => exact hus _ (next_below ht hl hn he)
    | more _ _ hs => exact absurd rfl hs.ne_nil
  | cons t ts ih =>
    have hf : t.isEof = false := by
      refine eq_false_of_ne_true fun he => ?_
      have hnil := hy.eq_nil_of_isEof he
      simp at hnil
    obtain ⟨u, hn, hs⟩ := hy.head hf
    obtain ⟨n, hrun⟩ := ih (hl.next hn) hs
    exact ⟨n, .more (next_above ht hl hn hf) hf hrun⟩

theorem end_of_yields {ts : List Token} (h : Yields next l ts m) :
    m.preferences = l.preferences ∧ m.issued = l.issued + ts.dropLast.length := by
  induction h with
  | @last l m t hn ht =>
    refine ⟨preferences_next hn, ?_⟩
    rw [issued_next hn, if_pos ht]
    rfl
  | @more l u m t ts hn ht hs ih =>
    obtain ⟨hprefs, hissued⟩ := ih
    rw [List.dropLast_cons_of_ne_nil hs.ne_nil, List.length_cons, hprefs, hissued,
      issued_next hn, if_neg (by simp [ht])]
    exact ⟨preferences_next hn, by omega⟩

/-- Texts on different lines are read one after the other. The places in the second are further
down, and trivia at the end of the first goes to the first token of the second. -/
theorem yields_lines (preferences : LexPreferences) {a b : String} {ts us : List Token}
    {e f : Token} {m n : Lexer} (ha : Yields next (ofString preferences a) (ts ++ [e]) m)
    (hb : Yields next (ofString preferences b) (us ++ [f]) n) (hend : EndsPlain a.toList)
    (hcount : ts.length + us.length ≤ LexError.tokenLimit) :
    ∃ k, Yields next (ofString preferences (a ++ "\n" ++ b))
      (ts ++ Token.lead e.trivia
        ((us ++ [f]).map (Token.shift (a.utf8ByteSize + 1) (a.toList.count '\n' + 1)))) k := by
  have hat : (ofString preferences a).At a.toList := ⟨[], rfl, rfl⟩
  have hjoin : ofString preferences (a ++ "\n" ++ b) =
      (ofString preferences a).above b.toList := by
    simp [ofString, above, String.toList_append]
  obtain ⟨hprefs, hissued⟩ := end_of_yields ha
  have hpos : m.position = Position.start.advanceAll a.toList := hat.position_of_yields ha
  have hshift : Shifted (a.utf8ByteSize + 1) (a.toList.count '\n' + 1) ts.length
      (ofString preferences b) (m.below b.toList) := by
    refine ⟨rfl, ?_, rfl, ?_, hprefs⟩
    · simp only [below, hpos, Position.advance_newline, Position.offset_advanceAll,
        Position.line_advanceAll, byteSize, String.ofList_toList]
      simp [Position.shift, ofString, Position.start]
      omega
    · rw [List.dropLast_concat] at hissued
      exact hissued
  rw [hjoin]
  refine yields_above hend hat ha fun l₀ hl₀ => hshift.yields hl₀ hb ?_
  have hstart : (ofString preferences b).issued = 0 := rfl
  rw [hshift.issued, List.dropLast_concat]
  omega

theorem yields_lines_comment :
    let a := "é\t=\n1 // c"
    let b := "#d\n\tx;/*e*/"
    let ts : List Token := [⟨.identifier, "é", ⟨⟨0, 1, 1⟩, ⟨2, 1, 2⟩⟩, []⟩,
      ⟨.punctuator, "=", ⟨⟨3, 1, 5⟩, ⟨4, 1, 6⟩⟩, []⟩,
      ⟨.integer, "1", ⟨⟨5, 2, 1⟩, ⟨6, 2, 2⟩⟩, []⟩]
    let e : Token := ⟨.eof, "", .point ⟨11, 2, 7⟩,
      [⟨.lineComment, "// c", ⟨⟨7, 2, 3⟩, ⟨11, 2, 7⟩⟩⟩]⟩
    let us : List Token := [⟨.identifier, "x", ⟨⟨4, 2, 5⟩, ⟨5, 2, 6⟩⟩,
        [⟨.directive, "#d", ⟨⟨0, 1, 1⟩, ⟨2, 1, 3⟩⟩⟩]⟩,
      ⟨.punctuator, ";", ⟨⟨5, 2, 6⟩, ⟨6, 2, 7⟩⟩, []⟩]
    let f : Token := ⟨.eof, "", .point ⟨11, 2, 12⟩,
      [⟨.blockComment, "/*e*/", ⟨⟨6, 2, 7⟩, ⟨11, 2, 12⟩⟩⟩]⟩
    let below : List Token := [⟨.identifier, "x", ⟨⟨16, 4, 5⟩, ⟨17, 4, 6⟩⟩,
        [⟨.lineComment, "// c", ⟨⟨7, 2, 3⟩, ⟨11, 2, 7⟩⟩⟩,
          ⟨.directive, "#d", ⟨⟨12, 3, 1⟩, ⟨14, 3, 3⟩⟩⟩]⟩,
      ⟨.punctuator, ";", ⟨⟨17, 4, 6⟩, ⟨18, 4, 7⟩⟩, []⟩,
      ⟨.eof, "", .point ⟨23, 4, 12⟩, [⟨.blockComment, "/*e*/", ⟨⟨18, 4, 7⟩, ⟨23, 4, 12⟩⟩⟩]⟩]
    EndsPlain a.toList ∧ (∃ m, Yields next (ofString .full a) (ts ++ [e]) m) ∧
      (∃ n, Yields next (ofString .full b) (us ++ [f]) n) ∧
      ∃ k, Yields next (ofString .full (a ++ "\n" ++ b)) (ts ++ below) k := by
  intro a b ts e us f below
  have hend : EndsPlain a.toList := by decide +kernel
  have ha : Yields next (ofString .full a) (ts ++ [e]) _ :=
    .more (Prod.ext (by decide +kernel) rfl) rfl (.more (Prod.ext (by decide +kernel) rfl) rfl
      (.more (Prod.ext (by decide +kernel) rfl) rfl
        (.last (Prod.ext (by decide +kernel) rfl) rfl)))
  have hb : Yields next (ofString .full b) (us ++ [f]) _ :=
    .more (Prod.ext (by decide +kernel) rfl) rfl (.more (Prod.ext (by decide +kernel) rfl) rfl
      (.last (Prod.ext (by decide +kernel) rfl) rfl))
  obtain ⟨k, hk⟩ := yields_lines .full ha hb hend (by decide)
  have hbelow : Token.lead e.trivia
      ((us ++ [f]).map (Token.shift (a.utf8ByteSize + 1) (a.toList.count '\n' + 1))) = below := by
    decide +kernel
  rw [hbelow] at hk
  exact ⟨hend, ⟨_, ha⟩, ⟨_, hb⟩, k, hk⟩

end Lexer
end SourceOutline
