import SourceOutline.Files.SourceFile
import SourceOutline.Proofs.Locality
import SourceOutline.Proofs.Outcome
import SourceOutline.Proofs.Progress

/-! Places are told from the text in front of them.
The cursor is moved over one piece of text after another. Where it stands, the offset is the number of
bytes in front of it, the line is told by the line ends among them, and the column by the characters
behind the last line end. This holds for the ends of everything that is read and for the places that
errors name. -/
namespace SourceOutline
open Text Lexeme

namespace Position

def nextStop (column : Nat) : Nat := 4 * ((column - 1) / 4 + 1) + 1

def columnAfter (column : Nat) (c : Char) : Nat :=
  if c = '\t' then nextStop column else column + 1

def lastLine (cs : List Char) : List Char := (cs.reverse.takeWhile (· != '\n')).reverse

def place (before : List Char) : Position :=
  ⟨byteSize before, 1 + before.count '\n', (lastLine before).foldl columnAfter 1⟩

theorem lastLine_newline (cs : List Char) : lastLine (cs ++ ['\n']) = [] := by
  simp [lastLine]

theorem lastLine_concat {c : Char} (hc : c ≠ '\n') (cs : List Char) :
    lastLine (cs ++ [c]) = lastLine cs ++ [c] := by
  simp [lastLine, hc]

theorem length_lastLine_le (cs : List Char) : (lastLine cs).length ≤ cs.length := by
  have h := (List.takeWhile_prefix (· != '\n') (l := cs.reverse)).length_le
  simpa [lastLine] using h

theorem one_le_columnAfter (column : Nat) (c : Char) : 1 ≤ columnAfter column c := by
  unfold columnAfter nextStop
  split <;> omega

theorem columnAfter_le (column : Nat) (c : Char) (h : 1 ≤ column) :
    columnAfter column c ≤ column + 4 := by
  unfold columnAfter nextStop
  split <;> omega

theorem foldl_columnAfter (cs : List Char) {column : Nat} (h : 1 ≤ column) :
    1 ≤ cs.foldl columnAfter column ∧ cs.foldl columnAfter column ≤ column + 4 * cs.length := by
  induction cs generalizing column with
  | nil => simp [h]
  | cons c cs ih =>
    have hle := columnAfter_le column c h
    obtain ⟨hpos, hfold⟩ := ih (one_le_columnAfter column c)
    simp only [List.foldl_cons, List.length_cons]
    omega

theorem one_le_column_place (before : List Char) : 1 ≤ (place before).column :=
  (foldl_columnAfter _ (Nat.le_refl 1)).1

theorem place_concat (before : List Char) (c : Char) :
    place (before ++ [c]) = (place before).advance c := by
  have hcolumn := one_le_column_place before
  by_cases hn : c = '\n'
  · subst hn
    have hsize : '\n'.utf8Size = 1 := rfl
    rw [advance_newline, place, lastLine_newline]
    simp [place, hsize, Nat.add_assoc]
  · have hcount : (before ++ [c]).count '\n' = before.count '\n' := by
      simp [List.count_append, hn]
    rw [place, lastLine_concat hn, hcount, List.foldl_append]
    by_cases ht : c = '\t'
    · subst ht
      have hstop : nextStop (place before).column =
          (place before).column + tabWidth - ((place before).column - 1) % tabWidth := by
        simp only [nextStop, tabWidth]
        omega
      have hsize : '\t'.utf8Size = 1 := rfl
      rw [advance_tab, ← hstop]
      simp [place, hsize, columnAfter]
    · simp [place, advance, columnAfter, hn, ht]

theorem advanceAll_place (before cs : List Char) :
    (place before).advanceAll cs = place (before ++ cs) := by
  induction cs generalizing before with
  | nil => simp
  | cons c cs ih =>
    rw [advanceAll_cons, ← place_concat, ih, List.append_assoc]
    rfl

theorem advanceAll_start (before : List Char) : start.advanceAll before = place before :=
  advanceAll_place [] before

/-! Lines and columns in 32 bits. -/

def word? (n : Nat) : Option Nat := if n < UInt32.size then some n else none

theorem word?_of_lt {n : Nat} (h : n < UInt32.size) : word? n = some n := if_pos h

def minus? (a b : Nat) : Option Nat := if b ≤ a then some (a - b) else none

theorem minus?_of_le {a b : Nat} (h : b ≤ a) : minus? a b = some (a - b) := if_pos h

/-- The place after `c`, when `c` stands at `p` and each number on the way to the new line and column
is one of 32 bits. -/
def advance? (p : Position) (c : Char) : Option Position :=
  if c = '\n' then do
    let line ← word? (p.line + 1)
    return ⟨p.offset + 1, line, 1⟩
  else if c = '\t' then do
    let sum ← word? (p.column + tabWidth)
    let left ← minus? p.column 1
    let column ← minus? sum (left % tabWidth)
    return ⟨p.offset + 1, p.line, column⟩
  else do
    let column ← word? (p.column + 1)
    return ⟨p.offset + c.utf8Size, p.line, column⟩

theorem advance?_of_lt {p : Position} (c : Char) (hline : p.line + 1 < UInt32.size)
    (hcolumn : p.column + tabWidth < UInt32.size) (hpos : 1 ≤ p.column) :
    p.advance? c = some (p.advance c) := by
  have hwidth : tabWidth = 4 := rfl
  have hone : p.column + 1 < UInt32.size := by omega
  have hback : (p.column - 1) % tabWidth ≤ p.column + tabWidth :=
    Nat.le_trans (Nat.mod_le _ _) (by omega)
  unfold advance? advance
  split
  · rw [word?_of_lt hline]
    rfl
  · split
    · rw [word?_of_lt hcolumn, minus?_of_le hpos]
      simp [minus?_of_le hback]
    · rw [word?_of_lt hone]
      rfl

theorem length_le_byteSize (cs : List Char) : cs.length ≤ byteSize cs := by
  induction cs with
  | nil => exact Nat.le_refl _
  | cons c cs ih =>
    have hc := c.utf8Size_pos
    rw [byteSize_cons, List.length_cons]
    omega

theorem place_le (before : List Char) :
    (place before).line ≤ 1 + byteSize before ∧ (place before).column ≤ 1 + 4 * byteSize before := by
  have hlength := length_le_byteSize before
  have hcount : before.count '\n' ≤ before.length := List.count_le_length
  have hline := length_lastLine_le before
  have hcolumn := (foldl_columnAfter (lastLine before) (Nat.le_refl 1)).2
  simp only [place]
  omega

/-- No number gets too large on the way through a file that may be read. -/
theorem advance?_place {before after : List Char} {c : Char}
    (h : byteSize (before ++ c :: after) ≤ SourceFile.sizeLimit) :
    (place before).advance? c = some (place (before ++ [c])) := by
  obtain ⟨hline, hcolumn⟩ := place_le before
  have hbefore : byteSize before ≤ 16 * 1024 * 1024 := by
    rw [byteSize_append] at h
    exact Nat.le_trans (Nat.le_add_right _ _) h
  have hwidth : tabWidth = 4 := rfl
  have hword : UInt32.size = 4294967296 := rfl
  rw [place_concat]
  exact advance?_of_lt c (by omega) (by omega) (one_le_column_place before)

end Position

namespace Lexeme

def EndsSolid (cs : List Char) : Prop := ∃ front last, cs = front ++ [last] ∧ isBlankChar last = false

theorem endsSolid_of_unblank {cs : List Char} (hne : cs ≠ []) (h : ∀ c ∈ cs, isBlankChar c = false) :
    EndsSolid cs := by
  obtain ⟨front, last, rfl⟩ := (List.eq_nil_or_concat cs).resolve_left hne
  exact ⟨front, last, List.concat_eq_append, h last (by simp)⟩

theorem EndsSolid.append {cs : List Char} (h : EndsSolid cs) (front : List Char) :
    EndsSolid (front ++ cs) := by
  obtain ⟨inner, last, rfl, hlast⟩ := h
  exact ⟨front ++ inner, last, (List.append_assoc _ _ _).symm, hlast⟩

theorem opening_of_blockComment {lineStart : Bool} {cs : List Char}
    (h : triviaKind? lineStart cs = some .blockComment) : ∃ ds, cs = '/' :: '*' :: ds := by
  unfold triviaKind? at h
  split at h
  · cases h
  · exact ⟨_, rfl⟩
  · split at h <;> cases h
  · cases h

section
variable {opening cs t r : List Char} {c quote : Char} {kind : TokenKind}

theorem endsSolid_suffix {s : List Char} (hq : isQuote quote = true) (h : suffix cs = (s, r)) :
    EndsSolid (quote :: s) := by
  have hs := isBlankChar_of_suffix cs
  rw [h] at hs
  refine endsSolid_of_unblank (List.cons_ne_nil _ _) ?_
  intro d hd
  rcases List.mem_cons.1 hd with rfl | hd
  · exact isBlankChar_of_any isQuote_blank hq
  · exact hs d hd

theorem endsSolid_quoted (hq : isQuote quote = true)
    (h : quoted opening quote cs = ⟨.ok kind, t, r⟩) : EndsSolid t := by
  obtain ⟨b, s, _, _, hsuffix, _, rfl⟩ := spanUnits_of_quoted h
  exact ((endsSolid_suffix hq hsuffix).append b).append opening

theorem endsSolid_raw (h : raw opening cs = ⟨.ok kind, t, r⟩) : EndsSolid t := by
  unfold raw at h
  dsimp only at h
  split at h
  · obtain ⟨b, s, _, _, hsuffix, _, rfl⟩ := spanUnits_of_rawBody h
    have hquote : EndsSolid ('\x22' :: s) := endsSolid_suffix rfl hsuffix
    have hclosing : ')' :: ((delimiter 0 cs).1 ++ ['\x22']) ++ s =
        ')' :: (delimiter 0 cs).1 ++ '\x22' :: s := by simp
    rw [hclosing]
    exact ((hquote.append _).append b).append _
  · cases h

theorem endsSolid_word (h : word cs = ⟨.ok kind, t, r⟩) (hne : t ≠ []) : EndsSolid t := by
  obtain ⟨w, d, rfl, hw, hd⟩ := exists_word cs
  have hplain : t = w → EndsSolid t := by
    rintro rfl
    exact endsSolid_of_unblank hne fun c hc => isBlankChar_of_any isIdentifierPart_blank (hw c hc)
  cases d with
  | nil =>
    rw [List.append_nil, word_nil hw] at h
    exact hplain (Scan.mk.inj h).2.1.symm
  | cons q d =>
    rw [word_cons hw hd] at h
    split at h
    · next hq => exact endsSolid_quoted ((Bool.and_eq_true _ _).mp hq).1 h
    · split at h
      · exact endsSolid_raw h
      · exact hplain (Scan.mk.inj h).2.1.symm

theorem endsSolid_number (hc : startsNumber c cs = true) (h : number c cs = ⟨.ok kind, t, r⟩) :
    EndsSolid t := by
  obtain ⟨_, rfl, _⟩ := Scan.mk.inj h
  refine endsSolid_of_unblank (List.cons_ne_nil _ _) ?_
  intro d hd
  rcases List.mem_cons.1 hd with rfl | hd
  · have hfirst : (d.isDigit || d == '.') = true := by
      simp only [startsNumber, Bool.or_eq_true, Bool.and_eq_true, decide_eq_true_eq] at hc
      simpa using hc.imp_right And.left
    exact isBlankChar_of_any (q := fun d => d.isDigit || d == '.') (by decide) hfirst
  · exact isBlankChar_of_number (units_of_spanUnits rfl (.inl numberUnit_le)) d hd

theorem endsSolid_symbol (h : symbol c cs = ⟨.ok kind, t, r⟩) : EndsSolid t := by
  unfold symbol at h
  split at h
  · next s hs =>
    have hmem := List.mem_of_find?_eq_some hs
    have hfits := List.find?_some hs
    have hprefix : s.1 <+: c :: cs := List.isPrefixOf_iff_prefix.1 hfits
    obtain ⟨_, rfl, _⟩ := Scan.mk.inj h
    rw [← List.prefix_iff_eq_take.1 hprefix]
    refine endsSolid_of_unblank (symbols_ne_nil s hmem) fun d hd => ?_
    exact eq_false_of_ne_true (List.any_eq_false.1 (symbols_unblank s hmem) d hd)
  · cases h

theorem endsSolid_token (h : (token c cs).outcome = .ok kind) : EndsSolid (token c cs).taken := by
  have hne := token_taken_ne_nil h
  obtain ⟨t, r, ht⟩ : ∃ t r, token c cs = ⟨.ok kind, t, r⟩ := ⟨_, _, by rw [← h]⟩
  rw [ht] at hne ⊢
  unfold token at ht
  split at ht
  · next hn => exact endsSolid_number hn ht
  · split at ht
    · exact endsSolid_word ht hne
    · split at ht
      · next hq => exact endsSolid_quoted hq ht
      · exact endsSolid_symbol ht

end

end Lexeme

/-- What stands at `p` is what the error is about, and the error names the line and column of `p`
where it names any. -/
inductive LexError.Blames (p : Position) : LexError → List Char → Prop
  | character {c : Char} {cs : List Char} :
      Blames p (.invalidCharacter c p.line p.column) (c :: cs)
  | literal {mark cs : List Char} {quote : Char} (h : opensLiteral mark quote = true) :
      Blames p (.unterminatedLiteral p.line p.column) (mark ++ quote :: cs)
  | comment {cs : List Char} (h : ¬ ['*', '/'] <:+: cs) :
      Blames p (.unterminatedComment p.line p.column) ('/' :: '*' :: cs)
  | word {w cs : List Char} (hw : ∀ c ∈ w, isIdentifierPart c = true)
      (h : identifierLimit < w.length) : Blames p (.identifierTooLong w.length) (w ++ cs)
  | count {n : Nat} {c : Char} {cs : List Char} (h : LexError.tokenLimit ≤ n) :
      Blames p (.tooManyTokens n) (c :: cs)

theorem Lexeme.Faulty.blames {fault : Fault} {cs : List Char} (h : Faulty fault cs) (p : Position) :
    (fault.errorAt p).Blames p cs := by
  cases h with
  | literal h => exact .literal h
  | word hw h => exact .word hw h

def Piece.Placed (text : List Char) (p : Piece) : Prop :=
  ∃ before after, text = before ++ (p.image.toList ++ after) ∧
    p.span.start = .place before ∧ p.span.stop = .place (before ++ p.image.toList)

/-- The token ends with a character of the text, on the line and in the column of that character. -/
def Token.EndsPlaced (text : List Char) (t : Token) : Prop :=
  ∃ before last after, text = before ++ last :: after ∧ t.image.toList.getLast? = some last ∧
    t.span.stop = .place (before ++ [last]) ∧ t.endLine = (Position.place before).line ∧
    t.endColumn = (Position.place before).column

namespace Lexer
open Position
variable {l m b : Lexer} {r : Except LexFailure Token} {text taken rest : List Char}

theorem At.exists_place (h : l.At text) :
    ∃ before, before ++ l.rest = text ∧ l.position = place before := by
  obtain ⟨before, htext, hpos⟩ := h
  exact ⟨before, htext, hpos.trans (advanceAll_start before)⟩

theorem At.placed (h : l.At text) (hs : taken ++ rest = l.rest) :
    Piece.Placed text ⟨String.ofList taken, l.spanOver taken⟩ := by
  obtain ⟨before, rfl, hpos⟩ := h.exists_place
  refine ⟨before, rest, ?_, hpos, ?_⟩
  · rw [String.toList_ofList, hs]
  · rw [String.toList_ofList, ← advanceAll_place, ← hpos]
    rfl

theorem At.placed_gathers {found vs : List Trivia} (h : l.At text) (hg : Gathers l found vs b)
    (hfound : ∀ v ∈ found, v.piece.Placed text) : ∀ v ∈ vs, v.piece.Placed text := by
  induction hg with
  | stop _ => simpa using hfound
  | @pass l m found vs kind k hk hs hg ih =>
    have hitem : (l.skipBlanks.triviaItem kind).piece.Placed text :=
      h.skipBlanks.placed (trivia_splits kind _)
    refine ih (h.skipBlanks.moveOver (trivia_splits kind _)) ?_
    intro v hv
    split at hv
    · rcases List.mem_cons.1 hv with rfl | hv
      · exact hitem
      · exact hfound v hv
    · exact hfound v hv

/-- What a step lists stands where it says. -/
theorem At.placed_step {t : Token} (h : l.At text) (hs : Step l (.ok t) m) :
    ∀ p ∈ t.pieces, p.Placed text := by
  have hpieces : ∀ {vs : List Trivia} {b : Lexer}, Gathers l [] vs b → ∀ {u : Token},
      u.trivia = vs → Piece.Placed text ⟨u.image, u.span⟩ → ∀ p ∈ u.pieces, p.Placed text := by
    intro vs b hg u hu hlast p hp
    rcases List.mem_append.1 hp with hp | hp
    · obtain ⟨v, hv, rfl⟩ := List.mem_map.1 hp
      rw [hu] at hv
      exact h.placed_gathers hg (by simp) v hv
    · rw [List.mem_singleton.1 hp]
      exact hlast
  cases hs with
  | endMark hg hr => exact hpieces hg rfl ((h.gathers hg).placed (List.nil_append _))
  | @token b vs c cs kind hg hr ho =>
    exact hpieces hg rfl ((h.gathers hg).placed ((token_splits c cs).trans hr.symm))

/-- Only a character that is neither a line end nor a tab ends a token, so the place behind it tells
the place in front of it. -/
theorem At.endsPlaced_step {t : Token} (h : l.At text) (hs : Step l (.ok t) m)
    (ht : t.isEof = false) : t.EndsPlaced text := by
  cases hs with
  | endMark => cases ht
  | @token b vs c cs kind hg hr ho =>
    obtain ⟨front, last, htaken, hlast⟩ := endsSolid_token ho
    obtain ⟨before, rfl, hpos⟩ := (h.gathers hg).exists_place
    have hn : last ≠ '\n' := by
      rintro rfl
      cases hlast
    have htab : last ≠ '\t' := by
      rintro rfl
      cases hlast
    have hstop : b.position.advanceAll (Lexeme.token c cs).taken =
        place (before ++ front ++ [last]) := by
      rw [hpos, advanceAll_place, htaken, List.append_assoc]
    have hmoved := hstop
    rw [place_concat, advance, if_neg hn, if_neg htab] at hmoved
    have hcolumn := one_le_column_place (before ++ front)
    refine ⟨before ++ front, last, (Lexeme.token c cs).rest, ?_, ?_, hstop, ?_, ?_⟩
    · have hsplit := (token_splits c cs).trans hr.symm
      rw [← hsplit, htaken]
      simp
    · simp [tokenItem, htaken]
    · simp [Token.endLine, tokenItem, spanOver, hmoved]
    · have hsize := byteSize_pos (token_taken_ne_nil ho)
      have hopen : (b.spanOver (Lexeme.token c cs).taken).isEmpty = false := by
        simp only [Span.isEmpty, spanOver, offset_advanceAll, beq_eq_false_iff_ne]
        omega
      rw [Token.endColumn, tokenItem, hopen, if_neg Bool.false_ne_true]
      simp only [spanOver, hmoved]
      omega

/-- A failing step names the place at which it found what it could not read. Between the place where it
started and that place it has moved over blanks, comments and directives only. -/
theorem At.blames_step {f : LexFailure} (h : l.At text) (hs : Step l (.error f) m) :
    ∃ b before, Skips l b ∧ before ++ b.rest = text ∧ f.span.start = place before ∧
      f.error.Blames (place before) b.rest := by
  cases hs with
  | @comment b hb hk ho =>
    obtain ⟨before, rfl, hpos⟩ := (h.skips hb).exists_place
    refine ⟨b, before, hb, rfl, hpos, ?_⟩
    obtain ⟨-, -, hopen, -, -⟩ := trivia_fault ho
    obtain ⟨cs, hr⟩ := opening_of_blockComment hk
    rw [hr] at hopen ⊢
    rw [← hpos]
    exact .comment (not_infix_of_spanUnits (by simp) hopen)
  | @fault b vs c cs fault hg hr hi ho =>
    obtain ⟨before, rfl, hpos⟩ := (h.gathers hg).exists_place
    refine ⟨b, before, hg.skips, rfl, hpos, ?_⟩
    rw [← hpos, hr]
    rcases token_fault ho with ⟨rfl, -, -⟩ | ⟨hf, -⟩
    · exact .character
    · exact hf.blames _
  | full hg hr hi =>
    obtain ⟨before, rfl, hpos⟩ := (h.gathers hg).exists_place
    refine ⟨m, before, hg.skips, rfl, hpos, ?_⟩
    rw [hr]
    exact .count (Nat.le_of_not_lt hi)

/-- After any number of steps, failing ones included, whatever the next step lists stands between the
places that its span gives, a token ends at the place of its last character, and an error names the
place of what it is about. The cursor itself stands at the end of some text in front of it. All these
places are worked out in 32 bits. -/
theorem places_exact {text : String} (hsize : text.utf8ByteSize ≤ SourceFile.sizeLimit) (l : Lexer)
    (n : Nat) :
    let s := l.reset text
    (∀ t, s.answer n = .ok t → (∀ p ∈ t.pieces, p.Placed text.toList) ∧
      (t.isEof = false → t.EndsPlaced text.toList)) ∧
    (∀ f, s.answer n = .error f → ∃ b before, Skips (s.after n) b ∧
      before ++ b.rest = text.toList ∧ f.span.start = place before ∧
      f.error.Blames (place before) b.rest) ∧
    (∃ before, before ++ (s.after n).rest = text.toList ∧ (s.after n).position = place before) ∧
    ∀ before c after, text.toList = before ++ c :: after →
      (place before).advance? c = some (place (before ++ [c])) := by
  intro s
  have hat : (s.after n).At text.toList := (at_reset l text).after n
  have hstep := step_after s n
  refine ⟨?_, ?_, hat.exists_place, ?_⟩
  · intro t ht
    rw [ht] at hstep
    exact ⟨hat.placed_step hstep, hat.endsPlaced_step hstep⟩
  · intro f hf
    rw [hf] at hstep
    exact hat.blames_step hstep
  · intro before c after htext
    rw [← byteSize_toList, htext] at hsize
    exact advance?_place hsize

/-- A raw literal with a line end and a tab in it, behind a tab, a long character and a joined line. -/
theorem places_exact_raw :
    let text := "\té\\\nR\"(\n\tb)\"_s 'x"
    let s := (ofString .full "").reset text
    text.utf8ByteSize ≤ SourceFile.sizeLimit ∧
    (∃ t, s.answer 1 = .ok t ∧ t.image = "R\"(\n\tb)\"_s" ∧ t.endLine = 3 ∧ t.endColumn = 9 ∧
      t.EndsPlaced text.toList) ∧
    ∃ b before, Skips (s.after 2) b ∧ before ++ b.rest = text.toList ∧
      LexError.Blames (place before) (.unterminatedLiteral 3 11) b.rest := by
  intro text s
  have hsize : text.utf8ByteSize ≤ SourceFile.sizeLimit := by decide +kernel
  obtain ⟨t, ht, hseen⟩ : ∃ t, s.answer 1 = .ok t ∧ decide (t.image = "R\"(\n\tb)\"_s" ∧
      t.endLine = 3 ∧ t.endColumn = 9 ∧ t.isEof = false) := exists_ok_of_any (by decide +kernel)
  obtain ⟨himage, hline, hcolumn, heof⟩ := of_decide_eq_true hseen
  have hend := ((places_exact hsize (ofString .full "") 1).1 t ht).2 heof
  have hfailure : s.answer 2 = .error ⟨.unterminatedLiteral 3 11, ⟨⟨16, 3, 11⟩, ⟨18, 3, 13⟩⟩⟩ := by
    decide +kernel
  obtain ⟨b, before, hskips, htext, _, hblames⟩ :=
    (places_exact hsize (ofString .full "") 2).2.1 _ hfailure
  exact ⟨hsize, ⟨t, ht, himage, hline, hcolumn, hend⟩, b, before, hskips, htext, hblames⟩

end Lexer
end SourceOutline
