import SourceOutline.Proofs.LexerStep
import SourceOutline.Proofs.TokenRun
import SourceOutline.Proofs.Units

/-! Nothing of a text gets lost between its tokens and their trivia.
The pieces that a run lists stand in the text one after another, and only blanks stand between
them. -/
namespace SourceOutline
open Text Lexeme

inductive Blank : List Char → Prop
  | nil : Blank []
  | char {c : Char} {cs : List Char} (hc : c ∈ blankChars) (h : Blank cs) : Blank (c :: cs)
  | splice {cs : List Char} (h : Blank cs) : Blank ('\\' :: '\n' :: cs)
  | spliceReturn {cs : List Char} (h : Blank cs) : Blank ('\\' :: '\r' :: '\n' :: cs)

theorem Blank.append {cs ds : List Char} (h : Blank cs) (hd : Blank ds) : Blank (cs ++ ds) := by
  induction h with
  | nil => exact hd
  | char hc _ ih => exact .char hc ih
  | splice _ ih => exact .splice ih
  | spliceReturn _ ih => exact .spliceReturn ih

theorem spliceLength_le (cs : List Char) : spliceLength cs ≤ cs.length := by
  unfold spliceLength
  split <;> simp

theorem blankUnit_le (cs : List Char) : blankUnit cs ≤ cs.length := by
  cases cs with
  | nil => exact Nat.le_refl _
  | cons c cs =>
    simp only [blankUnit]
    split
    · simp
    · exact spliceLength_le _

theorem blank_of_blankUnit {u r : List Char} (hu : u ≠ []) (h : blankUnit (u ++ r) = u.length) :
    Blank u := by
  cases u with
  | nil => exact absurd rfl hu
  | cons c u =>
    simp only [List.cons_append, blankUnit] at h
    split at h
    · next hc =>
      have hnil : u = [] := List.eq_nil_of_length_eq_zero (by simpa using h.symm)
      rw [hnil]
      exact .char (isBlankChar_iff.1 hc) .nil
    · unfold spliceLength at h
      split at h
      · next heq =>
        have hlen : u.length = 1 := by simpa using h.symm
        obtain ⟨d, rfl⟩ := List.length_eq_one_iff.1 hlen
        obtain ⟨rfl, hd⟩ := List.cons.inj heq
        obtain ⟨rfl, _⟩ := List.cons.inj hd
        exact .splice .nil
      · next heq =>
        have hlen : u.length = 2 := by simpa using h.symm
        obtain ⟨d, v, rfl⟩ := List.exists_cons_of_length_pos (l := u) (by omega)
        obtain ⟨e, rfl⟩ := List.length_eq_one_iff.1 (Nat.succ.inj hlen)
        obtain ⟨rfl, hd⟩ := List.cons.inj heq
        obtain ⟨rfl, he⟩ := List.cons.inj hd
        obtain ⟨rfl, _⟩ := List.cons.inj he
        exact .spliceReturn .nil
      · simp at h

theorem blank_of_units {t r : List Char} (h : Units blankUnit t r) : Blank t := by
  induction h with
  | nil => exact .nil
  | cons hu h _ ih => exact (blank_of_blankUnit hu h).append ih

theorem blanks_blank (cs : List Char) : Blank (blanks cs).1 :=
  blank_of_units (units_of_spanUnits (t := (blanks cs).1) rfl (.inl blankUnit_le))

def byteSize (cs : List Char) : Nat := (String.ofList cs).utf8ByteSize

@[simp] theorem byteSize_nil : byteSize [] = 0 := rfl

@[simp] theorem byteSize_append (cs ds : List Char) :
    byteSize (cs ++ ds) = byteSize cs + byteSize ds := by
  simp [byteSize, String.ofList_append]

@[simp] theorem byteSize_cons (c : Char) (cs : List Char) :
    byteSize (c :: cs) = c.utf8Size + byteSize cs := by
  rw [← List.singleton_append, byteSize_append, byteSize, ← String.singleton_eq_ofList,
    String.utf8ByteSize_singleton]

theorem byteSize_pos {cs : List Char} (h : cs ≠ []) : 0 < byteSize cs := by
  cases cs with
  | nil => exact absurd rfl h
  | cons c cs =>
    rw [byteSize_cons]
    exact Nat.add_pos_left c.utf8Size_pos _

@[simp] theorem byteSize_toList (text : String) : byteSize text.toList = text.utf8ByteSize := by
  rw [byteSize, String.ofList_toList]

theorem Position.offset_advanceAll (p : Position) (cs : List Char) :
    (p.advanceAll cs).offset = p.offset + byteSize cs := by
  induction cs generalizing p with
  | nil => rfl
  | cons c cs ih => rw [advanceAll_cons, ih, advance_offset, byteSize_cons, Nat.add_assoc]

theorem Position.line_advanceAll (p : Position) (cs : List Char) :
    (p.advanceAll cs).line = p.line + cs.count '\n' := by
  induction cs generalizing p with
  | nil => rfl
  | cons c cs ih =>
    rw [advanceAll_cons, ih]
    by_cases hc : c = '\n'
    · subst hc
      rw [advance_newline, List.count_cons_self, Nat.add_assoc, Nat.add_comm 1]
    · have hline : (p.advance c).line = p.line := by
        simp only [advance, hc, if_false]
        split <;> rfl
      rw [hline, List.count_cons_of_ne hc]

structure Piece where
  image : String
  span : Span

def Trivia.piece (v : Trivia) : Piece := ⟨v.image, v.span⟩

def Token.pieces (t : Token) : List Piece := t.trivia.map Trivia.piece ++ [⟨t.image, t.span⟩]

/-- From offset `n` on, the text is blanks and pieces in turn, blanks last. -/
inductive Tiled : Nat → List Char → List Piece → Prop
  | last {n : Nat} {g : List Char} (hg : Blank g) : Tiled n g []
  | piece {n : Nat} {g cs : List Char} {p : Piece} {ps : List Piece} (hg : Blank g)
      (hstart : p.span.start.offset = n + byteSize g)
      (hstop : p.span.stop.offset = p.span.start.offset + byteSize p.image.toList)
      (h : Tiled p.span.stop.offset cs ps) : Tiled n (g ++ (p.image.toList ++ cs)) (p :: ps)

theorem Tiled.gap {n : Nat} {g cs : List Char} {ps : List Piece} (hg : Blank g)
    (h : Tiled (n + byteSize g) cs ps) : Tiled n (g ++ cs) ps := by
  cases h with
  | last hg' => exact .last (hg.append hg')
  | piece hg' hstart hstop h =>
    rw [← List.append_assoc]
    refine .piece (hg.append hg') ?_ hstop h
    rw [hstart, byteSize_append, Nat.add_assoc]

def Stretch (text : List Char) (start stop : Nat) (part : List Char) : Prop :=
  ∃ before after, text = before ++ (part ++ after) ∧ byteSize before = start ∧
    start + byteSize part = stop

/-- Where blanks may stand: from `n` to the first piece, between pieces, and from the last one to
`stop`. -/
def gapBounds (n : Nat) (ps : List Piece) (stop : Nat) : List (Nat × Nat) :=
  (n :: ps.map (·.span.stop.offset)).zip (ps.map (·.span.start.offset) ++ [stop])

/-- Gaps and parts in turn, gaps first and last. -/
def weave : List (List Char) → List (List Char) → List Char
  | [], _ => []
  | g :: _, [] => g
  | g :: gs, p :: ps => g ++ (p ++ weave gs ps)

namespace Tiled
variable {n : Nat} {cs : List Char} {ps : List Piece}

theorem le_start (h : Tiled n cs ps) : ∀ p ∈ ps, n ≤ p.span.start.offset := by
  induction h with
  | last => simp
  | piece _ hstart hstop _ ih =>
    intro q hq
    rcases List.mem_cons.1 hq with rfl | hq
    · omega
    · have := ih q hq
      omega

theorem ordered (h : Tiled n cs ps) :
    ps.Pairwise fun p q => p.span.stop.offset ≤ q.span.start.offset := by
  induction h with
  | last => exact .nil
  | piece _ _ _ h ih => exact .cons h.le_start ih

theorem stretch (h : Tiled n cs ps) {before : List Char} (hb : byteSize before = n) :
    ∀ p ∈ ps, Stretch (before ++ cs) p.span.start.offset p.span.stop.offset p.image.toList := by
  induction h generalizing before with
  | last => simp
  | @piece n g cs p ps _ hstart hstop h ih =>
    intro q hq
    rcases List.mem_cons.1 hq with rfl | hq
    · refine ⟨before ++ g, cs, by simp, ?_, hstop.symm⟩
      rw [byteSize_append, hb, hstart]
    · have hsize : byteSize (before ++ (g ++ p.image.toList)) = p.span.stop.offset := by
        simp only [byteSize_append]
        omega
      have := ih hsize q hq
      simpa [List.append_assoc] using this

theorem blank_gaps (h : Tiled n cs ps) {before : List Char} (hb : byteSize before = n) :
    ∀ g ∈ gapBounds n ps (n + byteSize cs), ∃ gap, Stretch (before ++ cs) g.1 g.2 gap ∧
      Blank gap := by
  induction h generalizing before with
  | @last n g hg =>
    intro b hmem
    simp only [gapBounds, List.map_nil, List.nil_append, List.zip_cons_cons, List.zip_nil_left,
      List.mem_singleton] at hmem
    subst hmem
    exact ⟨g, ⟨before, [], by simp, hb, rfl⟩, hg⟩
  | @piece n g cs p ps hg hstart hstop h ih =>
    intro b hmem
    have htotal : n + byteSize (g ++ (p.image.toList ++ cs)) =
        p.span.stop.offset + byteSize cs := by
      simp only [byteSize_append]
      omega
    rw [htotal, gapBounds, List.map_cons, List.map_cons, List.cons_append,
      List.zip_cons_cons] at hmem
    rcases List.mem_cons.1 hmem with rfl | hmem
    · exact ⟨g, ⟨before, p.image.toList ++ cs, rfl, hb, hstart.symm⟩, hg⟩
    · have hsize : byteSize (before ++ (g ++ p.image.toList)) = p.span.stop.offset := by
        simp only [byteSize_append]
        omega
      have := ih hsize b hmem
      simpa [List.append_assoc] using this

theorem exists_weave (h : Tiled n cs ps) :
    ∃ gaps, gaps.length = ps.length + 1 ∧ (∀ g ∈ gaps, Blank g) ∧
      cs = weave gaps (ps.map (·.image.toList)) := by
  induction h with
  | @last n g hg => exact ⟨[g], rfl, by simpa using hg, rfl⟩
  | @piece n g cs p ps hg _ _ _ ih =>
    obtain ⟨gaps, hlen, hgaps, rfl⟩ := ih
    refine ⟨g :: gaps, by simp [hlen], ?_, rfl⟩
    intro b hb
    rcases List.mem_cons.1 hb with rfl | hb
    · exact hg
    · exact hgaps b hb

end Tiled

namespace Lexer

def KeepsAll (l : Lexer) : Prop :=
  l.preferences.keepComments = true ∧ l.preferences.keepDirectives = true

theorem KeepsAll.keeps {l : Lexer} (h : l.KeepsAll) (kind : TriviaKind) : l.keeps kind = true := by
  cases kind
  · exact h.1
  · exact h.1
  · exact h.2

def Lists (l : Lexer) (ps : List Piece) : Prop := Tiled l.position.offset l.rest ps

theorem lists_of_skipBlanks {l : Lexer} {ps : List Piece} (h : l.skipBlanks.Lists ps) :
    l.Lists ps := by
  rw [Lists, ← blanks_append l.rest]
  refine .gap (blanks_blank l.rest) ?_
  rw [← Position.offset_advanceAll]
  exact h

/-- What stands at the cursor is one more piece. -/
theorem lists_of_moveOver {l : Lexer} {taken rest : List Char} {ps : List Piece}
    (hs : taken ++ rest = l.rest) (h : (l.moveOver taken rest).Lists ps) :
    l.Lists (⟨String.ofList taken, l.spanOver taken⟩ :: ps) := by
  have himage : (String.ofList taken).toList = taken := String.toList_ofList
  have hpiece : Tiled l.position.offset ([] ++ ((String.ofList taken).toList ++ rest))
      (⟨String.ofList taken, l.spanOver taken⟩ :: ps) := by
    refine .piece (p := ⟨String.ofList taken, l.spanOver taken⟩) .nil rfl ?_ h
    rw [himage]
    exact Position.offset_advanceAll _ _
  rwa [himage, List.nil_append, hs] at hpiece

theorem lists_of_gathers {l m : Lexer} {found vs : List Trivia} (hl : l.KeepsAll)
    (h : Gathers l found vs m) :
    ∃ items, vs = found.reverse ++ items ∧
      ∀ ps, m.Lists ps → l.Lists (items.map Trivia.piece ++ ps) := by
  induction h with
  | stop _ => exact ⟨[], by simp, fun ps hps => lists_of_skipBlanks hps⟩
  | @pass l m found vs kind _ _ _ _ ih =>
    obtain ⟨items, hvs, hitems⟩ := ih hl
    refine ⟨l.skipBlanks.triviaItem kind :: items, ?_, ?_⟩
    · rw [hvs, if_pos (KeepsAll.keeps (l := l.skipBlanks) hl kind)]
      simp
    · intro ps hps
      exact lists_of_skipBlanks
        (lists_of_moveOver (trivia_splits kind l.skipBlanks.rest) (hitems ps hps))

theorem lists_of_readToken {l m : Lexer} {vs : List Trivia} {t : Token}
    (h : l.readToken vs = (.ok t, m)) {ps : List Piece} (hps : m.Lists ps) :
    l.Lists (⟨t.image, t.span⟩ :: ps) := by
  rcases readToken_cases h with ⟨hr, rfl, rfl⟩ | ⟨c, cs, kind, hr, _, _, rfl, rfl⟩
  · exact lists_of_moveOver (List.nil_append _) hps
  · exact lists_of_moveOver ((token_splits c cs).trans hr.symm) hps

/-- A step lists the pieces that it goes over. -/
theorem lists_of_next {l m : Lexer} {t : Token} (hl : l.KeepsAll) (h : l.next.value = (.ok t, m))
    {ps : List Piece} (hps : m.Lists ps) : l.Lists (t.pieces ++ ps) := by
  obtain ⟨vs, b, hg, hr⟩ := next_cases h
  obtain ⟨items, hvs, hitems⟩ := lists_of_gathers hl hg
  rw [Token.pieces, trivia_readToken hr, hvs, List.append_assoc]
  exact hitems _ (lists_of_readToken hr hps)

theorem next_endMark {l m : Lexer} {t : Token} (h : l.next.value = (.ok t, m)) (ht : t.isEof = true) :
    m.rest = [] ∧ t.image = "" ∧ t.span = .point m.position := by
  obtain ⟨vs, b, _, hr⟩ := next_cases h
  rcases readToken_cases hr with ⟨hrest, rfl, rfl⟩ | ⟨c, cs, kind, _, _, hs, rfl, _⟩
  · exact ⟨hrest, rfl, rfl⟩
  · rw [tokenItem_isEof hs] at ht
    cases ht

/-- A whole run goes over the whole text. -/
theorem lists_of_yields {l m : Lexer} {ts : List Token} (hl : l.KeepsAll)
    (h : Yields next l ts m) : l.Lists (ts.flatMap Token.pieces) := by
  induction h with
  | @last l m t hn ht =>
    have hend : m.Lists [] := by
      rw [Lists, (next_endMark hn ht).1]
      exact .last .nil
    rw [List.flatMap_singleton, ← List.append_nil t.pieces]
    exact lists_of_next hl hn hend
  | @more l u m t ts hn _ _ ih =>
    have hu : u.KeepsAll := by
      rw [KeepsAll, preferences_next hn]
      exact hl
    rw [List.flatMap_cons]
    exact lists_of_next hl hn (ih hu)

/-- The cursor stands where reading the text in front of it has led. -/
def At (text : List Char) (l : Lexer) : Prop :=
  ∃ before, before ++ l.rest = text ∧ l.position = Position.start.advanceAll before

section At
variable {text : List Char} {l m : Lexer}

theorem At.moveOver {taken rest : List Char} (h : l.At text) (hs : taken ++ rest = l.rest) :
    (l.moveOver taken rest).At text := by
  obtain ⟨before, htext, hpos⟩ := h
  refine ⟨before ++ taken, ?_, ?_⟩
  · rw [List.append_assoc, ← htext, ← hs]
    rfl
  · rw [Position.advanceAll_append, ← hpos]
    rfl

theorem At.skipBlanks (h : l.At text) : l.skipBlanks.At text := h.moveOver (blanks_append l.rest)

theorem At.skips (h : l.At text) (hs : Skips l m) : m.At text := by
  induction hs with
  | blanks l => exact h.skipBlanks
  | @pass l m kind _ _ _ _ ih => exact ih (h.skipBlanks.moveOver (trivia_splits kind _))

theorem At.gathers {found vs : List Trivia} (h : l.At text) (hg : Gathers l found vs m) :
    m.At text := h.skips hg.skips

theorem At.step {r : Except LexFailure Token} (h : l.At text) (hs : Step l r m) : m.At text := by
  cases hs with
  | comment hb _ _ => exact (h.skips hb).moveOver (List.append_nil _)
  | endMark hg _ => exact h.gathers hg
  | @token b vs c cs kind hg hr ho =>
    exact (h.gathers hg).moveOver ((token_splits c cs).trans hr.symm)
  | @fault b vs c cs fault hg hr _ _ =>
    exact (h.gathers hg).moveOver ((token_splits c cs).trans hr.symm)
  | full hg _ _ => exact h.gathers hg

theorem At.next {t : Token} (h : l.At text) (hn : l.next.value = (.ok t, m)) : m.At text :=
  h.step (step_next hn)

theorem At.yields {ts : List Token} (h : l.At text) (hy : Yields Lexer.next l ts m) :
    m.At text := by
  induction hy with
  | last hn _ => exact h.next hn
  | more hn _ _ ih => exact ih (h.next hn)

theorem at_reset (l : Lexer) (text : String) : (l.reset text).At text.toList := ⟨[], rfl, rfl⟩

end At

theorem endMark_of_yields {l m : Lexer} {ts : List Token} (h : Yields next l ts m) :
    m.rest = [] ∧ ∃ e ∈ ts.getLast?, e.image = "" ∧ e.span = .point m.position := by
  induction h with
  | @last l m t hn ht =>
    obtain ⟨hrest, himage, hspan⟩ := next_endMark hn ht
    exact ⟨hrest, t, by simp, himage, hspan⟩
  | @more l u m t ts hn _ hs ih =>
    obtain ⟨hrest, e, he, hend⟩ := ih
    refine ⟨hrest, e, ?_, hend⟩
    rw [List.getLast?_cons_of_ne_nil hs.ne_nil]
    exact he

theorem At.position_of_yields {text : List Char} {l m : Lexer} {ts : List Token} (h : l.At text)
    (hy : Yields Lexer.next l ts m) : m.position = Position.start.advanceAll text := by
  obtain ⟨before, htext, hpos⟩ := h.yields hy
  rw [(endMark_of_yields hy).1, List.append_nil] at htext
  rw [hpos, htext]

/-- The pieces of a run stand in the text one after another, each with the image that the text has at
its span, with nothing but blanks in front of, between and behind them. The last piece is the empty
one at the end. -/
theorem lexing_lossless {l m : Lexer} (hl : l.KeepsAll) (text : String) {ts : List Token}
    (h : Yields next (l.reset text) ts m) :
    let ps := ts.flatMap Token.pieces
    (ps.Pairwise fun p q => p.span.stop.offset ≤ q.span.start.offset) ∧
      (∀ p ∈ ps,
        Stretch text.toList p.span.start.offset p.span.stop.offset p.image.toList) ∧
      (∀ g ∈ gapBounds 0 ps text.utf8ByteSize,
        ∃ gap, Stretch text.toList g.1 g.2 gap ∧ Blank gap) ∧
      (∃ gaps, gaps.length = ps.length + 1 ∧ (∀ g ∈ gaps, Blank g) ∧
        text.toList = weave gaps (ps.map (·.image.toList))) ∧
      ∃ e ∈ ts.getLast?, e.image = "" ∧ e.span = .point m.position ∧
        m.position.offset = text.utf8ByteSize := by
  have htiled : Tiled 0 text.toList (ts.flatMap Token.pieces) :=
    lists_of_yields (l := l.reset text) hl h
  have hsize : text.utf8ByteSize = 0 + byteSize text.toList := by
    rw [byteSize_toList, Nat.zero_add]
  obtain ⟨_, e, he, himage, hspan⟩ := endMark_of_yields h
  refine ⟨htiled.ordered, htiled.stretch byteSize_nil, ?_, htiled.exists_weave, e, he, himage,
    hspan, ?_⟩
  · rw [hsize]
    exact htiled.blank_gaps byteSize_nil
  · rw [(at_reset l text).position_of_yields h, Position.offset_advanceAll, hsize]
    rfl

theorem lexing_lossless_mixed :
    let l := ofString .full ""
    let text := "#d\nu8R\"(x)\"_s/*c*/1'0\\\n// e"
    l.KeepsAll ∧ ∃ ts e m, Yields next (l.reset text) (ts ++ [e]) m ∧
      ts.map Token.image = ["u8R\"(x)\"_s", "1'0"] ∧
      ∃ gaps, (∀ g ∈ gaps, Blank g) ∧
        text.toList = weave gaps (((ts ++ [e]).flatMap Token.pieces).map (·.image.toList)) := by
  intro l text
  have hl : l.KeepsAll := ⟨rfl, rfl⟩
  obtain ⟨ts, e, m, hy, himages⟩ :
      ∃ ts e m, Yields next (l.reset text) (ts ++ [e]) m ∧
        ts.map Token.image = ["u8R\"(x)\"_s", "1'0"] := yields_of_images (by decide +kernel)
  obtain ⟨_, _, _, ⟨gaps, _, hgaps, htext⟩, _⟩ := lexing_lossless hl text hy
  exact ⟨hl, ts, e, m, hy, himages, gaps, hgaps, htext⟩

end Lexer
end SourceOutline
