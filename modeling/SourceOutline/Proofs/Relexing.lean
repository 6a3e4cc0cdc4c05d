import SourceOutline.Proofs.Locality
import SourceOutline.Proofs.TokenRun

/-! Reading printed tokens again.
The images of the tokens of a text, with one space between them, are read as the same tokens. A
space goes with the token behind it: a token starts by skipping blanks. -/
namespace SourceOutline

namespace Lexeme
open Text

theorem triviaKind?_eq_none_of_append {v x : List Char} {s s' : Bool} (hv : v ≠ [])
    (h : triviaKind? s (v ++ x) = none) (hs : s' = true → s = true) :
    triviaKind? s' v = none := by
  match v with
  | [c] =>
    simp only [List.cons_append, triviaKind?_cons, List.head?_nil] at h ⊢
    grind
  | c :: d :: v =>
    simp only [List.cons_append, triviaKind?_cons, List.head?_cons] at h ⊢
    grind

/-- The characters that no token starts with and that a text being skipped may start with. -/
def skippedChars : List Char := '\\' :: blankChars

theorem skippedChars_start : skippedChars.any
    (fun c => c.isDigit || c = '.' || isIdentifierStart c || isQuote c) = false := by decide

theorem symbols_head : ∀ s ∈ symbols, s.1.head?.any skippedChars.contains = false := by decide

theorem token_of_skipped {c : Char} (h : c ∈ skippedChars) (cs : List Char) :
    (token c cs).outcome = .error (.invalidCharacter c) := by
  obtain ⟨⟨⟨hdigit, hdot⟩, hstart⟩, hquote⟩ : ((c.isDigit = false ∧ c ≠ '.') ∧
      isIdentifierStart c = false) ∧ isQuote c = false := by
    simpa using List.any_eq_false.1 skippedChars_start c h
  have hsymbol : symbols.find? (fun s => s.1.isPrefixOf (c :: cs)) = none := by
    rw [List.find?_eq_none]
    intro s hs hpre
    have hne := symbols_ne_nil s hs
    have hhead := symbols_head s hs
    cases hs1 : s.1 with
    | nil => exact hne hs1
    | cons d ds =>
      rw [hs1] at hpre hhead
      simp only [List.isPrefixOf_cons_cons, Bool.and_eq_true, beq_iff_eq] at hpre
      simp [hpre.1, h] at hhead
  simp [token, startsNumber, hdigit, hdot, hstart, hquote, symbol, hsymbol]

/-- A token does not start with anything that is skipped. -/
theorem blankUnit_of_token {c : Char} {cs : List Char} {kind : TokenKind}
    (h : (token c cs).outcome = .ok kind) (ds : List Char) : blankUnit (c :: ds) = 0 := by
  have hc : c ∉ skippedChars := by
    intro hc
    rw [token_of_skipped hc] at h
    cases h
  obtain ⟨hslash, hblank⟩ := not_or.1 (mt List.mem_cons.2 hc)
  have hb : isBlankChar c = false := eq_false_of_ne_true (mt isBlankChar_iff.1 hblank)
  simp [blankUnit, hb, spliceLength_cons, hslash]

theorem blanks_space {r : List Char} (hr : blankUnit r = 0) : blanks (' ' :: r) = ([' '], r) := by
  rw [blanks, spanUnits_of_unit (n := 0) (by simp) rfl, List.drop_one, List.tail_cons,
    spanUnits_of_unit_eq_zero hr]
  rfl

/-- In front of a break a token is read from its own image. -/
theorem token_image {c : Char} {cs y : List Char} {kind : TokenKind}
    (h : (token c cs).outcome = .ok kind) (hy : Breaks y) :
    ∃ v, (token c cs).taken = c :: v ∧ token c (v ++ y) = ⟨.ok kind, c :: v, y⟩ := by
  obtain ⟨taken, x, hread⟩ : ∃ taken x, token c cs = ⟨.ok kind, taken, x⟩ := ⟨_, _, by rw [← h]⟩
  have hsplit : taken ++ x = c :: cs := by
    simpa [Scan.Splits, hread] using token_splits c cs
  have hne : taken ≠ [] := by
    simpa [hread] using token_taken_ne_nil h
  rw [hread]
  cases taken with
  | nil => exact absurd rfl hne
  | cons d v =>
    obtain ⟨rfl, rfl⟩ := List.cons.inj hsplit
    exact ⟨v, rfl, token_recut (p := []) hread (List.append_nil _).symm hy⟩

end Lexeme

namespace Lexer
open Lexeme Text
variable {l m : Lexer} {t : Token}

theorem skipBlanks_of_blankUnit (h : blankUnit l.rest = 0) : l.skipBlanks = l := by
  rw [skipBlanks, blanks, spanUnits_of_unit_eq_zero h]
  simp [moveOver, endsLine]

theorem skipBlanks_space {r : List Char} (hl : l.rest = ' ' :: r) (hr : blankUnit r = 0) :
    l.skipBlanks = l.moveOver [' '] r := by
  rw [skipBlanks, hl, blanks_space hr]
  simp [moveOver, endsLine]

/-- A token is read again where its image stands in front of a break, with or without a space in
front of it. At the start of a line its image must have come from the start of a line. -/
theorem next_image {l' : Lexer} {y : List Char} (hn : l.next.value = (.ok t, m)) (ht : t.isEof = false)
    (hy : Breaks y)
    (hrest : l'.rest = t.image.toList ++ y ∨ l'.rest = ' ' :: (t.image.toList ++ y))
    (hstart : l'.lineStart = true → l.lineStart = true) (hissued : l'.issued = l.issued) :
    ∃ u m', l'.next.value = (.ok u, m') ∧ (u.kind, u.image) = (t.kind, t.image) ∧ u.trivia = [] ∧
      m'.rest = y ∧ m'.lineStart = false ∧ m'.issued = m.issued := by
  obtain ⟨vs, b, hg, hr⟩ := next_cases hn
  obtain ⟨htrivia, hbissued, hbstart⟩ := hg.after
  rcases readToken_cases hr with ⟨_, rfl, _⟩ | ⟨c, cs, kind, hb, hi, hk, rfl, rfl⟩
  · cases ht
  · obtain ⟨v, htaken, hread⟩ := token_image hk hy
    have hsplit := token_splits c cs
    rw [Scan.Splits, htaken] at hsplit
    have himage : (b.tokenItem kind (token c cs).taken vs).image.toList = c :: v := by
      rw [tokenItem, htaken, String.toList_ofList]
    have hskip : l'.skipBlanks.rest = c :: (v ++ y) ∧ l'.skipBlanks.lineStart = l'.lineStart ∧
        l'.skipBlanks.issued = l'.issued := by
      rw [himage] at hrest
      rcases hrest with hrest | hrest
      · rw [skipBlanks_of_blankUnit (by rw [hrest]; exact blankUnit_of_token hk _)]
        exact ⟨hrest, rfl, rfl⟩
      · rw [skipBlanks_space hrest (blankUnit_of_token hk _)]
        exact ⟨rfl, rfl, rfl⟩
    obtain ⟨hrest', hstart', hissued'⟩ := hskip
    have hnone : triviaKind? l'.skipBlanks.lineStart l'.skipBlanks.rest = none := by
      rw [hrest', hstart', ← List.cons_append, triviaKind?_break (by simp) hy]
      rw [hb, ← hsplit] at htrivia
      exact triviaKind?_eq_none_of_append (by simp) htrivia fun h => hbstart (hstart h)
    have hlimit : l'.skipBlanks.issued < LexError.tokenLimit := by
      rw [hissued', hissued, ← hbissued]
      exact hi
    have hgather : Gathers l' [] [] l'.skipBlanks := .stop hnone
    have hnext := readToken_cons hrest' hlimit (congrArg Scan.outcome hread) []
    rw [← hgather.next_eq, hread] at hnext
    refine ⟨_, _, hnext, ?_, rfl, rfl, rfl, ?_⟩
    · rw [tokenItem, tokenItem, htaken]
    · rw [passToken, passToken, hissued', hissued, hbissued]

def spaced (ts : List Token) : List Char := ts.flatMap fun t => ' ' :: t.image.toList

theorem breaks_spaced (ts : List Token) : Breaks (spaced ts) := by
  cases ts with
  | nil => exact breaks_nil
  | cons t ts => exact breaks_cons rfl _

theorem spaced_cons (t : Token) (ts : List Token) :
    spaced (t :: ts) = ' ' :: (" ".intercalate ((t :: ts).map Token.image)).toList := by
  induction ts generalizing t with
  | nil => simp [spaced]
  | cons u ts ih =>
    have h := ih u
    rw [spaced, List.flatMap_cons, ← spaced, h]
    simp [String.toList_append]

theorem next_nil (h : l.rest = []) : l.next.value = (.ok ⟨.eof, "", .point l.position, []⟩, l) := by
  have hskip : l.skipBlanks = l := skipBlanks_of_blankUnit (by rw [h]; rfl)
  have hnone : triviaKind? l.skipBlanks.lineStart l.skipBlanks.rest = none := by
    rw [hskip, h]
    rfl
  have hgather : Gathers l [] [] l.skipBlanks := .stop hnone
  rw [hgather.next_eq, hskip, readToken_nil h]

theorem yields_spaced {l' : Lexer} {ts : List Token} (h : Yields next l ts m)
    (hrest : l'.rest = spaced ts.dropLast ∨ ' ' :: l'.rest = spaced ts.dropLast)
    (hstart : l'.lineStart = true → l.lineStart = true) (hissued : l'.issued = l.issued) :
    ∃ us m', Yields next l' us m' ∧
      us.dropLast.map (fun u => (u.kind, u.image)) =
        ts.dropLast.map (fun t => (t.kind, t.image)) ∧
      ∀ u ∈ us.dropLast, u.trivia = [] := by
  induction h generalizing l' with
  | @last l m t hn ht =>
    have hnil : l'.rest = [] := by simpa [spaced] using hrest
    exact ⟨_, _, .last (next_nil hnil) rfl, rfl, by simp⟩
  | @more l b m t ts hn ht hs ih =>
    rw [List.dropLast_cons_of_ne_nil hs.ne_nil, spaced, List.flatMap_cons, ← spaced,
      List.cons_append, List.cons.injEq] at hrest
    obtain ⟨u, b', hn', hface, htrivia, hrest', hstart', hissued'⟩ :=
      next_image hn ht (breaks_spaced ts.dropLast) (hrest.symm.imp_left And.right) hstart hissued
    obtain ⟨us, m', hus, hfaces, htrivias⟩ :=
      ih (.inl hrest') (fun h => by rw [hstart'] at h; cases h) hissued'
    have hu : u.isEof = false := by
      rw [← ht, Token.isEof, Token.isEof, Token.is, Token.is, (Prod.mk.inj hface).1]
    refine ⟨u :: us, m', .more hn' hu hus, ?_, ?_⟩
    · rw [List.dropLast_cons_of_ne_nil hs.ne_nil, List.dropLast_cons_of_ne_nil hus.ne_nil,
        List.map_cons, List.map_cons, hface, hfaces]
    · rw [List.dropLast_cons_of_ne_nil hus.ne_nil]
      intro w hw
      rcases List.mem_cons.1 hw with rfl | hw
      · exact htrivia
      · exact htrivias w hw

/-- Printed with single spaces between them, the tokens of a text are read as themselves. -/
theorem tokenize_intercalate {text : String} {ts : List Token}
    (h : (tokenize text).value = .ok ts) :
    ∃ us, (tokenize (" ".intercalate (ts.map Token.image))).value = .ok us ∧
      us.map (fun u => (u.kind, u.image)) = ts.map (fun t => (t.kind, t.image)) ∧
      ∀ u ∈ us, u.trivia = [] := by
  obtain ⟨rs, m, hrun, rfl⟩ := tokenize_eq_ok_iff.1 h
  have hrest : (ofString .full (" ".intercalate (rs.dropLast.map Token.image))).rest =
        spaced rs.dropLast ∨
      ' ' :: (ofString .full (" ".intercalate (rs.dropLast.map Token.image))).rest =
        spaced rs.dropLast := by
    cases hrs : rs.dropLast with
    | nil => exact .inl rfl
    | cons t ts => exact .inr (spaced_cons t ts).symm
  obtain ⟨us, m', hus, hfaces, htrivia⟩ := yields_spaced hrun hrest (fun _ => rfl) rfl
  exact ⟨us.dropLast, tokenize_eq_ok_iff.2 ⟨us, m', hus, rfl⟩, hfaces, htrivia⟩

theorem tokenize_intercalate_glued :
    let text := "a/*x*/+++b#define\\\n// z\n#e\nR\"q( )q\"_w.5e+3::u8'\\''"
    let images := ["a", "++", "+", "b", "#", "define", "R\"q( )q\"_w", ".5e+3", "::", "u8'\\''"]
    ∃ ts us, (tokenize text).value = .ok ts ∧ ts.map Token.image = images ∧
      (tokenize (" ".intercalate images)).value = .ok us ∧ us.map Token.image = images ∧
      ∀ u ∈ us, u.trivia = [] := by
  intro text images
  obtain ⟨ts, e, m, hy, hts⟩ : ∃ ts e m, Yields next (ofString .full text) (ts ++ [e]) m ∧
      ts.map Token.image = images := yields_of_images (by decide +kernel)
  have hv : (tokenize text).value = .ok ts :=
    tokenize_eq_ok_iff.2 ⟨ts ++ [e], m, hy, List.dropLast_concat.symm⟩
  obtain ⟨us, hus, hfaces, htrivia⟩ := tokenize_intercalate hv
  rw [hts] at hus
  have huimages : us.map Token.image = images := by
    have h := congrArg (List.map Prod.snd) hfaces
    rw [List.map_map, List.map_map] at h
    exact h.trans hts
  exact ⟨ts, us, hv, hts, hus, huimages, htrivia⟩

end Lexer
end SourceOutline
