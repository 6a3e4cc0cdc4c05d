import SourceOutline.Proofs.Lines
import SourceOutline.Proofs.Progress
import SourceOutline.Proofs.Returns

/-! Where directives start and end.
Between two tokens stand blanks, joined lines, comments and directives. A number sign there starts a
directive exactly when no token stands in front of it or a line has ended since the last one. Line
ends in comments, in directives and between joined lines do not count. -/
namespace SourceOutline

namespace Lexeme
open Text

section Line
variable {before image rest t r : List Char}

def Joins (before : List Char) : Prop := ['\\'] <:+ before ∨ ['\\', '\r'] <:+ before

theorem Joins.append (h : Joins before) (front : List Char) : Joins (front ++ before) :=
  h.imp (fun hs => hs.trans (List.suffix_append _ _)) fun hs => hs.trans (List.suffix_append _ _)

theorem Joins.getLast? (h : Joins before) :
    before.getLast? = some '\\' ∨ before.getLast? = some '\r' := by
  rcases h with ⟨s, rfl⟩ | ⟨s, rfl⟩
  · simp
  · simp

theorem getLast?_of_joins_return (h : Joins (before ++ ['\r'])) : before.getLast? = some '\\' := by
  rcases h with ⟨s, hs⟩ | ⟨s, hs⟩
  · have hlast := congrArg List.getLast? hs
    simp at hlast
  · rw [List.append_cons s '\\' ['\r']] at hs
    rw [← List.append_cancel_right hs]
    simp

/-- `image` goes up to the first line end that is not joined, or up to the end of the text. -/
structure LineImage (image rest : List Char) : Prop where
  joined : ∀ x y, image = x ++ '\n' :: y → Joins x
  stop : rest = [] ∨
    (∃ r, rest = '\n' :: r) ∧ ¬ Joins image ∧ image.getLast? ≠ some '\r' ∨
    (∃ r, rest = '\r' :: '\n' :: r) ∧ ¬ Joins (image ++ ['\r'])

theorem LineImage.eq_nil {a : List Char} (h : LineImage image (a ++ rest))
    (h' : LineImage (image ++ a) rest) : a = [] := by
  rcases h.stop with hend | ⟨⟨r, hr⟩, hjoins, -⟩ | ⟨⟨r, hr⟩, hjoins⟩
  · exact (List.append_eq_nil_iff.1 hend).1
  · cases a with
    | nil => rfl
    | cons c a =>
      obtain ⟨rfl, -⟩ := List.cons.inj hr
      exact absurd (h'.joined image a rfl) hjoins
  · rcases a with _ | ⟨c, _ | ⟨d, a⟩⟩
    · rfl
    · -- the carriage return belongs to the line end behind it
      obtain ⟨rfl, rfl⟩ := List.cons.inj hr
      rcases h'.stop with hend | ⟨-, -, hlast⟩ | ⟨⟨z, hz⟩, -⟩
      · cases hend
      · simp at hlast
      · cases hz
    · obtain ⟨rfl, hd⟩ := List.cons.inj hr
      obtain ⟨rfl, -⟩ := List.cons.inj hd
      exact absurd (h'.joined (image ++ ['\r']) a (by simp)) hjoins

/-- Where a line goes up to is told by the text alone. -/
theorem LineImage.unique {image' rest' : List Char} (h : LineImage image rest)
    (h' : LineImage image' rest') (heq : image ++ rest = image' ++ rest') : image = image' := by
  rcases List.append_eq_append_iff.1 heq with ⟨a, rfl, rfl⟩ | ⟨a, rfl, rfl⟩
  · rw [h.eq_nil h', List.append_nil]
  · rw [h'.eq_nil h, List.append_nil]

theorem splice_of_length {u : List Char} (hu : u ≠ []) (h : spliceLength (u ++ r) = u.length) :
    u = ['\\', '\n'] ∨ u = ['\\', '\r', '\n'] := by
  unfold spliceLength at h
  split at h
  · next heq =>
    left
    rcases u with _ | ⟨a, _ | ⟨b, u⟩⟩
    · cases h
    · cases h
    · simp_all
  · next heq =>
    right
    rcases u with _ | ⟨a, _ | ⟨b, _ | ⟨c, u⟩⟩⟩
    · cases h
    · cases h
    · cases h
    · simp_all
  · exact absurd (List.length_eq_zero_iff.1 h.symm) hu

theorem lineUnit_cases {u : List Char} (hu : u ≠ []) (h : lineUnit (u ++ r) = u.length) :
    (∃ c, u = [c] ∧ c ≠ '\n' ∧ ¬ (c = '\r' ∧ r.head? = some '\n') ∧ spliceLength (c :: r) ≤ 1) ∨
      u = ['\\', '\n'] ∨ u = ['\\', '\r', '\n'] := by
  cases u with
  | nil => exact absurd rfl hu
  | cons c u =>
    rw [List.cons_append, lineUnit] at h
    split at h
    · cases h
    · next hn =>
      split at h
      · cases h
      · next hr =>
        by_cases hs : spliceLength (c :: (u ++ r)) ≤ 1
        · left
          rw [Nat.max_eq_left hs, List.length_cons] at h
          obtain rfl := List.length_eq_zero_iff.1 (Nat.succ.inj h).symm
          exact ⟨c, rfl, hn, by simpa using hr, hs⟩
        · right
          rw [Nat.max_eq_right (by omega)] at h
          exact splice_of_length (u := c :: u) hu h

theorem joins_of_units (h : Units lineUnit t r) : ∀ x y, t = x ++ '\n' :: y → Joins x := by
  induction h with
  | nil => simp
  | @cons u t r hu hunit _ ih =>
    intro x y hxy
    rcases List.append_eq_append_iff.1 hxy with ⟨a, rfl, ht⟩ | ⟨a, rfl, hy⟩
    · exact (ih a y ht).append u
    · cases a with
      | nil => exact List.append_nil x ▸ (ih [] y hy.symm).append x
      | cons d a =>
        -- a unit with a line end in it is a joined one
        obtain ⟨rfl, -⟩ := List.cons.inj hy
        rcases lineUnit_cases hu hunit with ⟨c, hc, hn, -⟩ | hs | hs
        · rcases x with _ | ⟨p, x⟩ <;> simp_all
        · rcases x with _ | ⟨p, _ | ⟨q, x⟩⟩ <;> simp_all [Joins]
        · rcases x with _ | ⟨p, _ | ⟨q, _ | ⟨z, x⟩⟩⟩ <;> simp_all [Joins]

/-- A backslash in front of what it joins belongs to a unit with it. -/
theorem getLast?_of_units (h : Units lineUnit t r) (hr : 1 < spliceLength ('\\' :: r)) :
    t.getLast? ≠ some '\\' := by
  by_cases ht : t = []
  · simp [ht]
  · obtain ⟨s, u, rfl, hu, hunit⟩ := h.exists_last ht
    rcases lineUnit_cases hu hunit with ⟨c, rfl, -, -, hs⟩ | rfl | rfl
    · have hslash : c ≠ '\\' := by
        rintro rfl
        omega
      simp [hslash]
    · simp
    · simp

theorem endsPlain_of_units (h : Units lineUnit t ('\n' :: r)) : EndsPlain t := by
  refine ⟨getLast?_of_units h (by simp [spliceLength]), ?_⟩
  by_cases ht : t = []
  · simp [ht]
  · obtain ⟨s, u, rfl, hu, hunit⟩ := h.exists_last ht
    rcases lineUnit_cases hu hunit with ⟨c, rfl, -, hreturn, -⟩ | rfl | rfl
    · simpa using hreturn
    · simp
    · simp

theorem lineUnit_eq_zero {cs : List Char} (h : lineUnit cs = 0) :
    cs = [] ∨ (∃ r, cs = '\n' :: r) ∨ ∃ r, cs = '\r' :: '\n' :: r := by
  cases cs with
  | nil => exact .inl rfl
  | cons c cs =>
    right
    rw [lineUnit] at h
    split at h
    · next hn => exact .inl ⟨cs, by rw [hn]⟩
    · split at h
      · next hr =>
        obtain ⟨hc, hhead⟩ := (Bool.and_eq_true _ _).mp hr
        obtain ⟨ds, rfl⟩ := List.head?_eq_some_iff.1 (of_decide_eq_true hhead)
        exact .inr ⟨ds, by rw [of_decide_eq_true hc]⟩
      · omega

theorem lineImage_line (cs : List Char) : LineImage (line cs).1 (line cs).2 := by
  have hunits : Units lineUnit (line cs).1 (line cs).2 := units_of_spanUnits rfl (.inl lineUnit_le)
  refine ⟨joins_of_units hunits, ?_⟩
  by_cases hnil : (line cs).2 = []
  · exact .inl hnil
  · right
    rcases (lineUnit_eq_zero (unit_spanUnits_snd lineUnit cs hnil)).resolve_left hnil
      with ⟨r, hr⟩ | ⟨r, hr⟩
    · have hplain : EndsPlain (line cs).1 := endsPlain_of_units (hr ▸ hunits)
      exact .inl ⟨⟨r, hr⟩, fun hj => hj.getLast?.elim hplain.1 hplain.2, hplain.2⟩
    · have hlast := getLast?_of_units (hr ▸ hunits) (by simp [spliceLength])
      exact .inr ⟨⟨r, hr⟩, fun hj => hlast (getLast?_of_joins_return hj)⟩

end Line

section Form
variable {kind : TriviaKind} {image rest : List Char}

inductive TriviaForm (rest : List Char) : TriviaKind → List Char → Prop
  | lineComment {cs : List Char} (h : LineImage ('/' :: '/' :: cs) rest) :
      TriviaForm rest .lineComment ('/' :: '/' :: cs)
  | blockComment {cs : List Char} (h : FirstAt ['*', '/'] (cs ++ (['*', '/'] ++ rest)) cs rest) :
      TriviaForm rest .blockComment ('/' :: '*' :: (cs ++ ['*', '/']))
  | directive {cs : List Char} (h : LineImage ('#' :: cs) rest) :
      TriviaForm rest .directive ('#' :: cs)

theorem TriviaForm.head (h : TriviaForm rest kind image) :
    ∃ c cs, image = c :: cs ∧ (c = '/' ∨ c = '#') := by
  cases h with
  | lineComment => exact ⟨_, _, rfl, .inl rfl⟩
  | blockComment => exact ⟨_, _, rfl, .inl rfl⟩
  | directive => exact ⟨_, _, rfl, .inr rfl⟩

theorem TriviaForm.directive_of_head (h : TriviaForm rest kind image)
    (hhead : image.head? = some '#') : kind = .directive := by
  cases h with
  | lineComment => simp at hhead
  | blockComment => simp at hhead
  | directive => rfl

theorem TriviaForm.lineImage (h : TriviaForm rest .directive image) : LineImage image rest := by
  cases h with
  | directive h => exact h

/-- Where a comment or directive ends is told by the text alone. -/
theorem TriviaForm.unique {kind' : TriviaKind} {image' rest' : List Char}
    (h : TriviaForm rest kind image) (h' : TriviaForm rest' kind' image')
    (heq : image ++ rest = image' ++ rest') : image = image' := by
  cases h with
  | lineComment h =>
    cases h' with
    | lineComment h' => exact h.unique h' heq
    | blockComment => simp at heq
    | directive => simp at heq
  | @blockComment cs h =>
    cases h' with
    | lineComment => simp at heq
    | @blockComment cs' h' =>
      have htext : cs ++ (['*', '/'] ++ rest) = cs' ++ (['*', '/'] ++ rest') := by simpa using heq
      have hspan := h.spanUnits_eq
      rw [htext, h'.spanUnits_eq] at hspan
      rw [(Prod.mk.inj hspan).1]
    | directive => simp at heq
  | directive h =>
    cases h' with
    | lineComment => simp at heq
    | blockComment => simp at heq
    | directive h' => exact h.unique h' heq

theorem line_cons {c : Char} (hn : c ≠ '\n') (hr : c ≠ '\r') (hs : c ≠ '\\') (cs : List Char) :
    line (c :: cs) = (c :: (line cs).1, (line cs).2) := by
  have hunit : lineUnit (c :: cs) = 0 + 1 := by simp [lineUnit, hn, hr, spliceLength_cons, hs]
  rw [line, spanUnits_of_unit (by simp) hunit]
  rfl

theorem blockComment_of_ok {k : TriviaKind} {cs : List Char}
    (h : (blockComment ('/' :: '*' :: cs)).outcome = .ok k) :
    ∃ b r, FirstAt ['*', '/'] cs b r ∧
      blockComment ('/' :: '*' :: cs) =
        ⟨.ok .blockComment, '/' :: '*' :: (b ++ ['*', '/']), r⟩ := by
  have hstop := unit_spanUnits_snd (untilUnit ['*', '/']) cs
  rcases hspan : spanUnits (untilUnit ['*', '/']) cs with ⟨b, r⟩
  rw [hspan] at hstop
  by_cases hr : r = []
  · simp [blockComment, hspan, hr] at h
  · obtain ⟨z, rfl⟩ : ∃ z, r = ['*', '/'] ++ z := ⟨_, (append_drop_of_untilUnit (hstop hr)).symm⟩
    exact ⟨b, z, firstAt_of_spanUnits hspan, by simp [blockComment, hspan]⟩

theorem lineStart_of_triviaKind? {lineStart : Bool} {cs : List Char}
    (h : triviaKind? lineStart cs = some .directive) : lineStart = true := by
  cases cs with
  | nil => cases h
  | cons c cs =>
    rw [triviaKind?_cons] at h
    grind

theorem token_number_sign {cs : List Char} {k : TokenKind} (h : (token '#' cs).outcome = .ok k) :
    k = .punctuator ∧ ((token '#' cs).taken = ['#'] ∨ (token '#' cs).taken = ['#', '#']) := by
  have hsigns : ∀ s ∈ symbols, s.1.head? = some '#' →
      s.2 = .punctuator ∧ (s.1 = ['#'] ∨ s.1 = ['#', '#']) := by decide
  have htoken : token '#' cs = symbol '#' cs := rfl
  rw [htoken] at h ⊢
  unfold symbol at h ⊢
  split at h
  · next s hs =>
    have hmem := List.mem_of_find?_eq_some hs
    have hfound := List.find?_some hs
    obtain ⟨r, hr⟩ := List.isPrefixOf_iff_prefix.1 hfound
    have hhead : s.1.head? = some '#' := by
      obtain ⟨c, ds, hc⟩ := List.exists_cons_of_ne_nil (symbols_ne_nil s hmem)
      rw [hc] at hr ⊢
      rw [(List.cons.inj hr).1]
      rfl
    obtain ⟨hkind, hsign⟩ := hsigns s hmem hhead
    cases h
    rw [← hr, List.take_left]
    exact ⟨hkind, hsign⟩
  · cases h

theorem triviaForm_trivia {lineStart : Bool} {k : TriviaKind} {cs : List Char}
    (hk : triviaKind? lineStart cs = some kind) (ho : (trivia kind cs).outcome = .ok k) :
    TriviaForm (trivia kind cs).rest kind (trivia kind cs).taken := by
  unfold triviaKind? at hk
  split at hk
  · next ds =>
    cases hk
    have hline := lineImage_line ('/' :: '/' :: ds)
    simp only [trivia]
    rw [line_cons (by decide) (by decide) (by decide),
      line_cons (by decide) (by decide) (by decide)] at hline ⊢
    exact .lineComment hline
  · next ds =>
    cases hk
    obtain ⟨b, r, hfirst, hread⟩ := blockComment_of_ok ho
    simp only [trivia, hread]
    exact .blockComment (hfirst.split ▸ hfirst)
  · next ds =>
    split at hk
    · cases hk
      have hline := lineImage_line ('#' :: ds)
      simp only [trivia]
      rw [line_cons (by decide) (by decide) (by decide)] at hline ⊢
      exact .directive hline
    · cases hk
  · cases hk

end Form

section Layout
variable {rest g o u p : List Char}

/-- A blank, a joined line end, a comment or a directive in front of `rest`. Of these a blank counts
as text outside. -/
inductive LayoutUnit (rest : List Char) : List Char → List Char → Prop
  | blank {c : Char} (hc : c ∈ blankChars) : LayoutUnit rest [c] [c]
  | splice : LayoutUnit rest ['\\', '\n'] []
  | spliceReturn : LayoutUnit rest ['\\', '\r', '\n'] []
  | trivia {kind : TriviaKind} {image : List Char} (hv : TriviaForm rest kind image) :
      LayoutUnit rest image []

theorem LayoutUnit.ne_nil (h : LayoutUnit rest u p) : u ≠ [] := by
  cases h with
  | blank => simp
  | splice => simp
  | spliceReturn => simp
  | trivia hv =>
    obtain ⟨c, cs, rfl, -⟩ := hv.head
    simp

theorem TriviaForm.append_ne {kind : TriviaKind} {image cs : List Char} {c : Char}
    (h : TriviaForm rest kind image) (hc : c ∈ '\\' :: blankChars) : image ++ rest ≠ c :: cs := by
  obtain ⟨d, ds, rfl, hd⟩ := h.head
  intro heq
  rw [(List.cons.inj heq).1] at hd
  rcases hd with rfl | rfl <;> revert hc <;> decide

/-- The first character tells what kind of unit it is, and the text alone where it ends. -/
theorem LayoutUnit.unique {rest' u' p' : List Char} (h : LayoutUnit rest u p)
    (h' : LayoutUnit rest' u' p') (heq : u ++ rest = u' ++ rest') : u = u' ∧ p = p' := by
  have hslash : '\\' ∉ blankChars := by decide
  cases h with
  | blank hc =>
    cases h' with
    | blank => simp_all
    | splice => exact absurd ((List.cons.inj heq).1 ▸ hc) hslash
    | spliceReturn => exact absurd ((List.cons.inj heq).1 ▸ hc) hslash
    | trivia hv => exact absurd heq.symm (hv.append_ne (List.mem_cons_of_mem _ hc))
  | splice =>
    cases h' with
    | blank hc => exact absurd ((List.cons.inj heq).1 ▸ hc) hslash
    | splice => exact ⟨rfl, rfl⟩
    | spliceReturn => simp at heq
    | trivia hv => exact absurd heq.symm (hv.append_ne List.mem_cons_self)
  | spliceReturn =>
    cases h' with
    | blank hc => exact absurd ((List.cons.inj heq).1 ▸ hc) hslash
    | splice => simp at heq
    | spliceReturn => exact ⟨rfl, rfl⟩
    | trivia hv => exact absurd heq.symm (hv.append_ne List.mem_cons_self)
  | trivia hv =>
    cases h' with
    | blank hc => exact absurd heq (hv.append_ne (List.mem_cons_of_mem _ hc))
    | splice => exact absurd heq (hv.append_ne List.mem_cons_self)
    | spliceReturn => exact absurd heq (hv.append_ne List.mem_cons_self)
    | trivia hv' => exact ⟨hv.unique hv' heq, rfl⟩

/-- Text between tokens in front of `rest`, unit by unit. The second text is what remains of it
outside of joined line ends, comments and directives. -/
inductive Layout (rest : List Char) : List Char → List Char → Prop
  | nil : Layout rest [] []
  | cons {u p gap outer : List Char} (hu : LayoutUnit (gap ++ rest) u p)
      (h : Layout rest gap outer) : Layout rest (u ++ gap) (p ++ outer)

namespace Layout

theorem append {g' o' : List Char} (h : Layout (g' ++ rest) g o) (h' : Layout rest g' o') :
    Layout rest (g ++ g') (o ++ o') := by
  induction h with
  | nil => exact h'
  | cons hu _ ih =>
    rw [← List.append_assoc] at hu
    rw [List.append_assoc, List.append_assoc]
    exact .cons hu ih

theorem single (h : LayoutUnit rest u p) : Layout rest u p := by
  have hone : Layout rest (u ++ []) (p ++ []) := .cons h .nil
  rwa [List.append_nil, List.append_nil] at hone

theorem inv (h : Layout rest g o) :
    g = [] ∧ o = [] ∨ ∃ u p g' o', g = u ++ g' ∧ o = p ++ o' ∧ LayoutUnit (g' ++ rest) u p ∧
      Layout rest g' o' := by
  cases h with
  | nil => exact .inl ⟨rfl, rfl⟩
  | cons hu h => exact .inr ⟨_, _, _, _, rfl, rfl, hu, h⟩

/-- What remains outside is told by the text alone. -/
theorem unique {o' : List Char} (h : Layout rest g o) (h' : Layout rest g o') : o = o' := by
  induction h generalizing o' with
  | nil =>
    rcases h'.inv with ⟨-, rfl⟩ | ⟨u, p, g', q, hg, -, hu, -⟩
    · rfl
    · exact absurd (List.append_eq_nil_iff.1 hg.symm).1 hu.ne_nil
  | @cons u p gap outer hu _ ih =>
    rcases h'.inv with ⟨hg, -⟩ | ⟨u', p', gap', outer', hg, rfl, hu', hrest⟩
    · exact absurd (List.append_eq_nil_iff.1 hg).1 hu.ne_nil
    · obtain ⟨rfl, rfl⟩ := hu.unique hu' (by rw [← List.append_assoc, hg, List.append_assoc])
      obtain rfl := List.append_cancel_left hg
      rw [ih hrest]

/-- Blanks hold a line end outside of joined ones exactly when they end a line. -/
theorem of_blank (h : Blank g) (rest : List Char) :
    ∃ o, Layout rest g o ∧ ('\n' ∈ o ↔ endsLine g = true) := by
  induction h with
  | nil => exact ⟨[], .nil, by simp [endsLine]⟩
  | @char c cs hc _ ih =>
    obtain ⟨o, ho, hends⟩ := ih
    have hslash : c ≠ '\\' := by
      rintro rfl
      simp [blankChars] at hc
    refine ⟨c :: o, .cons (.blank hc) ho, ?_⟩
    rw [endsLine_cons (by simp [spliceLength_cons, hslash]), List.mem_cons, hends, Bool.or_eq_true,
      decide_eq_true_eq, eq_comm]
  | splice _ ih =>
    obtain ⟨o, ho, hends⟩ := ih
    exact ⟨o, .cons .splice ho, hends⟩
  | spliceReturn _ ih =>
    obtain ⟨o, ho, hends⟩ := ih
    exact ⟨o, .cons .spliceReturn ho, hends⟩

end Layout
end Layout

end Lexeme

namespace Lexer
open Lexeme Text
variable {l₀ l b m : Lexer} {gap outer : List Char} {kind : TriviaKind} {t : Token}

/-- Between the bytes `start` and `stop` of the text stands what can stand between tokens, and
`outer` is what remains of it outside of joined line ends, comments and directives. -/
def Apart (text : List Char) (start stop : Nat) (outer : List Char) : Prop :=
  ∃ before gap after, text = before ++ (gap ++ after) ∧ byteSize before = start ∧
    start + byteSize gap = stop ∧ Layout after gap outer

theorem eq_of_byteSize {a b x y : List Char} (h : a ++ x = b ++ y)
    (hsize : byteSize a = byteSize b) : a = b := by
  have hnil : ∀ c, byteSize c = 0 → c = [] := fun c hc =>
    Classical.byContradiction fun hne => by
      have := byteSize_pos hne
      omega
  rcases List.append_eq_append_iff.1 h with ⟨c, rfl, -⟩ | ⟨c, rfl, -⟩
  · rw [hnil c (by rw [byteSize_append] at hsize; omega), List.append_nil]
  · rw [hnil c (by rw [byteSize_append] at hsize; omega), List.append_nil]

theorem Apart.unique {text outer' : List Char} {start stop : Nat} (h : Apart text start stop outer)
    (h' : Apart text start stop outer') : outer = outer' := by
  obtain ⟨before, gap, after, htext, hstart, hstop, hlayout⟩ := h
  obtain ⟨before', gap', after', htext', hstart', hstop', hlayout'⟩ := h'
  rw [htext] at htext'
  obtain rfl := eq_of_byteSize htext' (by omega)
  have hrest := List.append_cancel_left htext'
  obtain rfl := eq_of_byteSize hrest (by omega)
  obtain rfl := List.append_cancel_left hrest
  exact hlayout.unique hlayout'

/-- From `l₀` on the cursor has moved over `gap`. It stands at the start of a line if it did so then
or if a line has ended since. -/
structure Since (l₀ l : Lexer) (gap outer : List Char) : Prop where
  rest : gap ++ l.rest = l₀.rest
  position : l.position = l₀.position.advanceAll gap
  layout : Layout l.rest gap outer
  lineStart : l.lineStart = true ↔ l₀.lineStart = true ∨ '\n' ∈ outer

namespace Since

theorem refl (l : Lexer) : Since l l [] [] := ⟨rfl, rfl, .nil, by simp⟩

theorem skipBlanks (h : Since l₀ l gap outer) :
    ∃ gap' outer', Since l₀ l.skipBlanks gap' outer' := by
  obtain ⟨o, ho, hends⟩ := Layout.of_blank (blanks_blank l.rest) l.skipBlanks.rest
  have hrest : (blanks l.rest).1 ++ l.skipBlanks.rest = l.rest := blanks_append l.rest
  refine ⟨gap ++ (blanks l.rest).1, outer ++ o, ?_, ?_, ?_, ?_⟩
  · rw [List.append_assoc, hrest, h.rest]
  · rw [Position.advanceAll_append, ← h.position]
    rfl
  · exact .append (hrest.symm ▸ h.layout) ho
  · have hstart : l.skipBlanks.lineStart = (l.lineStart || endsLine (blanks l.rest).1) := rfl
    rw [hstart, Bool.or_eq_true, h.lineStart, ← hends, List.mem_append, or_assoc]

theorem passTrivia {k : TriviaKind} (h : Since l₀ b gap outer)
    (hk : triviaKind? b.lineStart b.rest = some kind) (ho : (trivia kind b.rest).outcome = .ok k) :
    ∃ gap', Since l₀ (b.passTrivia kind (trivia kind b.rest)) gap' outer := by
  have hrest : (trivia kind b.rest).taken ++ (trivia kind b.rest).rest = b.rest :=
    trivia_splits kind b.rest
  refine ⟨gap ++ (trivia kind b.rest).taken, ?_, ?_, ?_, h.lineStart⟩
  · rw [List.append_assoc, ← h.rest]
    exact congrArg (gap ++ ·) hrest
  · rw [Position.advanceAll_append, ← h.position]
    rfl
  · have hone := Layout.single (.trivia (triviaForm_trivia hk ho))
    rw [← List.append_nil outer]
    exact .append (hrest.symm ▸ h.layout) hone

/-- The stretch of text from `l₀` to the cursor. -/
theorem exists_before {text : List Char} (h : Since l₀ l gap outer) (hat : l₀.At text) :
    ∃ before, text = before ++ (gap ++ l.rest) ∧ byteSize before = l₀.position.offset ∧
      l₀.position.offset + byteSize gap = l.position.offset := by
  obtain ⟨before, htext, hpos⟩ := hat
  refine ⟨before, by rw [h.rest, htext], ?_, ?_⟩
  · rw [hpos, Position.offset_advanceAll]
    exact (Nat.zero_add _).symm
  · rw [h.position, Position.offset_advanceAll]

theorem apart {text : List Char} (h : Since l₀ l gap outer) (hat : l₀.At text) :
    Apart text l₀.position.offset l.position.offset outer := by
  obtain ⟨before, htext, hstart, hstop⟩ := h.exists_before hat
  exact ⟨before, gap, l.rest, htext, hstart, hstop, h.layout⟩

end Since

def Passed (l₀ : Lexer) (v : Trivia) : Prop :=
  ∃ b gap outer kind k, Since l₀ b gap outer ∧ triviaKind? b.lineStart b.rest = some kind ∧
    (trivia kind b.rest).outcome = .ok k ∧ v = b.triviaItem kind

theorem Since.gathers {found vs : List Trivia} (h : Since l₀ l gap outer)
    (hg : Gathers l found vs m) :
    (∃ gap' outer', Since l₀ m gap' outer') ∧ ∀ v ∈ vs, v ∈ found ∨ Passed l₀ v := by
  induction hg generalizing gap outer with
  | stop => exact ⟨h.skipBlanks, fun v hv => .inl (List.mem_reverse.1 hv)⟩
  | @pass l m found vs kind k hk ho _ ih =>
    obtain ⟨gap', outer', hb⟩ := h.skipBlanks
    obtain ⟨gap'', hpass⟩ := hb.passTrivia hk ho
    obtain ⟨hend, hvs⟩ := ih hpass
    refine ⟨hend, fun v hv => ?_⟩
    rcases hvs v hv with hfound | hpassed
    · split at hfound
      · rcases List.mem_cons.1 hfound with rfl | hfound
        · exact .inr ⟨_, _, _, _, _, hb, hk, ho, rfl⟩
        · exact .inl hfound
      · exact .inl hfound
    · exact .inr hpassed

/-- Of comments and directives only the latter start with a number sign. They stand where a line has
started. -/
theorem Passed.directive {v : Trivia} (h : Passed l₀ v) :
    (v.image.toList.head? = some '#' → v.kind = .directive) ∧
      ∃ b gap outer, Since l₀ b gap outer ∧ b.position = v.span.start ∧
        (v.kind = .directive → b.lineStart = true ∧
          ∃ after, v.image.toList ++ after = b.rest ∧ LineImage v.image.toList after) := by
  obtain ⟨b, gap, outer, kind, k, hb, hk, ho, rfl⟩ := h
  have hform := triviaForm_trivia hk ho
  have himage : (b.triviaItem kind).image.toList = (trivia kind b.rest).taken :=
    String.toList_ofList
  rw [himage]
  refine ⟨hform.directive_of_head, b, gap, outer, hb, rfl, ?_⟩
  rintro ⟨⟩
  exact ⟨lineStart_of_triviaKind? hk, _, trivia_splits .directive b.rest, hform.lineImage⟩

theorem next_behind (h : l.next.value = (.ok t, m)) (ht : t.isEof = false) :
    m.position = t.span.stop ∧ m.lineStart = false := by
  obtain ⟨vs, b, _, hr⟩ := next_cases h
  rcases readToken_cases hr with ⟨_, rfl, _⟩ | ⟨c, cs, k, _, _, _, rfl, rfl⟩
  · cases ht
  · exact ⟨rfl, rfl⟩

theorem takes_behind {us : List Token} (h : Takes next l us m) :
    us = [] ∧ m = l ∨ ∃ u ∈ us.getLast?, m.position = u.span.stop ∧ m.lineStart = false := by
  induction h with
  | nil => exact .inl ⟨rfl, rfl⟩
  | @cons l u m t ts hn ht _ ih =>
    right
    rcases ih with ⟨rfl, rfl⟩ | ⟨e, he, hend⟩
    · exact ⟨t, by simp, next_behind hn ht⟩
    · refine ⟨e, ?_, hend⟩
      have hne : ts ≠ [] := by
        rintro rfl
        cases he
      rw [List.getLast?_cons_of_ne_nil hne]
      exact he

theorem takes_start {text : String} {us : List Token} (h : Takes next (l.reset text) us m) :
    m.position.offset = (us.getLast?.map (·.span.stop.offset)).getD 0 ∧
      (m.lineStart = true ↔ us = []) := by
  rcases takes_behind h with ⟨rfl, rfl⟩ | ⟨e, he, hpos, hline⟩
  · simp [reset, ofString, Position.start]
  · have hne : us ≠ [] := by
      rintro rfl
      cases he
    simp [Option.mem_def.1 he, hpos, hline, hne]

theorem passed_of_next (h : l.next.value = (.ok t, m)) :
    (∀ v ∈ t.trivia, Passed l v) ∧
      (t.image.toList.head? = some '#' → t.kind = .punctuator ∧ (t.image = "#" ∨ t.image = "##") ∧
        ∃ b gap outer, Since l b gap outer ∧ b.position = t.span.start ∧ b.lineStart = false) := by
  obtain ⟨vs, b, hg, hr⟩ := next_cases h
  obtain ⟨⟨gap, outer, hb⟩, hpassed⟩ := (Since.refl l).gathers hg
  rw [trivia_readToken hr]
  refine ⟨fun v hv => (hpassed v hv).resolve_left List.not_mem_nil, fun hhead => ?_⟩
  rcases readToken_cases hr with ⟨_, rfl, _⟩ | ⟨c, cs, k, hrest, _, ho, rfl, _⟩
  · cases hhead
  · have himage : (b.tokenItem k (token c cs).taken vs).image.toList = (token c cs).taken :=
      String.toList_ofList
    rw [himage] at hhead
    obtain rfl : c = '#' := by
      have hsplit := congrArg List.head? (token_splits c cs)
      rw [List.head?_append, hhead] at hsplit
      exact (Option.some.inj hsplit).symm
    obtain ⟨rfl, hsign⟩ := token_number_sign ho
    have hend := hg.after.1
    rw [hrest, triviaKind?_cons] at hend
    refine ⟨rfl, ?_, b, gap, outer, hb, rfl, ?_⟩
    · exact hsign.imp (fun h => congrArg String.ofList h) fun h => congrArg String.ofList h
    · simpa using hend

theorem number_sign_cases {p : Piece} (h : l.next.value = (.ok t, m)) (hp : p ∈ t.pieces)
    (hhead : p.image.toList.head? = some '#') :
    ∃ b gap outer, Since l b gap outer ∧ b.position = p.span.start ∧
      ((∃ v ∈ t.trivia, v.kind = .directive ∧ v.piece = p) ∧ b.lineStart = true ∨
        (p = ⟨t.image, t.span⟩ ∧ t.kind = .punctuator ∧ (t.image = "#" ∨ t.image = "##")) ∧
          b.lineStart = false) := by
  obtain ⟨hpassed, hsign⟩ := passed_of_next h
  rcases List.mem_append.1 hp with hp | hp
  · obtain ⟨v, hv, rfl⟩ := List.mem_map.1 hp
    obtain ⟨hdirective, b, gap, outer, hb, hpos, hline⟩ := (hpassed v hv).directive
    have hkind := hdirective hhead
    exact ⟨b, gap, outer, hb, hpos, .inl ⟨⟨v, hv, hkind, rfl⟩, (hline hkind).1⟩⟩
  · obtain rfl := List.mem_singleton.1 hp
    obtain ⟨hkind, himage, b, gap, outer, hb, hpos, hline⟩ := hsign hhead
    exact ⟨b, gap, outer, hb, hpos, .inr ⟨⟨rfl, hkind, himage⟩, hline⟩⟩

/-- Whether a line has started is told by the text since the last token. -/
theorem Since.lineStart_iff {text outer' : List Char} {start : Nat} {p : Position}
    (h : Since l₀ b gap outer) (hat : l₀.At text) (hstart : l₀.position.offset = start)
    (hp : b.position = p) (ha : Apart text start p.offset outer') :
    b.lineStart = true ↔ l₀.lineStart = true ∨ '\n' ∈ outer' := by
  have hapart := h.apart hat
  rw [hp, hstart] at hapart
  rw [h.lineStart, hapart.unique ha]

/-- A number sign that starts a piece starts a directive exactly when no token stands in front of it
or a line has ended since the last one, and otherwise one or two of them are a token. A directive
goes up to the first line end that is not joined. -/
theorem directives_start_lines {l m : Lexer} (text : String) {us vs : List Token} {t : Token}
    (h : Yields next (l.reset text) (us ++ t :: vs) m) :
    let start := (us.getLast?.map (·.span.stop.offset)).getD 0
    (∀ p ∈ t.pieces, p.image.toList.head? = some '#' →
      (∃ outer, Apart text.toList start p.span.start.offset outer) ∧
      ∀ outer, Apart text.toList start p.span.start.offset outer →
        ((∃ v ∈ t.trivia, v.kind = .directive ∧ v.piece = p) ↔ us = [] ∨ '\n' ∈ outer) ∧
        (¬ (us = [] ∨ '\n' ∈ outer) → p = ⟨t.image, t.span⟩ ∧ t.kind = .punctuator ∧
          (t.image = "#" ∨ t.image = "##"))) ∧
    ∀ v ∈ t.trivia, v.kind = .directive → ∃ before after,
      text.toList = before ++ (v.image.toList ++ after) ∧
        byteSize before = v.span.start.offset ∧ LineImage v.image.toList after := by
  intro start
  obtain ⟨l₀, htakes, hrun⟩ := h.exists_takes
  obtain ⟨u, hn⟩ := hrun.next_eq
  have hpassed := (passed_of_next hn).1
  have hat : l₀.At text.toList := (at_reset l text).takes htakes
  obtain ⟨hstart, hfirst⟩ : l₀.position.offset = start ∧ (l₀.lineStart = true ↔ us = []) :=
    takes_start htakes
  refine ⟨fun p hp hhead => ?_, fun v hv hkind => ?_⟩
  · obtain ⟨b, gap, outer, hb, hpos, hcase⟩ := number_sign_cases hn hp hhead
    refine ⟨⟨outer, ?_⟩, fun outer' ha => ?_⟩
    · rw [← hstart, ← hpos]
      exact hb.apart hat
    · have hline : b.lineStart = true ↔ us = [] ∨ '\n' ∈ outer' := by
        rw [hb.lineStart_iff hat hstart hpos ha, hfirst]
      refine ⟨⟨?_, fun hstarts => ?_⟩, fun hstarts => ?_⟩
      · rintro ⟨v, hv, hkind, rfl⟩
        obtain ⟨-, d, _, _, hd, hdpos, hdline⟩ := (hpassed v hv).directive
        rw [← hfirst, ← hd.lineStart_iff hat hstart hdpos ha]
        exact (hdline hkind).1
      · rcases hcase with ⟨hdirective, -⟩ | ⟨-, hfalse⟩
        · exact hdirective
        · rw [hline.2 hstarts] at hfalse
          cases hfalse
      · rcases hcase with ⟨-, htrue⟩ | ⟨htoken, -⟩
        · exact absurd (hline.1 htrue) hstarts
        · exact htoken
  · obtain ⟨-, b, gap, outer, hb, hpos, hline⟩ := (hpassed v hv).directive
    obtain ⟨-, after, hrest, himage⟩ := hline hkind
    obtain ⟨before, htext, hbefore, hgap⟩ := hb.exists_before hat
    refine ⟨before ++ gap, after, ?_, ?_, himage⟩
    · rw [htext, hrest, List.append_assoc]
    · rw [byteSize_append, hbefore, hgap, hpos]

theorem directives_start_lines_mixed :
    let l := ofString .full ""
    let text := "a /*\n*/ # b\\\n##\n/*x*/ #d\\\ne\nz"
    ∃ us t e m, Yields next (l.reset text) (us ++ t :: [e]) m ∧
      us.map Token.image = ["a", "#", "b", "##"] ∧
      t.trivia.map Trivia.image = ["/*x*/", "#d\\\ne"] ∧
      let start := (us.getLast?.map (·.span.stop.offset)).getD 0
      (∀ p ∈ t.pieces, p.image.toList.head? = some '#' →
        ∃ outer, Apart text.toList start p.span.start.offset outer ∧
          ((∃ v ∈ t.trivia, v.kind = .directive ∧ v.piece = p) ↔ '\n' ∈ outer)) ∧
      ∀ v ∈ t.trivia, v.kind = .directive → ∃ after, LineImage v.image.toList after := by
  intro l text
  obtain ⟨ts, e, m, hy, hts⟩ :
      ∃ ts e m, Yields next (l.reset text) (ts ++ [e]) m ∧
        ts.map (fun t => (t.image, t.trivia.map Trivia.image)) =
          [("a", []), ("#", ["/*\n*/"]), ("b", []), ("##", [])] ++ [("z", ["/*x*/", "#d\\\ne"])] :=
    yields_of_map (by decide +kernel)
  obtain ⟨us, zs, rfl, hus, hzs⟩ := List.map_eq_append_iff.1 hts
  obtain ⟨t, rfl, ht⟩ := List.map_eq_singleton_iff.1 hzs
  have himages : us.map Token.image = ["a", "#", "b", "##"] := by
    have hfst := congrArg (List.map Prod.fst) hus
    rwa [List.map_map] at hfst
  rw [List.append_assoc] at hy
  obtain ⟨hsigns, hlines⟩ := directives_start_lines text hy
  have hne : us ≠ [] := by
    rintro rfl
    cases hus
  refine ⟨us, t, e, m, hy, himages, (Prod.mk.inj ht).2, fun p hp hhead => ?_, fun v hv hkind => ?_⟩
  · obtain ⟨⟨outer, ha⟩, hiff⟩ := hsigns p hp hhead
    refine ⟨outer, ha, (hiff outer ha).1.trans ?_⟩
    simp [hne]
  · obtain ⟨_, after, _, _, himage⟩ := hlines v hv hkind
    exact ⟨after, himage⟩

end Lexer
end SourceOutline
