import SourceOutline.Proofs.Relexing

/-! The forms of literals.
A literal is told by its mark, its quote and what follows. Between plain quotes stand characters and
escapes; a raw literal goes up to the first place where its delimiter stands between a parenthesis
and a quote. An identifier right behind the closing quote belongs to the literal. -/
namespace SourceOutline

namespace Lexeme
open Text

section Items
variable {quote : Char} {b cs r : List Char}

/-- What may stand between quotes: characters other than the quote, a backslash or a line end, and
backslashes with one character behind each, whatever it is. -/
inductive Items (quote : Char) : List Char → Prop
  | nil : Items quote []
  | char {c : Char} {cs : List Char} (hq : c ≠ quote) (hs : c ≠ '\\') (hn : c ≠ '\n')
      (h : Items quote cs) : Items quote (c :: cs)
  | escape {c : Char} {cs : List Char} (h : Items quote cs) : Items quote ('\\' :: c :: cs)

theorem Items.units (h : Items quote b) (r : List Char) : Units (quotedUnit quote) b r := by
  induction h with
  | nil => exact .nil
  | @char c cs hq hs hn _ ih =>
    exact .cons (u := [c]) (by simp) (by simp [quotedUnit, hq, hs, hn]) ih
  | @escape c cs _ ih => exact .cons (u := ['\\', c]) (by simp) (by simp [quotedUnit]) ih

theorem items_of_units (h : Units (quotedUnit quote) b r) : Items quote b := by
  induction h with
  | nil => exact .nil
  | @cons u t r hu hunit _ ih =>
    cases u with
    | nil => exact absurd rfl hu
    | cons c u =>
      rw [List.cons_append, quotedUnit, List.length_cons] at hunit
      split at hunit
      · cases hunit
      · next hn =>
        split at hunit
        · next hs =>
          obtain ⟨d, rfl⟩ := List.length_eq_one_iff.1 (Nat.succ.inj hunit).symm
          rw [hs]
          exact .escape ih
        · next hs =>
          split at hunit
          · cases hunit
          · next hq =>
            obtain rfl := List.length_eq_zero_iff.1 (Nat.succ.inj hunit).symm
            exact .char hq hs hn ih

/-- The closing quote ends the items. -/
theorem Items.spanUnits_eq (hq : isQuote quote = true) (h : Items quote b) (r : List Char) :
    spanUnits (quotedUnit quote) (b ++ quote :: r) = (b, quote :: r) := by
  refine (h.units _).spanUnits_eq (.inr ?_)
  have hs : quote ≠ '\\' := by
    rintro rfl
    cases hq
  simp [quotedUnit, hs]

/-- `b` is the shortest sequence of items in `cs` that has the quote behind it, and `r` is what
follows the quote. -/
structure ShortestBody (quote : Char) (cs b r : List Char) : Prop where
  split : cs = b ++ quote :: r
  items : Items quote b
  shortest : ∀ x y, cs = x ++ quote :: y → Items quote x → b.length ≤ x.length

/-- The quote is no item itself, so there is only one such sequence. -/
theorem Items.shortestBody (hq : isQuote quote = true) (h : Items quote b) (r : List Char) :
    ShortestBody quote (b ++ quote :: r) b r := by
  refine ⟨rfl, h, fun x y hxy hx => ?_⟩
  have hspan := h.spanUnits_eq hq r
  rw [hxy, hx.spanUnits_eq hq y] at hspan
  exact Nat.le_of_eq (congrArg List.length (Prod.mk.inj hspan).1.symm)

end Items

section Suffix
variable {r s : List Char}

def IsWord (w : List Char) : Prop :=
  ∃ c cs, w = c :: cs ∧ isIdentifierStart c = true ∧ ∀ d ∈ cs, isIdentifierPart d = true

/-- `s` is the longest identifier at the front of `r`, and empty where `r` starts with none. -/
structure LongestWord (s r : List Char) : Prop where
  front : s <+: r
  word : s = [] ∨ IsWord s
  longest : ∀ w, w <+: r → IsWord w → w.length ≤ s.length

theorem longestWord_suffix (r : List Char) : LongestWord (suffix r).1 r := by
  unfold suffix
  split
  · next hstart =>
    refine ⟨List.takeWhile_prefix _, .inr ?_, ?_⟩
    · cases r with
      | nil => cases hstart
      | cons c r =>
        have hc : isIdentifierStart c = true := hstart
        refine ⟨c, r.takeWhile isIdentifierPart, ?_, hc, ?_⟩
        · exact List.takeWhile_cons_of_pos (isIdentifierPart_of_start hc)
        · intro d hd
          exact List.all_eq_true.1 List.all_takeWhile d hd
    · rintro _ ⟨z, rfl⟩ ⟨c, w, rfl, hc, hw⟩
      have hall : ∀ d ∈ c :: w, isIdentifierPart d = true :=
        List.forall_mem_cons.2 ⟨isIdentifierPart_of_start hc, hw⟩
      rw [List.takeWhile_append_of_pos hall, List.length_append]
      exact Nat.le_add_right _ _
  · next hstart =>
    refine ⟨List.nil_prefix, .inl rfl, ?_⟩
    rintro _ ⟨z, rfl⟩ ⟨c, w, rfl, hc, -⟩
    exact absurd hc hstart

theorem suffix_break {y : List Char} (hy : Breaks y) : suffix y = ([], y) := by
  rw [suffix, if_neg]
  rw [hy.any_head isIdentifierStart_blank]
  exact Bool.false_ne_true

end Suffix

section Delimiter

/-- A delimiter that every raw literal may have: at most sixteen characters of ASCII, none of them
white space, a parenthesis, a backslash or a double quote. -/
structure IsDelimiter (d : List Char) : Prop where
  short : d.length ≤ 16
  plain : ∀ c ∈ d, c.toNat < 128 ∧ isBlank c = false ∧ c ≠ '(' ∧ c ≠ ')' ∧ c ≠ '\\' ∧ c ≠ '\x22'

def closing (d : List Char) : List Char := ')' :: (d ++ ['\x22'])

variable {d : List Char}

theorem utf8Size_of_ascii {c : Char} (h : c.toNat < 128) : c.utf8Size = 1 := by
  rw [Char.utf8Size_eq_one_iff]
  exact UInt32.le_iff_toNat_le.2 (Nat.le_of_lt_succ h)

/-- One byte for each character leaves room for all of them. -/
theorem delimiter_of_ascii {used : Nat} (hshort : used + d.length ≤ delimiterLimit)
    (hd : ∀ c ∈ d, c.toNat < 128 ∧ isDelimiterChar c = true) (r : List Char) :
    delimiter used (d ++ '(' :: r) = (d, '(' :: r) := by
  induction d generalizing used with
  | nil =>
    have hparen : isDelimiterChar '(' = false := by decide
    simp [delimiter, hparen]
  | cons c d ih =>
    obtain ⟨⟨hascii, hc⟩, hrest⟩ := List.forall_mem_cons.1 hd
    rw [List.length_cons] at hshort
    have hroom : used < delimiterLimit := by omega
    have htail : delimiter (used + 1) (d ++ '(' :: r) = (d, '(' :: r) := ih (by omega) hrest
    simp [delimiter, hc, hroom, utf8Size_of_ascii hascii, htail]

theorem IsDelimiter.delimiter_eq (h : IsDelimiter d) (r : List Char) :
    delimiter 0 (d ++ '(' :: r) = (d, '(' :: r) := by
  refine delimiter_of_ascii (by simpa [delimiterLimit] using h.short) ?_ r
  intro c hc
  obtain ⟨hascii, hblank, hopen, hclose, hslash, hquote⟩ := h.plain c hc
  exact ⟨hascii, by simp [isDelimiterChar, hblank, hopen, hclose, hslash, hquote]⟩

/-- The quote at the end of a closing mark is the only one in it, so no mark starts inside of
another one's place and ends in the other. -/
theorem IsDelimiter.eq_nil_of_overlap (h : IsDelimiter d) {e f y z : List Char}
    (hmark : closing d = e ++ f) (hf : f ≠ []) (hover : closing d ++ y = f ++ z) : e = [] := by
  refine Classical.byContradiction fun he => ?_
  have hquote : '\x22' ∈ f := by
    obtain ⟨g, q, rfl⟩ := (List.eq_nil_or_concat f).resolve_left hf
    have hlast := congrArg List.getLast? hmark
    rw [closing, List.concat_eq_append, ← List.append_assoc, ← List.cons_append,
      List.getLast?_concat, List.getLast?_concat] at hlast
    rw [Option.some.inj hlast, List.concat_eq_append]
    exact List.mem_append_right g (List.mem_singleton_self q)
  have hfront : f <+: ')' :: d := by
    have hpre : f <+: closing d ++ y := ⟨z, hover.symm⟩
    refine List.prefix_of_prefix_length_le hpre ⟨'\x22' :: y, by simp [closing]⟩ ?_
    have hlength := congrArg List.length hmark
    have hpos := List.length_pos_iff.2 he
    simp only [closing, List.length_cons, List.length_append, List.length_nil] at hlength ⊢
    omega
  rcases List.mem_cons.1 (hfront.subset hquote) with hparen | hmem
  · cases hparen
  · exact (h.plain _ hmem).2.2.2.2.2 rfl

/-- A text without the closing mark has no part in one that follows it. -/
theorem IsDelimiter.firstAt (h : IsDelimiter d) {c : List Char} (hc : ¬ closing d <:+: c)
    (y : List Char) : FirstAt (closing d) (c ++ (closing d ++ y)) c y := by
  refine ⟨rfl, fun x z hxz => ?_⟩
  rcases List.append_eq_append_iff.1 hxz with ⟨a, rfl, -⟩ | ⟨e, rfl, he⟩
  · simp
  · rcases List.append_eq_append_iff.1 he with ⟨a, rfl, -⟩ | ⟨f, hmark, hover⟩
    · exact absurd ⟨x, a, by simp⟩ hc
    · by_cases hf : f = []
      · rw [hf, List.append_nil] at hmark
        exact absurd ⟨x, [], by simp [hmark]⟩ hc
      · simp [h.eq_nil_of_overlap hmark hf hover]

end Delimiter

end Lexeme

open Lexeme Text

/-- The token `image` stands at the front of the text. It is what is taken from there, and what a
lexer at that place reads next as long as it may give out tokens. -/
structure StartsWith (text : List Char) (kind : TokenKind) (image : List Char) : Prop where
  taken : ∃ c cs rest, text = c :: cs ∧ token c cs = ⟨.ok kind, image, rest⟩
  read : ∀ l : Lexer, l.rest = text → l.issued < LexError.tokenLimit →
    ∃ m, l.next.value = (.ok (l.tokenItem kind image []), m) ∧ text = image ++ m.rest

structure Unterminated (text : List Char) : Prop where
  taken : ∃ c cs, text = c :: cs ∧ (token c cs).outcome = .error .unterminatedLiteral
  read : ∀ l : Lexer, l.rest = text → l.issued < LexError.tokenLimit →
    ∃ span m, l.next.value =
      (.error ⟨.unterminatedLiteral l.position.line l.position.column, span⟩, m)

theorem StartsWith.not_unterminated {text image : List Char} {kind : TokenKind}
    (h : StartsWith text kind image) : ¬ Unterminated text := by
  rintro ⟨⟨c, cs, rfl, hfault⟩, -⟩
  obtain ⟨_, _, rest, htext, htoken⟩ := h.taken
  obtain ⟨rfl, rfl⟩ := List.cons.inj htext
  rw [htoken] at hfault
  cases hfault

def OpensAs (text : List Char) (s : Scan TokenKind) : Prop :=
  ∃ c cs, text = c :: cs ∧ (isIdentifierStart c || isQuote c) = true ∧ token c cs = s

namespace OpensAs
variable {text image rest : List Char} {kind : TokenKind} {s : Scan TokenKind}

theorem next_eq {c : Char} {cs : List Char} (hc : (isIdentifierStart c || isQuote c) = true)
    {l : Lexer} (hl : l.rest = c :: cs) : l.next.value = l.readToken [] := by
  have hskipped : c ∉ skippedChars := by
    intro hmem
    have hnot := List.any_eq_false.1 skippedChars_start c hmem
    simp_all
  have hother : c ≠ '/' ∧ c ≠ '#' := by
    constructor <;> (rintro rfl; revert hc; decide)
  obtain ⟨hslash, hblank⟩ := not_or.1 (mt List.mem_cons.2 hskipped)
  have hb : isBlankChar c = false := eq_false_of_ne_true (mt isBlankChar_iff.1 hblank)
  have hskip : l.skipBlanks = l := by
    refine Lexer.skipBlanks_of_blankUnit ?_
    simp [hl, blankUnit, hb, spliceLength_cons, hslash]
  have hstop : triviaKind? l.skipBlanks.lineStart l.skipBlanks.rest = none := by
    simp [hskip, hl, triviaKind?_cons, hother]
  have hgather : Lexer.Gathers l [] [] l.skipBlanks := .stop hstop
  rw [hgather.next_eq, hskip]

theorem startsWith (h : OpensAs text ⟨.ok kind, image, rest⟩) : StartsWith text kind image := by
  obtain ⟨c, cs, rfl, hc, htoken⟩ := h
  refine ⟨⟨c, cs, rest, rfl, htoken⟩, fun l hl hi => ?_⟩
  have hsplit := token_splits c cs
  rw [Scan.Splits, htoken] at hsplit
  have hnext := Lexer.readToken_cons hl hi (congrArg Scan.outcome htoken) []
  rw [← next_eq hc hl, htoken] at hnext
  exact ⟨_, hnext, hsplit.symm⟩

theorem unterminated (h : OpensAs text s) (ho : s.outcome = .error .unterminatedLiteral) :
    Unterminated text := by
  obtain ⟨c, cs, rfl, hc, rfl⟩ := h
  refine ⟨⟨c, cs, rfl, ho⟩, fun l hl hi => ?_⟩
  have hnext := Lexer.readToken_fault hl hi ho []
  rw [← next_eq hc hl] at hnext
  exact ⟨_, _, hnext⟩

end OpensAs

namespace Lexeme
variable {mark cs d : List Char} {quote : Char}

theorem marks_word : ∀ w ∈ quotedMarks ++ rawMarks,
    w.head?.any isIdentifierStart = true ∧ w.all isIdentifierPart = true ∧
      w.head?.any (fun c => c.isDigit || c = '.') = false := by decide

theorem opensAs_word (h : mark ∈ quotedMarks ++ rawMarks) (cs : List Char) :
    OpensAs (mark ++ cs) (word (mark ++ cs)) := by
  obtain ⟨hstart, -, hnumber⟩ := marks_word mark h
  cases mark with
  | nil => cases hstart
  | cons c w =>
    have hc : isIdentifierStart c = true := hstart
    have hn : (c.isDigit || c = '.') = false := hnumber
    refine ⟨c, w ++ cs, rfl, by simp [hc], ?_⟩
    simp_all [token, startsNumber]

theorem isQuote_not_part (h : isQuote quote = true) :
    isIdentifierPart quote = false ∧ isIdentifierStart quote = false ∧
      (quote.isDigit || quote = '.') = false := by
  rcases Bool.or_eq_true_iff.1 h with h | h
  · obtain rfl := of_decide_eq_true h
    decide
  · obtain rfl := of_decide_eq_true h
    decide

theorem opensAs_quoted (hmark : mark ∈ [] :: quotedMarks) (hq : isQuote quote = true)
    (cs : List Char) : OpensAs (mark ++ quote :: cs) (quoted (mark ++ [quote]) quote cs) := by
  obtain ⟨hpart, hstart, hnumber⟩ := isQuote_not_part hq
  rcases List.mem_cons.1 hmark with rfl | hmark
  · refine ⟨quote, cs, rfl, by simp [hq], ?_⟩
    simp_all [token, startsNumber]
  · have hmem := List.mem_append_left rawMarks hmark
    have hopen := opensAs_word hmem (quote :: cs)
    rwa [word_cons (List.all_eq_true.1 (marks_word mark hmem).2.1) hpart, if_pos] at hopen
    simp [hq, hmark]

theorem rawMarks_not_quoted : ∀ w ∈ rawMarks, quotedMarks.contains w = false := by decide

theorem opensAs_raw (hmark : mark ∈ rawMarks) (hd : IsDelimiter d) (cs : List Char) :
    OpensAs (mark ++ '\x22' :: (d ++ '(' :: cs))
      (rawBody (mark ++ ['\x22'] ++ (d ++ ['('])) (closing d) cs) := by
  have hmem := List.mem_append_right quotedMarks hmark
  have hopen := opensAs_word hmem ('\x22' :: (d ++ '(' :: cs))
  have hraw : raw (mark ++ ['\x22']) (d ++ '(' :: cs) =
      rawBody (mark ++ ['\x22'] ++ (d ++ ['('])) (closing d) cs := by
    simp only [raw, hd.delimiter_eq cs]
    rfl
  rwa [word_cons (List.all_eq_true.1 (marks_word mark hmem).2.1) (by decide),
    rawMarks_not_quoted mark hmark, Bool.and_false, if_neg Bool.false_ne_true, if_pos,
    hraw] at hopen
  simp [hmark]

theorem startsWith_quoted (hmark : mark ∈ [] :: quotedMarks) (hq : isQuote quote = true)
    {b : List Char} (hb : Items quote b) (r : List Char) :
    StartsWith (mark ++ quote :: (b ++ quote :: r)) (literalKind quote)
      (mark ++ quote :: (b ++ quote :: (suffix r).1)) := by
  have hopen := opensAs_quoted hmark hq (b ++ quote :: r)
  rw [quoted_of_spanUnits _ (hb.spanUnits_eq hq r) rfl, List.append_assoc,
    List.singleton_append] at hopen
  exact hopen.startsWith

theorem unterminated_quoted_iff (hmark : mark ∈ [] :: quotedMarks) (hq : isQuote quote = true) :
    Unterminated (mark ++ quote :: cs) ↔ ¬ ∃ b r, cs = b ++ quote :: r ∧ Items quote b := by
  constructor
  · rintro hopened ⟨b, r, rfl, hb⟩
    exact (startsWith_quoted hmark hq hb r).not_unterminated hopened
  · intro hnone
    have hopen := opensAs_quoted hmark hq cs
    cases ho : (quoted (mark ++ [quote]) quote cs).outcome with
    | error fault =>
      rw [quoted_fault ho] at ho
      exact hopen.unterminated ho
    | ok kind =>
      obtain ⟨t, z, hread⟩ : ∃ t z, quoted (mark ++ [quote]) quote cs = ⟨.ok kind, t, z⟩ :=
        ⟨_, _, by rw [← ho]⟩
      obtain ⟨b, s, r, hspan, _⟩ := spanUnits_of_quoted hread
      have hsplit := spanUnits_append (quotedUnit quote) cs
      rw [hspan] at hsplit
      exact absurd ⟨b, r, hsplit.symm, items_of_units (units_of_spanUnits hspan (.inr (by simp)))⟩
        hnone

theorem closing_ne_nil (d : List Char) : closing d ≠ [] := List.cons_ne_nil _ _

theorem startsWith_raw (hmark : mark ∈ rawMarks) (hd : IsDelimiter d) {b r : List Char}
    (h : FirstAt (closing d) cs b r) :
    StartsWith (mark ++ '\x22' :: (d ++ '(' :: cs)) .string
      (mark ++ '\x22' :: (d ++ '(' :: (b ++ (closing d ++ (suffix r).1)))) := by
  have hopen := opensAs_raw hmark hd cs
  obtain ⟨s, z, hs⟩ : ∃ s z, suffix r = (s, z) := ⟨_, _, rfl⟩
  rw [rawBody_of_spanUnits _ h.spanUnits_eq (closing_ne_nil d) hs] at hopen
  simpa [hs] using hopen.startsWith

theorem rawBody_fault {opening cs : List Char} {fault : Fault}
    (h : (rawBody opening mark cs).outcome = .error fault) : fault = .unterminatedLiteral := by
  unfold rawBody at h
  dsimp only at h
  split at h
  · cases h
    rfl
  · cases h

theorem unterminated_raw_iff (hmark : mark ∈ rawMarks) (hd : IsDelimiter d) :
    Unterminated (mark ++ '\x22' :: (d ++ '(' :: cs)) ↔ ¬ closing d <:+: cs := by
  constructor
  · intro hopened hclosing
    obtain ⟨b, r, hfirst⟩ := exists_firstAt hclosing
    exact (startsWith_raw hmark hd hfirst).not_unterminated hopened
  · intro hnone
    have hopen := opensAs_raw hmark hd cs
    cases ho : (rawBody (mark ++ ['\x22'] ++ (d ++ ['('])) (closing d) cs).outcome with
    | error fault =>
      rw [rawBody_fault ho] at ho
      exact hopen.unterminated ho
    | ok kind =>
      obtain ⟨t, z, hread⟩ : ∃ t z, rawBody (mark ++ ['\x22'] ++ (d ++ ['('])) (closing d) cs =
          ⟨.ok kind, t, z⟩ := ⟨_, _, by rw [← ho]⟩
      obtain ⟨b, s, r, hspan, _⟩ := spanUnits_of_rawBody hread
      exact absurd (firstAt_of_spanUnits hspan).isInfix hnone

/-- Behind a mark and a quote stands a literal that ends at the first quote behind a sequence of
items, or no literal at all. Behind the mark of a raw literal and its delimiter stands a literal
that ends at the first closing mark, or no literal at all. An identifier that follows belongs to the
literal. So a raw literal holds any text but its closing mark. -/
theorem literals_recognized :
    (∀ mark ∈ [[], ['L'], ['u'], ['U'], ['u', '8']], ∀ quote ∈ ['\x22', '\x27'], ∀ cs,
      ((∃ b r, cs = b ++ quote :: r ∧ Items quote b) →
        ∃ b r s, ShortestBody quote cs b r ∧ LongestWord s r ∧
          StartsWith (mark ++ quote :: cs) (if quote = '\x22' then .string else .character)
            (mark ++ quote :: (b ++ quote :: s))) ∧
      (Unterminated (mark ++ quote :: cs) ↔ ¬ ∃ b r, cs = b ++ quote :: r ∧ Items quote b)) ∧
    ∀ mark ∈ [['R'], ['L', 'R'], ['u', 'R'], ['U', 'R'], ['u', '8', 'R']], ∀ d, IsDelimiter d →
      (∀ cs,
        (closing d <:+: cs →
          ∃ b r s, FirstAt (closing d) cs b r ∧ LongestWord s r ∧
            StartsWith (mark ++ '\x22' :: (d ++ '(' :: cs)) .string
              (mark ++ '\x22' :: (d ++ '(' :: (b ++ (closing d ++ s))))) ∧
        (Unterminated (mark ++ '\x22' :: (d ++ '(' :: cs)) ↔ ¬ closing d <:+: cs)) ∧
      ∀ c y, ¬ closing d <:+: c → Breaks y →
        StartsWith (mark ++ '\x22' :: (d ++ '(' :: (c ++ (closing d ++ y)))) .string
          (mark ++ '\x22' :: (d ++ '(' :: (c ++ closing d))) := by
  have hquotes : ∀ quote ∈ ['\x22', '\x27'], isQuote quote = true := by simp [isQuote]
  refine ⟨fun mark hmark quote hquote cs => ?_, fun mark hmark d hd => ⟨fun cs => ?_, ?_⟩⟩
  · have hq := hquotes quote hquote
    refine ⟨?_, unterminated_quoted_iff hmark hq⟩
    rintro ⟨b, r, rfl, hb⟩
    exact ⟨b, r, (suffix r).1, hb.shortestBody hq r, longestWord_suffix r,
      startsWith_quoted hmark hq hb r⟩
  · refine ⟨fun hclosing => ?_, unterminated_raw_iff hmark hd⟩
    obtain ⟨b, r, hfirst⟩ := exists_firstAt hclosing
    exact ⟨b, r, (suffix r).1, hfirst, longestWord_suffix r, startsWith_raw hmark hd hfirst⟩
  · intro c y hc hy
    have hstarts := startsWith_raw hmark hd (hd.firstAt hc y)
    rwa [suffix_break hy, List.append_nil] at hstarts

/-- Escapes right in front of a quote, and parts of a closing mark in front of the whole one. -/
theorem literals_recognized_overlapping :
    (∃ b r s, ShortestBody '\x22' "\\\"b\\\\\"_s;".toList b r ∧ LongestWord s r ∧
      StartsWith "L\"\\\"b\\\\\"_s;".toList .string (['L', '\x22'] ++ (b ++ '\x22' :: s))) ∧
    Unterminated "'a\\'".toList ∧
    StartsWith "u8R\"ab(\"(\n)a)ab)ab\"\tx".toList .string
      "u8R\"ab(\"(\n)a)ab)ab\"".toList := by
  obtain ⟨hquoted, hraw⟩ := literals_recognized
  refine ⟨?_, ?_, ?_⟩
  · have hitems : Items '\x22' ['\\', '\x22', 'b', '\\', '\\'] :=
      .escape (.char (by decide) (by decide) (by decide) (.escape .nil))
    exact (hquoted ['L'] (by decide) '\x22' (by decide) _).1 ⟨_, ['_', 's', ';'], rfl, hitems⟩
  · refine (hquoted [] (by decide) '\x27' (by decide) ['a', '\\', '\x27']).2.2 ?_
    rintro ⟨b, r, hcs, hb⟩
    have hspan := hb.spanUnits_eq rfl r
    rw [← hcs] at hspan
    cases hspan
  · have hd : IsDelimiter ['a', 'b'] := ⟨by decide, by simp [isBlank, inRanges, blankRanges]⟩
    exact (hraw ['u', '8', 'R'] (by decide) _ hd).2
      ['\x22', '(', '\n', ')', 'a', ')', 'a', 'b'] ['\t', 'x'] (by decide) (breaks_cons rfl _)

end Lexeme
end SourceOutline
