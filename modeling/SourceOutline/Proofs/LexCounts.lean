import SourceOutline.Proofs.Progress

/-! What the counts of a reading tell about the tokens that it gave, whatever failed on the way. -/
namespace SourceOutline

def identifierSizes (ts : List Token) : List Nat :=
  (ts.filter (·.is .identifier)).map (·.image.utf8ByteSize)

namespace LexMetrics
variable {ts : List Token} {m : LexMetrics}

structure Tallies (ts : List Token) (m : LexMetrics) : Prop where
  identifiers : m.identifiers = ts.countP (·.is .identifier)
  keywords : m.keywords = ts.countP (·.is .keyword)
  literals : m.literals = ts.countP (·.kind.isLiteral)
  punctuators : m.punctuators = ts.countP (·.kind.isPunctuation)
  longest : m.longestIdentifier = (identifierSizes ts).max?.getD 0

theorem max_append (ns : List Nat) (n : Nat) :
    (ns ++ [n]).max?.getD 0 = max (ns.max?.getD 0) n := by
  have hfold : ∀ ns : List Nat, ns.max?.getD 0 = ns.foldl max 0 := fun ns => by
    rw [List.foldl_max]
    exact (Nat.zero_max _).symm
  rw [hfold, hfold, List.foldl_append]
  rfl

/-- Counting a token adds it to those told. An end mark is of none of the kinds. -/
theorem Tallies.countKind (h : Tallies ts m) (t : Token) : Tallies (ts ++ [t]) (m.countKind t) := by
  obtain ⟨hidentifiers, hkeywords, hliterals, hpunctuators, hlongest⟩ := h
  rcases t with ⟨kind, image, span, trivia⟩
  cases kind <;> constructor <;>
    simp [LexMetrics.countKind, Token.is, TokenKind.isLiteral, TokenKind.isPunctuation,
      identifierSizes, max_append, *]

/-- Every token but an end mark is of one of the kinds. -/
theorem Tallies.sum_eq (h : Tallies ts m) :
    m.identifiers + m.keywords + m.literals + m.punctuators = ts.countP (!·.isEof) := by
  rw [h.identifiers, h.keywords, h.literals, h.punctuators]
  clear h
  induction ts with
  | nil => rfl
  | cons t ts ih =>
    simp only [List.countP_cons, ← ih]
    rcases t with ⟨kind, image, span, trivia⟩
    cases kind <;>
      simp [Token.is, Token.isEof, TokenKind.isLiteral, TokenKind.isPunctuation] <;> omega

/-- The counts tell how many tokens there are other than end marks, and how many of each kind where
details are wanted. -/
structure Counts (p : LexPreferences) (ts : List Token) (m : LexMetrics) : Prop where
  total : m.total = ts.countP (!·.isEof)
  tallies : p.detailedMetrics = true → Tallies ts m

namespace Counts
variable {p : LexPreferences} {t : Token}

theorem countTrivia (h : Counts p ts m) (kind : TriviaKind) : Counts p ts (m.countTrivia kind) := by
  cases kind <;> exact ⟨h.total, fun hp => { h.tallies hp with }⟩

theorem countToken (h : Counts p ts m) (ht : t.isEof = false) :
    Counts p (ts ++ [t]) (m.countToken p t) := by
  refine ⟨by simp [h.total, ht], fun hp => ?_⟩
  have hcounted : Tallies ts { m with total := m.total + 1 } := { h.tallies hp with }
  rw [LexMetrics.countToken, if_pos hp]
  exact hcounted.countKind t

theorem endMark (h : Counts p ts m) (ht : t.isEof = true) : Counts p (ts ++ [t]) m := by
  refine ⟨by simp [h.total, ht], fun hp => ?_⟩
  have hkind : t.kind = .eof := by simpa [Token.isEof, Token.is] using ht
  have hcounted := (h.tallies hp).countKind t
  rwa [LexMetrics.countKind, hkind] at hcounted

end Counts
end LexMetrics

namespace Lexer
open Lexeme LexMetrics
variable {l m b : Lexer} {ts : List Token} {t : Token}

theorem Skips.counts (h : Skips l b) (hl : Counts l.preferences ts l.metrics) :
    Counts b.preferences ts b.metrics := by
  induction h with
  | blanks l => exact hl
  | @pass l m kind k _ _ _ ih => exact ih (hl.countTrivia kind)

theorem Step.counts {r : Except LexFailure Token} (h : Step l r m)
    (hl : Counts l.preferences ts l.metrics) :
    Counts m.preferences (ts ++ r.toOption.toList) m.metrics := by
  have hfailed : ∀ {f : LexFailure} {u : Lexer}, Counts u.preferences ts u.metrics →
      Counts u.preferences (ts ++ (Except.error f : Except LexFailure Token).toOption.toList)
        u.metrics := fun hu => (List.append_nil ts).symm ▸ hu
  cases h with
  | @comment b hb _ _ => exact hfailed (u := b) (hb.counts hl)
  | endMark hg _ => exact (hg.skips.counts hl).endMark rfl
  | token hg _ ho => exact (hg.skips.counts hl).countToken (tokenItem_isEof ho _ _)
  | @fault b _ _ _ _ hg _ _ _ => exact hfailed (u := b) (hg.skips.counts hl)
  | full hg _ _ => exact hfailed (hg.skips.counts hl)

def returned (l : Lexer) (n : Nat) : List Token :=
  (List.range n).filterMap fun i => (l.answer i).toOption

theorem returned_succ (l : Lexer) (n : Nat) :
    l.returned (n + 1) = l.returned n ++ (l.answer n).toOption.toList := by
  rw [returned, List.range_succ, List.filterMap_append]
  cases ha : l.answer n <;> simp [returned, ha, Except.toOption]

theorem counts_after (hl : Counts l.preferences [] l.metrics) (n : Nat) :
    Counts l.preferences (l.returned n) (l.after n).metrics := by
  induction n with
  | zero => exact hl
  | succ n ih =>
    rw [← preferences_after l n] at ih
    rw [← preferences_after l (n + 1), returned_succ]
    exact (step_after l n).counts ih

/-- Where all is kept, what is gathered is what is counted. -/
theorem Gathers.trivia_counts {found vs : List Trivia} (h : Gathers l found vs m)
    (hl : l.KeepsAll) :
    m.metrics.comments + found.countP (·.kind.isComment) =
        l.metrics.comments + vs.countP (·.kind.isComment) ∧
      m.metrics.directives + found.countP (·.kind = .directive) =
        l.metrics.directives + vs.countP (·.kind = .directive) := by
  induction h with
  | stop => simp [skipBlanks, moveOver]
  | @pass l m found vs kind k _ _ _ ih =>
    obtain ⟨hcomments, hdirectives⟩ := ih hl
    rw [if_pos (KeepsAll.keeps (l := l.skipBlanks) hl kind)] at hcomments hdirectives
    rw [List.countP_cons] at hcomments hdirectives
    cases kind <;>
      simp [triviaItem, passTrivia, skipBlanks, moveOver, LexMetrics.countTrivia,
        TriviaKind.isComment] at hcomments hdirectives ⊢ <;>
      omega

theorem next_trivia_counts (h : l.next.value = (.ok t, m)) (hl : l.KeepsAll) :
    m.metrics.comments = l.metrics.comments + t.trivia.countP (·.kind.isComment) ∧
      m.metrics.directives = l.metrics.directives + t.trivia.countP (·.kind = .directive) := by
  obtain ⟨vs, b, hg, hr⟩ := next_cases h
  have hcounts := hg.trivia_counts hl
  rw [trivia_readToken hr]
  rcases readToken_cases hr with ⟨_, _, rfl⟩ | ⟨c, cs, kind, _, _, _, _, rfl⟩
  · exact hcounts
  · simpa [passToken] using hcounts

theorem trivia_counts_after (hl : l.KeepsAll) {n : Nat}
    (h : ∀ i < n, (l.answer i).isOk = true) :
    (l.after n).metrics.comments =
        l.metrics.comments + ((l.returned n).flatMap Token.trivia).countP (·.kind.isComment) ∧
      (l.after n).metrics.directives =
        l.metrics.directives +
          ((l.returned n).flatMap Token.trivia).countP (·.kind = .directive) := by
  induction n with
  | zero => exact ⟨rfl, rfl⟩
  | succ n ih =>
    obtain ⟨hcomments, hdirectives⟩ := ih fun i hi => h i (Nat.lt_succ_of_lt hi)
    have hok := h n (Nat.lt_succ_self n)
    cases ha : l.answer n with
    | error f =>
      rw [ha] at hok
      cases hok
    | ok t =>
      have hn : (l.after n).next.value = (.ok t, l.after (n + 1)) := Prod.ext ha rfl
      obtain ⟨hcomments', hdirectives'⟩ := next_trivia_counts hn (hl.after n)
      rw [returned_succ, ha, hcomments', hdirectives', hcomments, hdirectives]
      simp [Except.toOption, Nat.add_assoc]

/-- After any number of steps the counts tell the tokens given: how many there are other than end
marks and, where details are wanted, how many of each kind and how long the longest identifier is.
While no step has failed and all is kept, they tell the comments and directives in front of those
tokens. -/
theorem metrics_count_returned (l : Lexer) (text : String) (n : Nat) :
    let s := l.reset text
    let ts := s.returned n
    let m := (s.after n).metrics
    m.total = ts.countP (!·.isEof) ∧
      (l.preferences.detailedMetrics = true →
        m.identifiers = ts.countP (·.is .identifier) ∧ m.keywords = ts.countP (·.is .keyword) ∧
        m.literals = ts.countP (·.kind.isLiteral) ∧
        m.punctuators = ts.countP (·.kind.isPunctuation) ∧
        m.identifiers + m.keywords + m.literals + m.punctuators = m.total ∧
        m.longestIdentifier = (identifierSizes ts).max?.getD 0) ∧
      (l.KeepsAll → (∀ i < n, (s.answer i).isOk = true) →
        m.comments = (ts.flatMap Token.trivia).countP (·.kind.isComment) ∧
        m.directives = (ts.flatMap Token.trivia).countP (·.kind = .directive)) := by
  intro s ts m
  have hzero : Counts s.preferences [] s.metrics := ⟨rfl, fun _ => ⟨rfl, rfl, rfl, rfl, rfl⟩⟩
  have hcounts : Counts s.preferences ts m := counts_after hzero n
  refine ⟨hcounts.total, fun hdetailed => ?_, fun hkeeps hok => ?_⟩
  · have htallies := hcounts.tallies hdetailed
    exact ⟨htallies.identifiers, htallies.keywords, htallies.literals, htallies.punctuators,
      htallies.sum_eq.trans hcounts.total.symm, htallies.longest⟩
  · obtain ⟨hcomments, hdirectives⟩ := trivia_counts_after (l := s) hkeeps hok
    exact ⟨hcomments.trans (Nat.zero_add _), hdirectives.trans (Nat.zero_add _)⟩

theorem metrics_count_returned_unterminated :
    let l := ofString .full ""
    let s := l.reset "/*c*/int ab=1;\n#d\n'y"
    (l.preferences.detailedMetrics = true ∧ l.KeepsAll ∧ (∀ i < 5, (s.answer i).isOk = true) ∧
      (s.answer 5).isOk = false) ∧
    (s.after 8).metrics.total = (s.returned 8).countP (!·.isEof) ∧
    (s.after 8).metrics.identifiers = (s.returned 8).countP (·.is .identifier) ∧
    (s.after 5).metrics.comments =
      ((s.returned 5).flatMap Token.trivia).countP (·.kind.isComment) := by
  intro l s
  have hok : (∀ i < 5, (s.answer i).isOk = true) ∧ (s.answer 5).isOk = false := by decide +kernel
  obtain ⟨htotal, hdetails, -⟩ := metrics_count_returned l "/*c*/int ab=1;\n#d\n'y" 8
  obtain ⟨-, -, htrivia⟩ := metrics_count_returned l "/*c*/int ab=1;\n#d\n'y" 5
  exact ⟨⟨rfl, ⟨rfl, rfl⟩, hok⟩, htotal, (hdetails rfl).1, (htrivia ⟨rfl, rfl⟩ hok.1).1⟩

end Lexer
end SourceOutline
