import SourceOutline.Filter
import SourceOutline.Proofs.Names
import SourceOutline.Proofs.Relexing

/-! Which names can trigger a filter.
A name is tried by reading it as a text. It passes when it is read as one identifier that is the
name itself, and that is so for identifiers alone: whatever else a text may be read as has another
kind, or an image that is not all of the text. -/
namespace SourceOutline

/-- The identifiers that are not reserved and not too long. -/
structure TriggerName (name : String) : Prop where
  head : ∃ c ∈ name.toList.head?, c = '_' ∨ c = '$' ∨ Text.isAlphabetic c
  tail : ∀ c ∈ name.toList.tail, c = '_' ∨ c = '$' ∨ Text.isAlphanumeric c
  length : name.length ≤ 1024
  unreserved : name ∉ Vocabulary.keywords

namespace Lexeme
open Text

theorem isIdentifierStart_iff {c : Char} :
    isIdentifierStart c = true ↔ c = '_' ∨ c = '$' ∨ isAlphabetic c := by
  simp [isIdentifierStart, or_assoc]

theorem isIdentifierPart_iff {c : Char} :
    isIdentifierPart c = true ↔ c = '_' ∨ c = '$' ∨ isAlphanumeric c := by
  simp [isIdentifierPart, or_assoc]

theorem isDigit_of_start {c : Char} (h : isIdentifierStart c = true) : c.isDigit = false := by
  refine eq_false_of_ne_true fun hd => ?_
  have hrange : 48 ≤ c.toNat ∧ c.toNat ≤ 57 := by
    simpa [Char.isDigit, UInt32.le_iff_toNat_le] using hd
  rcases isIdentifierStart_iff.1 h with rfl | rfl | halpha
  · cases hd
  · cases hd
  · have hdigits : ∀ n < 58, 48 ≤ n → (Char.ofNat n).isAlpha = false := by decide
    have hnot := hdigits c.toNat (by omega) hrange.1
    rw [Char.ofNat_toNat, ← isAlphabetic_of_ascii (by omega), halpha] at hnot
    cases hnot

theorem token_of_start {c : Char} (h : isIdentifierStart c = true) (cs : List Char) :
    token c cs = word (c :: cs) := by
  have hdot : c ≠ '.' := by
    rintro rfl
    revert h
    decide
  simp [token, startsNumber, isDigit_of_start h, hdot, h]

theorem triviaKind?_of_start {c : Char} (h : isIdentifierStart c = true) (lineStart : Bool)
    (cs : List Char) : triviaKind? lineStart (c :: cs) = none := by
  have hslash : c ≠ '/' := by
    rintro rfl
    revert h
    decide
  have hhash : c ≠ '#' := by
    rintro rfl
    revert h
    decide
  simp [triviaKind?_cons, hslash, hhash]

/-- The names that can trigger a filter, in the terms of the reader. -/
theorem triggerName_ofList {c : Char} {cs : List Char} :
    TriggerName (String.ofList (c :: cs)) ↔
      isIdentifierStart c = true ∧ (∀ d ∈ cs, isIdentifierPart d = true) ∧
        wordKind (c :: cs) = .ok .identifier := by
  have hlimit : (String.ofList (c :: cs)).length ≤ 1024 ↔ (c :: cs).length ≤ identifierLimit := by
    rw [String.length_ofList]
    rfl
  simp only [isIdentifierStart_iff, isIdentifierPart_iff, wordKind_eq_identifier]
  constructor
  · rintro ⟨⟨d, hd, hhead⟩, htail, hlength, hreserved⟩
    rw [String.toList_ofList] at hd htail
    cases hd
    refine ⟨hhead, htail, hlimit.1 hlength, ?_⟩
    simpa [Vocabulary.isKeyword] using hreserved
  · rintro ⟨hhead, htail, hlength, hreserved⟩
    refine ⟨⟨c, by simp, hhead⟩, by simpa using htail, hlimit.2 hlength, ?_⟩
    simpa [Vocabulary.isKeyword] using hreserved

end Lexeme

namespace TriggerName
open Lexeme
variable {name : String}

theorem exists_ofList (h : TriggerName name) : ∃ c cs, name = String.ofList (c :: cs) := by
  obtain ⟨c, hc, -⟩ := h.head
  cases hname : name.toList with
  | nil => rw [hname] at hc; cases hc
  | cons d ds => exact ⟨d, ds, by rw [← hname, String.ofList_toList]⟩

theorem isIdentifierPart (h : TriggerName name) : ∀ c ∈ name.toList, isIdentifierPart c = true := by
  obtain ⟨c, cs, rfl⟩ := h.exists_ofList
  obtain ⟨hstart, hparts, -⟩ := triggerName_ofList.1 h
  rw [String.toList_ofList]
  exact List.forall_mem_cons.2 ⟨isIdentifierPart_of_start hstart, hparts⟩

end TriggerName

namespace Lexer
open Lexeme
variable {name : String} {l m : Lexer} {t : Token}

theorem triggerName_of_next (h : l.next.value = (.ok t, m)) (hk : t.kind = .identifier) :
    TriggerName t.image := by
  obtain ⟨vs, b, -, hr⟩ := next_cases h
  rcases readToken_cases hr with ⟨-, rfl, -⟩ | ⟨c, cs, kind, -, -, ho, rfl, -⟩
  · cases hk
  · obtain rfl : kind = .identifier := hk
    rcases token_kind ho with hliteral | hpunctuation | ⟨hstart, hword, htaken⟩
    · cases hliteral
    · cases hpunctuation
    · rw [List.takeWhile_cons_of_pos (isIdentifierPart_of_start hstart)] at hword htaken
      rw [tokenItem, htaken]
      refine triggerName_ofList.2 ⟨hstart, ?_, hword⟩
      exact fun d hd => List.all_eq_true.1 List.all_takeWhile d hd

/-- Such a name is read as one identifier and nothing else. -/
theorem tokenize_triggerName (h : TriggerName name) :
    ∃ t, (tokenize name).value = .ok [t] ∧ t.isIdentifier name = true := by
  have hword := h.isIdentifierPart
  obtain ⟨c, cs, rfl⟩ := h.exists_ofList
  rw [String.toList_ofList] at hword
  obtain ⟨hstart, -, hkind⟩ := triggerName_ofList.1 h
  have htoken : token c cs = ⟨.ok .identifier, c :: cs, []⟩ := by
    rw [token_of_start hstart, word_nil hword, hkind]
  obtain ⟨l, hl⟩ : ∃ l, l = ofString .full (String.ofList (c :: cs)) := ⟨_, rfl⟩
  have hrest : l.rest = c :: cs := by simp [hl, ofString]
  have hskip : l.skipBlanks = l :=
    skipBlanks_of_blankUnit (by rw [hrest]; exact blankUnit_of_token (congrArg Scan.outcome htoken) cs)
  have hgather : Gathers l [] [] l.skipBlanks := by
    refine .stop ?_
    rw [hskip, hrest]
    exact triviaKind?_of_start hstart _ cs
  have hissued : l.issued < LexError.tokenLimit := by
    rw [hl]
    exact Nat.zero_lt_succ _
  have hnext := readToken_cons hrest hissued (congrArg Scan.outcome htoken) []
  rw [← hskip, ← hgather.next_eq, hskip, htoken] at hnext
  have hyields : Yields next l _ _ := .more hnext rfl (.last (next_nil rfl) rfl)
  refine ⟨_, tokenize_eq_ok_iff.2 ⟨_, _, hl ▸ hyields, rfl⟩, ?_⟩
  simp [tokenItem, Token.isIdentifier, Token.is]

end Lexer

namespace Filter
open QualifiedName

/-- Reading comes to a verdict on a name, and only one identifier passes. -/
theorem checkTokens_cases (kind : FilterKind) (name : String) (tokens : List Token) :
    (checkTokens kind name tokens = .ok () ∧ ∃ t, tokens = [t] ∧ t.isIdentifier name = true) ∨
      ∃ reason, checkTokens kind name tokens = .error (.invalidTriggerName kind name reason) := by
  unfold checkTokens
  split
  · next t =>
    split
    · next ht => exact .inl ⟨rfl, t, rfl, ht⟩
    · split
      · exact .inr ⟨_, rfl⟩
      · exact .inr ⟨_, rfl⟩
  · exact .inr ⟨_, rfl⟩

theorem checkName_cases (kind : FilterKind) (name : String) :
    ((checkName kind name).value = .ok () ∧
        ∃ t, (Lexer.tokenize name).value = .ok [t] ∧ t.isIdentifier name = true) ∨
      ∃ reason, (checkName kind name).value = .error (.invalidTriggerName kind name reason) := by
  unfold checkName
  split
  · exact .inr ⟨_, rfl⟩
  · split
    · exact .inr ⟨_, rfl⟩
    · dsimp only
      split
      · exact .inr ⟨_, rfl⟩
      · next tokens htokens =>
        refine (checkTokens_cases kind name tokens).imp_left fun ⟨hok, t, ht, hid⟩ => ?_
        exact ⟨hok, t, by rw [htokens, ht], hid⟩

theorem checkName_eq_ok_iff {kind : FilterKind} {name : String} :
    (checkName kind name).value = .ok () ↔ TriggerName name := by
  constructor
  · intro h
    rcases checkName_cases kind name with ⟨-, t, ht, hid⟩ | ⟨reason, herror⟩
    · simp only [Token.isIdentifier, Token.is, Bool.and_eq_true, beq_iff_eq] at hid
      obtain ⟨ts, m, hyields, hts⟩ := Lexer.tokenize_eq_ok_iff.1 ht
      obtain ⟨rest, rfl⟩ : ∃ rest, ts = t :: rest := by
        cases ts with
        | nil => cases hts
        | cons u rest =>
          cases rest with
          | nil => cases hts
          | cons v rest => exact ⟨v :: rest, by rw [(List.cons.inj hts).1]⟩
      obtain ⟨l, hnext⟩ := hyields.next_eq
      exact hid.2 ▸ Lexer.triggerName_of_next hnext hid.1
    · rw [h] at herror
      cases herror
  · intro h
    obtain ⟨t, ht, hid⟩ := Lexer.tokenize_triggerName h
    have hempty : name.isEmpty = false := by
      obtain ⟨c, cs, rfl⟩ := h.exists_ofList
      simp
    have hplain : isQualified name = false :=
      isQualified_eq_false_iff.2 (plain_of_not_mem fun hcolon => by
        have hpart := h.isIdentifierPart ':' hcolon
        revert hpart
        decide)
    simp [checkName, hempty, hplain, ht, checkTokens, hid]

/-- A name is accepted for either kind of filter exactly if it is an identifier of at most 1024
characters that is not reserved. Every other name is refused, and the refusal tells kind and name. -/
theorem checkName_accepts (kind : FilterKind) (name : String) :
    ((checkName kind name).value = .ok () ↔ TriggerName name) ∧
      ((checkName kind name).value = .ok () ∨
        ∃ reason, (checkName kind name).value = .error (.invalidTriggerName kind name reason)) :=
  ⟨checkName_eq_ok_iff, (checkName_cases kind name).imp_left And.left⟩

end Filter
end SourceOutline
