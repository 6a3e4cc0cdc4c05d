import SourceOutline.Proofs.DeclarationLanguage
import SourceOutline.Proofs.OutlineRun

/-! How the tokens of a declaration are passed.
Each head of a declaration is passed as a whole, whatever stands after it. -/
namespace SourceOutline
open QualifiedName

namespace Token
variable {t : Token} {kind : TokenKind} {image name : String}

theorem Reads.is (h : t.Reads kind image) (k : TokenKind) : t.is k = (kind == k) := by
  rw [Token.is, h.1]

theorem Reads.isSymbol (h : t.Reads kind image) (text : String) :
    t.isSymbol text = (kind != .identifier && !kind.isLiteral && image == text) := by
  simp [Token.isSymbol, h.is, h.1, h.2, bne]

theorem Reads.not_isEof (h : t.Reads kind image) (hk : kind ≠ .eof) : t.isEof = false := by
  simp [Token.isEof, h.is, hk]

theorem Names.is (h : t.Names name) (k : TokenKind) : t.is k = (TokenKind.identifier == k) :=
  h.1.is k

theorem isSymbol_of_image_ne {text : String} (h : t.image ≠ text) : t.isSymbol text = false := by
  simp [Token.isSymbol, h]

end Token

theorem EntryKind.ofClassKey?_of_reads {kind : EntryKind} {key : Token}
    (hkind : kind ∈ classKinds)
    (hkey : key.Reads .keyword kind.keyword) : ofClassKey? key = some kind := by
  simp only [classKinds, List.mem_cons, List.not_mem_nil, or_false] at hkind
  rcases hkind with rfl | rfl | rfl <;>
    simp [ofClassKey?, hkey.is, hkey.2, keyword]

theorem QualifiedBy.ne_nil {names : List String} {tokens : List Token}
    (h : QualifiedBy names tokens) : names ≠ [] := by
  cases h <;> simp

theorem QualifiedBy.head {names : List String} {tokens : List Token} (h : QualifiedBy names tokens)
    (rest : List Token) : (tokens ++ rest).head?.any (·.is .identifier) := by
  cases h with
  | one h => simp [h.is]
  | cons h _ _ => simp [h.is]

theorem QualifiedBy.not_mem {names : List String} {tokens : List Token}
    (h : QualifiedBy names tokens) : ∀ name ∈ names, ':' ∉ name.toList := by
  have hmark : Lexeme.isIdentifierPart ':' = false := by decide
  induction h with
  | one h => simpa using h.not_mem ':' hmark
  | cons h _ _ ih => simpa using ⟨h.not_mem ':' hmark, ih⟩

theorem Enumerators.not_isEof {tokens : List Token} (h : Enumerators tokens) :
    ∀ t ∈ tokens, t.isEof = false := by
  induction h with
  | nil => simp
  | one h => simpa using h.1.not_isEof (by decide)
  | cons h hc _ ih => simpa using ⟨h.1.not_isEof (by decide), hc.not_isEof (by decide), ih⟩

theorem Enumerators.neutral {tokens : List Token} (h : Enumerators tokens) :
    ∀ t ∈ tokens, t.is .keyword = false ∧ t.image ≠ "\x7b" ∧ t.image ≠ "\x7d" := by
  have hname : ∀ {t : Token} {name : String}, t.Names name →
      t.is .keyword = false ∧ t.image ≠ "\x7b" ∧ t.image ≠ "\x7d" := by
    intro t name h
    exact ⟨by simp [h.is], h.ne_of_mem '\x7b' (by decide) (by decide),
      h.ne_of_mem '\x7d' (by decide) (by decide)⟩
  induction h with
  | nil => simp
  | one h => simpa using hname h
  | cons h hc _ ih =>
    have hcomma := hc.2
    simpa [hc.is, hcomma] using ⟨hname h, ih⟩

namespace Cursor

/-- A qualified name is read up to a token that is no separator. -/
theorem nameFrom_append {names : List String} {tokens : List Token} (h : QualifiedBy names tokens)
    (front : String) {next : Token} (hnext : next.is .scope = false) (rest : List Token) :
    nameFrom front (tokens ++ next :: rest) =
      some (front ++ "::".intercalate names, ⟨tokens.getLast?, next :: rest⟩) := by
  induction h generalizing front with
  | one h => simp [nameFrom, h.is, hnext, h.1.2]
  | @cons t separator name names tokens h hs hrest ih =>
    have hjoined : front ++ t.image ++ "::" ++ "::".intercalate names =
        front ++ "::".intercalate (name :: names) := by
      rw [String.intercalate_cons_of_ne_nil hrest.ne_nil, h.1.2]
      simp [String.append_assoc]
    have hlast : (t :: separator :: tokens).getLast? = tokens.getLast? := by
      cases hrest <;> simp
    rw [List.cons_append, List.cons_append, nameFrom]
    simp only [h.is, hs.is, hrest.head, beq_self_eq_true, Bool.and_self, if_true]
    rw [ih, hjoined, hlast]

theorem qualifiedName?_append {names : List String} {tokens : List Token}
    (h : QualifiedBy names tokens) (before : Option Token) {next : Token}
    (hnext : next.is .scope = false) (rest : List Token) :
    qualifiedName? ⟨before, tokens ++ next :: rest⟩ =
      some ("::".intercalate names, ⟨tokens.getLast?, next :: rest⟩) := by
  have hfrom := nameFrom_append h "" hnext rest
  rw [String.empty_append] at hfrom
  rw [← hfrom]
  cases h with
  | one h => simp [qualifiedName?, h.is]
  | cons h _ _ => simp [qualifiedName?, h.is]

theorem qualifiedName?_cons {t next : Token} {name : String} (h : t.Names name)
    (before : Option Token) (hnext : next.is .scope = false) (rest : List Token) :
    qualifiedName? ⟨before, t :: next :: rest⟩ = some (name, ⟨some t, next :: rest⟩) := by
  simpa using qualifiedName?_append (.one h) before hnext rest

end Cursor

theorem dropSeparators_of_head {cs : List Char} (h : cs.head? ≠ some ':') :
    dropSeparators cs = cs := by
  unfold dropSeparators
  split
  · simp at h
  · rfl

theorem namespaceParts_intercalate {names : List String} {tokens : List Token}
    (h : QualifiedBy names tokens) : Builder.namespaceParts ("::".intercalate names) = names := by
  have hchars : ("::".intercalate names).toList = separator.intercalate (names.map String.toList) :=
    String.toList_intercalate
  have hhead : (separator.intercalate (names.map String.toList)).head? ≠ some ':' := by
    obtain ⟨t, name, others, hname, rfl⟩ : ∃ t name others, Token.Names t name ∧
        names = name :: others := by
      cases h with
      | one h => exact ⟨_, _, [], h, rfl⟩
      | cons h _ _ => exact ⟨_, _, _, h, rfl⟩
    cases hfirst : name.toList with
    | nil => exact absurd (String.toList_eq_nil_iff.1 hfirst) hname.ne_empty
    | cons c cs =>
      have hc : c ≠ ':' := by
        rintro rfl
        exact h.not_mem name List.mem_cons_self (hfirst ▸ List.mem_cons_self)
      cases others <;> simpa [hfirst] using hc
  have hsegments : segments (separator.intercalate (names.map String.toList)) =
      names.map String.toList := by
    refine segments_intercalate (by simpa using h.ne_nil) ?_
    simpa using h.not_mem
  rw [Builder.namespaceParts, hchars, dropSeparators_of_head hhead, hsegments]
  simp

theorem namespaceParts_empty : Builder.namespaceParts "" = [""] := by
  have hsegments : segments (separator.intercalate [[]]) = [[]] :=
    segments_intercalate (by simp) (by simp)
  rw [List.intercalate_singleton] at hsegments
  rw [Builder.namespaceParts, String.toList_empty, dropSeparators_of_head (by simp), hsegments]
  rfl

namespace Builder
variable {b b' inner : Builder} {name : String}
  {kind : EntryKind} {line : Nat} {tokens more : List Token} {key t opened closed stop : Token}

def Clear (before : Option Token) : Prop :=
  ∀ p ∈ before, p.image ≠ "<" ∧ p.image ≠ "," ∧ p.image ≠ "friend"

/-- The tokens lead a run from `b` to `b'`, whatever stands after them. -/
def Passes (b : Builder) (tokens : List Token) (b' : Builder) : Prop :=
  ∀ before rest, Clear before → ∃ last, Clear last ∧
    b.run ⟨before, tokens ++ rest⟩ = b'.run ⟨last, rest⟩

theorem Passes.refl (b : Builder) : Passes b [] b := fun before _ hb => ⟨before, hb, rfl⟩

theorem Passes.trans (h : Passes b tokens inner) (h' : Passes inner more b') :
    Passes b (tokens ++ more) b' := by
  intro before rest hb
  obtain ⟨mid, hmid, hrun⟩ := h before (more ++ rest) hb
  obtain ⟨last, hlast, hrun'⟩ := h' mid rest hmid
  exact ⟨last, hlast, by rw [List.append_assoc, hrun, hrun']⟩

theorem clear_of_reads {image : String} (h : t.Reads .punctuator image)
    (hi : image ∈ ["\x7b", "\x7d", ";"]) : Clear (some t) := by
  rintro p ⟨⟩
  rw [h.2]
  simp only [List.mem_cons, List.not_mem_nil, or_false] at hi
  rcases hi with rfl | rfl | rfl <;> decide

theorem passes_of_declaration {image : String} (hkey : key.isEof = false)
    (hstop : stop.Reads .punctuator image) (hi : image ∈ ["\x7b", "\x7d", ";"])
    (h : ∀ before rest, Clear before →
      b.declaration before key ⟨some key, tokens ++ rest⟩ = .ok (b', ⟨some stop, rest⟩)) :
    Passes b (key :: tokens) b' := by
  intro before rest hb
  exact ⟨some stop, clear_of_reads hstop hi, run_cons hkey (h before rest hb)⟩

theorem declaration_of_ne_keyword (h : t.is .keyword = false) (before : Option Token) (c : Cursor) :
    b.declaration before t c = .ok (b.passToken t, c) := by
  simp [declaration, EntryKind.ofClassKey?, h]

theorem passes_mark {image : String} (h : t.Reads .punctuator image)
    (hi : image ∈ ["\x7b", "\x7d", ";"]) : Passes b [t] (b.passToken t) :=
  passes_of_declaration (h.not_isEof (by decide)) h hi fun before _ _ =>
    declaration_of_ne_keyword (by simp [h.is]) before _

theorem declaration_namespace (h : key.Reads .keyword "namespace") (before : Option Token)
    (c : Cursor) : b.declaration before key c = b.namespaceBody key.beginLine c := by
  simp [declaration, h.is, h.2]

theorem passes_namespace {names : List String} (hkey : key.Reads .keyword "namespace")
    (hname : names = [""] ∧ tokens = [] ∨ QualifiedBy names tokens)
    (hopened : opened.Reads .punctuator "\x7b") (h : b.enterAll key.beginLine names = .ok inner) :
    Passes b (key :: (tokens ++ [opened]))
      { inner with frames := inner.frames.push (.scope b.current) } := by
  refine passes_of_declaration (hkey.not_isEof (by decide)) hopened (by simp) fun before rest _ => ?_
  have hscope : opened.is .scope = false := by simp [hopened.is]
  obtain ⟨text, last, hname, hparts⟩ : ∃ text last,
      (Cursor.qualifiedName? ⟨some key, tokens ++ opened :: rest⟩).getD
        ("", ⟨some key, tokens ++ opened :: rest⟩) = (text, ⟨last, opened :: rest⟩) ∧
      namespaceParts text = names := by
    rcases hname with ⟨rfl, rfl⟩ | hname
    · have hnone : Cursor.qualifiedName? ⟨some key, opened :: rest⟩ = none := by
        unfold Cursor.qualifiedName? Cursor.nameFrom
        simp [hopened.is]
      exact ⟨"", some key, by rw [List.nil_append, hnone]; rfl, namespaceParts_empty⟩
    · exact ⟨_, _, by rw [Cursor.qualifiedName?_append hname _ hscope]; rfl,
        namespaceParts_intercalate hname⟩
  have heof := hopened.not_isEof (by decide)
  have hequal : Cursor.sees ⟨last, opened :: rest⟩ "=" = false := by
    simp [Cursor.sees_cons _ heof, hopened.isSymbol]
  have hbrace : Cursor.sees ⟨last, opened :: rest⟩ "\x7b" = true := by
    simp [Cursor.sees_cons _ heof, hopened.isSymbol, TokenKind.isLiteral]
  rw [declaration_namespace hkey, List.append_assoc, namespaceBody]
  simp only [List.cons_append, List.nil_append, hname, hequal, hbrace, hparts, h, bind, Except.bind,
    Cursor.advance_cons _ heof]
  rfl

theorem declaration_of_classKey (hkind : kind ∈ EntryKind.classKinds)
    (hkey : key.Reads .keyword kind.keyword) {before : Option Token} (hb : Clear before)
    (c : Cursor) : b.declaration before key c = b.classBody kind key.beginLine before c := by
  have hfriend : (before.any fun p => p.isSymbol "friend") = false := by
    cases before with
    | none => rfl
    | some p => exact Token.isSymbol_of_image_ne (hb p rfl).2.2
  have hother : ∀ text ∈ ["namespace", "template", "enum", "typedef", "using"],
      key.image ≠ text := by
    simp only [EntryKind.classKinds, List.mem_cons, List.not_mem_nil, or_false] at hkind
    rw [hkey.2]
    rcases hkind with rfl | rfl | rfl <;> decide
  simp only [List.forall_mem_cons] at hother
  unfold declaration
  simp [hother, EntryKind.ofClassKey?_of_reads hkind hkey, hfriend]

theorem owner_of_not_mem (hname : ':' ∉ name.toList) : b.owner name = .ok (b.current, name) := by
  simp [owner, cutLast?_eq_none hname]

theorem classBody_of_names (hname : t.Names name) {before after : Option Token} (hb : Clear before)
    {next : Token} {image : String} (hnext : next.Reads .punctuator image)
    (hi : image = "\x7b" ∨ image = ";") (rest : List Token) :
    b.classBody kind line before ⟨after, t :: next :: rest⟩ =
      (if image = ";" then b.forward b.current name else b.enterClass kind line b.current name).map
        fun inner => (inner, ⟨some next, rest⟩) := by
  have hlist : (before.any fun p => p.isSymbol "<" || p.isSymbol ",") = false := by
    cases before with
    | none => rfl
    | some p =>
      simp [Token.isSymbol_of_image_ne (hb p rfl).1, Token.isSymbol_of_image_ne (hb p rfl).2.1]
  have hscope : next.is .scope = false := by simp [hnext.is]
  have howner := owner_of_not_mem (b := b) (hname.not_mem ':' (by decide))
  have hdeclares : declares next = true := by
    rcases hi with rfl | rfl <;> simp [declares, hnext.isSymbol, TokenKind.isLiteral]
  have heof := hnext.not_isEof (by decide)
  unfold classBody
  rw [hlist, Cursor.qualifiedName?_cons hname _ hscope]
  simp only [Cursor.peek?_cons _ heof, Option.any_some, hdeclares, howner, if_true, bind, Except.bind]
  rcases hi with rfl | rfl
  · have hstop : Cursor.sees ⟨some t, next :: rest⟩ ";" = false := by
      simp [Cursor.sees_cons _ heof, hnext.isSymbol]
    have hbrace : next.isSymbol "\x7b" := by simp [hnext.isSymbol, TokenKind.isLiteral]
    have hhead : (Cursor.skipUntil (fun t => t.isSymbol "\x7b" || t.isSymbol ";")
        ⟨some t, next :: rest⟩) = ⟨some t, next :: rest⟩ := by
      simp [Cursor.skipUntil, Cursor.skipFrom, hbrace]
    have hsees : Cursor.sees ⟨some t, next :: rest⟩ "\x7b" = true := by
      rw [Cursor.sees_cons _ heof, hbrace]
    simp only [hstop, hhead, hsees, Cursor.advance_cons _ heof]
    cases b.enterClass kind line b.current name <;> rfl
  · have hstop : Cursor.sees ⟨some t, next :: rest⟩ ";" = true := by
      simp [Cursor.sees_cons _ heof, hnext.isSymbol, TokenKind.isLiteral]
    simp only [hstop, Cursor.advance_cons _ heof]
    cases b.forward b.current name <;> rfl

theorem passes_class (hkind : kind ∈ EntryKind.classKinds)
    (hkey : key.Reads .keyword kind.keyword) (hname : t.Names name)
    (hopened : opened.Reads .punctuator "\x7b")
    (h : b.enterClass kind key.beginLine b.current name = .ok b') :
    Passes b [key, t, opened] b' := by
  refine passes_of_declaration (hkey.not_isEof (by decide)) hopened (by simp) fun before rest hb => ?_
  rw [declaration_of_classKey hkind hkey hb, List.cons_append, List.cons_append, List.nil_append,
    classBody_of_names hname hb hopened (.inl rfl), if_neg (by decide), h]
  rfl

theorem passes_forward (hkind : kind ∈ EntryKind.classKinds)
    (hkey : key.Reads .keyword kind.keyword) (hname : t.Names name)
    (hstop : stop.Reads .punctuator ";") (h : b.forward b.current name = .ok b') :
    Passes b [key, t, stop] b' := by
  refine passes_of_declaration (hkey.not_isEof (by decide)) hstop (by simp) fun before rest hb => ?_
  rw [declaration_of_classKey hkind hkey hb, List.cons_append, List.cons_append, List.nil_append,
    classBody_of_names hname hb hstop (.inr rfl), if_pos rfl, h]
  rfl

theorem run_append (h : ∀ t ∈ tokens, t.is .keyword = false ∧ t.isEof = false)
    (hstop : stop.is .keyword = false) (heof : stop.isEof = false) (before : Option Token)
    (rest : List Token) :
    b.run ⟨before, tokens ++ stop :: rest⟩ =
      ((tokens ++ [stop]).foldl passToken b).run ⟨some stop, rest⟩ := by
  induction tokens generalizing b before with
  | nil => exact run_cons heof (declaration_of_ne_keyword hstop before _)
  | cons t tokens ih =>
    obtain ⟨hkeyword, ht⟩ := h t List.mem_cons_self
    have hfirst := declaration_of_ne_keyword (b := b) hkeyword before
    rw [List.cons_append, run_cons ht (hfirst _), ih fun u hu => h u (List.mem_cons_of_mem t hu)]
    rfl

theorem foldl_passToken (h : ∀ t ∈ tokens, t.image ≠ "\x7b" ∧ t.image ≠ "\x7d") :
    tokens.foldl passToken b = b := by
  induction tokens with
  | nil => rfl
  | cons t tokens ih =>
    obtain ⟨hopen, hclose⟩ := h t List.mem_cons_self
    have hpass : b.passToken t = b := by simp [passToken, hopen, hclose]
    rw [List.foldl_cons, hpass, ih fun u hu => h u (List.mem_cons_of_mem t hu)]

theorem declaration_enum {words : List Token} (hkey : key.Reads .keyword "enum")
    (hwords : words = [] ∨ ∃ word : Token, word.Reads .keyword "class" ∧ words = [word])
    (hname : t.Names name) (hopened : opened.Reads .punctuator "\x7b") {known : Bool}
    (hknown : b.tree.hasType b.current name = .ok known)
    (h : (if known then .ok b else b.recordType .enumDef name key.beginLine) = .ok b')
    (before : Option Token) (rest : List Token) :
    b.declaration before key ⟨some key, words ++ t :: opened :: rest⟩ =
      .ok (b', ⟨some t, opened :: rest⟩) := by
  obtain ⟨last, hlast⟩ : ∃ last, (if Cursor.sees ⟨some key, words ++ t :: opened :: rest⟩ "class"
      then Cursor.advance ⟨some key, words ++ t :: opened :: rest⟩
      else Cursor.eat ⟨some key, words ++ t :: opened :: rest⟩ "struct") =
        ⟨last, t :: opened :: rest⟩ := by
    rcases hwords with rfl | ⟨word, hword, rfl⟩
    · have heof := hname.1.not_isEof (by decide)
      exact ⟨some key, by simp [Cursor.eat, Cursor.sees_cons _ heof, hname.1.isSymbol]⟩
    · have heof := hword.not_isEof (by decide)
      exact ⟨some word, by simp [Cursor.sees_cons _ heof, Cursor.advance_cons _ heof, hword.isSymbol,
        TokenKind.isLiteral]⟩
  have hscope : opened.is .scope = false := by simp [hopened.is]
  have hplain : isQualified name = false :=
    isQualified_eq_false_iff.2 (plain_of_not_mem (hname.not_mem ':' (by decide)))
  have hbrace : Cursor.sees ⟨some t, opened :: rest⟩ "\x7b" = true := by
    simp [Cursor.sees_cons _ (hopened.not_isEof (by decide)), hopened.isSymbol, TokenKind.isLiteral]
  have henum : b.declaration before key ⟨some key, words ++ t :: opened :: rest⟩ =
      b.enumBody key.beginLine ⟨some key, words ++ t :: opened :: rest⟩ := by
    simp [declaration, hkey.is, hkey.2]
  rw [henum, enumBody]
  simp only [hlast, Cursor.qualifiedName?_cons hname last hscope rest, hplain, hbrace, hknown, lift,
    bind, Except.bind]
  cases known with
  | true =>
    cases h
    rfl
  | false =>
    have hrecord : b.recordType .enumDef name key.beginLine = .ok b' := h
    simp [hrecord, pure, Except.pure]

theorem passes_enum {words : List Token} (hkey : key.Reads .keyword "enum")
    (hwords : words = [] ∨ ∃ word : Token, word.Reads .keyword "class" ∧ words = [word])
    (hname : t.Names name) (hopened : opened.Reads .punctuator "\x7b")
    (hinner : Enumerators tokens) (hclosed : closed.Reads .punctuator "\x7d")
    (hstop : stop.Reads .punctuator ";") {known : Bool}
    (hknown : b.tree.hasType b.current name = .ok known)
    (h : (if known then .ok b else b.recordType .enumDef name key.beginLine) = .ok b') :
    Passes b (key :: (words ++ t :: opened :: (tokens ++ [closed, stop]))) b' := by
  intro before rest _
  refine ⟨some stop, clear_of_reads hstop (by simp), ?_⟩
  -- after the block the same braces are open as in front of it
  have hneutral : ∀ u ∈ opened :: (tokens ++ [closed]), u.is .keyword = false ∧ u.isEof = false := by
    intro u hu
    simp only [List.mem_cons, List.mem_append, List.not_mem_nil, or_false] at hu
    rcases hu with rfl | hu | rfl
    · exact ⟨by simp [hopened.is], hopened.not_isEof (by decide)⟩
    · exact ⟨(hinner.neutral u hu).1, hinner.not_isEof u hu⟩
    · exact ⟨by simp [hclosed.is], hclosed.not_isEof (by decide)⟩
  have hblock : ((opened :: (tokens ++ [closed])) ++ [stop]).foldl passToken b' = b' := by
    have hopen : b'.passToken opened = b'.openBrace := by simp [passToken, hopened.2]
    have hpass : b'.openBrace.passToken closed = b' := by
      rw [passToken, if_neg (by simp [hclosed.2]), if_pos hclosed.2]
      rfl
    have hlast : b'.passToken stop = b' := by simp [passToken, hstop.2]
    simp [hopen, foldl_passToken fun u hu => (hinner.neutral u hu).2, hpass, hlast]
  have hlast : stop.is .keyword = false := by simp [hstop.is]
  have hrun := run_append (b := b') hneutral hlast (hstop.not_isEof (by decide)) (some t) rest
  rw [hblock] at hrun
  have hfirst := run_cons (hkey.not_isEof (by decide)) (declaration_enum hkey hwords hname hopened
    hknown h before (tokens ++ [closed, stop] ++ rest))
  simp only [List.cons_append, List.append_assoc, List.nil_append] at hfirst hrun ⊢
  rw [hfirst, hrun]

theorem skipFrom_append (h : ∀ t ∈ tokens, t.isEof = false ∧ t.image ∉ ["\x7b", "\x7d", ";"])
    (hstop : stop.Reads .punctuator ";") (before : Option Token) (rest : List Token) :
    b.skipFrom b.frames.count before (tokens ++ stop :: rest) = (b, ⟨some stop, rest⟩) := by
  induction tokens generalizing before with
  | nil => simp [skipFrom, hstop.2, hstop.not_isEof (by decide)]
  | cons t tokens ih =>
    obtain ⟨heof, ht⟩ := h t List.mem_cons_self
    simp only [List.mem_cons, List.not_mem_nil, or_false, not_or] at ht
    have hpass : b.passToken t = b := by simp [passToken, ht.1, ht.2.1]
    simp [skipFrom, heof, ht.2.2, hpass, ih fun u hu => h u (List.mem_cons_of_mem t hu)]

theorem passes_alias {equal : Token} (hkey : key.Reads .keyword "using") (hname : t.Names name)
    (hequal : equal.Reads .punctuator "=") (htarget : Target tokens)
    (hstop : stop.Reads .punctuator ";")
    (h : b.recordType .typeAlias name key.beginLine = .ok b') :
    Passes b (key :: t :: equal :: (tokens ++ [stop])) b' := by
  refine passes_of_declaration (hkey.not_isEof (by decide)) hstop (by simp) fun before rest _ => ?_
  have hmarks : ∀ u ∈ equal :: tokens, u.isEof = false ∧ u.image ∉ ["\x7b", "\x7d", ";"] := by
    simp only [List.forall_mem_cons]
    exact ⟨⟨hequal.not_isEof (by decide), by rw [hequal.2]; decide⟩, fun u hu =>
      ⟨Bool.eq_false_iff.2 (htarget.eof u hu), htarget.marks u hu⟩⟩
  have hskip : b.skipStatement ⟨some t, equal :: (tokens ++ stop :: rest)⟩ =
      (b, ⟨some stop, rest⟩) :=
    skipFrom_append hmarks hstop (some t) rest
  have heof := hname.1.not_isEof (by decide)
  have hequals : Cursor.sees ⟨some t, equal :: (tokens ++ stop :: rest)⟩ "=" := by
    simp [Cursor.sees_cons _ (hequal.not_isEof (by decide)), hequal.isSymbol, TokenKind.isLiteral]
  have hdeclaration : b.declaration before key ⟨some key, t :: equal :: (tokens ++ stop :: rest)⟩ =
      b.aliasBody key.beginLine ⟨some key, t :: equal :: (tokens ++ stop :: rest)⟩ := by
    simp [declaration, hkey.is, hkey.2]
  simp only [List.cons_append, List.append_assoc, List.nil_append]
  rw [hdeclaration, aliasBody]
  simp only [Cursor.peek?_cons _ heof, Cursor.advance_cons _ heof, hname.is, hequals, hskip, hname.1.2,
    h, beq_self_eq_true, Bool.and_self, if_true, bind, Except.bind]
  rfl

theorem passes_closed (h : closed.Reads .punctuator "\x7d") :
    Passes b [closed] (b.closeBrace closed) := by
  have hpass : b.passToken closed = b.closeBrace closed := by simp [passToken, h.2]
  exact hpass ▸ passes_mark h (by simp)

theorem passes_stop (h : stop.Reads .punctuator ";") : Passes b [stop] b := by
  have hpass : b.passToken stop = b := by simp [passToken, h.2]
  have hmark := passes_mark (b := b) h (by simp)
  rwa [hpass] at hmark

end Builder

/-- Tokens that lead a run from its start to `b` have an outline, with the entries of `b`. -/
theorem Outline.exists_of_passes {b : Builder} {tokens rest : List Token}
    (h : Builder.Passes .start tokens b) (hrest : ∀ t ∈ rest.head?, t.isEof) :
    ∃ o, (ofTokens (tokens ++ rest)).value = .ok o ∧ o.entries = b.entries.reverse := by
  obtain ⟨last, -, hrun⟩ := h none rest (by rintro p ⟨⟩)
  have hend : b.run ⟨last, rest⟩ = .ok b := by
    cases rest with
    | nil => exact b.run_nil last
    | cons t rest => exact b.run_of_isEof last (hrest t rfl) rest
  have hcontent := (run_content .start (tokens ++ rest)).trans (hrun.trans hend)
  exact ⟨_, ofTokens_eq_ok.2 ⟨b, hcontent, rfl⟩, rfl⟩

end SourceOutline
