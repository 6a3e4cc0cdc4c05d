import SourceOutline.Proofs.DeclarationOutline

/-! How a typedef reads its tokens.
Outside of braces it follows the brackets of its declarators. Inside it looks for nothing but braces
and class keys. -/
namespace SourceOutline

theorem EntryKind.reads_of_ofClassKey? {t : Token} {kind : EntryKind}
    (h : ofClassKey? t = some kind) : kind ∈ classKinds ∧ t.Reads .keyword kind.keyword := by
  unfold ofClassKey? at h
  split at h
  · next hkeyword =>
    have hkind : t.kind = .keyword := by simpa [Token.is] using hkeyword
    split at h
    · next himage => cases h; exact ⟨by decide, hkind, himage⟩
    · split at h
      · next himage => cases h; exact ⟨by decide, hkind, himage⟩
      · split at h
        · next himage => cases h; exact ⟨by decide, hkind, himage⟩
        · cases h
  · cases h

theorem EntryKind.ofClassKey?_of_ne_keyword {t : Token} (h : t.is .keyword = false) :
    ofClassKey? t = none := by
  simp [ofClassKey?, h]

structure Token.Idle (t : Token) : Prop where
  eof : t.isEof = false
  key : EntryKind.ofClassKey? t = none
  opens : t.image ≠ "\x7b"
  closes : t.image ≠ "\x7d"

theorem Token.Reads.ofClassKey?_eq_none {t : Token} {kind : TokenKind} {image : String}
    (h : t.Reads kind image) (hi : kind ≠ .keyword ∨ image ∉ ["class", "struct", "union"]) :
    EntryKind.ofClassKey? t = none := by
  rcases hi with hkind | himage
  · exact EntryKind.ofClassKey?_of_ne_keyword (by simp [h.is, hkind])
  · simp only [List.mem_cons, List.not_mem_nil, or_false, not_or] at himage
    simp [EntryKind.ofClassKey?, h.2, himage]

theorem Token.Reads.idle {t : Token} {kind : TokenKind} {image : String} (h : t.Reads kind image)
    (hi : kind ≠ .eof ∧ (kind ≠ .keyword ∨ image ∉ ["class", "struct", "union"]) ∧
      image ≠ "\x7b" ∧ image ≠ "\x7d") : t.Idle where
  eof := h.not_isEof hi.1
  key := h.ofClassKey?_eq_none hi.2.1
  opens := h.2 ▸ hi.2.2.1
  closes := h.2 ▸ hi.2.2.2

theorem Token.Names.idle {t : Token} {name : String} (h : t.Names name) : t.Idle where
  eof := h.1.not_isEof (by decide)
  key := EntryKind.ofClassKey?_of_ne_keyword (by simp [h.is])
  opens := h.ne_of_mem '\x7b' (by decide) (by decide)
  closes := h.ne_of_mem '\x7d' (by decide) (by decide)

theorem Token.Names.not_mem_brackets {t : Token} {name : String} (h : t.Names name) :
    t.image ∉ ["(", ")", "<", ">", ">>", ";", ","] := by
  simp only [List.mem_cons, List.not_mem_nil, or_false, not_or]
  exact ⟨h.ne_of_mem '(' (by decide) (by decide), h.ne_of_mem ')' (by decide) (by decide),
    h.ne_of_mem '<' (by decide) (by decide), h.ne_of_mem '>' (by decide) (by decide),
    h.ne_of_mem '>' (by decide) (by decide), h.ne_of_mem ';' (by decide) (by decide),
    h.ne_of_mem ',' (by decide) (by decide)⟩

theorem Enumerators.idle {tokens : List Token} (h : Enumerators tokens) : ∀ t ∈ tokens, t.Idle :=
  fun t ht =>
    have hneutral := h.neutral t ht
    ⟨h.not_isEof t ht, EntryKind.ofClassKey?_of_ne_keyword hneutral.1, hneutral.2.1, hneutral.2.2⟩

theorem QualifiedBy.idle {names : List String} {tokens : List Token} (h : QualifiedBy names tokens) :
    ∀ t ∈ tokens, t.Idle := by
  induction h with
  | one h => simpa using h.idle
  | cons h hs _ ih => simpa using ⟨h.idle, hs.idle (by decide), ih⟩

namespace Builder
variable {b b' inner : Builder} {depth : Nat} {d : Declarators} {t : Token} {l : Listing}
  {path : List String}

/-! One token. -/

/-- No mark between declarators is met, be it that brackets or braces are open. -/
def Unmarked (b : Builder) (depth : Nat) (d : Declarators) (t : Token) : Prop :=
  b.frames.count = depth → d.parens = 0 → d.angles = 0 →
    t.isSymbol ";" = false ∧ t.isSymbol "," = false

theorem unmarked_of_image (h : t.image ≠ ";" ∧ t.image ≠ ",") : b.Unmarked depth d t :=
  fun _ _ _ => ⟨Token.isSymbol_of_image_ne h.1, Token.isSymbol_of_image_ne h.2⟩

/-- The two marks end a declarator only where no bracket and no brace is open. -/
theorem declarators_of_unmarked (h : b.Unmarked depth d t) (ht : t.isEof = false)
    (before : Option Token) (rest : List Token) :
    b.declarators depth d ⟨before, t :: rest⟩ =
      match EntryKind.ofClassKey? t with
      | some kind => b.classBody kind t.beginLine before ⟨some t, rest⟩ >>= fun r =>
          r.1.declarators depth d r.2
      | none =>
        if t.image = "\x7b" || t.image = "\x7d" then
          (b.passToken t).declarators depth d ⟨some t, rest⟩
        else b.declarators depth
          (if b.frames.count = depth then d.pass t ⟨some t, rest⟩ else d) ⟨some t, rest⟩ := by
  have hmark : ∀ text, (b.frames.count = depth → d.parens = 0 → d.angles = 0 →
      t.isSymbol text = false) →
      (b.frames.count = depth && d.parens = 0 && d.angles = 0 && t.isSymbol text) = false := by
    intro text h
    by_cases htop : b.frames.count = depth ∧ d.parens = 0 ∧ d.angles = 0
    · simp [h htop.1 htop.2.1 htop.2.2]
    · simp only [not_and] at htop
      simpa using fun h₁ h₂ h₃ => absurd h₃ (htop h₁ h₂)
  rw [declarators_cons _ _ _ _ ht, hmark ";" fun h₁ h₂ h₃ => (h h₁ h₂ h₃).1,
    hmark "," fun h₁ h₂ h₃ => (h h₁ h₂ h₃).2]
  rfl

theorem declarators_idle (ht : t.Idle) (h : b.Unmarked depth d t) (before : Option Token)
    (rest : List Token) :
    b.declarators depth d ⟨before, t :: rest⟩ = b.declarators depth
      (if b.frames.count = depth then d.pass t ⟨some t, rest⟩ else d) ⟨some t, rest⟩ := by
  rw [declarators_of_unmarked h ht.eof, ht.key]
  simp [ht.opens, ht.closes]

theorem declarators_classKey {kind : EntryKind} (h : EntryKind.ofClassKey? t = some kind)
    (before : Option Token) (rest : List Token) :
    b.declarators depth d ⟨before, t :: rest⟩ =
      (b.classBody kind t.beginLine before ⟨some t, rest⟩ >>= fun r =>
        r.1.declarators depth d r.2) := by
  obtain ⟨hkind, hreads⟩ := EntryKind.reads_of_ofClassKey? h
  have hmark : t.image ≠ ";" ∧ t.image ≠ "," := by
    simp only [EntryKind.classKinds, List.mem_cons, List.not_mem_nil, or_false] at hkind
    rw [hreads.2]
    rcases hkind with rfl | rfl | rfl <;> decide
  rw [declarators_of_unmarked (unmarked_of_image hmark) (hreads.not_isEof (by decide)), h]

theorem passToken_opened (h : t.Reads .punctuator "\x7b") : b.passToken t = b.openBrace := by
  simp [passToken, h.2]

theorem passToken_closed (h : t.Reads .punctuator "\x7d") : b.passToken t = b.closeBrace t := by
  simp [passToken, h.2]

theorem closeBrace_openBrace (b : Builder) (t : Token) : b.openBrace.closeBrace t = b := rfl

theorem declarators_brace {image : String} (h : t.Reads .punctuator image)
    (hi : image = "\x7b" ∨ image = "\x7d") (before : Option Token) (rest : List Token) :
    b.declarators depth d ⟨before, t :: rest⟩ =
      (b.passToken t).declarators depth d ⟨some t, rest⟩ := by
  have hmark : t.image ≠ ";" ∧ t.image ≠ "," := by
    rw [h.2]
    rcases hi with rfl | rfl <;> decide
  have hkey := EntryKind.ofClassKey?_of_ne_keyword (t := t) (by simp [h.is])
  rw [declarators_of_unmarked (unmarked_of_image hmark) (h.not_isEof (by decide)), hkey]
  simp [h.2, hi]

/-- A semicolon outside of all brackets ends the typedef. -/
theorem declarators_stop (h : t.Reads .punctuator ";") (htop : b.frames.count = depth)
    (hparens : d.parens = 0) (hangles : d.angles = 0) (before : Option Token)
    (rest : List Token) :
    b.declarators depth d ⟨before, t :: rest⟩ = .ok (b, d.finish, ⟨some t, rest⟩) := by
  rw [declarators_cons _ _ _ _ (h.not_isEof (by decide))]
  simp [htop, hparens, hangles, h.isSymbol, TokenKind.isLiteral]

theorem declarators_comma (h : t.Reads .punctuator ",") (htop : b.frames.count = depth)
    (hparens : d.parens = 0) (hangles : d.angles = 0) (before : Option Token)
    (rest : List Token) :
    b.declarators depth d ⟨before, t :: rest⟩ = b.declarators depth d.finish ⟨some t, rest⟩ := by
  rw [declarators_cons _ _ _ _ (h.not_isEof (by decide))]
  simp [htop, hparens, hangles, h.isSymbol, TokenKind.isLiteral]

theorem declarators_plain (ht : t.Idle) (hi : t.image ∉ ["(", ")", "<", ">", ">>", ";", ","])
    (hname : t.is .identifier = false) (htop : b.frames.count = depth) (before : Option Token)
    (rest : List Token) :
    b.declarators depth d ⟨before, t :: rest⟩ = b.declarators depth d ⟨some t, rest⟩ := by
  simp only [List.mem_cons, List.not_mem_nil, or_false, not_or] at hi
  have hpass : d.pass t ⟨some t, rest⟩ = d := by simp [Declarators.pass, hi, hname]
  rw [declarators_idle ht (unmarked_of_image ⟨hi.2.2.2.2.2.1, hi.2.2.2.2.2.2⟩), if_pos htop, hpass]

theorem declarators_name {name : String} (h : t.Names name) (htop : b.frames.count = depth)
    (hparens : d.parens = 0) (before : Option Token) (rest : List Token) :
    b.declarators depth d ⟨before, t :: rest⟩ =
      b.declarators depth { d with last := some name } ⟨some t, rest⟩ := by
  have himage := h.not_mem_brackets
  simp only [List.mem_cons, List.not_mem_nil, or_false, not_or] at himage
  have hpass : d.pass t ⟨some t, rest⟩ = { d with last := some name } := by
    simp [Declarators.pass, himage, hparens, h.is, ← h.1.2]
  rw [declarators_idle h.idle (unmarked_of_image ⟨himage.2.2.2.2.2.1, himage.2.2.2.2.2.2⟩),
    if_pos htop, hpass]

/-! The whole statement. -/

theorem Agrees.recordAll {names : List String} (h : b.Agrees l path)
    (hnames : ∀ name ∈ names, ':' ∉ name.toList ∧ name ≠ "") (line : Nat) :
    ∃ b' l', b.recordAll line names = .ok b' ∧ b'.Agrees l' path ∧ Kept path.length b b' ∧
      l'.entries = l.entries ++
        names.map fun name => ⟨.typedef, Listing.shown path name, line⟩ := by
  induction names generalizing b l with
  | nil => exact ⟨b, l, rfl, h, .refl _ b, by simp⟩
  | cons name names ih =>
    obtain ⟨hname, hne⟩ := hnames name List.mem_cons_self
    obtain ⟨mid, hmid, hagrees, hkept⟩ := h.recordType hname hne .typedef line
    obtain ⟨b', l', hrest, hagrees', hkept', hentries⟩ :=
      ih hagrees fun n hn => hnames n (List.mem_cons_of_mem _ hn)
    refine ⟨b', l', ?_, hagrees', hkept.trans hkept', ?_⟩
    · simp [Builder.recordAll, hmid, hrest, bind, Except.bind]
    · rw [hentries]
      simp [Listing.record, Listing.declare]

/-- A typedef is passed up to its semicolon, and the names that were found are listed. -/
theorem Agrees.typedef {word stop : Token} {tokens : List Token}
    (hword : word.Reads .keyword "typedef") (hstop : stop.Reads .punctuator ";")
    (hd : ∀ rest, b.declarators b.frames.count .none ⟨some word, tokens ++ rest⟩ =
      .ok (inner, d, ⟨some stop, rest⟩))
    (h : inner.Agrees l path) (hkept : Kept path.length b inner)
    (hnames : ∀ name ∈ d.names, ':' ∉ name.toList ∧ name ≠ "") :
    ∃ b' l', Passes b (word :: tokens) b' ∧ b'.Agrees l' path ∧ Kept path.length b b' ∧
      l'.entries = l.entries ++ d.names.reverse.map fun name =>
        ⟨.typedef, Listing.shown path name, word.beginLine⟩ := by
  obtain ⟨b', l', hrecord, hagrees, hkept', hentries⟩ :=
    h.recordAll (by simpa using hnames : ∀ name ∈ d.names.reverse, _) word.beginLine
  refine ⟨b', l', ?_, hagrees, hkept.trans hkept', hentries⟩
  refine passes_of_declaration (hword.not_isEof (by decide)) hstop (by simp) fun before rest _ => ?_
  have hbody : b.declaration before word ⟨some word, tokens ++ rest⟩ =
      b.typedefBody word.beginLine ⟨some word, tokens ++ rest⟩ := by
    simp [declaration, hword.is, hword.2]
  rw [hbody, typedefBody, hd]
  simp only [bind, Except.bind, hrecord]
  rfl

end Builder
end SourceOutline
