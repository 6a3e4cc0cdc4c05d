import SourceOutline.Lexer.Lexeme
import SourceOutline.Outline.Entry

/-! The language of declarations that an outline is made for.
Its syntax, the tokens that spell it, and the outline that its declarations are to have. That outline
remembers no scopes, only which names have a scope and which are types, by the names around them. -/
namespace SourceOutline
open Lexeme

inductive Declarations
  | nil
  /-- A namespace with a qualified name. The name of an anonymous one is empty. -/
  | namespaceDef (line : Nat) (names : List String) (body rest : Declarations)
  | classDef (kind : EntryKind) (line : Nat) (name : String) (body rest : Declarations)
  | forward (name : String) (rest : Declarations)
  | enumDef (line : Nat) (name : String) (rest : Declarations)
  | typeAlias (line : Nat) (name : String) (rest : Declarations)

namespace Declarations

def nesting : Declarations → Nat
  | nil => 0
  | namespaceDef _ names body rest => max (names.length + body.nesting) rest.nesting
  | classDef _ _ _ body rest => max (body.nesting + 1) rest.nesting
  | forward _ rest => max 1 rest.nesting
  | enumDef _ _ rest | typeAlias _ _ rest => rest.nesting

end Declarations

/-! The tokens of declarations. -/

def Token.Reads (t : Token) (kind : TokenKind) (image : String) : Prop :=
  t.kind = kind ∧ t.image = image

def Token.Names (t : Token) (name : String) : Prop :=
  t.Reads .identifier name ∧ ∃ c cs, (Lexeme.token c cs).outcome = .ok .identifier ∧
    (Lexeme.token c cs).taken = name.toList

inductive QualifiedBy : List String → List Token → Prop
  | one {t : Token} {name : String} (h : t.Names name) : QualifiedBy [name] [t]
  | cons {t separator : Token} {name : String} {names : List String} {tokens : List Token}
      (h : t.Names name) (hs : separator.Reads .scope "::") (hrest : QualifiedBy names tokens) :
      QualifiedBy (name :: names) (t :: separator :: tokens)

inductive Enumerators : List Token → Prop
  | nil : Enumerators []
  | one {t : Token} {name : String} (h : t.Names name) : Enumerators [t]
  | cons {t comma : Token} {name : String} {tokens : List Token} (h : t.Names name)
      (hc : comma.Reads .punctuator ",") (hrest : Enumerators tokens) :
      Enumerators (t :: comma :: tokens)

structure Target (tokens : List Token) : Prop where
  ne_nil : tokens ≠ []
  eof : ∀ t ∈ tokens, ¬ t.isEof
  marks : ∀ t ∈ tokens, t.image ∉ ["\x7b", "\x7d", ";"]

def EntryKind.classKinds : List EntryKind := [.classDef, .structDef, .unionDef]

namespace Declarations

/-- The tokens that spell declarations. -/
inductive Spells : Declarations → List Token → Prop
  | nil : Spells .nil []
  | namespaceDef {names : List String} {body rest : Declarations} {key opened closed : Token}
      {name inner after : List Token} (hkey : key.Reads .keyword "namespace")
      (hname : names = [""] ∧ name = [] ∨ QualifiedBy names name)
      (hopened : opened.Reads .punctuator "\x7b") (hbody : Spells body inner)
      (hclosed : closed.Reads .punctuator "\x7d") (hrest : Spells rest after) :
      Spells (.namespaceDef key.beginLine names body rest)
        (key :: (name ++ opened :: (inner ++ closed :: after)))
  | classDef {kind : EntryKind} {name : String} {body rest : Declarations}
      {key t opened closed stop : Token} {inner after : List Token}
      (hkind : kind ∈ EntryKind.classKinds) (hkey : key.Reads .keyword kind.keyword)
      (hname : t.Names name) (hopened : opened.Reads .punctuator "\x7b") (hbody : Spells body inner)
      (hclosed : closed.Reads .punctuator "\x7d") (hstop : stop.Reads .punctuator ";")
      (hrest : Spells rest after) :
      Spells (.classDef kind key.beginLine name body rest)
        (key :: t :: opened :: (inner ++ closed :: stop :: after))
  | forward {kind : EntryKind} {name : String} {rest : Declarations} {key t stop : Token}
      {after : List Token} (hkind : kind ∈ EntryKind.classKinds)
      (hkey : key.Reads .keyword kind.keyword) (hname : t.Names name)
      (hstop : stop.Reads .punctuator ";") (hrest : Spells rest after) :
      Spells (.forward name rest) (key :: t :: stop :: after)
  | enumDef {name : String} {rest : Declarations} {key t opened closed stop : Token}
      {words inner after : List Token} (hkey : key.Reads .keyword "enum")
      (hwords : words = [] ∨ ∃ word : Token, word.Reads .keyword "class" ∧ words = [word])
      (hname : t.Names name) (hopened : opened.Reads .punctuator "\x7b")
      (hinner : Enumerators inner) (hclosed : closed.Reads .punctuator "\x7d")
      (hstop : stop.Reads .punctuator ";") (hrest : Spells rest after) :
      Spells (.enumDef key.beginLine name rest)
        (key :: (words ++ t :: opened :: (inner ++ closed :: stop :: after)))
  | typeAlias {name : String} {rest : Declarations} {key t equal stop : Token}
      {target after : List Token} (hkey : key.Reads .keyword "using") (hname : t.Names name)
      (hequal : equal.Reads .punctuator "=") (htarget : Target target)
      (hstop : stop.Reads .punctuator ";") (hrest : Spells rest after) :
      Spells (.typeAlias key.beginLine name rest)
        (key :: t :: equal :: (target ++ stop :: after))

end Declarations

/-! The outline of declarations. -/

/-- Names with the names around them that have a scope and that are types, and the entries so far. -/
structure Listing where
  scopes : List (List String × String)
  types : List (List String × String)
  entries : List Entry

namespace Listing

def empty : Listing := ⟨[], [], []⟩

def shown (path : List String) (name : String) : String :=
  "::".intercalate (path ++ [if name = "" then "(anonymous)" else name])

def record (l : Listing) (kind : EntryKind) (line : Nat) (path : List String) (name : String) :
    Listing :=
  { l with entries := l.entries ++ [⟨kind, shown path name, line⟩] }

def declare (l : Listing) (path : List String) (name : String) : Listing :=
  { l with types := (path, name) :: l.types }

def enter (l : Listing) (path : List String) (name : String) : Listing :=
  { l.declare path name with scopes := (path, name) :: l.scopes }

/-- Each part of a namespace's name that has no scope yet is listed. -/
def enterAll (l : Listing) (line : Nat) (path : List String) : List String → Listing
  | [] => l
  | name :: names =>
    let next := if (path, name) ∈ l.scopes then l else l.record .namespaceDef line path name
    (next.enter path name).enterAll line (path ++ [name]) names

end Listing

/-- The outline of declarations inside the scopes `path`, after the one so far. -/
def Declarations.listing : Declarations → List String → Listing → Listing
  | nil, _, l => l
  | namespaceDef line names body rest, path, l =>
    rest.listing path (body.listing (path ++ names) (l.enterAll line path names))
  | classDef kind line name body rest, path, l =>
    rest.listing path
      (body.listing (path ++ [name]) ((l.enter path name).record kind line path name))
  | forward name rest, path, l => rest.listing path (l.enter path name)
  | enumDef line name rest, path, l =>
    rest.listing path (if (path, name) ∈ l.types then l
      else (l.declare path name).record .enumDef line path name)
  | typeAlias line name rest, path, l =>
    rest.listing path ((l.declare path name).record .typeAlias line path name)

/-! What the names are. -/

theorem Lexeme.outcome_quoted_ne (opening : List Char) (quote : Char) (cs : List Char) :
    (quoted opening quote cs).outcome ≠ .ok .identifier := by
  unfold quoted literalKind
  dsimp only
  split
  · simp
  · split
    · split <;> simp
    · simp

theorem Lexeme.outcome_raw_ne (opening cs : List Char) :
    (raw opening cs).outcome ≠ .ok .identifier := by
  unfold raw rawBody
  dsimp only
  split
  · split <;> simp
  · simp

theorem Lexeme.symbols_ne_identifier : ∀ s ∈ symbols, s.2 ≠ .identifier := by decide

theorem Lexeme.numberKind_ne (image : List Char) : numberKind image ≠ .identifier := by
  unfold numberKind
  dsimp only
  generalize (_ || _) = floating
  cases floating <;> simp

theorem Lexeme.part_of_word {cs : List Char} (h : (word cs).outcome = .ok .identifier) :
    ∀ x ∈ (word cs).taken, isIdentifierPart x := by
  have hpart : ∀ x ∈ cs.takeWhile isIdentifierPart, isIdentifierPart x :=
    List.all_eq_true.1 List.all_takeWhile
  revert h
  unfold word
  dsimp only
  split
  · exact fun _ => hpart
  · split
    · exact fun h => absurd h (outcome_quoted_ne _ _ _)
    · split
      · exact fun h => absurd h (outcome_raw_ne _ _)
      · exact fun _ => hpart

theorem Lexeme.part_of_token {c : Char} {cs : List Char}
    (h : (token c cs).outcome = .ok .identifier) : ∀ x ∈ (token c cs).taken, isIdentifierPart x := by
  revert h
  unfold token
  split
  · exact fun h => absurd (Except.ok.inj h) (numberKind_ne _)
  · split
    · exact part_of_word
    · split
      · exact fun h => absurd h (outcome_quoted_ne _ _ _)
      · unfold symbol
        split
        · next s hs =>
          have hne := symbols_ne_identifier s (List.mem_of_find?_eq_some hs)
          exact fun h => absurd (Except.ok.inj h) hne
        · exact fun h => nomatch h

namespace Token
variable {t : Token} {name : String}

theorem Names.ne_empty (h : t.Names name) : name ≠ "" := by
  obtain ⟨-, c, cs, hkind, htaken⟩ := h
  rintro rfl
  exact token_taken_ne_nil hkind htaken

/-- No mark is part of a name. -/
theorem Names.not_mem (h : t.Names name) (mark : Char) (hm : isIdentifierPart mark = false) :
    mark ∉ name.toList := by
  obtain ⟨-, c, cs, hkind, htaken⟩ := h
  intro hmem
  have hpart := part_of_token hkind mark (htaken ▸ hmem)
  rw [hm] at hpart
  cases hpart

theorem Names.ne_of_mem (h : t.Names name) (mark : Char) (hm : isIdentifierPart mark = false)
    {text : String} (htext : mark ∈ text.toList) : t.image ≠ text := by
  rintro rfl
  exact h.not_mem mark hm (h.1.2 ▸ htext)

end Token
end SourceOutline
