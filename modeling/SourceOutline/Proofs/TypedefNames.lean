import Mathlib.Data.List.Infix
import SourceOutline.Proofs.TypedefBody

/-! The names that a typedef declares.
The name of a declarator is found without a look at its square brackets: it is the last identifier
outside of parentheses, or the first one after an operator of pointers in parentheses. So it is the
declared name as long as the brackets of the typedef hold nothing that is mistaken for it. -/
namespace SourceOutline

/-! The language of typedefs. The careful ones have nothing in their brackets that is mistaken for the
name of a declarator, and open no angle bracket in square ones. -/

def startsPointer : List Token → Bool
  | op :: t :: _ =>
    (op.isSymbol "*" || op.isSymbol "&" || op.isSymbol "^") && t.is .identifier
  | _ => false

/-- Tokens with all brackets closed, inside of parentheses or not. -/
inductive Bracketed (careful : Bool) : Bool → List Token → Prop
  | nil {inside : Bool} : Bracketed careful inside []
  | token {inside : Bool} {t : Token} {tokens : List Token} (ht : t.isEof = false)
      (hi : t.image ∉ ["(", ")", "[", "]", "\x7b", "\x7d", ";"])
      (hmark : t.image ∈ ["<", ">", ">>", ","] → t.is .punctuator)
      (hcare : careful → inside = false → t.is .identifier = false ∧ t.image ≠ "<")
      (h : Bracketed careful inside tokens) : Bracketed careful inside (t :: tokens)
  | parens {inside : Bool} {left right : Token} {inner tokens : List Token}
      (hleft : left.Reads .leftParen "(") (hinner : Bracketed careful true inner)
      (hcare : careful → inside = false → startsPointer inner = false)
      (hright : right.Reads .rightParen ")") (h : Bracketed careful inside tokens) :
      Bracketed careful inside (left :: (inner ++ right :: tokens))
  | square {inside : Bool} {left right : Token} {inner tokens : List Token}
      (hleft : left.Reads .punctuator "[") (hinner : Bracketed careful inside inner)
      (hright : right.Reads .punctuator "]") (h : Bracketed careful inside tokens) :
      Bracketed careful inside (left :: (inner ++ right :: tokens))
  | block {inside : Bool} {opened closed : Token} {inner tokens : List Token}
      (hopened : opened.Reads .punctuator "\x7b") (hinner : Declarations.Seen .nil inner)
      (hclosed : closed.Reads .punctuator "\x7d") (h : Bracketed careful inside tokens) :
      Bracketed careful inside (opened :: (inner ++ closed :: tokens))

/-- Tokens that close `n` angle brackets, the last of them at their end. -/
inductive Angles (careful : Bool) : Nat → List Token → Prop
  | nil : Angles careful 0 []
  | token {n : Nat} {t : Token} {tokens : List Token} (ht : t.isEof = false)
      (hi : t.image ∉ ["(", ")", "<", ">", ">>", "\x7b", "\x7d"])
      (h : Angles careful (n + 1) tokens) : Angles careful (n + 1) (t :: tokens)
  | opening {n : Nat} {t : Token} {tokens : List Token} (ht : t.Reads .punctuator "<")
      (h : Angles careful (n + 2) tokens) : Angles careful (n + 1) (t :: tokens)
  | closing {n : Nat} {t : Token} {tokens : List Token} (ht : t.Reads .punctuator ">")
      (h : Angles careful n tokens) : Angles careful (n + 1) (t :: tokens)
  | closings {n : Nat} {t : Token} {tokens : List Token} (ht : t.Reads .punctuator ">>")
      (h : Angles careful n tokens) : Angles careful (n + 2) (t :: tokens)
  | parens {n : Nat} {left right : Token} {inner tokens : List Token}
      (hleft : left.Reads .leftParen "(") (hinner : Bracketed careful true inner)
      (hcare : careful → startsPointer inner = false) (hright : right.Reads .rightParen ")")
      (h : Angles careful (n + 1) tokens) :
      Angles careful (n + 1) (left :: (inner ++ right :: tokens))
  | block {n : Nat} {opened closed : Token} {inner tokens : List Token}
      (hopened : opened.Reads .punctuator "\x7b") (hinner : Declarations.Seen .nil inner)
      (hclosed : closed.Reads .punctuator "\x7d") (h : Angles careful (n + 1) tokens) :
      Angles careful (n + 1) (opened :: (inner ++ closed :: tokens))

inductive Specifier (careful : Bool) : List Token → Prop
  | nil : Specifier careful []
  | keyword {t : Token} {word : String} {tokens : List Token} (ht : t.Reads .keyword word)
      (hword : word ∈ Vocabulary.keywords) (hkey : word ∉ ["class", "struct", "union", "enum"])
      (h : Specifier careful tokens) : Specifier careful (t :: tokens)
  | name {t : Token} {name : String} {tokens : List Token} (ht : t.Names name)
      (h : Specifier careful tokens) : Specifier careful (t :: tokens)
  | scope {t : Token} {tokens : List Token} (ht : t.Reads .scope "::")
      (h : Specifier careful tokens) : Specifier careful (t :: tokens)
  | angles {t : Token} {group tokens : List Token} (ht : t.Reads .punctuator "<")
      (hgroup : Angles careful 1 group) (h : Specifier careful tokens) :
      Specifier careful (t :: (group ++ tokens))

inductive Suffixes (careful : Bool) : List Token → Prop
  | nil : Suffixes careful []
  | array {left right : Token} {inner tokens : List Token} (hleft : left.Reads .punctuator "[")
      (hinner : Bracketed careful false inner) (hright : right.Reads .punctuator "]")
      (h : Suffixes careful tokens) : Suffixes careful (left :: (inner ++ right :: tokens))
  | parameters {left right : Token} {inner tokens : List Token} (hleft : left.Reads .leftParen "(")
      (hinner : Bracketed careful true inner) (hcare : careful → startsPointer inner = false)
      (hright : right.Reads .rightParen ")") (h : Suffixes careful tokens) :
      Suffixes careful (left :: (inner ++ right :: tokens))

inductive Declarator (careful : Bool) : String → List Token → Prop
  | plain {name : String} {t : Token} {ops suffixes : List Token}
      (hops : ∀ op ∈ ops, op.Reads .punctuator "*" ∨ op.Reads .punctuator "&") (ht : t.Names name)
      (hsuffixes : Suffixes careful suffixes) : Declarator careful name (ops ++ t :: suffixes)
  | pointer {name : String} {left op t right opened closed : Token} {inner : List Token}
      (hleft : left.Reads .leftParen "(") (hop : op.Reads .punctuator "*") (ht : t.Names name)
      (hright : right.Reads .rightParen ")") (hopened : opened.Reads .leftParen "(")
      (hinner : Bracketed careful true inner) (hclosed : closed.Reads .rightParen ")") :
      Declarator careful name (left :: op :: t :: right :: opened :: (inner ++ [closed]))

inductive DeclaratorList (careful : Bool) : List String → List Token → Prop
  | last {name : String} {stop : Token} {tokens : List Token} (h : Declarator careful name tokens)
      (hstop : stop.Reads .punctuator ";") : DeclaratorList careful [name] (tokens ++ [stop])
  | cons {name : String} {names : List String} {comma : Token} {tokens more : List Token}
      (h : Declarator careful name tokens) (hcomma : comma.Reads .punctuator ",")
      (hmore : DeclaratorList careful names more) :
      DeclaratorList careful (name :: names) (tokens ++ comma :: more)

def declaresClass : List Token → Bool
  | [] => false
  | key :: rest => (EntryKind.ofClassKey? key).isSome &&
      (Cursor.qualifiedName? ⟨some key, rest⟩).any fun r => r.2.rest.head?.any Builder.declares

/-- Classes are mentioned in the tokens, but none is declared. -/
def Mentions (tokens : List Token) : Prop := ∀ us ∈ tokens.tails, declaresClass us = false

instance (tokens : List Token) : Decidable (Mentions tokens) :=
  inferInstanceAs (Decidable (∀ us ∈ tokens.tails, _))

theorem Mentions.of_suffix {tokens more : List Token} (h : Mentions tokens) (hs : more <:+ tokens) :
    Mentions more :=
  fun us hus => h us ((List.mem_tails us tokens).2 (((List.mem_tails us more).1 hus).trans hs))

/-! Names in front of a bracket. -/

def Token.inName (t : Token) : Bool := t.is .identifier || t.is .scope

theorem Token.Reads.inName {t : Token} {kind : TokenKind} {image : String} (h : t.Reads kind image) :
    t.inName = (kind == .identifier || kind == .scope) := by
  rw [Token.inName, h.is, h.is]

def EndsName (tokens : List Token) : Prop := ∃ t ∈ tokens, t.inName = false

theorem EndsName.of_append {front tokens : List Token} (h : EndsName (front ++ tokens))
    (hfront : ∀ t ∈ front, t.inName) : EndsName tokens := by
  obtain ⟨t, ht, hout⟩ := h
  rcases List.mem_append.1 ht with ht | ht
  · rw [hfront t ht] at hout
    cases hout
  · exact ⟨t, ht, hout⟩

theorem EndsName.tail {t : Token} {tokens : List Token} (h : EndsName (t :: tokens))
    (ht : t.inName) : EndsName tokens :=
  EndsName.of_append (show EndsName ([t] ++ tokens) from h) (by simpa using ht)

theorem EndsName.append_left {tokens : List Token} (h : EndsName tokens) (front : List Token) :
    EndsName (front ++ tokens) := by
  obtain ⟨t, ht, hout⟩ := h
  exact ⟨t, List.mem_append_right front ht, hout⟩

theorem EndsName.head?_append {tokens : List Token} (h : EndsName tokens) (rest : List Token) :
    (tokens ++ rest).head? = tokens.head? := by
  obtain ⟨t, ht, -⟩ := h
  cases tokens with
  | nil => cases ht
  | cons u tokens => rfl

namespace Cursor

theorem inName_of_nameFrom {front name : String} {tokens : List Token} {c : Cursor}
    (h : nameFrom front tokens = some (name, c)) :
    ∃ passed, tokens = passed ++ c.rest ∧ ∀ t ∈ passed, t.inName := by
  fun_induction nameFrom front tokens with
  | case1 => cases h
  | case2 front t ht => cases h; exact ⟨[t], rfl, by simp [Token.inName, ht]⟩
  | case3 front t ht s more hs ih =>
    obtain ⟨passed, hmore, hpassed⟩ := ih h
    rw [Bool.and_eq_true] at hs
    exact ⟨t :: s :: passed, by simp [hmore], by simpa [Token.inName, ht, hs.1] using hpassed⟩
  | case4 front t ht s more => cases h; exact ⟨[t], rfl, by simp [Token.inName, ht]⟩
  | case5 => cases h

theorem inName_of_qualifiedName? {before : Option Token} {name : String} {tokens : List Token}
    {c : Cursor} (h : qualifiedName? ⟨before, tokens⟩ = some (name, c)) :
    ∃ passed, tokens = passed ++ c.rest ∧ ∀ t ∈ passed, t.inName := by
  unfold qualifiedName? at h
  cases tokens with
  | nil => cases h
  | cons t tokens =>
    dsimp only at h
    split at h
    · next hscope =>
      obtain ⟨passed, rfl, hpassed⟩ := inName_of_nameFrom h
      exact ⟨t :: passed, rfl, by simpa [Token.inName, hscope] using hpassed⟩
    · exact inName_of_nameFrom h

/-- A name that ends among the tokens is the same whatever stands after them. -/
theorem nameFrom_append_of_ends {tokens : List Token} (h : EndsName tokens) (front : String)
    (rest : List Token) :
    nameFrom front (tokens ++ rest) =
      (nameFrom front tokens).map fun r => (r.1, ⟨r.2.before, r.2.rest ++ rest⟩) := by
  fun_induction nameFrom front tokens with
  | case1 => obtain ⟨u, hu, -⟩ := h; cases hu
  | case2 front t ht =>
    obtain ⟨u, hu, -⟩ := h.tail (by simp [Token.inName, ht])
    cases hu
  | case3 front t ht s more hs ih =>
    have hscope : s.is .scope := (Bool.and_eq_true_iff.1 hs).1
    have hmore := (h.tail (by simp [Token.inName, ht])).tail (by simp [Token.inName, hscope])
    rw [List.cons_append, List.cons_append, nameFrom, hmore.head?_append, if_pos ht, if_pos hs]
    exact ih hmore
  | case4 front t ht s more hs =>
    have hends := h.tail (by simp [Token.inName, ht])
    have hother : ¬ (s.is .scope && (more ++ rest).head?.any (·.is .identifier)) = true := by
      rw [Bool.and_eq_true]
      rintro ⟨hscope, hhead⟩
      rw [(hends.tail (by simp [Token.inName, hscope])).head?_append] at hhead
      exact hs (by simp [hscope, hhead])
    rw [List.cons_append, List.cons_append, nameFrom, if_pos ht, if_neg hother]
    rfl
  | case5 front t more ht =>
    rw [List.cons_append]
    unfold nameFrom
    rw [if_neg ht]
    rfl

theorem qualifiedName?_append_of_ends {tokens : List Token} (h : EndsName tokens)
    (before : Option Token) (rest : List Token) :
    qualifiedName? ⟨before, tokens ++ rest⟩ =
      (qualifiedName? ⟨before, tokens⟩).map fun r => (r.1, ⟨r.2.before, r.2.rest ++ rest⟩) := by
  cases tokens with
  | nil => obtain ⟨u, hu, -⟩ := h; cases hu
  | cons t tokens =>
    unfold qualifiedName?
    dsimp only [List.cons_append]
    split
    · next hscope => exact nameFrom_append_of_ends (h.tail (by simp [Token.inName, hscope])) _ _
    · exact nameFrom_append_of_ends h _ _

end Cursor

/-! The brackets of a typedef as they are followed. -/

/-- Tokens that close `n` parentheses and `a` angle brackets. After the name of a declarator no other
name may follow outside of parentheses, and a comma there ends nothing; before it there is no comma.
Where a pointer to function was met, parentheses are free to begin with another. -/
inductive Closes (named free : Bool) : Nat → Nat → List Token → Prop
  | nil : Closes named free 0 0 []
  | other {n a : Nat} {t : Token} {tokens : List Token} (ht : t.Idle) (hparens : t.image ∉ ["(", ")"])
      (hangles : n = 0 → t.image ∉ ["<", ">", ">>"])
      (hmarks : n = 0 → a = 0 → t.image ∉ [";", ","])
      (hname : named → n = 0 → t.is .identifier = false) (h : Closes named free n a tokens) :
      Closes named free n a (t :: tokens)
  | comma {t : Token} {tokens : List Token} (ht : t.Reads .punctuator ",") (hnamed : named = true)
      (hfree : free = false) (h : Closes named free 0 0 tokens) : Closes named free 0 0 (t :: tokens)
  | key {n a : Nat} {t : Token} {tokens : List Token} (ht : (EntryKind.ofClassKey? t).isSome)
      (hends : EndsName tokens) (h : Closes named free n a tokens) : Closes named free n a (t :: tokens)
  | left {n a : Nat} {t : Token} {tokens : List Token} (ht : t.Reads .leftParen "(")
      (hpointer : n = 0 → free = false → startsPointer tokens = false)
      (h : Closes named free (n + 1) a tokens) : Closes named free n a (t :: tokens)
  | right {n a : Nat} {t : Token} {tokens : List Token} (ht : t.Reads .rightParen ")")
      (h : Closes named free n a tokens) : Closes named free (n + 1) a (t :: tokens)
  | less {a : Nat} {t : Token} {tokens : List Token} (ht : t.Reads .punctuator "<")
      (h : Closes named free 0 (a + 1) tokens) : Closes named free 0 a (t :: tokens)
  | greater {a : Nat} {t : Token} {tokens : List Token} (ht : t.Reads .punctuator ">")
      (h : Closes named free 0 (a - 1) tokens) : Closes named free 0 a (t :: tokens)
  | shift {a : Nat} {t : Token} {tokens : List Token} (ht : t.Reads .punctuator ">>")
      (h : Closes named free 0 (a - 2) tokens) : Closes named free 0 a (t :: tokens)
  | block {n a : Nat} {opened closed : Token} {inner tokens : List Token}
      (hopened : opened.Reads .punctuator "\x7b") (hinner : Declarations.Seen .nil inner)
      (hclosed : closed.Reads .punctuator "\x7d") (h : Closes named free n a tokens) :
      Closes named free n a (opened :: (inner ++ closed :: tokens))

namespace Closes
variable {named free : Bool} {n a : Nat} {t : Token} {tokens : List Token}

theorem tail (h : Closes named free n a (t :: tokens)) (ht : t.inName) :
    Closes named free n a tokens := by
  have hout : ∀ {kind : TokenKind} {image : String}, t.Reads kind image →
      (kind == .identifier || kind == .scope) = false → False := by
    intro kind image hreads hkind
    rw [hreads.inName, hkind] at ht
    cases ht
  cases h with
  | other _ _ _ _ _ h => exact h
  | comma _ _ _ h => exact h
  | key _ _ h => exact h
  | left hreads | right hreads | less hreads | greater hreads | shift hreads | block hreads =>
    exact (hout hreads rfl).elim

theorem of_append {front : List Token} (h : Closes named free n a (front ++ tokens))
    (hfront : ∀ t ∈ front, t.inName) : Closes named free n a tokens := by
  induction front with
  | nil => exact h
  | cons t front ih =>
    obtain ⟨ht, hfront⟩ := List.forall_mem_cons.1 hfront
    exact ih (h.tail ht) hfront

end Closes

namespace Builder
variable {b : Builder} {depth n a : Nat} {d : Declarators} {named free : Bool} {t : Token}
  {tokens more : List Token}

theorem nameAfter_of_closes (h : Closes named free (n + 1) a tokens)
    (hpointer : startsPointer tokens = false) {before : Option Token} {rest : List Token}
    (hsees : Declarators.seesPointer ⟨before, tokens ++ rest⟩) :
    Declarators.nameAfter ⟨before, tokens ++ rest⟩ = none := by
  have hsymbol : ∀ {op : Token} {us : List Token}, Declarators.seesPointer ⟨before, op :: us⟩ →
      (op.isSymbol "*" || op.isSymbol "&" || op.isSymbol "^") = true := by
    intro op us hsees
    cases heof : op.isEof with
    | false => simpa [Declarators.seesPointer, Cursor.sees_cons _ heof] using hsees
    | true =>
      rw [Declarators.seesPointer] at hsees
      simp only [Cursor.sees, Cursor.peek?, List.head?_cons, Option.filter_some, heof] at hsees
      cases hsees
  rcases tokens with _ | ⟨op, _ | ⟨t, tokens⟩⟩
  · cases h
  · -- the one token can only be the closing parenthesis
    have hclosing : op.Reads .rightParen ")" := by
      generalize hus : [op] = us at h
      cases h with
      | right ht h => cases hus; exact ht
      | other _ _ _ _ _ h => cases hus; cases h
      | key _ _ h => cases hus; cases h
      | left _ _ h => cases hus; cases h
      | block => simp at hus
    have hop := hsymbol hsees
    simp [hclosing.isSymbol] at hop
  · have hname : t.is .identifier = false := by
      simpa [startsPointer, hsymbol hsees] using hpointer
    simp [Declarators.nameAfter, hname]

/-- A class key that declares nothing is passed, perhaps with a name. -/
theorem classBody_of_mentions {key : Token} (hkey : (EntryKind.ofClassKey? key).isSome)
    (hends : EndsName tokens) (hm : Mentions (key :: (tokens ++ more))) (kind : EntryKind) (line : Nat)
    (before : Option Token) (rest : List Token) :
    ∃ last passed us, tokens = passed ++ us ∧ (∀ t ∈ passed, t.inName) ∧
      b.classBody kind line before ⟨some key, tokens ++ (more ++ rest)⟩ =
        .ok (b, ⟨last, us ++ (more ++ rest)⟩) := by
  unfold classBody
  split
  · exact ⟨some key, [], tokens, rfl, by simp, rfl⟩
  · rw [Cursor.qualifiedName?_append_of_ends hends]
    cases hname : Cursor.qualifiedName? ⟨some key, tokens⟩ with
    | none => exact ⟨some key, [], tokens, rfl, by simp, rfl⟩
    | some r =>
      obtain ⟨name, last, us⟩ := r
      obtain ⟨passed, rfl, hpassed⟩ := Cursor.inName_of_qualifiedName? hname
      have hus := hends.of_append hpassed
      have hquiet := hm _ ((List.mem_tails _ _).2 (List.suffix_refl _))
      rw [declaresClass, hkey, Cursor.qualifiedName?_append_of_ends hends, hname] at hquiet
      have hpeek : ((Cursor.peek? ⟨last, us ++ (more ++ rest)⟩).any declares) = false := by
        refine Bool.eq_false_iff.2 fun hpeek => ?_
        have hhead := Cursor.any_head?_of_peek? hpeek
        rw [hus.head?_append] at hhead
        simp [hus.head?_append, hhead] at hquiet
      refine ⟨last, passed, us, rfl, hpassed, ?_⟩
      simp [hpeek]

/-- The names that are found do not change, be it before or after the name of a declarator. -/
structure Declarators.Same (named : Bool) (d d' : Declarators) : Prop where
  before : named = false → d'.names = d.names ∧ d'.pointer = d.pointer
  after : named = true → d'.finish.names = d.finish.names

theorem Declarators.Same.refl (named : Bool) (d : Declarators) : d.Same named d :=
  ⟨fun _ => ⟨rfl, rfl⟩, fun _ => rfl⟩

theorem Declarators.Same.trans {d₁ d₂ : Declarators} (h : d.Same named d₁) (h' : d₁.Same named d₂) :
    d.Same named d₂ :=
  ⟨fun hn => ⟨(h'.before hn).1.trans (h.before hn).1, (h'.before hn).2.trans (h.before hn).2⟩,
    fun hn => (h'.after hn).trans (h.after hn)⟩

theorem Declarators.Same.of_eq {d' : Declarators} (hnames : d'.names = d.names)
    (hpointer : d'.pointer = d.pointer) (hlast : named = true → d'.last = d.last) :
    d.Same named d' where
  before _ := ⟨hnames, hpointer⟩
  after hn := by simp only [Declarators.finish, hnames, hpointer, hlast hn]

/-- A step leads over some of the tokens. The others still close all brackets, and the names are
the same. -/
def Narrows (b : Builder) (depth : Nat) (named free : Bool) (d : Declarators) (c : Cursor)
    (tokens behind : List Token) : Prop :=
  ∃ last us d', us <:+ tokens ∧ Closes named free d'.parens d'.angles us ∧ d.Same named d' ∧
    (free = true → d'.pointer.isSome) ∧
    b.declarators depth d c = b.declarators depth d' ⟨last, us ++ behind⟩

section Narrows
variable {behind : List Token} (htop : b.frames.count = depth)
  (hfree : free = true → d.pointer.isSome) (before : Option Token)
include htop hfree

theorem narrows_idle {d' : Declarators} (ht : t.Idle) (hun : b.Unmarked depth d t)
    (hpass : d.pass t ⟨some t, tokens ++ behind⟩ = d') (hsame : d.Same named d')
    (hpointer : d'.pointer = d.pointer) (h : Closes named free d'.parens d'.angles tokens) :
    b.Narrows depth named free d ⟨before, t :: (tokens ++ behind)⟩ tokens behind := by
  refine ⟨some t, tokens, d', List.suffix_refl _, h, hsame, hpointer ▸ hfree, ?_⟩
  rw [declarators_idle ht hun, if_pos htop, hpass]

theorem narrows_other (ht : t.Idle) (hparen : t.image ∉ ["(", ")"])
    (hangle : d.parens = 0 → t.image ∉ ["<", ">", ">>"])
    (hmarks : d.parens = 0 → d.angles = 0 → t.image ∉ [";", ","])
    (hname : named → d.parens = 0 → t.is .identifier = false)
    (h : Closes named free d.parens d.angles tokens) :
    b.Narrows depth named free d ⟨before, t :: (tokens ++ behind)⟩ tokens behind := by
  simp only [List.mem_cons, List.not_mem_nil, or_false, not_or] at hparen hangle hmarks
  have hun : b.Unmarked depth d t := by
    intro _ hp ha
    obtain ⟨hsemicolon, hcomma⟩ := hmarks hp ha
    exact ⟨Token.isSymbol_of_image_ne hsemicolon, Token.isSymbol_of_image_ne hcomma⟩
  by_cases hlast : d.parens = 0 ∧ t.is .identifier
  · have hsame : d.Same named { d with last := some t.image } := by
      refine .of_eq rfl rfl fun hn => ?_
      have hnot := hname hn hlast.1
      rw [hlast.2] at hnot
      cases hnot
    refine narrows_idle htop hfree before ht hun ?_ hsame rfl h
    simp [Declarators.pass, hparen, hangle hlast.1, hlast]
  · refine narrows_idle htop hfree before ht hun ?_ (.refl named d) rfl h
    by_cases hp : d.parens = 0
    · have hidentifier : t.is .identifier = false := by simpa [hp] using hlast
      simp [Declarators.pass, hparen, hangle hp, hidentifier]
    · simp [Declarators.pass, hparen, hp]

theorem narrows_bracket {kind : TokenKind} {image : String} {p q : Nat} (ht : t.Reads kind image)
    (hidle : kind ≠ .eof ∧ (kind ≠ .keyword ∨ image ∉ ["class", "struct", "union"]) ∧
      image ≠ "\x7b" ∧ image ≠ "\x7d") (hmarks : image ≠ ";" ∧ image ≠ ",")
    (hpass : d.pass t ⟨some t, tokens ++ behind⟩ = { d with parens := p, angles := q })
    (h : Closes named free p q tokens) :
    b.Narrows depth named free d ⟨before, t :: (tokens ++ behind)⟩ tokens behind :=
  narrows_idle htop hfree before (ht.idle hidle) (unmarked_of_image (ht.2 ▸ hmarks)) hpass
    (.of_eq rfl rfl fun _ => rfl) rfl h

theorem narrows_left (ht : t.Reads .leftParen "(")
    (hpointer : d.parens = 0 → free = false → startsPointer tokens = false)
    (h : Closes named free (d.parens + 1) d.angles tokens) :
    b.Narrows depth named free d ⟨before, t :: (tokens ++ behind)⟩ tokens behind := by
  refine narrows_bracket htop hfree before ht (by decide) (by decide) ?_ h
  unfold Declarators.pass
  simp only [ht.2, if_true]
  split
  · next hif =>
    -- where a pointer to function could begin, there is none
    simp only [Bool.and_eq_true, decide_eq_true_eq] at hif
    obtain ⟨⟨hp, hsees⟩, hnone⟩ := hif
    have hpointed := Option.isNone_iff_eq_none.1 hnone
    have hcalm : free = false := by
      refine eq_false_of_ne_true fun hf => ?_
      have hsome := hfree hf
      rw [hpointed] at hsome
      cases hsome
    rw [nameAfter_of_closes h (hpointer hp hcalm) hsees, hpointed]
  · rfl

theorem narrows_block {closed : Token} {inner : List Token} (ht : t.Reads .punctuator "\x7b")
    (hinner : Declarations.Seen .nil inner) (hclosed : closed.Reads .punctuator "\x7d")
    (h : Closes named free d.parens d.angles tokens) :
    b.Narrows depth named free d ⟨before, t :: (inner ++ closed :: tokens ++ behind)⟩
      (inner ++ closed :: tokens) behind := by
  refine ⟨some closed, tokens, d, ⟨inner ++ [closed], by simp⟩, h, .refl named d, hfree, ?_⟩
  rw [List.append_assoc, List.cons_append]
  exact declarators_block ht hinner hclosed (Nat.le_of_eq htop.symm) before _

end Narrows

theorem narrows_key (hkey : (EntryKind.ofClassKey? t).isSome) (hends : EndsName tokens)
    (hm : Mentions (t :: (tokens ++ more))) (h : Closes named free d.parens d.angles tokens)
    (hfree : free = true → d.pointer.isSome) (before : Option Token) (rest : List Token) :
    b.Narrows depth named free d ⟨before, t :: (tokens ++ (more ++ rest))⟩ tokens
      (more ++ rest) := by
  obtain ⟨kind, hkind⟩ := Option.isSome_iff_exists.1 hkey
  obtain ⟨last, passed, us, rfl, hpassed, hbody⟩ :=
    classBody_of_mentions (b := b) hkey hends hm kind t.beginLine before rest
  refine ⟨last, us, d, List.suffix_append _ _, h.of_append hpassed, .refl named d, hfree, ?_⟩
  rw [declarators_classKey hkind, hbody]
  rfl

theorem narrows_comma {behind : List Token} (htop : b.frames.count = depth)
    (ht : t.Reads .punctuator ",") (hparens : d.parens = 0) (hangles : d.angles = 0)
    (h : Closes true false 0 0 tokens) (before : Option Token) :
    b.Narrows depth true false d ⟨before, t :: (tokens ++ behind)⟩ tokens behind := by
  have hclosed : Closes true false d.finish.parens d.finish.angles tokens := by
    rwa [show d.finish.parens = 0 from hparens, show d.finish.angles = 0 from hangles]
  exact ⟨some t, tokens, d.finish, List.suffix_refl _, hclosed,
    ⟨fun hn => (by cases hn), fun _ => rfl⟩, fun hf => (by cases hf),
    declarators_comma ht htop hparens hangles before _⟩

theorem declarators_step (hc : Closes named free n a (t :: tokens))
    (hm : Mentions (t :: (tokens ++ more))) (htop : b.frames.count = depth) (hparens : d.parens = n)
    (hangles : d.angles = a) (hfree : free = true → d.pointer.isSome) (before : Option Token)
    (rest : List Token) :
    b.Narrows depth named free d ⟨before, t :: (tokens ++ (more ++ rest))⟩ tokens
      (more ++ rest) := by
  generalize hts : t :: tokens = ts at hc
  cases hc with
  | nil => cases hts
  | other ht hparen hangle hmarks hname h =>
    cases hts
    subst hparens hangles
    exact narrows_other htop hfree before ht hparen hangle hmarks hname h
  | comma ht hnamed hnone h =>
    cases hts
    subst hnamed hnone
    exact narrows_comma htop ht hparens hangles h before
  | key hkey hends h =>
    cases hts
    subst hparens hangles
    exact narrows_key hkey hends hm h hfree before rest
  | left ht hpointer h =>
    cases hts
    subst hparens hangles
    exact narrows_left htop hfree before ht hpointer h
  | right ht h =>
    cases hts
    exact narrows_bracket htop hfree before ht (by decide) (by decide)
      (by simp [Declarators.pass, ht.2, hparens, ← hangles]) h
  | less ht h | greater ht h | shift ht h =>
    cases hts
    exact narrows_bracket htop hfree before ht (by decide) (by decide)
      (by simp [Declarators.pass, ht.2, hparens, hangles]) h
  | block hopened hinner hclosed h =>
    cases hts
    subst hparens hangles
    exact narrows_block htop hfree before hopened hinner hclosed h

/-- Tokens that close all brackets are passed, and the names stay as they are. -/
theorem declarators_closes (hc : Closes named free n a tokens) (hm : Mentions (tokens ++ more))
    (htop : b.frames.count = depth) (hparens : d.parens = n) (hangles : d.angles = a)
    (hfree : free = true → d.pointer.isSome) (before : Option Token) (rest : List Token) :
    ∃ last d', d'.parens = 0 ∧ d'.angles = 0 ∧ d.Same named d' ∧
      b.declarators depth d ⟨before, tokens ++ (more ++ rest)⟩ =
        b.declarators depth d' ⟨last, more ++ rest⟩ := by
  -- a class key may take its name with it, so the induction is on the length
  induction hlength : tokens.length using Nat.strong_induction_on generalizing n a tokens d before with
  | _ length ih =>
    cases tokens with
    | nil =>
      cases hc
      exact ⟨before, d, hparens, hangles, .refl named d, rfl⟩
    | cons t tokens =>
      obtain ⟨mid, us, d₁, ⟨front, rfl⟩, hus, hsame, hfree₁, hstep⟩ :=
        declarators_step hc hm htop hparens hangles hfree before rest
      have hshorter : us.length < length := by
        rw [← hlength, List.length_cons, List.length_append]
        omega
      have hsuffix : us ++ more <:+ t :: (front ++ us) ++ more := ⟨t :: front, by simp⟩
      obtain ⟨last, d', hparens', hangles', hsame', hrun⟩ := ih us.length hshorter hus
        (hm.of_suffix hsuffix) rfl rfl hfree₁ mid rfl
      exact ⟨last, d', hparens', hangles', hsame.trans hsame', hstep.trans hrun⟩

end Builder

/-! Typedefs close their brackets. -/

theorem endsName_of_reads {t : Token} {kind : TokenKind} {image : String} (h : t.Reads kind image)
    (hkind : (kind == .identifier || kind == .scope) = false) (tokens : List Token) :
    EndsName (t :: tokens) :=
  ⟨t, List.mem_cons_self, h.inName.trans hkind⟩

theorem startsPointer_append {right : Token} (h : right.Reads .rightParen ")")
    (inner tokens : List Token) : startsPointer (inner ++ right :: tokens) = startsPointer inner := by
  rcases inner with _ | ⟨op, _ | ⟨t, inner⟩⟩
  · cases tokens <;> simp [startsPointer, h.isSymbol]
  · simp [startsPointer, h.is]
  · rfl

namespace Closes
variable {named free : Bool} {n a : Nat} {t : Token} {tokens : List Token}

theorem plain (ht : t.Idle) (hi : t.image ∉ ["(", ")", "<", ">", ">>", ";", ","])
    (hname : named = true → n = 0 → t.is .identifier = false) (h : Closes named free n a tokens) :
    Closes named free n a (t :: tokens) := by
  simp only [List.mem_cons, List.not_mem_nil, or_false, not_or] at hi
  exact .other ht (by simp [hi]) (fun _ => by simp [hi]) (fun _ _ => by simp [hi]) hname h

theorem square {image : String} (ht : t.Reads .punctuator image) (hi : image = "[" ∨ image = "]")
    (h : Closes named free n a tokens) : Closes named free n a (t :: tokens) := by
  refine .plain (ht.idle ?_) ?_ (fun _ _ => by simp [ht.is]) h
  · rcases hi with rfl | rfl <;> decide
  · rw [ht.2]
    rcases hi with rfl | rfl <;> decide

end Closes

theorem Bracketed.closes {named free inside : Bool} {n a : Nat} {inner tokens : List Token}
    (h : Bracketed true inside inner) (hin : inside = true → 0 < n)
    (hout : inside = false → n = 0 ∧ a = 0 ∧ named = true ∧ free = false) (hends : EndsName tokens)
    (hts : Closes named free n a tokens) : Closes named free n a (inner ++ tokens) := by
  induction h generalizing n a tokens with
  | nil => exact hts
  | @token inside t inner ht hi hmark hcare h ih =>
    have hrest := ih hin hout hends hts
    cases hkey : EntryKind.ofClassKey? t with
    | some kind => exact .key (by simp [hkey]) (hends.append_left inner) hrest
    | none =>
      simp only [List.mem_cons, List.not_mem_nil, or_false, not_or] at hi
      have hidle : t.Idle := ⟨ht, hkey, hi.2.2.2.2.1, hi.2.2.2.2.2.1⟩
      cases inside with
      | true =>
        have hn : n ≠ 0 := Nat.ne_of_gt (hin rfl)
        exact .other hidle (by simp [hi]) (fun h => absurd h hn) (fun h => absurd h hn)
          (fun _ h => absurd h hn) hrest
      | false =>
        obtain ⟨rfl, rfl, rfl, rfl⟩ := hout rfl
        obtain ⟨hname, hless⟩ := hcare rfl rfl
        have hpunctuator : t.image ∈ [">", ">>", ","] → t.kind = .punctuator := by
          intro himage
          simpa [Token.is] using hmark (List.mem_cons_of_mem _ himage)
        by_cases hcomma : t.image = ","
        · exact .comma ⟨hpunctuator (by simp [hcomma]), hcomma⟩ rfl rfl hrest
        by_cases hgreater : t.image = ">"
        · exact .greater ⟨hpunctuator (by simp [hgreater]), hgreater⟩ hrest
        by_cases hshift : t.image = ">>"
        · exact .shift ⟨hpunctuator (by simp [hshift]), hshift⟩ hrest
        · exact .other hidle (by simp [hi]) (fun _ => by simp [hless, hgreater, hshift])
            (fun _ _ => by simp [hi, hcomma]) (fun _ _ => hname) hrest
  | @parens inside left right inner after hleft hinner hcare hright h ihinner ih =>
    have hrest := Closes.right hright (ih hin hout hends hts)
    have hgroup := ihinner (fun _ => Nat.succ_pos n) (by simp)
      (endsName_of_reads hright rfl _) hrest
    rw [List.cons_append, List.append_assoc, List.cons_append]
    refine .left hleft (fun hn _ => ?_) hgroup
    rw [startsPointer_append hright]
    cases inside with
    | true => exact absurd hn (Nat.ne_of_gt (hin rfl))
    | false => exact hcare rfl rfl
  | @square inside left right inner after hleft hinner hright h ihinner ih =>
    have hrest := Closes.square hright (.inr rfl) (ih hin hout hends hts)
    rw [List.cons_append, List.append_assoc, List.cons_append]
    exact .square hleft (.inl rfl) (ihinner hin hout (endsName_of_reads hright rfl _) hrest)
  | @block inside opened closed inner after hopened hinner hclosed h ih =>
    rw [List.cons_append, List.append_assoc, List.cons_append]
    exact .block hopened hinner hclosed (ih hin hout hends hts)

theorem Closes.parens {named free : Bool} {n a : Nat} {left right : Token} {inner tokens : List Token}
    (hleft : left.Reads .leftParen "(") (hinner : Bracketed true true inner)
    (hpointer : n = 0 → free = false → startsPointer inner = false)
    (hright : right.Reads .rightParen ")") (h : Closes named free n a tokens) :
    Closes named free n a (left :: (inner ++ right :: tokens)) := by
  have hgroup := hinner.closes (fun _ => Nat.succ_pos n) (by simp)
    (endsName_of_reads hright rfl _) (.right hright h)
  exact .left hleft (fun hn hf => (startsPointer_append hright _ _).trans (hpointer hn hf)) hgroup

theorem Angles.endsName {careful : Bool} {n : Nat} {group : List Token} (h : Angles careful n group)
    (hn : 0 < n) : EndsName group := by
  induction h with
  | nil => cases hn
  | token _ _ _ ih => exact (ih hn).append_left [_]
  | opening ht | closing ht | closings ht | parens ht | block ht => exact endsName_of_reads ht rfl _

theorem Angles.closes {n : Nat} {group tokens : List Token} (h : Angles true n group)
    (hts : Closes false false 0 0 tokens) : Closes false false 0 n (group ++ tokens) := by
  induction h with
  | nil => exact hts
  | @token n t group ht hi h ih =>
    cases hkey : EntryKind.ofClassKey? t with
    | some kind =>
      obtain ⟨u, hu, hout⟩ := h.endsName (Nat.succ_pos n)
      exact .key (by simp [hkey]) ⟨u, List.mem_append_left tokens hu, hout⟩ ih
    | none =>
      simp only [List.mem_cons, List.not_mem_nil, or_false, not_or] at hi
      exact .other ⟨ht, hkey, hi.2.2.2.2.2.1, hi.2.2.2.2.2.2⟩ (by simp [hi]) (fun _ => by simp [hi])
        (by simp) (by simp) ih
  | opening ht _ ih => exact .less ht ih
  | closing ht _ ih => exact .greater ht ih
  | closings ht _ ih => exact .shift ht ih
  | parens hleft hinner hcare hright _ ih =>
    simp only [List.cons_append, List.append_assoc]
    exact .parens hleft hinner (fun _ _ => hcare rfl) hright ih
  | block hopened hinner hclosed _ ih =>
    simp only [List.cons_append, List.append_assoc]
    exact .block hopened hinner hclosed ih

theorem Vocabulary.not_mem_keywords :
    ∀ mark ∈ ["(", ")", "<", ">", ">>", ";", ",", "\x7b", "\x7d"], mark ∉ keywords := by
  decide

theorem Specifier.closes {tokens : List Token} (h : Specifier true tokens) :
    Closes false false 0 0 tokens := by
  induction h with
  | nil => exact .nil
  | @keyword t word tokens ht hword hkey _ ih =>
    have hmark : ∀ mark ∈ ["(", ")", "<", ">", ">>", ";", ",", "\x7b", "\x7d"], word ≠ mark := by
      rintro mark hmark rfl
      exact Vocabulary.not_mem_keywords _ hmark hword
    simp only [List.forall_mem_cons] at hmark
    simp only [List.mem_cons, List.not_mem_nil, or_false, not_or] at hkey
    refine .plain (ht.idle ⟨by decide, .inr (by simp [hkey]), ?_⟩) ?_ (by simp) ih
    · simp [hmark]
    · simp [ht.2, hmark]
  | name ht _ ih => exact .plain ht.idle ht.not_mem_brackets (by simp) ih
  | scope ht _ ih =>
    exact .plain (ht.idle (by decide)) (by rw [ht.2]; decide) (by simp) ih
  | angles ht hgroup _ ih => exact .less ht (hgroup.closes ih)

theorem Suffixes.closes {tokens : List Token} (h : Suffixes true tokens) :
    Closes true false 0 0 tokens := by
  induction h with
  | nil => exact .nil
  | array hleft hinner hright _ ih =>
    exact .square hleft (.inl rfl) (hinner.closes (by simp) (fun _ => ⟨rfl, rfl, rfl, rfl⟩)
      (endsName_of_reads hright rfl _) (.square hright (.inr rfl) ih))
  | parameters hleft hinner hcare hright _ ih =>
    exact .parens hleft hinner (fun _ _ => hcare rfl) hright ih

theorem closes_of_operators {ops : List Token}
    (h : ∀ op ∈ ops, op.Reads .punctuator "*" ∨ op.Reads .punctuator "&") :
    Closes false false 0 0 ops := by
  induction ops with
  | nil => exact .nil
  | cons op ops ih =>
    obtain ⟨hop, hops⟩ := List.forall_mem_cons.1 h
    rcases hop with hop | hop <;>
      exact .plain (hop.idle (by decide)) (by rw [hop.2]; decide) (by simp) (ih hops)

theorem Declarator.name_valid {careful : Bool} {name : String} {tokens : List Token}
    (h : Declarator careful name tokens) : ':' ∉ name.toList ∧ name ≠ "" := by
  cases h with
  | plain _ ht _ => exact ⟨ht.not_mem ':' (by decide), ht.ne_empty⟩
  | pointer _ _ ht => exact ⟨ht.not_mem ':' (by decide), ht.ne_empty⟩

theorem DeclaratorList.names_valid {careful : Bool} {names : List String} {tokens : List Token}
    (h : DeclaratorList careful names tokens) : ∀ name ∈ names, ':' ∉ name.toList ∧ name ≠ "" := by
  induction h with
  | last h _ => simpa using h.name_valid
  | cons h _ _ ih => exact List.forall_mem_cons.2 ⟨h.name_valid, ih⟩

namespace Builder
open ScopeTree QualifiedName
variable {b : Builder} {l : Listing} {path : List String} {depth : Nat} {d : Declarators}
  {name : String} {names : List String} {tokens more : List Token}

/-- The name that is found in a declarator is the one that it declares. -/
theorem declarators_declarator (h : Declarator true name tokens) (hm : Mentions (tokens ++ more))
    (htop : b.frames.count = depth) (hparens : d.parens = 0) (hangles : d.angles = 0)
    (hpointer : d.pointer = none) (before : Option Token) (rest : List Token) :
    ∃ last d', d'.parens = 0 ∧ d'.angles = 0 ∧ d'.finish.names = name :: d.names ∧
      b.declarators depth d ⟨before, tokens ++ (more ++ rest)⟩ =
        b.declarators depth d' ⟨last, more ++ rest⟩ := by
  cases h with
  | @plain t ops suffixes hops ht hsuffixes =>
    have hm' : Mentions (ops ++ (t :: suffixes ++ more)) := by simpa using hm
    obtain ⟨mid, d₁, hparens₁, hangles₁, hsame, hrun⟩ := declarators_closes (closes_of_operators hops)
      hm' htop hparens hangles (by simp) before rest
    obtain ⟨hnames₁, hpointer₁⟩ := hsame.before rfl
    have hsuffix : suffixes ++ more <:+ ops ++ (t :: suffixes ++ more) := ⟨ops ++ [t], by simp⟩
    obtain ⟨last, d', hparens', hangles', hsame', hrun'⟩ := declarators_closes
      (d := { d₁ with last := some name }) hsuffixes.closes (hm'.of_suffix hsuffix) htop hparens₁
      hangles₁ (by simp) (some t) rest
    refine ⟨last, d', hparens', hangles', ?_, ?_⟩
    · rw [hsame'.after rfl]
      simp [Declarators.finish, hpointer₁, hpointer, hnames₁]
    · simp only [List.append_assoc, List.cons_append] at hrun hrun' ⊢
      rw [hrun, declarators_name ht htop hparens₁, hrun']
  | @pointer left op t right opened closed inner hleft hop ht hright hopened hinner hclosed =>
    have hpass : d.pass left ⟨some left, op :: t :: right :: opened :: (inner ++ [closed]) ++
        (more ++ rest)⟩ = { d with parens := 1, pointer := some name } := by
      have hsees : ∀ us, Declarators.seesPointer ⟨some left, op :: us⟩ = true := by
        simp [Declarators.seesPointer, Cursor.sees_cons _ (hop.not_isEof (by decide)), hop.isSymbol,
          TokenKind.isLiteral]
      simp [Declarators.pass, hleft.2, hparens, hsees, hpointer, Declarators.nameAfter, ht.is, ht.1.2]
    have hcloses : Closes false true 1 0 (op :: t :: right :: opened :: (inner ++ [closed])) :=
      .plain (hop.idle (by decide)) (by rw [hop.2]; decide) (by simp)
        (.plain ht.idle ht.not_mem_brackets (by simp)
          (.right hright (.parens hopened hinner (by simp) hclosed .nil)))
    obtain ⟨last, d', hparens', hangles', hsame, hrun⟩ := declarators_closes
      (d := { d with parens := 1, pointer := some name }) hcloses
      (hm.of_suffix (List.suffix_cons left _)) htop rfl hangles (fun _ => rfl) (some left) rest
    obtain ⟨hnames', hpointer'⟩ := hsame.before rfl
    refine ⟨last, d', hparens', hangles', ?_, ?_⟩
    · simp [Declarators.finish, hnames', hpointer']
    · have hmarks : left.image ≠ ";" ∧ left.image ≠ "," := by rw [hleft.2]; decide
      rw [List.cons_append, declarators_idle (hleft.idle (by decide)) (unmarked_of_image hmarks),
        if_pos htop, hpass, hrun]

/-- The names of all declarators are found in their order, and the typedef ends at its semicolon. -/
theorem declarators_list (h : DeclaratorList true names tokens) (hm : Mentions tokens)
    (htop : b.frames.count = depth) :
    ∃ stop, stop.Reads .punctuator ";" ∧ ∀ d : Declarators, d.parens = 0 → d.angles = 0 →
      d.pointer = none → ∀ before rest, b.declarators depth d ⟨before, tokens ++ rest⟩ =
        .ok (b, ⟨names.reverse ++ d.names, none, none, 0, 0⟩, ⟨some stop, rest⟩) := by
  have hfinish : ∀ {d : Declarators}, d.parens = 0 → d.angles = 0 →
      d.finish = ⟨d.finish.names, none, none, 0, 0⟩ := by
    intro d hparens hangles
    simp [Declarators.finish, hparens, hangles]
  induction h with
  | @last name stop tokens h hstop =>
    refine ⟨stop, hstop, fun d hparens hangles hpointer before rest => ?_⟩
    obtain ⟨last, d', hparens', hangles', hnames, hrun⟩ :=
      declarators_declarator h hm htop hparens hangles hpointer before rest
    rw [List.append_assoc, hrun, List.singleton_append,
      declarators_stop hstop htop hparens' hangles', hfinish hparens' hangles', hnames]
    rfl
  | @cons name names comma tokens more h hcomma hmore ih =>
    have hsuffix : more <:+ tokens ++ comma :: more := ⟨tokens ++ [comma], by simp⟩
    obtain ⟨stop, hstop, hmore⟩ := ih (hm.of_suffix hsuffix)
    refine ⟨stop, hstop, fun d hparens hangles hpointer before rest => ?_⟩
    obtain ⟨last, d', hparens', hangles', hnames, hrun⟩ :=
      declarators_declarator h hm htop hparens hangles hpointer before rest
    have hnext := hmore d'.finish hparens' hangles' rfl (some comma) rest
    rw [List.append_assoc, hrun, List.cons_append,
      declarators_comma hcomma htop hparens' hangles', hnext, hnames]
    simp

theorem Agrees.typedefNames {word : Token} {spec decls : List Token} (h : b.Agrees l path)
    (hword : word.Reads .keyword "typedef") (hspec : Specifier true spec)
    (hdecls : DeclaratorList true names decls) (hm : Mentions (spec ++ decls)) :
    ∃ b' l', Passes b (word :: (spec ++ decls)) b' ∧ b'.Agrees l' path ∧ Kept path.length b b' ∧
      l'.entries = l.entries ++ names.map fun name =>
        ⟨.typedef, Listing.shown path name, word.beginLine⟩ := by
  obtain ⟨stop, hstop, hlist⟩ :=
    declarators_list (b := b) hdecls (hm.of_suffix (List.suffix_append spec decls)) rfl
  have hd : ∀ rest, b.declarators b.frames.count .none ⟨some word, spec ++ decls ++ rest⟩ =
      .ok (b, ⟨names.reverse, none, none, 0, 0⟩, ⟨some stop, rest⟩) := by
    intro rest
    obtain ⟨last, d, hparens, hangles, hsame, hrun⟩ := declarators_closes (d := .none) hspec.closes hm
      (b := b) rfl rfl rfl (by simp) (some word) rest
    obtain ⟨hnames, hpointer⟩ := hsame.before rfl
    rw [List.append_assoc, hrun, hlist d hparens hangles hpointer, hnames]
    simp [Declarators.none]
  obtain ⟨b', l', hpasses, hagrees, hkept, hentries⟩ := h.typedef hword hstop hd (.refl _ b)
    (by simpa using hdecls.names_valid)
  exact ⟨b', l', hpasses, hagrees, hkept, by simpa using hentries⟩

end Builder

namespace Outline
open Builder

/-- A careful typedef declares the names of its declarators, in their order, whatever follows it. -/
theorem entries_typedef_names {word : Token} {names : List String} {spec decls : List Token}
    (hword : word.Reads .keyword "typedef") (hspec : Specifier true spec)
    (hdecls : DeclaratorList true names decls) (hm : Mentions (spec ++ decls)) (rest : List Token) :
    let tokens := word :: (spec ++ decls) ++ rest
    let declared : List Entry := names.map fun name => ⟨.typedef, name, word.beginLine⟩
    (∃ (b : Builder) (last : Option Token), start.run (.ofTokens tokens) = b.run ⟨last, rest⟩ ∧
      b.entries.reverse = declared ∧ b.current = ScopeTree.root ∧ b.frames = .empty) ∧
    ((∀ t ∈ rest.head?, t.isEof) →
      ∃ o, (ofTokens tokens).value = .ok o ∧ o.entries = declared) := by
  intro tokens declared
  obtain ⟨b, l, hpasses, hagrees, hkept, hentries⟩ :=
    agrees_start.typedefNames hword hspec hdecls hm
  have hdeclared : b.entries.reverse = declared := by
    rw [hagrees.entries, hentries]
    refine List.map_congr_left fun name hname => ?_
    simp [Listing.shown, (hdecls.names_valid name hname).2]
  refine ⟨?_, fun hrest => ?_⟩
  · obtain ⟨last, -, hrun⟩ := hpasses none rest (by rintro p ⟨⟩)
    exact ⟨b, last, hrun, hdeclared, hkept.current, hkept.frames⟩
  · obtain ⟨o, ho, hsame⟩ := exists_of_passes hpasses hrest
    exact ⟨o, ho, hsame.trans hdeclared⟩

/-- A reference to a template with a class in it, an array, and a pointer to a function that takes
another one. -/
theorem entries_typedef_names_mixed :
    let token := fun kind image => Token.plain kind image (.point .start)
    let keyword := token .keyword
    let name := token .identifier
    let mark := token .punctuator
    let left := token .leftParen "("
    let right := token .rightParen ")"
    let group := [keyword "struct", name "C", mark ",", name "D", mark "<", keyword "int", mark ">>"]
    let spec := keyword "const" :: name "A" :: token .scope "::" :: name "B" :: mark "<" :: (group ++ [])
    let reference := [mark "&"] ++ name "r" :: []
    let array := [] ++ name "a" :: mark "[" :: ([token .integer "3"] ++ mark "]" :: [])
    let pointer := left :: mark "*" :: name "f" :: right :: left ::
      ((keyword "int" :: left :: ([mark "*", name "x"] ++ right :: [])) ++ [right])
    let decls := reference ++ mark "," :: (array ++ mark "," :: (pointer ++ [mark ";"]))
    let tokens := keyword "typedef" :: (spec ++ decls)
    Specifier true spec ∧ DeclaratorList true ["r", "a", "f"] decls ∧ Mentions (spec ++ decls) ∧
      ∃ o, (ofTokens (tokens ++ [token .eof ""])).value = .ok o ∧
        o.entries = [⟨.typedef, "r", 1⟩, ⟨.typedef, "a", 1⟩, ⟨.typedef, "f", 1⟩] := by
  intro token keyword name mark left right group spec reference array pointer decls tokens
  have hreads : ∀ kind image, (token kind image).Reads kind image := fun _ _ => ⟨rfl, rfl⟩
  have hname : ∀ c ∈ ['A', 'B', 'r', 'a', 'f'],
      (name (String.ofList [c])).Names (String.ofList [c]) := by
    have hread : ['A', 'B', 'r', 'a', 'f'].all fun c => decide
        ((Lexeme.token c []).outcome = .ok .identifier ∧ (Lexeme.token c []).taken = [c]) := by
      decide
    intro c hc
    obtain ⟨hkind, htaken⟩ := of_decide_eq_true (List.all_eq_true.1 hread c hc)
    exact ⟨⟨rfl, rfl⟩, c, [], hkind, by simpa using htaken⟩
  have hgroup : Angles true 1 group :=
    .token rfl (by decide) (.token rfl (by decide) (.token rfl (by decide) (.token rfl (by decide)
      (.opening (hreads _ _) (.token rfl (by decide) (.closings (hreads _ _) .nil))))))
  have hspec : Specifier true spec :=
    .keyword (hreads _ _) (by decide) (by decide) (.name (hname 'A' (by decide))
      (.scope (hreads _ _) (.name (hname 'B' (by decide)) (.angles (hreads _ _) hgroup .nil))))
  have hreference : Declarator true "r" reference :=
    .plain (by simpa using .inr (hreads _ _)) (hname 'r' (by decide)) .nil
  have harray : Declarator true "a" array :=
    .plain (by simp) (hname 'a' (by decide)) (.array (hreads _ _)
      (.token rfl (by decide) (by decide) (fun _ _ => by decide) .nil) (hreads _ _) .nil)
  have hpointer : Declarator true "f" pointer :=
    have hinner : Bracketed true true [mark "*", name "x"] :=
      .token rfl (by decide) (by decide) (by simp)
        (.token rfl (by decide) (by decide) (by simp) .nil)
    .pointer (hreads _ _) (hreads _ _) (hname 'f' (by decide)) (hreads _ _) (hreads _ _)
      (.token rfl (by decide) (by decide) (by simp)
        (.parens (hreads _ _) hinner (by simp) (hreads _ _) .nil)) (hreads _ _)
  have hdecls : DeclaratorList true ["r", "a", "f"] decls :=
    .cons hreference (hreads _ _) (.cons harray (hreads _ _) (.last hpointer (hreads _ _)))
  have hm : Mentions (spec ++ decls) := by decide +kernel
  refine ⟨hspec, hdecls, hm, ?_⟩
  exact (entries_typedef_names (hreads .keyword "typedef") hspec hdecls hm [token .eof ""]).2 (by decide)

/-- An identifier in the bound of an array is listed in place of the name that is declared. -/
theorem typedef_array_bound_listed :
    let token := fun kind image => Token.plain kind image (.point .start)
    let spec := [token .keyword "int"]
    let decls := [token .identifier "buffer", token .punctuator "[", token .identifier "SIZE",
      token .punctuator "]", token .punctuator ";"]
    Specifier false spec ∧ DeclaratorList false ["buffer"] decls ∧ Mentions (spec ++ decls) ∧
      ∃ o, (ofTokens (token .keyword "typedef" :: (spec ++ decls))).value = .ok o ∧
        o.entries = [⟨.typedef, "SIZE", 1⟩] := by
  intro token spec decls
  have hreads : ∀ kind image, (token kind image).Reads kind image := fun _ _ => ⟨rfl, rfl⟩
  have hbuffer : (token .identifier "buffer").Names "buffer" :=
    ⟨hreads _ _, 'b', ['u', 'f', 'f', 'e', 'r'], by decide, by decide⟩
  have hsize : (token .identifier "SIZE").Names "SIZE" :=
    ⟨hreads _ _, 'S', ['I', 'Z', 'E'], by decide, by decide⟩
  have hspec : Specifier false spec := .keyword (hreads _ _) (by decide) (by decide) .nil
  have hdecls : DeclaratorList false ["buffer"] decls :=
    have hinner : Bracketed false false [token .identifier "SIZE"] :=
      .token rfl (by decide) (by decide) (by simp) .nil
    have hsuffixes : Suffixes false [token .punctuator "[", token .identifier "SIZE",
        token .punctuator "]"] := .array (hreads _ _) hinner (hreads _ _) .nil
    .last (.plain (by simp : ∀ op ∈ [], _) hbuffer hsuffixes) (hreads _ _)
  refine ⟨hspec, hdecls, by decide +kernel, ?_⟩
  have hplain : ∀ {kind : TokenKind} {image : String},
      (kind, image) ∈ [(.keyword, "int"), (.punctuator, "["), (.punctuator, "]")] →
      ∀ {d : Declarators} (before : Option Token) (rest : List Token),
        start.declarators start.frames.count d ⟨before, token kind image :: rest⟩ =
          start.declarators start.frames.count d ⟨some (token kind image), rest⟩ := by
    intro kind image hmem d
    simp only [List.mem_cons, List.not_mem_nil, or_false, Prod.mk.injEq] at hmem
    rcases hmem with ⟨rfl, rfl⟩ | ⟨rfl, rfl⟩ | ⟨rfl, rfl⟩ <;>
      exact declarators_plain ((hreads _ _).idle (by decide)) (by decide) rfl rfl
  have hd : ∀ rest, start.declarators start.frames.count .none
      ⟨some (token .keyword "typedef"), spec ++ decls ++ rest⟩ =
        .ok (start, ⟨["SIZE"], none, none, 0, 0⟩, ⟨some (token .punctuator ";"), rest⟩) := by
    intro rest
    calc
      _ = _ := hplain (by decide) _ _
      _ = _ := declarators_name hbuffer rfl rfl _ _
      _ = _ := hplain (by decide) _ _
      _ = _ := declarators_name hsize rfl rfl _ _
      _ = _ := hplain (by decide) _ _
      _ = _ := declarators_stop (hreads _ _) rfl rfl rfl _ _
  obtain ⟨b, l, hpasses, hagrees, -, hentries⟩ := agrees_start.typedef (hreads .keyword "typedef")
    (hreads _ _) hd (.refl _ _) (by simp)
  obtain ⟨o, ho, hsame⟩ := exists_of_passes hpasses (show ∀ t ∈ ([] : List Token).head?, t.isEof by simp)
  refine ⟨o, ho, ?_⟩
  rw [hsame, hagrees.entries, hentries]
  decide +kernel

end Outline
end SourceOutline
