import SourceOutline.Diagnostic.Reported
import SourceOutline.Outline.Builder
import SourceOutline.Outline.Cursor

/-! The outline of a list of tokens.
Namespaces, classes, enumerations and type names are followed; all else is passed over, but for its
braces, so that every scope ends at its own brace. -/
namespace SourceOutline

/-- The scopes of a text and its declarations in order. -/
structure Outline where
  tree : ScopeTree
  entries : List Entry

/-- The builder after a declaration and the tokens after it. -/
abbrev Outlined := Except Halted (Builder × Cursor)

namespace Builder

/-- Follows a token that is part of no declaration. -/
def passToken (b : Builder) (t : Token) : Builder :=
  if t.image = "\x7b" then b.openBrace
  else if t.image = "\x7d" then b.closeBrace t
  else b

/-- Passes a statement: through the semicolon at the depth of `depth` braces. -/
def skipFrom (b : Builder) (depth : Nat) (before : Option Token) : List Token → Builder × Cursor
  | [] => (b, ⟨before, []⟩)
  | t :: rest =>
    if t.isEof then (b, ⟨before, t :: rest⟩)
    else if t.image = ";" && b.frames.count = depth then (b, ⟨some t, rest⟩)
    else skipFrom (b.passToken t) depth (some t) rest

def skipStatement (b : Builder) (c : Cursor) : Builder × Cursor :=
  b.skipFrom b.frames.count c.before c.rest

/-- Enters the parts of a namespace's name one inside the other. -/
def enterAll (b : Builder) (line : Nat) : List String → Except Halted Builder
  | [] => .ok b
  | name :: names => do
    let e ← b.enter b.current name
    let b ← if e.reopened then pure e.builder
      else e.builder.recordScope .namespaceDef e.scope line
    enterAll { b with current := e.scope } line names

def namespaceParts (name : String) : List String :=
  (QualifiedName.segments (QualifiedName.dropSeparators name.toList)).map String.ofList

/-- A namespace after its keyword. An alias of a namespace is passed over. -/
def namespaceBody (b : Builder) (line : Nat) (c : Cursor) : Outlined :=
  let named := c.qualifiedName?.getD ("", c)
  let c := named.2
  if c.sees "=" then .ok (b.skipStatement c.advance)
  else if c.sees "\x7b" then do
    let inner ← b.enterAll line (namespaceParts named.1)
    return ({ inner with frames := inner.frames.push (.scope b.current) }, c.advance)
  else .ok (b, c)

/-- The scope that a class is declared in, and its own name. A qualifier that is not found is
ignored. -/
def owner (b : Builder) (name : String) : Except Halted (ScopeId × String) :=
  match QualifiedName.cutLast? name.toList with
  | none => .ok (b.current, name)
  | some (qualifier, last) => do
    let scope ← if qualifier.isEmpty then pure (some ScopeTree.root)
      else b.lift name (b.tree.find b.current (String.ofList qualifier))
    return (scope.getD b.current, String.ofList last)

/-- Whether a class name in front of `next` is being declared. -/
def declares (next : Token) : Bool :=
  next.isSymbol "\x7b" || next.isSymbol ";" || next.isSymbol ":" || next.isIdentifier "final"

/-- Enters a class at its opening brace. -/
def enterClass (b : Builder) (kind : EntryKind) (line : Nat) (parent : ScopeId) (name : String) :
    Except Halted Builder := do
  let e ← b.enter parent name
  let inner ← e.builder.recordScope kind e.scope line
  return { inner with frames := inner.frames.push (.scope b.current), current := e.scope }

/-- A forward declaration opens a scope unless there is one already. -/
def forward (b : Builder) (parent : ScopeId) (name : String) : Except Halted Builder := do
  match ← b.lift name (b.tree.child parent name) with
  | some _ => return b
  | none => return (← b.enter parent name).builder

/-- A class after its keyword, which `before` precedes. In a list of template parameters the keyword
declares nothing. -/
def classBody (b : Builder) (kind : EntryKind) (line : Nat) (before : Option Token) (c : Cursor) :
    Outlined :=
  if before.any fun p => p.isSymbol "<" || p.isSymbol "," then .ok (b, c)
  else
    match c.qualifiedName? with
    | none => .ok (b, c)
    | some (name, c) =>
      if c.peek?.any declares then do
        let (parent, last) ← b.owner name
        if c.sees ";" then return (← b.forward parent last, c.advance)
        else
          let body := c.skipUntil fun t => t.isSymbol "\x7b" || t.isSymbol ";"
          if body.sees "\x7b" then return (← b.enterClass kind line parent last, body.advance)
          else return (b, body.advance)
      else .ok (b, c)

/-- An enumeration after its keyword. Its body is a plain block. -/
def enumBody (b : Builder) (line : Nat) (c : Cursor) : Outlined :=
  let c := if c.sees "class" then c.advance else c.eat "struct"
  match c.qualifiedName? with
  | none => .ok (b, c)
  | some (name, c) =>
    if QualifiedName.isQualified name then .ok (b, c)
    else if c.sees "\x7b" || c.sees ":" then do
      if ← b.lift name (b.tree.hasType b.current name) then return (b, c)
      else return (← b.recordType .enumDef name line, c)
    else .ok (b, c)

/-- The names found so far in a typedef, last one first, and the brackets that are open. -/
structure Declarators where
  names : List String
  last : Option String
  /-- The name of a pointer to function, in parentheses. -/
  pointer : Option String
  parens : Nat
  angles : Nat

namespace Declarators

def none : Declarators := ⟨[], .none, .none, 0, 0⟩

/-- Closes one declarator. -/
def finish (d : Declarators) : Declarators :=
  { d with
    names := (d.pointer.or d.last).toList ++ d.names
    pointer := .none
    last := .none }

/-- Whether the next token is an operator of pointers. -/
def seesPointer (c : Cursor) : Bool := c.sees "*" || c.sees "&" || c.sees "^"

/-- The identifier after the next token. -/
def nameAfter (c : Cursor) : Option String :=
  match c.rest with
  | _ :: t :: _ => if t.is .identifier then some t.image else .none
  | _ => .none

/-- Follows a token of the declarators themselves; `c` stands after it. -/
def pass (d : Declarators) (t : Token) (c : Cursor) : Declarators :=
  if t.image = "(" then
    let opened := { d with parens := d.parens + 1 }
    if d.parens = 0 && seesPointer c && d.pointer.isNone then
      { opened with pointer := nameAfter c }
    else opened
  else if t.image = ")" then { d with parens := d.parens - 1 }
  else if d.parens = 0 then
    if t.image = "<" then { d with angles := d.angles + 1 }
    else if t.image = ">" then { d with angles := d.angles - 1 }
    else if t.image = ">>" then { d with angles := d.angles - 2 }
    else if t.is .identifier then { d with last := some t.image }
    else d
  else d

end Declarators

/-- The rest of a statement never lies before its start. -/
def Within (c : Cursor) (r : Outlined) : Prop :=
  ∀ b d, r = .ok (b, d) → d.rest.length ≤ c.rest.length

theorem within_ok {b : Builder} {c d : Cursor} (h : d.rest.length ≤ c.rest.length) :
    Within c (.ok (b, d)) := by
  intro b' d' heq
  cases heq
  exact h

theorem within_bind {α : Type} {c : Cursor} (r : Except Halted α) {f : α → Outlined}
    (h : ∀ a, Within c (f a)) : Within c (r >>= f) := by
  intro b d heq
  cases r with
  | error e => cases heq
  | ok a => exact h a b d heq

theorem length_skipFrom_le (b : Builder) (depth : Nat) (before : Option Token)
    (rest : List Token) : (b.skipFrom depth before rest).2.rest.length ≤ rest.length := by
  induction rest generalizing b before with
  | nil => exact Nat.le_refl _
  | cons t rest ih =>
    unfold skipFrom
    split
    · exact Nat.le_refl _
    · split
      · exact Nat.le_succ _
      · exact Nat.le_succ_of_le (ih _ _)

theorem length_skipStatement_le (b : Builder) (c : Cursor) :
    (b.skipStatement c).2.rest.length ≤ c.rest.length :=
  length_skipFrom_le _ _ _ _

theorem within_namespaceBody (b : Builder) (line : Nat) (c : Cursor) :
    Within c (b.namespaceBody line c) := by
  have hn : (c.qualifiedName?.getD ("", c)).2.rest.length ≤ c.rest.length := by
    cases h : c.qualifiedName? with
    | none => exact Nat.le_refl _
    | some r => exact Nat.le_of_lt (Cursor.length_qualifiedName?_lt h)
  have ha := (c.qualifiedName?.getD ("", c)).2.length_advance_le
  unfold namespaceBody
  dsimp only
  split
  · exact within_ok (Nat.le_trans (length_skipStatement_le _ _) (Nat.le_trans ha hn))
  · split
    · exact within_bind _ fun _ => within_ok (Nat.le_trans ha hn)
    · exact within_ok hn

theorem within_classBody (b : Builder) (kind : EntryKind) (line : Nat) (before : Option Token)
    (c : Cursor) : Within c (b.classBody kind line before c) := by
  unfold classBody
  split
  · exact within_ok (Nat.le_refl _)
  · split
    · exact within_ok (Nat.le_refl _)
    · next name d hd =>
      have hlt := Nat.le_of_lt (Cursor.length_qualifiedName?_lt hd)
      split
      · refine within_bind _ fun p => ?_
        obtain ⟨parent, last⟩ := p
        dsimp only
        split
        · exact within_bind _ fun _ => within_ok (Nat.le_trans d.length_advance_le hlt)
        · have hb := Nat.le_trans (Cursor.length_advance_le _) (Nat.le_trans
            (d.length_skipUntil_le fun t => t.isSymbol "\x7b" || t.isSymbol ";") hlt)
          split
          · exact within_bind _ fun _ => within_ok hb
          · exact within_ok hb
      · exact within_ok hlt

theorem within_enumBody (b : Builder) (line : Nat) (c : Cursor) :
    Within c (b.enumBody line c) := by
  unfold enumBody
  dsimp only
  have hc : (if c.sees "class" then c.advance else c.eat "struct").rest.length ≤
      c.rest.length := by
    split
    · exact c.length_advance_le
    · exact c.length_eat_le _
  split
  · exact within_ok hc
  · next name d hd =>
    have hlt := Nat.le_trans (Nat.le_of_lt (Cursor.length_qualifiedName?_lt hd)) hc
    split
    · exact within_ok hlt
    · split
      · refine within_bind _ fun known => ?_
        split
        · exact within_ok hlt
        · exact within_bind _ fun _ => within_ok hlt
      · exact within_ok hlt

/-- The declarators of a typedef that was started at `depth` braces. Classes defined in it are
followed. -/
def declarators (b : Builder) (depth : Nat) (d : Declarators) (c : Cursor) :
    Except Halted (Builder × Declarators × Cursor) :=
  match hr : c.rest with
  | [] => .ok (b, d, c)
  | t :: rest =>
    have shorter : rest.length < c.rest.length := by simp [hr]
    let after : Cursor := ⟨some t, rest⟩
    let atTop := b.frames.count = depth
    if t.isEof then .ok (b, d, c)
    else if atTop && d.parens = 0 && d.angles = 0 && t.isSymbol ";" then .ok (b, d.finish, after)
    else if atTop && d.parens = 0 && d.angles = 0 && t.isSymbol "," then
      declarators b depth d.finish after
    else
      match EntryKind.ofClassKey? t with
      | some kind =>
        match hb : b.classBody kind t.beginLine c.before after with
        | .error h => .error h
        | .ok (inner, next) =>
          have : next.rest.length ≤ rest.length := within_classBody _ _ _ _ _ _ _ hb
          declarators inner depth d next
      | none =>
        if t.image = "\x7b" || t.image = "\x7d" then declarators (b.passToken t) depth d after
        else declarators b depth (if atTop then d.pass t after else d) after
termination_by c.rest.length
decreasing_by
  · exact shorter
  · exact Nat.lt_of_le_of_lt this shorter
  · exact shorter
  · exact shorter

theorem declarators_nil (b : Builder) (depth : Nat) (d : Declarators) (before : Option Token) :
    b.declarators depth d ⟨before, []⟩ = .ok (b, d, ⟨before, []⟩) := by
  rw [declarators]

theorem declarators_of_isEof (b : Builder) (depth : Nat) (d : Declarators)
    (before : Option Token) {t : Token} (h : t.isEof = true) (rest : List Token) :
    b.declarators depth d ⟨before, t :: rest⟩ = .ok (b, d, ⟨before, t :: rest⟩) := by
  rw [declarators]
  simp [h]

theorem declarators_cons (b : Builder) (depth : Nat) (d : Declarators) (before : Option Token)
    {t : Token} (h : t.isEof = false) (rest : List Token) :
    b.declarators depth d ⟨before, t :: rest⟩ =
      if b.frames.count = depth && d.parens = 0 && d.angles = 0 && t.isSymbol ";" then
        .ok (b, d.finish, ⟨some t, rest⟩)
      else if b.frames.count = depth && d.parens = 0 && d.angles = 0 && t.isSymbol "," then
        b.declarators depth d.finish ⟨some t, rest⟩
      else
        match EntryKind.ofClassKey? t with
        | some kind => do
          let (inner, next) ← b.classBody kind t.beginLine before ⟨some t, rest⟩
          inner.declarators depth d next
        | none =>
          if t.image = "\x7b" || t.image = "\x7d" then
            (b.passToken t).declarators depth d ⟨some t, rest⟩
          else b.declarators depth
            (if b.frames.count = depth then d.pass t ⟨some t, rest⟩ else d) ⟨some t, rest⟩ := by
  rw [declarators]
  split
  · next heq => cases heq
  · next heq =>
    cases heq
    simp only [h, Bool.false_eq_true, if_false]
    split
    · rfl
    · split
      · rfl
      · split
        · next kind hk =>
          split
          · next hb => rw [hb]; rfl
          · next hb => rw [hb]; rfl
        · rfl

/-- Declares the names of a typedef and lists them. -/
def recordAll (b : Builder) (line : Nat) : List String → Except Halted Builder
  | [] => .ok b
  | name :: names => do
    let b ← b.recordType .typedef name line
    recordAll b line names

/-- A typedef after its keyword. -/
def typedefBody (b : Builder) (line : Nat) (c : Cursor) : Outlined := do
  let (b, d, c) ← b.declarators b.frames.count .none c
  return (← b.recordAll line d.names.reverse, c)

/-- A type alias after its keyword. Other uses of the keyword are passed over. -/
def aliasBody (b : Builder) (line : Nat) (c : Cursor) : Outlined :=
  match c.peek? with
  | some name =>
    if name.is .identifier && c.advance.sees "=" then
      let passed := b.skipStatement c.advance
      return (← passed.1.recordType .typeAlias name.image line, passed.2)
    else .ok (b.skipStatement c)
  | none => .ok (b.skipStatement c)

theorem length_declarators_le {b : Builder} {depth : Nat} {d : Declarators} {c : Cursor}
    {r : Builder × Declarators × Cursor} (h : b.declarators depth d c = .ok r) :
    r.2.2.rest.length ≤ c.rest.length := by
  fun_induction declarators b depth d c with
  | case1 => cases h; exact Nat.le_refl _
  | case2 => cases h; exact Nat.le_refl _
  | case3 b d c t rest hr shorter => cases h; exact Nat.le_of_lt shorter
  | case4 b d c t rest hr shorter after atTop _ _ _ ih =>
    exact Nat.le_trans (ih h) (Nat.le_of_lt shorter)
  | case5 => cases h
  | case6 b d c t rest hr shorter after atTop _ _ _ kind hk inner next hb hle ih =>
    exact Nat.le_trans (ih h) (Nat.le_trans hle (Nat.le_of_lt shorter))
  | case7 b d c t rest hr shorter after atTop _ _ _ hk hi ih =>
    exact Nat.le_trans (ih h) (Nat.le_of_lt shorter)
  | case8 b d c t rest hr shorter after atTop _ _ _ hk hi ih =>
    exact Nat.le_trans (ih h) (Nat.le_of_lt shorter)

theorem within_typedefBody (b : Builder) (line : Nat) (c : Cursor) :
    Within c (b.typedefBody line c) := by
  intro b' d' heq
  unfold typedefBody at heq
  cases hd : b.declarators b.frames.count .none c with
  | error e => rw [hd] at heq; cases heq
  | ok r =>
    rw [hd] at heq
    have hle := length_declarators_le hd
    obtain ⟨b₁, d, c₁⟩ := r
    exact within_bind (c := c) (b₁.recordAll line d.names.reverse)
      (fun _ => within_ok hle) b' d' heq

theorem within_aliasBody (b : Builder) (line : Nat) (c : Cursor) :
    Within c (b.aliasBody line c) := by
  unfold aliasBody
  split
  · split
    · exact within_bind _ fun _ =>
        within_ok (Nat.le_trans (length_skipStatement_le _ _) c.length_advance_le)
    · exact within_ok (length_skipStatement_le _ _)
  · exact within_ok (length_skipStatement_le _ _)

/-- A declaration, or one token of something else. -/
def declaration (b : Builder) (before : Option Token) (t : Token) (c : Cursor) : Outlined :=
  if t.is .keyword && t.image = "namespace" then b.namespaceBody t.beginLine c
  else if t.is .keyword && t.image = "template" then .ok (b, c.skipAngles)
  else if t.is .keyword && t.image = "enum" then b.enumBody t.beginLine c
  else if t.is .keyword && t.image = "typedef" then b.typedefBody t.beginLine c
  else if t.is .keyword && t.image = "using" then b.aliasBody t.beginLine c
  else
    match EntryKind.ofClassKey? t with
    | some kind =>
      if before.any (·.isSymbol "friend") then .ok (b, c)
      else b.classBody kind t.beginLine before c
    | none => .ok (b.passToken t, c)

theorem within_declaration (b : Builder) (before : Option Token) (t : Token) (c : Cursor) :
    Within c (b.declaration before t c) := by
  unfold declaration
  split
  · exact within_namespaceBody _ _ _
  · split
    · exact within_ok c.length_skipAngles_le
    · split
      · exact within_enumBody _ _ _
      · split
        · exact within_typedefBody _ _ _
        · split
          · exact within_aliasBody _ _ _
          · split
            · split
              · exact within_ok (Nat.le_refl _)
              · exact within_classBody _ _ _ _ _
            · exact within_ok (Nat.le_refl _)

/-- Follows all tokens. -/
def run (b : Builder) (c : Cursor) : Except Halted Builder :=
  match hr : c.rest with
  | [] => .ok b
  | t :: rest =>
    if t.isEof then .ok b
    else
      match h : b.declaration c.before t ⟨some t, rest⟩ with
      | .error e => .error e
      | .ok (next, d) =>
        have : d.rest.length < c.rest.length := by
          rw [hr]
          exact Nat.lt_succ_of_le (within_declaration _ _ _ _ _ _ h)
        run next d
termination_by c.rest.length

theorem run_nil (b : Builder) (before : Option Token) : b.run ⟨before, []⟩ = .ok b := by
  rw [run]

theorem run_of_isEof (b : Builder) (before : Option Token) {t : Token} (h : t.isEof = true)
    (rest : List Token) : b.run ⟨before, t :: rest⟩ = .ok b := by
  rw [run]
  simp [h]

theorem run_eq_bind (b : Builder) (before : Option Token) {t : Token} (h : t.isEof = false)
    (rest : List Token) :
    b.run ⟨before, t :: rest⟩ =
      (b.declaration before t ⟨some t, rest⟩ >>= fun r => r.1.run r.2) := by
  rw [run]
  split
  · next heq => cases heq
  · next heq =>
    cases heq
    simp only [h, Bool.false_eq_true, if_false]
    split
    · next hd => rw [hd]; rfl
    · next hd => rw [hd]; rfl

/-- Reports braces that are still open. -/
def finish (b : Builder) : Builder :=
  if b.frames.count = 0 then b
  else b.log [(Event.warning "Unclosed braces at end of input").withContext
    "open" (toString b.frames.count)]

end Builder

namespace Outline

/-- The outline of tokens, with or without an end mark. -/
def ofTokens (tokens : List Token) : Reported (Except ScopeError Outline) :=
  match Builder.start.run (.ofTokens tokens) with
  | .error h => ⟨.error h.error, h.journal.reverse⟩
  | .ok b =>
    let b := b.finish
    ⟨.ok ⟨b.tree, b.entries.reverse⟩, b.journal.reverse⟩

end Outline
end SourceOutline
