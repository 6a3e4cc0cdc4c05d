import SourceOutline.Token

/-! A place in a list of tokens.
An end mark counts as the end of the list wherever it stands. -/
namespace SourceOutline

/-- The token just passed and the tokens still to come. -/
structure Cursor where
  before : Option Token
  rest : List Token

namespace Cursor

def ofTokens (tokens : List Token) : Cursor := ⟨none, tokens⟩

/-- What holds at a place if it holds at all places with fewer tokens to come, holds at every place. -/
theorem shorter_induction {motive : Cursor → Prop}
    (step : ∀ before rest, (∀ d : Cursor, d.rest.length < rest.length → motive d) →
      motive ⟨before, rest⟩) (c : Cursor) : motive c :=
  (measure fun c : Cursor => c.rest.length).wf.induction c fun c ih => step c.before c.rest ih

/-- The next token, if there is one. -/
def peek? (c : Cursor) : Option Token := c.rest.head?.filter (!·.isEof)

/-- Whether the next token is a keyword or punctuator spelled `text`. -/
def sees (c : Cursor) (text : String) : Bool := c.peek?.any (·.isSymbol text)

/-- Passes one token, if there is one. -/
def advance (c : Cursor) : Cursor :=
  match c.rest with
  | [] => c
  | t :: rest => if t.isEof then c else ⟨some t, rest⟩

/-- Passes the next token if it is spelled `text`. -/
def eat (c : Cursor) (text : String) : Cursor := if c.sees text then c.advance else c

/-- Passes tokens until one satisfies `p`. -/
def skipFrom (p : Token → Bool) (before : Option Token) : List Token → Cursor
  | [] => ⟨before, []⟩
  | t :: rest =>
    if t.isEof || p t then ⟨before, t :: rest⟩ else skipFrom p (some t) rest

def skipUntil (p : Token → Bool) (c : Cursor) : Cursor := skipFrom p c.before c.rest

/-- The number of open angle brackets after a token. -/
def angleDepth (depth : Nat) (t : Token) : Nat :=
  if t.image = "<" then depth + 1
  else if t.image = ">" then depth - 1
  else if t.image = ">>" then depth - 2
  else depth

/-- Passes tokens until no angle bracket is open. -/
def closeAngles : Nat → Option Token → List Token → Cursor
  | 0, before, rest => ⟨before, rest⟩
  | _ + 1, before, [] => ⟨before, []⟩
  | depth + 1, before, t :: rest =>
    if t.isEof then ⟨before, t :: rest⟩ else closeAngles (angleDepth (depth + 1) t) (some t) rest

/-- Passes a group in angle brackets, if one starts here. -/
def skipAngles (c : Cursor) : Cursor :=
  match c.rest with
  | [] => c
  | t :: rest => if !t.isEof && t.isSymbol "<" then closeAngles 1 (some t) rest else c

/-- The rest of a qualified name whose first part is `front`. A separator counts only in front of an
identifier. -/
def nameFrom (front : String) : List Token → Option (String × Cursor)
  | [] => none
  | t :: rest =>
    if t.is .identifier then
      match rest with
      | [] => some (front ++ t.image, ⟨some t, []⟩)
      | s :: more =>
        if s.is .scope && more.head?.any (·.is .identifier) then
          nameFrom (front ++ t.image ++ "::") more
        else some (front ++ t.image, ⟨some t, s :: more⟩)
    else none

/-- A name with separators between identifiers and perhaps one in front. -/
def qualifiedName? (c : Cursor) : Option (String × Cursor) :=
  match c.rest with
  | [] => none
  | t :: rest => if t.is .scope then nameFrom "::" rest else nameFrom "" (t :: rest)

theorem peek?_cons (before : Option Token) {t : Token} (h : t.isEof = false) (rest : List Token) :
    peek? ⟨before, t :: rest⟩ = some t := by
  simp [peek?, h]

theorem sees_cons (before : Option Token) {t : Token} (h : t.isEof = false) (rest : List Token)
    (text : String) : sees ⟨before, t :: rest⟩ text = t.isSymbol text := by
  rw [sees, peek?_cons before h, Option.any_some]

theorem advance_cons (before : Option Token) {t : Token} (h : t.isEof = false)
    (rest : List Token) : advance ⟨before, t :: rest⟩ = ⟨some t, rest⟩ := by
  simp [advance, h]

theorem rest_of_peek? {c : Cursor} {t : Token} (h : c.peek? = some t) :
    t.isEof = false ∧ c.rest = t :: c.advance.rest := by
  obtain ⟨before, rest⟩ := c
  cases rest with
  | nil => cases h
  | cons u rest =>
    obtain ⟨heq, hu⟩ := Option.filter_eq_some_iff.1 h
    cases heq
    rw [Bool.not_eq_true'] at hu
    exact ⟨hu, by rw [advance_cons before hu]⟩

theorem any_head?_of_peek? {c : Cursor} {p : Token → Bool} (h : c.peek?.any p) :
    c.rest.head?.any p := by
  obtain ⟨t, hpeek, ht⟩ := (Option.any_eq_true _ _).1 h
  rw [(rest_of_peek? hpeek).2]
  exact ht

theorem exists_of_sees {c : Cursor} {text : String} (h : c.sees text) :
    ∃ t, t.isSymbol text ∧ t.isEof = false ∧ c.rest = t :: c.advance.rest := by
  obtain ⟨t, hpeek, ht⟩ := (Option.any_eq_true _ _).1 h
  exact ⟨t, ht, rest_of_peek? hpeek⟩

theorem advance_suffix (c : Cursor) : c.advance.rest <:+ c.rest := by
  obtain ⟨before, rest⟩ := c
  cases rest with
  | nil => exact List.suffix_refl _
  | cons t rest =>
    unfold advance
    dsimp only
    split
    · exact List.suffix_refl _
    · exact List.suffix_cons t rest

theorem skipFrom_suffix (p : Token → Bool) (before : Option Token) (rest : List Token) :
    (skipFrom p before rest).rest <:+ rest := by
  induction rest generalizing before with
  | nil => exact List.suffix_refl _
  | cons t rest ih =>
    unfold skipFrom
    split
    · exact List.suffix_refl _
    · exact (ih _).trans (List.suffix_cons t rest)

theorem closeAngles_suffix (depth : Nat) (before : Option Token) (rest : List Token) :
    (closeAngles depth before rest).rest <:+ rest := by
  induction rest generalizing depth before with
  | nil => cases depth <;> exact List.suffix_refl _
  | cons t rest ih =>
    cases depth with
    | zero => exact List.suffix_refl _
    | succ depth =>
      unfold closeAngles
      split
      · exact List.suffix_refl _
      · exact (ih _ _).trans (List.suffix_cons t rest)

theorem skipAngles_suffix (c : Cursor) : c.skipAngles.rest <:+ c.rest := by
  unfold skipAngles
  split
  · exact List.suffix_refl _
  · next t rest hr =>
    split
    · rw [hr]
      exact (closeAngles_suffix _ _ _).trans (List.suffix_cons t rest)
    · exact List.suffix_refl _

theorem length_advance_le (c : Cursor) : c.advance.rest.length ≤ c.rest.length :=
  c.advance_suffix.length_le

theorem length_eat_le (c : Cursor) (text : String) :
    (c.eat text).rest.length ≤ c.rest.length := by
  unfold eat
  split
  · exact length_advance_le c
  · exact Nat.le_refl _

theorem length_skipUntil_le (p : Token → Bool) (c : Cursor) :
    (c.skipUntil p).rest.length ≤ c.rest.length :=
  (skipFrom_suffix p c.before c.rest).length_le

theorem length_skipAngles_le (c : Cursor) : c.skipAngles.rest.length ≤ c.rest.length :=
  c.skipAngles_suffix.length_le

theorem length_nameFrom_lt {front name : String} {tokens : List Token} {c : Cursor}
    (h : nameFrom front tokens = some (name, c)) : c.rest.length < tokens.length := by
  fun_induction nameFrom front tokens with
  | case1 => cases h
  | case2 => cases h; simp
  | case3 front t _ s more _ ih =>
    have := ih h
    simp only [List.length_cons]
    omega
  | case4 => cases h; simp
  | case5 => cases h

/-- A name takes at least one token. -/
theorem length_qualifiedName?_lt {c d : Cursor} {name : String}
    (h : c.qualifiedName? = some (name, d)) : d.rest.length < c.rest.length := by
  unfold qualifiedName? at h
  split at h
  · cases h
  · next t rest hr =>
    rw [hr]
    split at h
    · exact Nat.lt_succ_of_lt (length_nameFrom_lt h)
    · exact length_nameFrom_lt h

end Cursor
end SourceOutline
