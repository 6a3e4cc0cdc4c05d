import SourceOutline.Proofs.OutlineRun

/-! Every brace closes its own scope, if the braces are balanced and the outline sees them all.
The parameters of a template and the head of a class are passed over with their braces. Only a list
whose braces are balanced there too leads back to the root. -/
namespace SourceOutline
namespace Braces

def opening (tokens : List Token) : Nat := tokens.countP (·.image = "\x7b")

def closing (tokens : List Token) : Nat := tokens.countP (·.image = "\x7d")

/-- No part in front has more closing braces than opening ones, and all have as many. -/
def Balanced (tokens : List Token) : Prop :=
  (∀ front, front <+: tokens → closing front ≤ opening front) ∧ closing tokens = opening tokens

def depthAfter (depth : Nat) (t : Token) : Option Nat :=
  if t.image = "\x7b" then some (depth + 1)
  else if t.image = "\x7d" then if depth = 0 then none else some (depth - 1)
  else some depth

theorem foldlM_depthAfter_eq_some_iff {n m : Nat} {tokens : List Token} :
    tokens.foldlM depthAfter n = some m ↔
      (∀ front, front <+: tokens → closing front ≤ n + opening front) ∧
        m + closing tokens = n + opening tokens := by
  induction tokens generalizing n with
  | nil => simp [opening, closing, eq_comm]
  | cons t rest ih =>
    -- the parts in front of `t :: rest` are the empty one and those that start with `t`
    have hfront : ∀ P : List Token → Prop, (∀ front, front <+: t :: rest → P front) ↔
        P [] ∧ ∀ front, front <+: rest → P (t :: front) := by
      intro P
      simp only [List.prefix_cons_iff]
      constructor
      · intro h
        exact ⟨h [] (.inl rfl), fun front hf => h _ (.inr ⟨front, rfl, hf⟩)⟩
      · rintro ⟨hnil, hcons⟩ front (rfl | ⟨front, rfl, hf⟩)
        · exact hnil
        · exact hcons front hf
    have hempty : closing [] ≤ n + opening [] := Nat.zero_le _
    simp only [hfront, hempty, true_and, List.foldlM_cons, depthAfter]
    by_cases hopen : t.image = "\x7b"
    · have hopening : ∀ ts, opening (t :: ts) = opening ts + 1 := by simp [opening, hopen]
      have hclosing : ∀ ts, closing (t :: ts) = closing ts := by simp [closing, hopen]
      simp only [if_pos hopen, Option.bind_eq_bind, Option.bind_some, ih, hopening, hclosing]
      exact and_congr (forall₂_congr fun front _ => by omega) (by omega)
    · have hopening : ∀ ts, opening (t :: ts) = opening ts := by simp [opening, hopen]
      by_cases hclose : t.image = "\x7d"
      · have hclosing : ∀ ts, closing (t :: ts) = closing ts + 1 := by simp [closing, hclose]
        simp only [if_neg hopen, if_pos hclose, hopening, hclosing]
        by_cases hn : n = 0
        · rw [if_pos hn]
          refine iff_of_false nofun fun h => ?_
          have hfirst := h.1 [] List.nil_prefix
          simp [hn, opening] at hfirst
        · simp only [if_neg hn, Option.bind_eq_bind, Option.bind_some, ih]
          exact and_congr (forall₂_congr fun front _ => by omega) (by omega)
      · have hclosing : ∀ ts, closing (t :: ts) = closing ts := by simp [closing, hclose]
        simp only [if_neg hopen, if_neg hclose, Option.bind_eq_bind, Option.bind_some, ih, hopening,
          hclosing]

theorem balanced_iff {tokens : List Token} :
    Balanced tokens ↔ tokens.foldlM depthAfter 0 = some 0 := by
  simp [foldlM_depthAfter_eq_some_iff, Balanced]

instance decidableBalanced (tokens : List Token) : Decidable (Balanced tokens) :=
  decidable_of_iff _ balanced_iff.symm

theorem Balanced.foldlM_depthAfter {tokens : List Token} (h : Balanced tokens) (n : Nat) :
    tokens.foldlM depthAfter n = some n :=
  foldlM_depthAfter_eq_some_iff.2
    ⟨fun front hf => Nat.le_add_left_of_le (h.1 front hf), by rw [h.2]⟩

theorem foldlM_depthAfter_cons {t : Token} {rest : List Token} {n : Nat}
    (h : ¬ (t.image = "\x7b" ∨ t.image = "\x7d")) :
    (t :: rest).foldlM depthAfter n = rest.foldlM depthAfter n := by
  rw [not_or] at h
  simp [depthAfter, h.1, h.2]

end Braces

namespace Cursor

def passed (c d : Cursor) : List Token := c.rest.take (c.rest.length - d.rest.length)

theorem passed_append {c d : Cursor} (h : d.rest <:+ c.rest) : c.passed d ++ d.rest = c.rest := by
  obtain ⟨front, hfront⟩ := h
  simp [passed, ← hfront]

end Cursor

open Braces

/-- Balanced tokens may be left out. -/
theorem foldlM_depthAfter_passed {c d : Cursor} {n m : Nat} (h : d.rest <:+ c.rest)
    (hpassed : Balanced (c.passed d)) (hdepth : c.rest.foldlM depthAfter n = some m) :
    d.rest.foldlM depthAfter n = some m := by
  rw [← Cursor.passed_append h, List.foldlM_append, hpassed.foldlM_depthAfter] at hdepth
  exact hdepth

namespace Builder
variable {b b' : Builder} {t : Token} {ts us : List Token}

def templateHead (t : Token) (rest : List Token) : List Token :=
  Cursor.passed ⟨some t, rest⟩ (Cursor.skipAngles ⟨some t, rest⟩)

def classHead (t : Token) (rest : List Token) : List Token :=
  match Cursor.qualifiedName? ⟨some t, rest⟩ with
  | some (_, c) => if c.rest.head?.any declares then c.passed (c.skipUntil endsHead) else []
  | none => []

/-- Whether braces are marks and stand where they are followed, or else are balanced. -/
def Tracked : List Token → Prop
  | [] => True
  | t :: rest =>
    (t.image = "\x7b" ∨ t.image = "\x7d" → t.kind = .punctuator) ∧
    (t.is .keyword && t.image = "template" → Balanced (templateHead t rest)) ∧
    ((EntryKind.ofClassKey? t).isSome → Balanced (classHead t rest)) ∧ Tracked rest

instance decidableTracked : (tokens : List Token) → Decidable (Tracked tokens)
  | [] => .isTrue trivial
  | _ :: rest =>
    have := decidableTracked rest
    inferInstanceAs (Decidable (_ ∧ _ ∧ _ ∧ _))

theorem Tracked.of_suffix (h : Tracked ts) (hs : us <:+ ts) : Tracked us := by
  obtain ⟨front, rfl⟩ := hs
  induction front with
  | nil => exact h
  | cons t front ih => exact ih h.2.2.2

/-- The scope that is current once all open braces are closed. -/
def home : List Frame → ScopeId → ScopeId
  | [], current => current
  | .plain :: frames, current => home frames current
  | .scope saved :: frames, _ => home frames saved

/-- A closing brace takes away a frame, if there is one, and goes home by it. -/
theorem closeBrace_spec (b : Builder) (t : Token) :
    (b.closeBrace t).frames.list = b.frames.list.tail ∧
      home (b.closeBrace t).frames.list (b.closeBrace t).current =
        home b.frames.list b.current := by
  obtain ⟨tree, current, ⟨list, count, hcount⟩, entries, journal⟩ := b
  cases list with
  | nil => exact ⟨rfl, rfl⟩
  | cons frame frames => cases frame <;> exact ⟨rfl, rfl⟩

/-- Whatever is followed, the way home stays the same. -/
theorem Follows.home (h : Follows b ts b' us) :
    home b'.frames.list b'.current = home b.frames.list b.current := by
  induction h with
  | trans _ _ ih ih' => exact ih'.trans ih
  | stay _ h => rw [h.frames, h.current]
  | pass b t rest =>
    unfold passToken
    split
    · rfl
    · split
      · exact (closeBrace_spec b t).2
      · rfl
  | enter _ _ hframes _ =>
    rw [hframes]
    rfl
  | name | angles | head => rfl

theorem length_passToken {n : Nat} (h : depthAfter b.frames.list.length t = some n) :
    (b.passToken t).frames.list.length = n := by
  unfold depthAfter at h
  unfold passToken
  split at h
  · next hopen =>
    cases h
    rw [if_pos hopen]
    rfl
  · next hopen =>
    rw [if_neg hopen]
    split at h
    · next hclose =>
      rw [if_pos hclose, (closeBrace_spec b t).1, List.length_tail]
      split at h
      · cases h
      · exact Option.some.inj h
    · next hclose =>
      rw [if_neg hclose]
      exact Option.some.inj h

/-- The open braces of the builder are those of the tokens it has followed. -/
theorem Follows.foldlM_depthAfter {m : Nat} (h : Follows b ts b' us) (htracked : Tracked ts)
    (hdepth : ts.foldlM depthAfter b.frames.list.length = some m) :
    Tracked us ∧ us.foldlM depthAfter b'.frames.list.length = some m := by
  induction h with
  | trans _ _ ih ih' =>
    obtain ⟨hmid, hdepth⟩ := ih htracked hdepth
    exact ih' hmid hdepth
  | stay _ h => exact ⟨htracked, h.frames ▸ hdepth⟩
  | pass b t rest =>
    obtain ⟨n, hn, hrest⟩ := Option.bind_eq_some_iff.1 hdepth
    exact ⟨htracked.2.2.2, (length_passToken hn).symm ▸ hrest⟩
  | @name b t rest ht =>
    have hnot : ¬ (t.image = "\x7b" ∨ t.image = "\x7d") := by
      intro hbrace
      have hkind := htracked.1 hbrace
      simp [Token.is, hkind] at ht
    exact ⟨htracked.2.2.2, foldlM_depthAfter_cons hnot ▸ hdepth⟩
  | @enter b b' t rest ht hframes _ =>
    refine ⟨htracked.2.2.2, ?_⟩
    rw [List.foldlM_cons, depthAfter, if_pos (Token.image_of_isSymbol ht)] at hdepth
    rw [hframes]
    exact hdepth
  | @angles b t rest ht =>
    have himage : t.image = "template" := by simpa using (Bool.and_eq_true_iff.1 ht).2
    have hsuffix := Cursor.skipAngles_suffix ⟨some t, rest⟩
    refine ⟨htracked.2.2.2.of_suffix hsuffix, ?_⟩
    rw [foldlM_depthAfter_cons (by simp [himage])] at hdepth
    exact foldlM_depthAfter_passed hsuffix (htracked.2.1 ht) hdepth
  | @head b t rest name c ht hname hnext _ ih =>
    have hsuffix : (c.skipUntil endsHead).rest <:+ c.rest := Cursor.skipFrom_suffix _ _ _
    have hhead : Balanced (c.passed (c.skipUntil endsHead)) := by
      simpa [classHead, hname, hnext] using htracked.2.2.1 ht
    obtain ⟨hrest, hdepth⟩ := ih htracked hdepth
    exact ⟨hrest.of_suffix hsuffix, foldlM_depthAfter_passed hsuffix hhead hdepth⟩

/-- Balanced braces that are all followed lead back to the root. -/
theorem closed_of_balanced {tokens : List Token}
    (hrun : start.run (Outline.content tokens) = .ok b)
    (hbalanced : Balanced (Outline.content tokens).rest)
    (htracked : Tracked (Outline.content tokens).rest) :
    b.frames.list = [] ∧ b.current = ScopeTree.root := by
  have hfollows := Outline.follows_content hrun
  have hdepth := (hfollows.foldlM_depthAfter htracked (balanced_iff.1 hbalanced)).2
  have hnil : b.frames.list = [] := List.eq_nil_of_length_eq_zero (Option.some.inj hdepth)
  have hhome := hfollows.home
  rw [hnil] at hhome
  exact ⟨hnil, hhome⟩

/-- A class inside a namespace, with a brace in a template's default argument and a base class. -/
theorem closed_of_balanced_template :
    let keyword := fun image => Token.plain .keyword image (.point .start)
    let name := fun image => Token.plain .identifier image (.point .start)
    let mark := fun image => Token.plain .punctuator image (.point .start)
    let tokens := [keyword "namespace", name "A", mark "\x7b", keyword "template", mark "<",
      name "T", mark "=", name "X", mark "\x7b", mark "\x7d", mark ">", keyword "struct",
      name "S", mark ":", name "T", mark "\x7b", mark "\x7d", mark ";", mark "\x7d"]
    ∃ b, start.run (Outline.content tokens) = .ok b ∧ Balanced (Outline.content tokens).rest ∧
      Tracked (Outline.content tokens).rest ∧ b.tree.size = 3 ∧ b.frames.list = [] ∧
      b.current = ScopeTree.root := by
  intro keyword name mark tokens
  obtain ⟨b, hrun, hsize⟩ : ∃ b, start.run (Outline.content tokens) = .ok b ∧
      decide (b.tree.size = 3) :=
    exists_ok_of_any (by decide +kernel)
  have hbalanced : Balanced (Outline.content tokens).rest := by decide +kernel
  have htracked : Tracked (Outline.content tokens).rest := by decide +kernel
  exact ⟨b, hrun, hbalanced, htracked, of_decide_eq_true hsize,
    closed_of_balanced hrun hbalanced htracked⟩

/-- The comparison in the parameters of the first template keeps its angle brackets open up to the
comparison in the second one, so that three braces are passed over. -/
theorem brace_passed_over :
    let keyword := fun image => Token.plain .keyword image (.point .start)
    let name := fun image => Token.plain .identifier image (.point .start)
    let mark := fun image => Token.plain .punctuator image (.point .start)
    let number := fun image => Token.plain .integer image (.point .start)
    let left := Token.plain .leftParen "(" (.point .start)
    let right := Token.plain .rightParen ")" (.point .start)
    let template := fun parameter low sign high function =>
      [keyword "template", mark "<", keyword "bool", name parameter, mark "=", left, number low,
        mark sign, number high, right, mark ">", keyword "void", name function, left, right,
        mark "\x7b", mark "\x7d"]
    let tokens := [keyword "namespace", name "A", mark "\x7b"] ++ template "X" "1" "<" "2" "f" ++
      [mark "\x7d"] ++ template "Y" "2" ">" "1" "g" ++
      [keyword "struct", name "T", mark "\x7b", mark "\x7d", mark ";"]
    Balanced tokens ∧ ∃ b, start.run (Outline.content tokens) = .ok b ∧
      b.entries.reverse.map Entry.name = ["A", "A::T"] ∧
      b.frames.list = [.scope ScopeTree.root] ∧ b.current = 1 := by
  intro keyword name mark number left right template tokens
  obtain ⟨b, hrun, hall⟩ : ∃ b, start.run (Outline.content tokens) = .ok b ∧
      decide (b.entries.reverse.map Entry.name = ["A", "A::T"] ∧
        b.frames.list = [.scope ScopeTree.root] ∧ b.current = 1) :=
    exists_ok_of_any (by decide +kernel)
  exact ⟨by decide +kernel, b, hrun, of_decide_eq_true hall⟩

end Builder
end SourceOutline
