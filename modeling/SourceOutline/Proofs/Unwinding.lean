import SourceOutline.Proofs.Braces

/-! Closing all open braces leads back to the root.
A brace that opens a scope saves the scope around it, wherever the new one lies. So the way back
through the saved scopes is the same at every round of every loop over the tokens: it ends at the
root. -/
namespace SourceOutline
namespace Builder

/-- The loops over tokens: a run, the declarators of a typedef that was started at `depth` braces, with
the names found so far, and the tokens of a statement that is passed over. -/
inductive Loop
  | run
  | typedef (depth : Nat) (found : Declarators)
  | statement (depth : Nat)

structure Round where
  loop : Loop
  builder : Builder
  place : Cursor

namespace Round
variable {r r' : Round} {b : Builder} {tokens : List Token}

/-- The next round of a loop, unless the loop ends. -/
def next? : Round → Option (Except Halted Round)
  | ⟨_, _, ⟨_, []⟩⟩ => none
  | ⟨loop, b, ⟨before, t :: rest⟩⟩ =>
    let after : Cursor := ⟨some t, rest⟩
    if t.isEof then none
    else
      match loop with
      | .run => some ((b.declaration before t after).map fun r => ⟨.run, r.1, r.2⟩)
      | .typedef depth ds =>
        let here := b.frames.count = depth && ds.parens = 0 && ds.angles = 0
        if here && t.isSymbol ";" then none
        else if here && t.isSymbol "," then some (.ok ⟨.typedef depth ds.finish, b, after⟩)
        else
          match EntryKind.ofClassKey? t with
          | some kind => some ((b.classBody kind t.beginLine before after).map fun r =>
              ⟨.typedef depth ds, r.1, r.2⟩)
          | none =>
            if t.image = "\x7b" || t.image = "\x7d" then
              some (.ok ⟨.typedef depth ds, b.passToken t, after⟩)
            else some (.ok ⟨.typedef depth
              (if b.frames.count = depth then ds.pass t after else ds), b, after⟩)
      | .statement depth =>
        if t.image = ";" && b.frames.count = depth then none
        else some (.ok ⟨.statement depth, b.passToken t, after⟩)

/-- The first round of the loop that a round of the run goes into: at a typedef, at a `using` and at an
alias of a namespace. -/
def inner? : Round → Option Round
  | ⟨.run, b, ⟨_, t :: rest⟩⟩ =>
    let after : Cursor := ⟨some t, rest⟩
    if t.is .keyword && t.image = "namespace" then
      let c := (after.qualifiedName?.getD ("", after)).2
      if c.sees "=" then some ⟨.statement b.frames.count, b, c.advance⟩ else none
    else if t.is .keyword && t.image = "typedef" then
      some ⟨.typedef b.frames.count .none, b, after⟩
    else if t.is .keyword && t.image = "using" then
      let named := after.peek?.any (·.is .identifier) && after.advance.sees "="
      some ⟨.statement b.frames.count, b, if named then after.advance else after⟩
    else none
  | _ => none

inductive Reached (tokens : List Token) : Round → Prop
  | start : Reached tokens ⟨.run, Builder.start, .ofTokens tokens⟩
  | next {r r' : Round} (h : Reached tokens r) (hnext : r.next? = some (.ok r')) : Reached tokens r'
  | inner {r r' : Round} (h : Reached tokens r) (hinner : r.inner? = some r') : Reached tokens r'

def result : Round → Except Halted Builder
  | ⟨.run, b, c⟩ => b.run c
  | ⟨.typedef depth ds, b, c⟩ => (b.declarators depth ds c).map (·.1)
  | ⟨.statement depth, b, c⟩ => .ok (b.skipFrom depth c.before c.rest).1

/-- A loop goes from round to round. -/
theorem result_eq (r : Round) :
    r.result = match r.next? with
      | none => .ok r.builder
      | some r' => r' >>= result := by
  obtain ⟨loop, b, ⟨before, rest⟩⟩ := r
  cases rest with
  | nil =>
    cases loop with
    | run => exact run_nil b before
    | typedef depth ds => simp only [result, next?, declarators_nil]; rfl
    | statement depth => rfl
  | cons t rest =>
    cases h : t.isEof with
    | true =>
      cases loop with
      | run => simp only [result, next?, h, run_of_isEof b before h, if_true]
      | typedef depth ds =>
        simp only [result, next?, h, declarators_of_isEof _ _ _ _ h, if_true]
        rfl
      | statement depth => simp only [result, next?, h, skipFrom, if_true]
    | false =>
      cases loop with
      | run =>
        simp only [result, next?, h, run_eq_bind _ _ h, Bool.false_eq_true, if_false]
        cases b.declaration before t ⟨some t, rest⟩ <;> rfl
      | typedef depth ds =>
        simp only [result, next?, h, declarators_cons _ _ _ _ h, Bool.false_eq_true, if_false]
        split
        · rfl
        · split
          · rfl
          · cases EntryKind.ofClassKey? t with
            | some kind =>
              dsimp only
              cases b.classBody kind t.beginLine before ⟨some t, rest⟩ <;> rfl
            | none =>
              dsimp only
              split <;> rfl
      | statement depth =>
        simp only [result, next?, h, skipFrom, Bool.false_eq_true, if_false]
        split <;> rfl

/-- A round follows one token or one declaration. -/
theorem follows_next? (h : r.next? = some (.ok r')) :
    Follows r.builder r.place.rest r'.builder r'.place.rest ∧
      r'.place.rest.length < r.place.rest.length := by
  obtain ⟨loop, b, ⟨before, rest⟩⟩ := r
  cases rest with
  | nil => cases h
  | cons t rest =>
    have hshorter : ∀ {us : List Token}, us.length ≤ rest.length → us.length < (t :: rest).length :=
      Nat.lt_succ_of_le
    simp only [next?] at h
    split at h
    · cases h
    · cases loop with
      | run =>
        obtain ⟨⟨b', c⟩, hd, heq⟩ := map_eq_ok.1 (Option.some.inj h)
        cases heq
        exact ⟨follows_declaration hd, hshorter (within_declaration _ _ _ _ _ _ hd)⟩
      | typedef depth ds =>
        dsimp only at h
        split at h
        · cases h
        · split at h
          · next hcomma =>
            cases h
            have himage := Token.image_of_isSymbol (Bool.and_eq_true_iff.1 hcomma).2
            exact ⟨.drop b rest (by simp [himage]) (by simp [himage]), hshorter (Nat.le_refl _)⟩
          · cases hkey : EntryKind.ofClassKey? t with
            | some kind =>
              rw [hkey] at h
              obtain ⟨⟨b', c⟩, hb, heq⟩ := map_eq_ok.1 (Option.some.inj h)
              cases heq
              exact ⟨follows_classBody hkey hb, hshorter (within_classBody _ _ _ _ _ _ _ hb)⟩
            | none =>
              rw [hkey] at h
              dsimp only at h
              split at h
              · cases h
                exact ⟨.pass b t rest, hshorter (Nat.le_refl _)⟩
              · next hbrace =>
                cases h
                simp only [Bool.or_eq_true, decide_eq_true_eq, not_or] at hbrace
                exact ⟨.drop b rest hbrace.1 hbrace.2, hshorter (Nat.le_refl _)⟩
      | statement depth =>
        dsimp only at h
        split at h
        · cases h
        · cases h
          exact ⟨.pass b t rest, hshorter (Nat.le_refl _)⟩

theorem builder_of_inner? (h : r.inner? = some r') : r'.builder = r.builder := by
  unfold inner? at h
  split at h
  · dsimp only at h
    split at h
    · split at h <;> cases h
      rfl
    · split at h
      · cases h
        rfl
      · split at h <;> cases h
        rfl
  · cases h

theorem Reached.ends (h : Reached tokens r) (hr : r.result = .ok b) :
    ∃ last, Reached tokens last ∧ last.next? = none ∧ last.builder = b := by
  obtain ⟨loop, b₀, c⟩ := r
  induction c using Cursor.shorter_induction generalizing loop b₀ with
  | step before rest ih =>
  rw [result_eq] at hr
  cases hnext : next? ⟨loop, b₀, ⟨before, rest⟩⟩ with
  | none =>
    rw [hnext] at hr
    exact ⟨_, h, hnext, Except.ok.inj hr⟩
  | some step =>
    rw [hnext] at hr
    obtain ⟨r', rfl, hr'⟩ := bind_eq_ok.1 hr
    exact ih r'.place (follows_next? hnext).2 r'.loop r'.builder (h.next hnext) hr'

/-- The way home is the way home from the start. -/
theorem Reached.home_eq (h : Reached tokens r) :
    home r.builder.frames.list r.builder.current = ScopeTree.root := by
  induction h with
  | start => rfl
  | next _ hnext ih => exact (follows_next? hnext).1.home.trans ih
  | inner _ hinner ih => rwa [builder_of_inner? hinner]

end Round

/-- Braces that close all open ones, and perhaps more, end at home. -/
theorem foldl_closeBrace (b : Builder) (braces : List Token)
    (h : b.frames.list.length ≤ braces.length) :
    (braces.foldl closeBrace b).frames.list = [] ∧
      (braces.foldl closeBrace b).current = home b.frames.list b.current := by
  induction braces generalizing b with
  | nil =>
    have hnil := List.eq_nil_of_length_eq_zero (Nat.le_zero.1 h)
    exact ⟨hnil, by rw [hnil]; rfl⟩
  | cons t braces ih =>
    obtain ⟨hframes, hhome⟩ := closeBrace_spec b t
    rw [List.foldl_cons, ← hhome]
    refine ih _ ?_
    rw [hframes, List.length_tail]
    exact Nat.sub_le_of_le_add h

/-- At every round of every loop, and at the end of the run, the saved scopes lead back to the root: so
do closing braces, as soon as there are enough of them. -/
theorem unwinds_to_root (tokens : List Token) :
    (∀ r, Round.Reached tokens r → home r.builder.frames.list r.builder.current = ScopeTree.root ∧
      ∀ braces : List Token, r.builder.frames.list.length ≤ braces.length →
        (braces.foldl closeBrace r.builder).current = ScopeTree.root) ∧
    ∀ b, start.run (.ofTokens tokens) = .ok b →
      home b.frames.list b.current = ScopeTree.root ∧
      ∀ braces : List Token, b.frames.list.length ≤ braces.length →
        (braces.foldl closeBrace b).current = ScopeTree.root := by
  have hreached : ∀ r, Round.Reached tokens r →
      home r.builder.frames.list r.builder.current = ScopeTree.root ∧
      ∀ braces : List Token, r.builder.frames.list.length ≤ braces.length →
        (braces.foldl closeBrace r.builder).current = ScopeTree.root :=
    fun r hr => ⟨hr.home_eq, fun braces hlength =>
      (foldl_closeBrace r.builder braces hlength).2.trans hr.home_eq⟩
  refine ⟨hreached, fun b hrun => ?_⟩
  obtain ⟨last, hlast, -, rfl⟩ := Round.Reached.start.ends hrun
  exact hreached last hlast

/-- The loop of a typedef inside a class `A::B` that is defined out of line: the new scope lies in `A`,
the saved one is the root. A brace too many makes no difference. -/
theorem unwinds_to_root_out_of_line :
    let keyword := fun image => Token.plain .keyword image (.point .start)
    let name := fun image => Token.plain .identifier image (.point .start)
    let mark := fun image => Token.plain .punctuator image (.point .start)
    let tokens := [keyword "namespace", name "A", mark "\x7b", keyword "class", name "B", mark ";",
      mark "\x7d", keyword "typedef", keyword "struct", name "A",
      Token.plain .scope "::" (.point .start), name "B", mark "\x7b", keyword "int"]
    ∃ r, Round.Reached tokens r ∧ r.place.rest.length = 1 ∧ r.builder.current = 3 ∧
      r.builder.tree.path 3 = .ok "A::B::" ∧ r.builder.frames.list = [.scope ScopeTree.root] ∧
      ([mark "\x7d", mark "\x7d"].foldl closeBrace r.builder).current = ScopeTree.root := by
  intro keyword name mark tokens
  let on := fun r : Round => (r.next?.bind Except.toOption).getD r
  let into := fun r : Round => r.inner?.getD r
  have hon : ∀ r, Round.Reached tokens r → Round.Reached tokens (on r) := by
    intro r hr
    dsimp only [on]
    match hnext : r.next? with
    | none | some (.error _) => exact hr
    | some (.ok r') => exact hr.next hnext
  have hinto : ∀ r, Round.Reached tokens r → Round.Reached tokens (into r) := by
    intro r hr
    dsimp only [into]
    match hinner : r.inner? with
    | none => exact hr
    | some r' => exact hr.inner hinner
  have hreached := hon _ (hinto _ (hon _ (hon _ (hon _ .start))))
  generalize hr : on _ = r at hreached
  have hall : r.place.rest.length = 1 ∧ r.builder.current = 3 ∧
      r.builder.tree.path 3 = .ok "A::B::" ∧ r.builder.frames.list = [.scope ScopeTree.root] := by
    subst hr
    decide +kernel
  obtain ⟨hlength, hcurrent, hpath, hframes⟩ := hall
  exact ⟨r, hreached, hlength, hcurrent, hpath, hframes,
    ((unwinds_to_root tokens).1 r hreached).2 _ (by rw [hframes]; decide)⟩

end Builder
end SourceOutline
