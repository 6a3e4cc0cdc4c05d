import SourceOutline.Outline
import SourceOutline.Proofs.Outcome

/-! The first end mark ends the tokens of an outline.
The builder looks at its tokens in many ways: at the next one, at the one after it, up to a mark, as
far as a name goes. Each of these finds the same whether or not the tokens from the first end mark on
are there, and so does a whole run. -/
namespace SourceOutline

namespace Cursor
variable {before : Option Token} {t : Token} {rest : List Token}

/-- The same place, with the tokens up to the first end mark only. -/
def cut (c : Cursor) : Cursor := ⟨c.before, c.rest.takeWhile (!·.isEof)⟩

@[simp] theorem cut_nil (before : Option Token) : cut ⟨before, []⟩ = ⟨before, []⟩ := rfl

theorem takeWhile_of_isEof (h : t.isEof = true) (rest : List Token) :
    (t :: rest).takeWhile (!·.isEof) = [] :=
  List.takeWhile_cons_of_neg (by simp [h])

theorem takeWhile_of_not_isEof (h : t.isEof = false) (rest : List Token) :
    (t :: rest).takeWhile (!·.isEof) = t :: rest.takeWhile (!·.isEof) :=
  List.takeWhile_cons_of_pos (by simp [h])

theorem cut_of_isEof (h : t.isEof = true) (before : Option Token) (rest : List Token) :
    cut ⟨before, t :: rest⟩ = ⟨before, []⟩ := by
  simp only [cut, takeWhile_of_isEof h]

theorem cut_of_not_isEof (h : t.isEof = false) (before : Option Token) (rest : List Token) :
    cut ⟨before, t :: rest⟩ = ⟨before, t :: rest.takeWhile (!·.isEof)⟩ := by
  simp only [cut, takeWhile_of_not_isEof h]

theorem not_isEof_of_is {kind : TokenKind} (h : t.is kind) (hkind : kind ≠ .eof) :
    t.isEof = false := by
  have heq : t.kind = kind := by simpa [Token.is] using h
  simp [Token.isEof, Token.is, heq, hkind]

@[simp] theorem peek?_cut (c : Cursor) : c.cut.peek? = c.peek? := by
  obtain ⟨before, rest⟩ := c
  cases rest with
  | nil => rfl
  | cons t rest =>
    cases h : t.isEof with
    | true =>
      rw [cut_of_isEof h]
      simp only [peek?, List.head?_cons, List.head?_nil, Option.filter_some, Option.filter_none, h]
      rfl
    | false => rw [cut_of_not_isEof h, peek?_cons _ h, peek?_cons _ h]

@[simp] theorem sees_cut (c : Cursor) (text : String) : c.cut.sees text = c.sees text := by
  rw [sees, sees, peek?_cut]

theorem advance_cut (c : Cursor) : c.cut.advance = c.advance.cut := by
  obtain ⟨before, rest⟩ := c
  cases rest with
  | nil => rfl
  | cons t rest =>
    cases h : t.isEof with
    | true => simp [cut_of_isEof h, advance, h]
    | false =>
      rw [cut_of_not_isEof h, advance_cons _ h, advance_cons _ h]
      rfl

theorem eat_cut (c : Cursor) (text : String) : c.cut.eat text = (c.eat text).cut := by
  unfold eat
  rw [sees_cut]
  split
  · exact advance_cut c
  · rfl

theorem skipFrom_cut (p : Token → Bool) (before : Option Token) (rest : List Token) :
    skipFrom p before (rest.takeWhile (!·.isEof)) = (skipFrom p before rest).cut := by
  induction rest generalizing before with
  | nil => rfl
  | cons t rest ih =>
    cases h : t.isEof with
    | true => simp [takeWhile_of_isEof h, skipFrom, h, cut_of_isEof h]
    | false =>
      rw [takeWhile_of_not_isEof h, skipFrom, skipFrom]
      split
      · rw [cut_of_not_isEof h]
      · exact ih _

theorem skipUntil_cut (p : Token → Bool) (c : Cursor) :
    c.cut.skipUntil p = (c.skipUntil p).cut :=
  skipFrom_cut p c.before c.rest

theorem closeAngles_cut (depth : Nat) (before : Option Token) (rest : List Token) :
    closeAngles depth before (rest.takeWhile (!·.isEof)) = (closeAngles depth before rest).cut := by
  induction rest generalizing depth before with
  | nil => cases depth <;> rfl
  | cons t rest ih =>
    cases depth with
    | zero => simp only [closeAngles, cut]
    | succ depth =>
      cases h : t.isEof with
      | true => simp [takeWhile_of_isEof h, closeAngles, h, cut_of_isEof h]
      | false =>
        rw [takeWhile_of_not_isEof h, closeAngles, closeAngles, h]
        exact ih _ _

theorem skipAngles_cut (c : Cursor) : c.cut.skipAngles = c.skipAngles.cut := by
  obtain ⟨before, rest⟩ := c
  cases rest with
  | nil => rfl
  | cons t rest =>
    cases h : t.isEof with
    | true => simp [cut_of_isEof h, skipAngles, h]
    | false =>
      rw [cut_of_not_isEof h]
      unfold skipAngles
      simp only [h, Bool.not_false, Bool.true_and]
      split
      · exact closeAngles_cut _ _ _
      · rw [cut_of_not_isEof h]

/-- An end mark is no identifier, so it need not be told apart where one is looked for. -/
theorem any_head?_takeWhile (tokens : List Token) :
    (tokens.takeWhile (!·.isEof)).head?.any (·.is .identifier) =
      tokens.head?.any (·.is .identifier) := by
  cases tokens with
  | nil => rfl
  | cons t rest =>
    cases h : t.isEof with
    | true =>
      have hnot : t.is .identifier = false :=
        Bool.eq_false_iff.2 fun ht => by simp [not_isEof_of_is ht (by decide)] at h
      simp [takeWhile_of_isEof h, hnot]
    | false => simp [takeWhile_of_not_isEof h]

theorem nameFrom_cut (front : String) (tokens : List Token) :
    nameFrom front (tokens.takeWhile (!·.isEof)) =
      (nameFrom front tokens).map (Prod.map id cut) := by
  fun_induction nameFrom front tokens with
  | case1 => rfl
  | case2 front t ht =>
    rw [takeWhile_of_not_isEof (not_isEof_of_is ht (by decide))]
    simp [nameFrom, ht]
  | case3 front t ht s more hs ih =>
    obtain ⟨hscope, hmore⟩ := Bool.and_eq_true_iff.1 hs
    rw [takeWhile_of_not_isEof (not_isEof_of_is ht (by decide)),
      takeWhile_of_not_isEof (not_isEof_of_is hscope (by decide)), nameFrom, ← ih]
    simp [ht, hscope, any_head?_takeWhile, hmore]
  | case4 front t ht s more hs =>
    rw [takeWhile_of_not_isEof (not_isEof_of_is ht (by decide))]
    cases h : s.isEof with
    | true => simp [takeWhile_of_isEof h, nameFrom, ht, cut_of_isEof h]
    | false =>
      rw [takeWhile_of_not_isEof h, nameFrom, any_head?_takeWhile]
      simp [ht, hs, cut_of_not_isEof h]
  | case5 front t rest ht =>
    cases h : t.isEof with
    | true => rw [takeWhile_of_isEof h, nameFrom, Option.map_none]
    | false => rw [takeWhile_of_not_isEof h, nameFrom.eq_def, Option.map_none]; simp [ht]

theorem qualifiedName?_cut (c : Cursor) :
    c.cut.qualifiedName? = c.qualifiedName?.map (Prod.map id cut) := by
  obtain ⟨before, rest⟩ := c
  cases rest with
  | nil => rfl
  | cons t rest =>
    have hname := nameFrom_cut "" (t :: rest)
    cases h : t.isEof with
    | true =>
      have hnot : t.is .scope = false :=
        Bool.eq_false_iff.2 fun ht => by simp [not_isEof_of_is ht (by decide)] at h
      rw [takeWhile_of_isEof h] at hname
      rw [cut_of_isEof h]
      simpa [qualifiedName?, hnot, nameFrom] using hname
    | false =>
      rw [takeWhile_of_not_isEof h] at hname
      rw [cut_of_not_isEof h]
      unfold qualifiedName?
      dsimp only
      split
      · exact nameFrom_cut _ _
      · exact hname

end Cursor

namespace Builder
open Cursor
variable {b : Builder}

def cutRest (r : Outlined) : Outlined := r.map (Prod.map id Cursor.cut)

theorem cutRest_bind {α : Type} (r : Except Halted α) (f : α → Outlined) :
    cutRest (r >>= f) = r >>= fun a => cutRest (f a) := by
  cases r <;> rfl

theorem skipFrom_cut (b : Builder) (depth : Nat) (before : Option Token) (rest : List Token) :
    b.skipFrom depth before (rest.takeWhile (!·.isEof)) =
      Prod.map id Cursor.cut (b.skipFrom depth before rest) := by
  induction rest generalizing b before with
  | nil => rfl
  | cons t rest ih =>
    cases h : t.isEof with
    | true => simp [takeWhile_of_isEof h, skipFrom, h, cut_of_isEof h]
    | false =>
      rw [takeWhile_of_not_isEof h, skipFrom, skipFrom, h]
      simp only [Bool.false_eq_true, if_false]
      split
      · rfl
      · exact ih _ _

theorem skipStatement_cut (b : Builder) (c : Cursor) :
    b.skipStatement c.cut = Prod.map id Cursor.cut (b.skipStatement c) :=
  skipFrom_cut b _ c.before c.rest

theorem namespaceBody_cut (b : Builder) (line : Nat) (c : Cursor) :
    b.namespaceBody line c.cut = cutRest (b.namespaceBody line c) := by
  have hnamed : c.cut.qualifiedName?.getD ("", c.cut) =
      Prod.map id Cursor.cut (c.qualifiedName?.getD ("", c)) := by
    rw [qualifiedName?_cut]
    cases c.qualifiedName? <;> rfl
  unfold namespaceBody
  rw [hnamed]
  generalize c.qualifiedName?.getD ("", c) = named
  obtain ⟨name, d⟩ := named
  simp only [Prod.map_fst, Prod.map_snd, id_eq, sees_cut, advance_cut]
  split
  · rw [skipStatement_cut]
    rfl
  · split
    · rw [cutRest_bind]
      rfl
    · rfl

theorem classBody_cut (b : Builder) (kind : EntryKind) (line : Nat) (before : Option Token)
    (c : Cursor) : b.classBody kind line before c.cut = cutRest (b.classBody kind line before c) := by
  unfold classBody
  split
  · rfl
  · rw [qualifiedName?_cut]
    cases c.qualifiedName? with
    | none => rfl
    | some named =>
      obtain ⟨name, d⟩ := named
      simp only [Option.map_some, Prod.map_apply, id_eq, peek?_cut, sees_cut, skipUntil_cut,
        advance_cut]
      split
      · rw [cutRest_bind]
        refine congrArg _ (funext fun owner => ?_)
        obtain ⟨parent, last⟩ := owner
        dsimp only
        split
        · rw [cutRest_bind]
          rfl
        · split
          · rw [cutRest_bind]
            rfl
          · rfl
      · rfl

theorem enumBody_cut (b : Builder) (line : Nat) (c : Cursor) :
    b.enumBody line c.cut = cutRest (b.enumBody line c) := by
  have hkey : (if c.cut.sees "class" then c.cut.advance else c.cut.eat "struct") =
      (if c.sees "class" then c.advance else c.eat "struct").cut := by
    rw [sees_cut, advance_cut, eat_cut, apply_ite Cursor.cut]
  unfold enumBody
  dsimp only
  rw [hkey, qualifiedName?_cut]
  cases (if c.sees "class" then c.advance else c.eat "struct").qualifiedName? with
  | none => rfl
  | some named =>
    obtain ⟨name, d⟩ := named
    simp only [Option.map_some, Prod.map_apply, id_eq, sees_cut]
    split
    · rfl
    · split
      · rw [cutRest_bind]
        refine congrArg _ (funext fun known => ?_)
        split
        · rfl
        · rw [cutRest_bind]
          rfl
      · rfl

/-- The name of a pointer is read by its place, but only behind a token that is no end mark. -/
theorem nameAfter_cut {c : Cursor} (h : Declarators.seesPointer c) :
    Declarators.nameAfter c.cut = Declarators.nameAfter c := by
  obtain ⟨text, hsees⟩ : ∃ text, c.sees text := by
    simp only [Declarators.seesPointer, Bool.or_eq_true] at h
    rcases h with (h | h) | h <;> exact ⟨_, h⟩
  obtain ⟨t, -, ht, hrest⟩ := exists_of_sees hsees
  generalize c.advance.rest = rest at hrest
  unfold Declarators.nameAfter cut
  rw [hrest, takeWhile_of_not_isEof ht]
  have hname := any_head?_takeWhile rest
  cases rest with
  | nil => rfl
  | cons u rest =>
    cases hu : u.isEof with
    | true =>
      rw [takeWhile_of_isEof hu] at hname ⊢
      simp only [List.head?_nil, Option.any_none, List.head?_cons, Option.any_some] at hname
      simp [← hname]
    | false => rw [takeWhile_of_not_isEof hu]

theorem pass_cut (d : Declarators) (t : Token) (c : Cursor) : d.pass t c.cut = d.pass t c := by
  have hpointer : Declarators.seesPointer c.cut = Declarators.seesPointer c := by
    simp [Declarators.seesPointer]
  unfold Declarators.pass
  dsimp only
  rw [hpointer]
  split
  · split
    · next h =>
      simp only [Bool.and_eq_true] at h
      rw [nameAfter_cut h.1.2]
    · rfl
  · rfl

theorem declarators_cut (b : Builder) (depth : Nat) (d : Declarators) (c : Cursor) :
    b.declarators depth d c.cut =
      (b.declarators depth d c).map (Prod.map id (Prod.map id Cursor.cut)) := by
  induction c using Cursor.shorter_induction generalizing b d with
  | step before rest ih =>
  cases rest with
  | nil => simp [declarators_nil, Except.map]
  | cons t rest =>
    cases h : t.isEof with
    | true => simp [declarators_nil, declarators_of_isEof _ _ _ _ h, cut_of_isEof h, Except.map]
    | false =>
      have hafter : (⟨some t, rest.takeWhile (!·.isEof)⟩ : Cursor) = cut ⟨some t, rest⟩ := rfl
      have hrest := fun b d => ih ⟨some t, rest⟩ (Nat.lt_succ_self _) b d
      rw [cut_of_not_isEof h, declarators_cons _ _ _ _ h, declarators_cons _ _ _ _ h, hafter]
      simp only [pass_cut, classBody_cut, hrest]
      split
      · rfl
      · split
        · rfl
        · split
          · next kind _ =>
            cases hb : b.classBody kind t.beginLine before ⟨some t, rest⟩ with
            | error halted => rfl
            | ok r =>
              have hle := within_classBody _ _ _ _ _ _ _ hb
              exact ih r.2 (Nat.lt_succ_of_le hle) r.1 d
          · split <;> rfl

theorem typedefBody_cut (b : Builder) (line : Nat) (c : Cursor) :
    b.typedefBody line c.cut = cutRest (b.typedefBody line c) := by
  unfold typedefBody
  rw [declarators_cut]
  cases b.declarators b.frames.count .none c with
  | error halted => rfl
  | ok r =>
    obtain ⟨inner, d, rest⟩ := r
    exact (cutRest_bind (inner.recordAll line d.names.reverse) fun b => .ok (b, rest)).symm

theorem aliasBody_cut (b : Builder) (line : Nat) (c : Cursor) :
    b.aliasBody line c.cut = cutRest (b.aliasBody line c) := by
  unfold aliasBody
  simp only [peek?_cut, advance_cut, sees_cut, skipStatement_cut]
  split
  · split
    · rw [cutRest_bind]
      rfl
    · rfl
  · rfl

theorem declaration_cut (b : Builder) (before : Option Token) (t : Token) (c : Cursor) :
    b.declaration before t c.cut = cutRest (b.declaration before t c) := by
  unfold declaration
  rw [namespaceBody_cut, skipAngles_cut, enumBody_cut, typedefBody_cut, aliasBody_cut]
  split
  · rfl
  · split
    · rfl
    · split
      · rfl
      · split
        · rfl
        · split
          · rfl
          · split
            · split
              · rfl
              · exact classBody_cut _ _ _ _ _
            · rfl

/-- A run looks at no token from the first end mark on. -/
theorem run_cut (b : Builder) (c : Cursor) : b.run c.cut = b.run c := by
  induction c using Cursor.shorter_induction generalizing b with
  | step before rest ih =>
  cases rest with
  | nil => rfl
  | cons t rest =>
    cases h : t.isEof with
    | true => rw [cut_of_isEof h, run_nil, run_of_isEof _ _ h]
    | false =>
      have hafter : (⟨some t, rest.takeWhile (!·.isEof)⟩ : Cursor) = cut ⟨some t, rest⟩ := rfl
      rw [cut_of_not_isEof h, run_eq_bind _ _ h, run_eq_bind _ _ h, hafter, declaration_cut]
      cases hd : b.declaration before t ⟨some t, rest⟩ with
      | error halted => rfl
      | ok r =>
        have hle := within_declaration _ _ _ _ _ _ hd
        exact ih r.2 (Nat.lt_succ_of_le hle) r.1

end Builder

namespace Outline

/-- Nothing from the first end mark on matters to an outline, nor to what is reported of it. -/
theorem ofTokens_append_endMark {tokens : List Token} {e : Token}
    (htokens : ∀ t ∈ tokens, t.isEof = false) (he : e.isEof) (rest : List Token) :
    ofTokens (tokens ++ e :: rest) = ofTokens tokens := by
  have hcut : Cursor.cut (.ofTokens (tokens ++ e :: rest)) = .ofTokens tokens := by
    have hall : ∀ t ∈ tokens, (!t.isEof) = true := by simpa using htokens
    rw [Cursor.cut, Cursor.ofTokens, List.takeWhile_append_of_pos hall,
      Cursor.takeWhile_of_isEof he, List.append_nil]
    rfl
  have hrun := Builder.run_cut Builder.start (.ofTokens (tokens ++ e :: rest))
  unfold ofTokens
  rw [← hrun, hcut]

/-- The name of a pointer to function stands behind the end mark. Without the mark it is listed. -/
theorem ofTokens_append_endMark_pointer :
    let token := fun kind image => Token.plain kind image (.point .start)
    let tokens := [token .keyword "typedef", token .keyword "void", token .leftParen "(",
      token .punctuator "*"]
    let rest := [token .identifier "f", token .rightParen ")", token .leftParen "(",
      token .rightParen ")", token .punctuator ";"]
    let names := fun (o : Outline) => o.entries.map Entry.name
    (∀ t ∈ tokens, t.isEof = false) ∧ (token .eof "").isEof ∧
      ofTokens (tokens ++ token .eof "" :: rest) = ofTokens tokens ∧
      (∃ o, (ofTokens tokens).value = .ok o ∧ names o = []) ∧
      ∃ o, (ofTokens (tokens ++ rest)).value = .ok o ∧ names o = ["f"] := by
  intro token tokens rest names
  have htokens : ∀ t ∈ tokens, t.isEof = false := by decide
  have he : (token .eof "").isEof := by decide
  obtain ⟨o, ho, hnames⟩ : ∃ o, (ofTokens tokens).value = .ok o ∧ decide (names o = []) :=
    exists_ok_of_any (by decide +kernel)
  obtain ⟨o', ho', hnames'⟩ : ∃ o, (ofTokens (tokens ++ rest)).value = .ok o ∧
      decide (names o = ["f"]) :=
    exists_ok_of_any (by decide +kernel)
  exact ⟨htokens, he, ofTokens_append_endMark htokens he rest, ⟨o, ho, of_decide_eq_true hnames⟩,
    o', ho', of_decide_eq_true hnames'⟩

end Outline
end SourceOutline
