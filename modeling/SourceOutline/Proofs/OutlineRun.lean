import SourceOutline.Proofs.EndMarks
import SourceOutline.Proofs.OutlineStep

/-! How an outline follows its tokens.
Every run is made of a few kinds of steps, each of which says what becomes of the builder and which
tokens are left. What holds of a whole run is shown step by step. -/
namespace SourceOutline

theorem Token.image_of_isSymbol {t : Token} {text : String} (h : t.isSymbol text) :
    t.image = text := by
  unfold isSymbol at h
  simp only [Bool.and_eq_true, beq_iff_eq] at h
  exact h.2

theorem EntryKind.image_of_ofClassKey? {t : Token} {kind : EntryKind}
    (h : EntryKind.ofClassKey? t = some kind) :
    t.image ≠ "\x7b" ∧ t.image ≠ "\x7d" := by
  unfold ofClassKey? at h
  constructor <;>
  · intro himage
    simp [himage] at h

namespace Builder
open ScopeTree
variable {b b' inner : Builder} {name : String} {c d : Cursor} {before : Option Token} {t : Token}
  {kind : EntryKind} {line : Nat}

/-- A class head is passed up to the brace of its body or the end of the declaration. -/
def endsHead (t : Token) : Bool := t.isSymbol "\x7b" || t.isSymbol ";"

/-- What a builder does with the tokens in front of it, a token or a group of tokens at a time. -/
inductive Follows : Builder → List Token → Builder → List Token → Prop
  | trans {b inner b' : Builder} {ts us vs : List Token} (h : Follows b ts inner us)
      (h' : Follows inner us b' vs) : Follows b ts b' vs
  | stay {b b' : Builder} (ts : List Token) (h : Stays b b') : Follows b ts b' ts
  | pass (b : Builder) (t : Token) (rest : List Token) :
      Follows b (t :: rest) (b.passToken t) rest
  | name (b : Builder) {t : Token} (rest : List Token) (h : t.is .identifier || t.is .scope) :
      Follows b (t :: rest) b rest
  | enter {b b' : Builder} {t : Token} (rest : List Token) (ht : t.isSymbol "\x7b")
      (hframes : b'.frames = b.frames.push (.scope b.current)) (hgrown : b.tree.Grown b'.tree) :
      Follows b (t :: rest) b' rest
  | angles (b : Builder) {t : Token} (rest : List Token)
      (ht : t.is .keyword && t.image = "template") :
      Follows b (t :: rest) b (Cursor.skipAngles ⟨some t, rest⟩).rest
  | head (b : Builder) {t : Token} {rest : List Token} {name : String} {c : Cursor}
      (ht : (EntryKind.ofClassKey? t).isSome)
      (hname : Cursor.qualifiedName? ⟨some t, rest⟩ = some (name, c))
      (hnext : c.rest.head?.any declares) (h : Follows b (t :: rest) b c.rest) :
      Follows b (t :: rest) b (c.skipUntil endsHead).rest

namespace Follows

theorem refl (b : Builder) (ts : List Token) : Follows b ts b ts := .stay ts (.refl b)

theorem drop (b : Builder) (rest : List Token) (hopen : t.image ≠ "\x7b")
    (hclose : t.image ≠ "\x7d") : Follows b (t :: rest) b rest := by
  have hpass : b.passToken t = b := by simp [passToken, hopen, hclose]
  have h := pass b t rest
  rwa [hpass] at h

theorem grown {ts us : List Token} (h : Follows b ts b' us) : b.tree.Grown b'.tree := by
  induction h with
  | trans _ _ ih ih' => exact ih.trans ih'
  | stay _ h => exact h.grown
  | pass b t rest => exact tree_passToken b t ▸ .refl
  | enter _ _ _ hgrown => exact hgrown
  | name | angles | head => exact .refl

theorem suffix {ts us : List Token} (h : Follows b ts b' us) : us <:+ ts := by
  induction h with
  | trans _ _ ih ih' => exact ih'.trans ih
  | stay => exact List.suffix_refl _
  | pass _ t rest => exact List.suffix_cons t rest
  | @name _ t rest => exact List.suffix_cons t rest
  | @enter _ _ t rest => exact List.suffix_cons t rest
  | @angles _ t rest => exact (Cursor.skipAngles_suffix ⟨some t, rest⟩).trans (List.suffix_cons t rest)
  | head _ _ _ _ _ ih => exact (Cursor.skipFrom_suffix _ _ _).trans ih

end Follows

theorem follows_advance (b : Builder) {text : String} (h : c.sees text) (hopen : text ≠ "\x7b")
    (hclose : text ≠ "\x7d") : Follows b c.rest b c.advance.rest := by
  obtain ⟨t, ht, -, hrest⟩ := Cursor.exists_of_sees h
  have himage : t.image = text := Token.image_of_isSymbol ht
  rw [hrest]
  exact .drop b _ (himage ▸ hopen) (himage ▸ hclose)

theorem follows_enter (h : c.sees "\x7b") (hframes : b'.frames = b.frames.push (.scope b.current))
    (hgrown : b.tree.Grown b'.tree) : Follows b c.rest b' c.advance.rest := by
  obtain ⟨t, ht, -, hrest⟩ := Cursor.exists_of_sees h
  rw [hrest]
  exact .enter _ ht hframes hgrown

theorem follows_nameFrom (b : Builder) {front : String} {tokens : List Token}
    (h : Cursor.nameFrom front tokens = some (name, c)) : Follows b tokens b c.rest := by
  fun_induction Cursor.nameFrom front tokens with
  | case1 => cases h
  | case2 front t ht =>
    cases h
    exact .name b [] (by simp [ht])
  | case3 front t ht s more hs ih =>
    have hscope : s.is .scope := (Bool.and_eq_true_iff.1 hs).1
    exact .trans (.name b _ (by simp [ht])) (.trans (.name b _ (by simp [hscope])) (ih h))
  | case4 front t ht s more =>
    cases h
    exact .name b _ (by simp [ht])
  | case5 => cases h

theorem follows_qualifiedName? (b : Builder) (h : c.qualifiedName? = some (name, d)) :
    Follows b c.rest b d.rest := by
  unfold Cursor.qualifiedName? at h
  split at h
  · cases h
  · next t rest hr =>
    rw [hr]
    split at h
    · next ht => exact .trans (.name b rest (by simp [ht])) (follows_nameFrom b h)
    · exact follows_nameFrom b h

theorem follows_skipFrom (b : Builder) (depth : Nat) (before : Option Token)
    (rest : List Token) :
    Follows b rest (b.skipFrom depth before rest).1 (b.skipFrom depth before rest).2.rest := by
  induction rest generalizing b before with
  | nil => exact .refl _ _
  | cons t rest ih =>
    unfold skipFrom
    split
    · exact .refl _ _
    · split
      · next hend =>
        have himage : t.image = ";" := by simpa using (Bool.and_eq_true_iff.1 hend).1
        exact .drop b rest (by simp [himage]) (by simp [himage])
      · exact .trans (.pass b t rest) (ih _ _)

theorem follows_skipStatement (h : b.skipStatement c = (b', d)) :
    Follows b c.rest b' d.rest := by
  have hfollows := follows_skipFrom b b.frames.count c.before c.rest
  rw [show b.skipFrom b.frames.count c.before c.rest = (b', d) from h] at hfollows
  exact hfollows

theorem follows_namespaceBody (h : b.namespaceBody line c = .ok (b', d)) :
    Follows b c.rest b' d.rest := by
  have hname : Follows b c.rest b (c.qualifiedName?.getD ("", c)).2.rest := by
    cases hq : c.qualifiedName? with
    | none => exact .refl _ _
    | some r => exact follows_qualifiedName? b hq
  refine hname.trans ?_
  unfold namespaceBody at h
  dsimp only at h
  split at h
  · next heq =>
    have hpassed := follows_advance b heq (by decide) (by decide)
    exact hpassed.trans (follows_skipStatement (Except.ok.inj h))
  · split at h
    · next hbrace =>
      obtain ⟨inner, hinner, h⟩ := bind_eq_ok.1 h
      obtain ⟨hframes, hgrown⟩ := enterAll_spec hinner
      cases h
      exact follows_enter hbrace (by rw [hframes]) hgrown
    · cases h
      exact .refl _ _

theorem any_head?_skipFrom (p : Token → Bool) (before : Option Token) (rest : List Token) :
    ∀ t ∈ (Cursor.skipFrom p before rest).rest.head?, t.isEof || p t := by
  induction rest generalizing before with
  | nil => simp [Cursor.skipFrom]
  | cons t rest ih =>
    unfold Cursor.skipFrom
    split
    · next ht =>
      rintro u ⟨⟩
      exact ht
    · exact ih _

theorem follows_endsHead (b : Builder) (h : ¬ (c.skipUntil endsHead).sees "\x7b") :
    Follows b (c.skipUntil endsHead).rest b (c.skipUntil endsHead).advance.rest := by
  have hend : ∀ t ∈ (c.skipUntil endsHead).rest.head?, t.isEof || endsHead t :=
    any_head?_skipFrom endsHead c.before c.rest
  generalize c.skipUntil endsHead = e at h hend
  obtain ⟨before, rest⟩ := e
  cases rest with
  | nil => exact .refl _ _
  | cons t rest =>
    cases heof : t.isEof with
    | true =>
      rw [Cursor.advance]
      simp only [heof, if_true]
      exact .refl _ _
    | false =>
      have hpeek := Cursor.peek?_cons before heof rest
      have ht : endsHead t := (Bool.or_eq_true_iff.1 (hend t rfl)).resolve_left (by simp [heof])
      have hsemicolon : t.isSymbol ";" := (Bool.or_eq_true_iff.1 ht).resolve_left fun ht =>
        h (by rw [Cursor.sees, hpeek]; exact ht)
      have hsees : Cursor.sees ⟨before, t :: rest⟩ ";" := by
        rw [Cursor.sees, hpeek]
        exact hsemicolon
      exact follows_advance b hsees (by decide) (by decide)

theorem follows_classBody {rest : List Token} {key : EntryKind}
    (ht : EntryKind.ofClassKey? t = some key)
    (h : b.classBody kind line before ⟨some t, rest⟩ = .ok (b', d)) :
    Follows b (t :: rest) b' d.rest := by
  obtain ⟨hopen, hclose⟩ := EntryKind.image_of_ofClassKey? ht
  have hkey : Follows b (t :: rest) b rest := .drop b rest hopen hclose
  unfold classBody at h
  split at h
  · cases h
    exact hkey
  · split at h
    · cases h
      exact hkey
    · next name c hname =>
      have hnamed := hkey.trans (follows_qualifiedName? b hname)
      split at h
      · next hpeek =>
        have hnext : c.rest.head?.any declares := Cursor.any_head?_of_peek? hpeek
        obtain ⟨⟨p, last⟩, -, h⟩ := bind_eq_ok.1 h
        dsimp only at h
        split at h
        · next hend =>
          obtain ⟨inner, hinner, h⟩ := bind_eq_ok.1 h
          cases h
          have hend := follows_advance b hend (by decide) (by decide)
          exact (hnamed.trans hend).trans (.stay _ (stays_forward hinner))
        · have hhead : Follows b (t :: rest) b (c.skipUntil endsHead).rest :=
            .head b (by rw [ht]; rfl) hname hnext hnamed
          split at h
          · next hbrace =>
            obtain ⟨inner, hinner, h⟩ := bind_eq_ok.1 h
            cases h
            obtain ⟨hframes, hgrown⟩ := enterClass_spec hinner
            exact hhead.trans (follows_enter hbrace hframes hgrown)
          · next hbrace =>
            cases h
            exact hhead.trans (follows_endsHead b hbrace)
      · cases h
        exact hnamed

theorem follows_enumBody (h : b.enumBody line c = .ok (b', d)) : Follows b c.rest b' d.rest := by
  have hkey : Follows b c.rest b (if c.sees "class" then c.advance else c.eat "struct").rest := by
    split
    · next hclass => exact follows_advance b hclass (by decide) (by decide)
    · unfold Cursor.eat
      split
      · next hstruct => exact follows_advance b hstruct (by decide) (by decide)
      · exact .refl _ _
  refine hkey.trans ?_
  unfold enumBody at h
  dsimp only at h
  split at h
  · cases h
    exact .refl _ _
  · next name mid hname =>
    refine (follows_qualifiedName? b hname).trans ?_
    split at h
    · cases h
      exact .refl _ _
    · split at h
      · obtain ⟨known, -, h⟩ := bind_eq_ok.1 h
        split at h
        · cases h
          exact .refl _ _
        · obtain ⟨inner, hinner, h⟩ := bind_eq_ok.1 h
          cases h
          exact .stay _ (stays_recordType hinner)
      · cases h
        exact .refl _ _

theorem follows_declarators {depth : Nat} {ds : Declarators} {r : Builder × Declarators × Cursor}
    (h : b.declarators depth ds c = .ok r) : Follows b c.rest r.1 r.2.2.rest := by
  fun_induction declarators b depth ds c with
  | case1 =>
    cases h
    exact .refl _ _
  | case2 =>
    cases h
    exact .refl _ _
  | case3 b ds c t rest hr shorter after atTop _ hend =>
    cases h
    have himage := Token.image_of_isSymbol (Bool.and_eq_true_iff.1 hend).2
    rw [hr]
    exact .drop b rest (by simp [himage]) (by simp [himage])
  | case4 b ds c t rest hr shorter after atTop _ _ hcomma ih =>
    have himage := Token.image_of_isSymbol (Bool.and_eq_true_iff.1 hcomma).2
    rw [hr]
    exact .trans (.drop b rest (by simp [himage]) (by simp [himage])) (ih h)
  | case5 => cases h
  | case6 b ds c t rest hr shorter after atTop _ _ _ kind hk inner next hb hle ih =>
    rw [hr]
    exact .trans (follows_classBody hk hb) (ih h)
  | case7 b ds c t rest hr shorter after atTop _ _ _ hk hbrace ih =>
    rw [hr]
    exact .trans (.pass b t rest) (ih h)
  | case8 b ds c t rest hr shorter after atTop _ _ _ hk hbrace ih =>
    rw [hr]
    simp only [Bool.or_eq_true, decide_eq_true_eq, not_or] at hbrace
    exact .trans (.drop b rest hbrace.1 hbrace.2) (ih h)

theorem follows_typedefBody (h : b.typedefBody line c = .ok (b', d)) :
    Follows b c.rest b' d.rest := by
  unfold typedefBody at h
  obtain ⟨⟨inner, ds, rest⟩, hds, h⟩ := bind_eq_ok.1 h
  obtain ⟨last, hlast, h⟩ := bind_eq_ok.1 h
  cases h
  exact .trans (follows_declarators hds) (.stay _ (stays_recordAll hlast))

theorem follows_aliasBody (h : b.aliasBody line c = .ok (b', d)) : Follows b c.rest b' d.rest := by
  unfold aliasBody at h
  split at h
  · next name hpeek =>
    split at h
    · next hsides =>
      obtain ⟨inner, hinner, h⟩ := bind_eq_ok.1 h
      cases h
      have hname : name.is .identifier := (Bool.and_eq_true_iff.1 hsides).1
      have hfirst : Follows b c.rest b c.advance.rest := by
        rw [(Cursor.rest_of_peek? hpeek).2]
        exact .name b _ (by simp [hname])
      have hskip := hfirst.trans (follows_skipStatement rfl)
      exact hskip.trans (.stay _ (stays_recordType hinner))
    · exact follows_skipStatement (Except.ok.inj h)
  · exact follows_skipStatement (Except.ok.inj h)

theorem follows_declaration {rest : List Token}
    (h : b.declaration before t ⟨some t, rest⟩ = .ok (b', d)) :
    Follows b (t :: rest) b' d.rest := by
  have hdrop : ∀ {text : String}, (t.is .keyword && decide (t.image = text)) = true →
      text ≠ "\x7b" → text ≠ "\x7d" → Follows b (t :: rest) b rest := by
    intro text ht hopen hclose
    have himage : t.image = text := by simpa using (Bool.and_eq_true_iff.1 ht).2
    exact .drop b rest (himage ▸ hopen) (himage ▸ hclose)
  unfold declaration at h
  split at h
  · next ht => exact (hdrop ht (by decide) (by decide)).trans (follows_namespaceBody h)
  · split at h
    · next ht =>
      cases h
      exact .angles b rest ht
    · split at h
      · next ht => exact (hdrop ht (by decide) (by decide)).trans (follows_enumBody h)
      · split at h
        · next ht => exact (hdrop ht (by decide) (by decide)).trans (follows_typedefBody h)
        · split at h
          · next ht => exact (hdrop ht (by decide) (by decide)).trans (follows_aliasBody h)
          · split at h
            · next kind hk =>
              split at h
              · cases h
                obtain ⟨hopen, hclose⟩ := EntryKind.image_of_ofClassKey? hk
                exact .drop b rest hopen hclose
              · exact follows_classBody hk h
            · cases h
              exact .pass b t rest

/-! Whole runs. -/

theorem run_cons {rest : List Token} {mid : Cursor} (ht : t.isEof = false)
    (h : b.declaration before t ⟨some t, rest⟩ = .ok (inner, mid)) :
    b.run ⟨before, t :: rest⟩ = inner.run mid := by
  rw [run_eq_bind b before ht, h]
  rfl

/-- A run follows the tokens up to the first end mark. -/
theorem follows_run (h : b.run c = .ok b') :
    ∃ us, Follows b c.rest b' us ∧ ∀ t ∈ us.head?, t.isEof := by
  fun_induction run b c with
  | case1 b c hr =>
    cases h
    exact ⟨[], hr ▸ .refl _ _, nofun⟩
  | case2 b c t rest hr heof =>
    cases h
    refine ⟨t :: rest, hr ▸ .refl _ _, ?_⟩
    rintro u ⟨⟩
    exact heof
  | case3 => cases h
  | case4 b c t rest hr _ inner mid hd _ ih =>
    obtain ⟨us, hus, hend⟩ := ih h
    exact ⟨us, hr ▸ (follows_declaration hd).trans hus, hend⟩

theorem grown_run (h : b.run c = .ok b') : b.tree.Grown b'.tree := by
  obtain ⟨us, hus, -⟩ := follows_run h
  exact hus.grown

def after (b : Builder) (c : Cursor) : Nat → Except Halted (Builder × Cursor)
  | 0 => .ok (b, c)
  | k + 1 =>
    match c.rest with
    | [] => .ok (b, c)
    | t :: rest =>
      if t.isEof then .ok (b, c)
      else do
        let (inner, mid) ← b.declaration c.before t ⟨some t, rest⟩
        inner.after mid k

theorem run_of_after {k : Nat} (h : b.after c k = .ok (b', d)) : b.run c = b'.run d := by
  induction k generalizing b c with
  | zero =>
    cases h
    rfl
  | succ k ih =>
    obtain ⟨before, rest⟩ := c
    cases rest with
    | nil =>
      cases h
      rfl
    | cons t rest =>
      rw [after] at h
      dsimp only at h
      split at h
      · cases h
        rfl
      · next heof =>
        obtain ⟨⟨inner, mid⟩, hd, h⟩ := bind_eq_ok.1 h
        rw [run_cons (Bool.eq_false_iff.2 heof) hd, ih h]

theorem follows_after {k : Nat} (h : b.after c k = .ok (b', d)) :
    Follows b c.rest b' d.rest := by
  induction k generalizing b c with
  | zero =>
    cases h
    exact .refl _ _
  | succ k ih =>
    obtain ⟨before, rest⟩ := c
    cases rest with
    | nil =>
      cases h
      exact .refl _ _
    | cons t rest =>
      rw [after] at h
      dsimp only at h
      split at h
      · cases h
        exact .refl _ _
      · obtain ⟨⟨inner, mid⟩, hd, h⟩ := bind_eq_ok.1 h
        exact .trans (follows_declaration hd) (ih h)

end Builder

namespace Outline

def content (tokens : List Token) : Cursor := .ofTokens (tokens.takeWhile (!·.isEof))

theorem not_isEof_content (tokens : List Token) :
    ∀ t ∈ (content tokens).rest, t.isEof = false := by
  intro t ht
  simpa using List.all_eq_true.1 List.all_takeWhile t ht

theorem run_content (b : Builder) (tokens : List Token) :
    b.run (content tokens) = b.run (.ofTokens tokens) :=
  Builder.run_cut b (.ofTokens tokens)

/-- A run that ends well follows all its tokens. -/
theorem follows_content {tokens : List Token} {b b' : Builder}
    (h : b.run (content tokens) = .ok b') : b.Follows (content tokens).rest b' [] := by
  obtain ⟨us, hus, hend⟩ := Builder.follows_run h
  cases us with
  | nil => exact hus
  | cons t us =>
    have heof := not_isEof_content tokens t (hus.suffix.subset List.mem_cons_self)
    rw [hend t rfl] at heof
    cases heof

theorem ofTokens_eq_ok {tokens : List Token} {o : Outline} :
    (ofTokens tokens).value = .ok o ↔
      ∃ b, Builder.start.run (content tokens) = .ok b ∧ o = ⟨b.tree, b.entries.reverse⟩ := by
  have hfinish : ∀ b : Builder, b.finish.tree = b.tree ∧ b.finish.entries = b.entries := by
    intro b
    unfold Builder.finish
    split <;> exact ⟨rfl, rfl⟩
  rw [run_content]
  unfold ofTokens
  split
  · next he => simp [he]
  · next b hb =>
    obtain ⟨htree, hentries⟩ := hfinish b
    simp [hb, htree, hentries, eq_comm]

end Outline
end SourceOutline
