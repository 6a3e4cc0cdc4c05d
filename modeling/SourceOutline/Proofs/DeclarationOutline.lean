import SourceOutline.Proofs.DeclarationSteps
import SourceOutline.Proofs.DeclarationTokens

/-! Declarations have the outline they are to have.
By induction on the declarations: after each of them the builder agrees with the listing, and it is
back in the scope that it was in. -/
namespace SourceOutline
namespace Builder
open ScopeTree QualifiedName
variable {b b' inner : Builder} {l : Listing} {path : List String} {tokens : List Token}
  {closed : Token}

theorem Agrees.block {outside : Builder} {l₀ : Listing} {q : List String}
    (hb : b.Agrees l₀ path) (hframes : outside.frames = b.frames.push (.scope b.current))
    (hkeeps : Keeps path.length b outside) (hq : path.length ≤ q.length)
    (hpasses : Passes outside tokens inner) (h : inner.Agrees l q)
    (hkept : Kept q.length outside inner) (hclosed : closed.Reads .punctuator "\x7d") :
    Passes outside (tokens ++ [closed]) (inner.closeBrace closed) ∧
      (inner.closeBrace closed).Agrees l path ∧ Kept path.length b (inner.closeBrace closed) := by
  refine ⟨hpasses.trans (passes_closed hclosed), h.closeBrace hb ?_ ?_ closed⟩
  · rw [hkept.frames, hframes]
  · intro r hr
    rw [hkept.keeps r (Nat.le_trans hr hq), hkeeps r hr]

/-- Declarations in a scope lead from a builder that agrees with a listing to one that agrees with
the listing after them. -/
theorem Agrees.spells {ds : Declarations} (hs : ds.Spells tokens) (h : b.Agrees l path)
    (hdepth : path.length + ds.nesting ≤ ScopeError.depthLimit) :
    ∃ b', Passes b tokens b' ∧ b'.Agrees (ds.listing path l) path ∧ Kept path.length b b' := by
  induction hs generalizing b l path with
  | nil => exact ⟨b, .refl b, h, .refl _ b⟩
  | @namespaceDef names body rest key opened closed name inner after hkey hname hopened hbody hclosed
      hrest ihbody ihrest =>
    rw [Declarations.nesting] at hdepth
    have hnames : ∀ n ∈ names, ':' ∉ n.toList := by
      rcases hname with ⟨rfl, -⟩ | hname
      · simp
      · exact hname.not_mem
    obtain ⟨entered, hentered, hin, hframes, hkeeps⟩ := h.enterAll hnames (by omega) key.beginLine
    let block := { entered with frames := entered.frames.push (.scope b.current) }
    have hblock : block.Agrees (l.enterAll key.beginLine path names) (path ++ names) :=
      ⟨hin.tree, hin.here, hin.entries⟩
    obtain ⟨last, hlast, hagrees, hkept⟩ := ihbody hblock (by simp; omega)
    have hpushed : block.frames = b.frames.push (.scope b.current) :=
      congrArg (Frames.push · (.scope b.current)) hframes
    obtain ⟨hpasses, hback, hkept⟩ := h.block hpushed hkeeps (by simp) hlast hagrees hkept hclosed
    obtain ⟨b', hpasses', hagrees', hkept'⟩ := ihrest hback (by omega)
    refine ⟨b', ?_, hagrees', hkept.trans hkept'⟩
    simpa using (passes_namespace hkey hname hopened hentered).trans (hpasses.trans hpasses')
  | @classDef kind name body rest key t opened closed stop inner after hkind hkey hname hopened hbody
      hclosed hstop hrest ihbody ihrest =>
    rw [Declarations.nesting] at hdepth
    obtain ⟨block, hentered, hin, hframes, hkeeps⟩ :=
      h.enterClass (hname.not_mem ':' (by decide)) (by omega) kind key.beginLine
    obtain ⟨last, hlast, hagrees, hkept⟩ := ihbody hin (by simp; omega)
    obtain ⟨hpasses, hback, hkept⟩ := h.block hframes hkeeps (by simp) hlast hagrees hkept hclosed
    obtain ⟨b', hpasses', hagrees', hkept'⟩ := ihrest hback (by omega)
    refine ⟨b', ?_, hagrees', hkept.trans hkept'⟩
    simpa using (passes_class hkind hkey hname hopened hentered).trans
      (hpasses.trans ((passes_stop hstop).trans hpasses'))
  | @forward kind name rest key t stop after hkind hkey hname hstop hrest ih =>
    rw [Declarations.nesting] at hdepth
    obtain ⟨inner, hforward, hagrees, hkept⟩ :=
      h.forward (plain_of_not_mem (hname.not_mem ':' (by decide))) (by omega)
    have hhere : path.length + rest.nesting ≤ ScopeError.depthLimit := by omega
    obtain ⟨b', hpasses', hagrees', hkept'⟩ := ih hagrees hhere
    exact ⟨b', (passes_forward hkind hkey hname hstop hforward).trans hpasses', hagrees',
      hkept.trans hkept'⟩
  | @enumDef name rest key t opened closed stop words inner after hkey hwords hname hopened hinner
      hclosed hstop hrest ih =>
    obtain ⟨known, mid, hknown, hmid, hagrees, hkept⟩ :=
      h.enumerate (hname.not_mem ':' (by decide)) hname.ne_empty key.beginLine
    obtain ⟨b', hpasses', hagrees', hkept'⟩ := ih hagrees hdepth
    refine ⟨b', ?_, hagrees', hkept.trans hkept'⟩
    simpa using
      (passes_enum hkey hwords hname hopened hinner hclosed hstop hknown hmid).trans hpasses'
  | @typeAlias name rest key t equal stop target after hkey hname hequal htarget hstop hrest ih =>
    obtain ⟨mid, hmid, hagrees, hkept⟩ :=
      h.recordType (hname.not_mem ':' (by decide)) hname.ne_empty .typeAlias key.beginLine
    obtain ⟨b', hpasses', hagrees', hkept'⟩ := ih hagrees hdepth
    refine ⟨b', ?_, hagrees', hkept.trans hkept'⟩
    simpa using (passes_alias hkey hname hequal htarget hstop hmid).trans hpasses'

end Builder

namespace Outline

/-- Declarations whose scopes are not nested too deep have an outline, and its entries are those of
their listing. -/
theorem entries_ofTokens {ds : Declarations} {tokens rest : List Token} (hs : ds.Spells tokens)
    (hdepth : ds.nesting ≤ ScopeError.depthLimit) (hrest : ∀ t ∈ rest.head?, t.isEof) :
    ∃ o, (ofTokens (tokens ++ rest)).value = .ok o ∧
      o.entries = (ds.listing [] .empty).entries := by
  obtain ⟨b, hpasses, hagrees, -⟩ := Builder.agrees_start.spells hs (by simpa using hdepth)
  obtain ⟨o, ho, hentries⟩ := exists_of_passes hpasses hrest
  exact ⟨o, ho, hentries.trans hagrees.entries⟩

/-- Namespaces that are opened twice, a class that is declared first, an enumeration that is declared
twice, and an anonymous namespace. -/
theorem entries_ofTokens_reopened :
    let token := fun kind image => Token.plain kind image (.point .start)
    let keyword := token .keyword
    let name := token .identifier
    let mark := token .punctuator
    let first := [keyword "class", name "X", mark ";", keyword "enum", keyword "class", name "E",
      mark "\x7b", name "a", mark ",", name "b", mark "\x7d", mark ";"]
    let second := [keyword "struct", name "X", mark "\x7b", mark "\x7d", mark ";", keyword "enum",
      name "E", mark "\x7b", mark "\x7d", mark ";"]
    let third := [keyword "union", name "U", mark "\x7b", mark "\x7d", mark ";"]
    let tokens := [keyword "namespace", name "A", token .scope "::", name "B", mark "\x7b"] ++ first ++
      [mark "\x7d", keyword "namespace", name "A", mark "\x7b", keyword "namespace", name "B",
        mark "\x7b"] ++ second ++
      [mark "\x7d", keyword "using", name "T", mark "=", keyword "int", mark ";", mark "\x7d",
        keyword "namespace", mark "\x7b"] ++ third ++ [mark "\x7d"]
    let ds := Declarations.namespaceDef 1 ["A", "B"] (.forward "X" (.enumDef 1 "E" .nil))
      (.namespaceDef 1 ["A"]
        (.namespaceDef 1 ["B"] (.classDef .structDef 1 "X" .nil (.enumDef 1 "E" .nil))
          (.typeAlias 1 "T" .nil))
        (.namespaceDef 1 [""] (.classDef .unionDef 1 "U" .nil .nil) .nil))
    ds.Spells tokens ∧ ds.nesting = 3 ∧
      ∃ o, (ofTokens (tokens ++ [token .eof ""])).value = .ok o ∧
        o.entries.map (fun e => (e.kind, e.name)) = [(.namespaceDef, "A"), (.namespaceDef, "A::B"),
          (.enumDef, "A::B::E"), (.structDef, "A::B::X"), (.typeAlias, "A::T"),
          (.namespaceDef, "(anonymous)"), (.unionDef, "::U")] := by
  intro token keyword name mark first second third tokens ds
  have hname : ∀ c ∈ ['A', 'B', 'E', 'T', 'U', 'X', 'a', 'b'],
      (name (String.ofList [c])).Names (String.ofList [c]) := by
    have hread : ['A', 'B', 'E', 'T', 'U', 'X', 'a', 'b'].all fun c => decide
        ((Lexeme.token c []).outcome = .ok .identifier ∧ (Lexeme.token c []).taken = [c]) := by
      decide
    intro c hc
    obtain ⟨hkind, htaken⟩ := of_decide_eq_true (List.all_eq_true.1 hread c hc)
    exact ⟨⟨rfl, rfl⟩, c, [], hkind, by simpa using htaken⟩
  have hreads : ∀ kind image, (token kind image).Reads kind image := fun _ _ => ⟨rfl, rfl⟩
  have hopened := hreads .punctuator "\x7b"
  have hclosed := hreads .punctuator "\x7d"
  have hstop := hreads .punctuator ";"
  have hspace := hreads .keyword "namespace"
  have hfirst : Declarations.Spells (.forward "X" (.enumDef 1 "E" .nil)) first :=
    have hinner := Enumerators.cons (hname 'a' (by decide)) (hreads _ ",")
      (.one (hname 'b' (by decide)))
    have henum := Declarations.Spells.enumDef (hreads _ "enum") (.inr ⟨_, hreads _ "class", rfl⟩)
      (hname 'E' (by decide)) hopened hinner hclosed hstop .nil
    .forward (show .classDef ∈ EntryKind.classKinds by decide) (hreads _ _)
      (hname 'X' (by decide)) hstop henum
  have hsecond : Declarations.Spells (.classDef .structDef 1 "X" .nil (.enumDef 1 "E" .nil)) second :=
    have henum := Declarations.Spells.enumDef (hreads _ "enum") (.inl rfl) (hname 'E' (by decide))
      hopened .nil hclosed hstop .nil
    .classDef (by decide) (hreads _ _) (hname 'X' (by decide)) hopened .nil hclosed hstop henum
  have hthird : Declarations.Spells (.classDef .unionDef 1 "U" .nil .nil) third :=
    .classDef (by decide) (hreads _ _) (hname 'U' (by decide)) hopened .nil hclosed hstop .nil
  have halias := Declarations.Spells.typeAlias (hreads _ "using") (hname 'T' (by decide))
    (hreads _ "=") (show Target [keyword "int"] from ⟨by simp, by decide, by decide⟩) hstop .nil
  have hanonymous := Declarations.Spells.namespaceDef hspace (.inl ⟨rfl, rfl⟩) hopened hthird
    hclosed .nil
  have hinner := Declarations.Spells.namespaceDef hspace (.inr (.one (hname 'B' (by decide))))
    hopened hsecond hclosed halias
  have houter := Declarations.Spells.namespaceDef hspace (.inr (.one (hname 'A' (by decide))))
    hopened hinner hclosed hanonymous
  have hall := Declarations.Spells.namespaceDef hspace
    (.inr (.cons (hname 'A' (by decide)) (hreads .scope "::") (.one (hname 'B' (by decide)))))
    hopened hfirst hclosed houter
  have hs : ds.Spells tokens := hall
  obtain ⟨o, ho, hentries⟩ := entries_ofTokens hs (by decide)
    (show ∀ t ∈ [token .eof ""].head?, t.isEof by simp [token, Token.isEof, Token.is, Token.plain])
  refine ⟨hs, by decide, o, ho, ?_⟩
  rw [hentries]
  decide +kernel

end Outline
end SourceOutline
