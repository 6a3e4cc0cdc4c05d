import SourceOutline.Proofs.SourceParts

/-! Filtering what has been filtered.
When no template holds a trigger, all that is left of triggers in the output are names of call filters
that are not called and the tokens that stand right after them. Read again, each such name meets the
same token. -/
namespace SourceOutline

theorem TokenSource.next_script {c : Script} {t : Token} {ts : List Token}
    (h : c.rest = (t :: ts).map .ok) :
    (TokenSource.next (.script c)).value =
      (.ok t, .script { c with rest := ts.map .ok, calls := c.calls + 1 }) := by
  simp [TokenSource.next, h, Reported.silent]

namespace Rewriting

/-- A run of tokens in which the filters find nothing to replace. -/
inductive Fixed (filters : List Filter) : List Token → Prop
  | endMark {t : Token} (ht : t.isEof = true) : Fixed filters [t]
  | kept {t : Token} {ts : List Token} (ht : t.isEof = false)
      (hf : triggered? filters t = none) (h : Fixed filters ts) : Fixed filters (t :: ts)
  | passed {f : Filter} {t u : Token} {ts : List Token} (hf : triggered? filters t = some f)
      (hk : f.kind = .call) (hu : u.is .leftParen = false) (he : u.isEof = false)
      (h : Fixed filters ts) : Fixed filters (t :: u :: ts)
  | passedEnd {f : Filter} {t u : Token} (hf : triggered? filters t = some f)
      (hk : f.kind = .call) (he : u.isEof = true) : Fixed filters [t, u]

namespace Fixed
variable {filters : List Filter} {ts : List Token}

theorem lead (h : Fixed filters ts) (vs : List Trivia) : Fixed filters (Token.lead vs ts) := by
  cases h with
  | endMark ht => exact .endMark ht
  | kept ht hf h => exact .kept ht hf h
  | passed hf hk hu he h => exact .passed hf hk hu he h
  | passedEnd hf hk he => exact .passedEnd hf hk he

theorem append (h : Fixed filters ts) {us : List Token}
    (hus : ∀ u ∈ us, u.isEof = false ∧ triggered? filters u = none) :
    Fixed filters (us ++ ts) := by
  induction us with
  | nil => exact h
  | cons u us ih =>
    obtain ⟨hu, hf⟩ := hus u List.mem_cons_self
    exact .kept hu hf (ih fun r hr => hus r (List.mem_cons_of_mem u hr))

/-- The parts of such a run give it out again, and no trigger is replaced. -/
theorem exists_cut (h : Fixed filters ts) :
    ∃ ps, Cut filters ts ps ∧ given ps = ts ∧ ∀ m : EngineMetrics,
      (ps.foldl Part.count m).defines = m.defines ∧ (ps.foldl Part.count m).calls = m.calls := by
  induction h with
  | @endMark t ht => exact ⟨[.kept t], .endMark ht, rfl, fun m => ⟨rfl, rfl⟩⟩
  | @kept t ts ht hf _ ih =>
    obtain ⟨ps, hcut, rfl, hcount⟩ := ih
    exact ⟨.kept t :: ps, .kept ht hf hcut, rfl, fun m => hcount _⟩
  | @passed f t u ts hf hk hu he _ ih =>
    obtain ⟨ps, hcut, rfl, hcount⟩ := ih
    exact ⟨.passed t u :: ps, .passed hf hk hu he hcut, rfl, fun m => hcount _⟩
  | @passedEnd f t u hf hk he =>
    exact ⟨[.passed t u], .passedEnd hf hk he, rfl, fun m => ⟨rfl, rfl⟩⟩

theorem yields (h : Fixed filters ts) {c : Script} (hc : c.rest = ts.map .ok) :
    ∃ s, Yields TokenSource.next (.script c) ts s := by
  induction h generalizing c with
  | endMark ht => exact ⟨_, .last (TokenSource.next_script hc) ht⟩
  | kept ht hf _ ih =>
    obtain ⟨s, hs⟩ := ih (c := { c with rest := _, calls := c.calls + 1 }) rfl
    exact ⟨s, .more (TokenSource.next_script hc) ht hs⟩
  | passed hf hk hu he _ ih =>
    have ht := Filter.isEof_of_triggered? hf
    obtain ⟨s, hs⟩ := ih (c := { c with rest := _, calls := c.calls + 1 + 1 }) rfl
    exact ⟨s, .more (TokenSource.next_script hc) ht
      (.more (TokenSource.next_script rfl) he hs)⟩
  | passedEnd hf hk he =>
    have ht := Filter.isEof_of_triggered? hf
    exact ⟨_, .more (TokenSource.next_script hc) ht
      (.last (TokenSource.next_script rfl) he)⟩

end Fixed

section Closed
variable {filters : List Filter}
  (hclean : ∀ f ∈ filters, ∀ t ∈ f.template, t.isEof = false)
  (hclosed : ∀ f ∈ filters, ∀ t ∈ f.template, ∀ g ∈ filters, g.fits t = false)
include hclean hclosed

theorem Fixed.replaced {f : Filter} {t : Token} {us : List Token}
    (hf : triggered? filters t = some f) (h : Fixed filters us) :
    Fixed filters (Token.lead t.trivia (copies f.template t.span ++ us)) := by
  have hmem := Filter.mem_of_triggered? hf
  refine (h.append ?_).lead t.trivia
  intro r hr
  obtain ⟨q, hq, rfl⟩ := List.mem_map.1 hr
  refine ⟨hclean f hmem q hq, ?_⟩
  rw [← Filter.find?_fits, List.find?_eq_none]
  intro g hg
  have hfits := hclosed f hmem q hq g hg
  simpa [Filter.fits, Token.isIdentifier, Token.is] using hfits

/-- With templates that hold no triggers, the filters find nothing to replace in what they made. -/
theorem Cut.fixed {ts : List Token} {ps : List Part} (h : Cut filters ts ps) :
    Fixed filters (given ps) := by
  induction h with
  | endMark ht => exact .endMark ht
  | kept ht hf _ ih => exact .kept ht hf ih
  | define hf hk _ ih => exact .replaced hclean hclosed hf ih
  | call hf hk hu hus hle _ ih => exact .replaced hclean hclosed hf ih
  | passed hf hk hu he _ ih => exact .passed hf hk hu he ih
  | passedEnd hf hk he => exact .passedEnd hf hk he

end Closed
end Rewriting

namespace Engine
open Rewriting

/-- An engine whose templates hold no triggers has done all its work in one run: the same filters give
its output out again as it is, trivia and places included, and replace nothing. -/
theorem tokenizeAll_again {e : Engine} (he : e.Reached)
    (hclosed : ∀ f ∈ e.filters, ∀ t ∈ f.template, ∀ g ∈ e.filters, g.fits t = false)
    {input : String} {us : List Token} (h : (e.tokenizeAll input).result = .ok us)
    {e' : Engine} (hfilters : e'.filters = e.filters) {c : Script}
    (hsource : e'.buffer.source = .script c) (hitems : c.items = us.map .ok) (input' : String) :
    (e'.tokenizeAll input').result = .ok us ∧
      (e'.tokenizeAll input').engine.metrics.defines = 0 ∧
      (e'.tokenizeAll input').engine.metrics.calls = 0 := by
  obtain ⟨ts, s, ps, _, hcut, rfl⟩ := cut_of_tokenizeAll he h
  have hclean : ∀ f ∈ e.filters, ∀ t ∈ f.template, t.isEof = false := by
    intro f hf
    exact he.wellFormed.unmarked f (List.mem_reverse.1 hf)
  have hw : e'.WellFormed := he.wellFormed.of_registered_eq (List.reverse_inj.1 hfilters)
  have hfixed := hcut.fixed hclean hclosed
  obtain ⟨v, hy⟩ := hfixed.yields (c := .ofItems c.items) hitems
  obtain ⟨qs, hqs, hgiven, hcount⟩ := hfixed.exists_cut
  rw [← hfilters] at hqs
  have hrun := tokenizeAll_of_cut hw input' (by rw [hsource]; exact hy) hqs
  rw [hgiven] at hrun
  refine ⟨hrun.1, ?_⟩
  rw [hrun.2]
  exact hcount .zero

theorem tokenizeAll_again_declined :
    let t (kind : TokenKind) (image : String) := Token.plain kind image (.point .start)
    let ts := [t .identifier "M", t .identifier "D", t .identifier "D", t .identifier "M",
      t .leftParen "(", t .rightParen ")", t .identifier "M", t .eof ""]
    let e := (((ofSource (.script (.ofItems (ts.map .ok))) ⟨false, false⟩).register
      .define "D" "x (").value.2.register .call "M" "").value.2
    let us := [t .identifier "M", t .identifier "D", t .identifier "x", t .leftParen "(",
      t .identifier "M", t .eof ""]
    let e' := { e with buffer := .ofSource (.script (.ofItems (us.map .ok))) }
    (∀ f ∈ e.filters, ∀ t ∈ f.template, ∀ g ∈ e.filters, g.fits t = false) ∧
      (e.tokenizeAll "").result = .ok us ∧ (e'.tokenizeAll "").result = .ok us ∧
      (e'.tokenizeAll "").engine.metrics.defines = 0 ∧
      (e'.tokenizeAll "").engine.metrics.calls = 0 := by
  intro t ts e us e'
  have he : e.Reached := .register (.register (.start _ _) _ _ _) _ _ _
  have hclosed : ∀ f ∈ e.filters, ∀ t ∈ f.template, ∀ g ∈ e.filters, g.fits t = false := by
    decide +kernel
  have hresult : (e.tokenizeAll "").result = .ok us := by
    have hy : ∃ s, Yields TokenSource.next (e.buffer.source.reset "") ts s := by
      rw [buffer_register, buffer_register]
      exact ⟨_, .more rfl rfl (.more rfl rfl (.more rfl rfl (.more rfl rfl (.more rfl rfl
        (.more rfl rfl (.more rfl rfl (.last rfl rfl)))))))⟩
    obtain ⟨s, hy⟩ := hy
    rw [result_of_yields he.wellFormed "" hy]
    decide +kernel
  have hfilters : e'.filters = e.filters := rfl
  have hsource : e'.buffer.source = .script (.ofItems (us.map .ok)) := rfl
  exact ⟨hclosed, hresult, tokenizeAll_again he hclosed hresult hfilters hsource rfl ""⟩

end Engine
end SourceOutline
