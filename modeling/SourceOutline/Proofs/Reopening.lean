import SourceOutline.Proofs.OutlineRun
import SourceOutline.Proofs.Paths

/-! What a scope sees of the blocks of the scopes around it.
Each block of a namespace or class is a scope of its own that starts with all that the blocks before
it declare. A scope lies in one block of each scope around it, for good: it sees what that block and
the blocks before it declare, and not what a later block adds. -/
namespace SourceOutline
namespace ScopeTree
open QualifiedName
variable {t u : ScopeTree} {s a p l c : ScopeId} {outer : Scope} {n name : String}
  {q names : List String}

inductive Encloses (t : ScopeTree) (a : ScopeId) : ScopeId → Prop
  | refl : Encloses t a a
  | inner {s p : ScopeId} {scope : Scope} (hs : t.scopes[s]? = some scope)
      (hp : scope.parent = some p) (h : Encloses t a p) : Encloses t a s

/-- A name that a scope around `s` has for a child is found from `s`. -/
theorem Encloses.lookup (h : t.Encloses a s) (hw : t.WellFormed)
    (hn : (t.child? a n).isSome) : ∃ found, t.lookup s n = .ok (some found) := by
  induction h with
  | refl =>
    obtain ⟨child, hchild⟩ := Option.isSome_iff_exists.1 hn
    obtain ⟨scope, hscope, hc⟩ := Option.bind_eq_some_iff.1 hchild
    exact ⟨child, lookup_child hscope hc⟩
  | @inner s p scope hs hp _ ih =>
    cases hc : scope.children.get? n with
    | some child => exact ⟨child, lookup_child hs hc⟩
    | none =>
      obtain ⟨outer, hnested⟩ := hw.nested_of_parent hs hp
      rw [hnested.lookup hs hc]
      exact ih

theorem find_of_plain (hn : Plain n) (s : ScopeId) : t.find s n = t.lookup s n := by
  have hcut : cutFirst? n.toList = none :=
    (Text.cutAt?_eq_none_iff (by simp [separator])).2 hn
  have hafter : afterSeparator? n.toList = none := by
    cases h : afterSeparator? n.toList with
    | none => rfl
    | some rest =>
      unfold afterSeparator? at h
      split at h
      · next cs heq => exact absurd ⟨[], cs, by simp [separator, heq]⟩ hn
      · cases h
  rw [find, hafter]
  simp only
  rw [findFrom]
  split
  · simp
  · next hsome => rw [hcut] at hsome; cases hsome

theorem Extends.encloses (h : t.Extends u) (hw : t.WellFormed) (hs : s < t.size)
    (he : u.Encloses a s) : t.Encloses a s := by
  induction he with
  | refl => exact .refl
  | @inner s p scope hscope hp _ ih =>
    obtain ⟨old, hold⟩ := exists_of_lt_size hs
    obtain ⟨new, hnew, -, hparent, -⟩ := h s old hold
    cases Option.some.inj (hscope.symm.trans hnew)
    have hp' := hparent.symm.trans hp
    obtain ⟨outer, hnested⟩ := hw.nested_of_parent hold hp'
    exact .inner hold hp' (ih (lt_size_of_some hnested.found))

theorem Encloses.lt_size (h : t.Encloses a s) (hw : t.WellFormed) (hs : s < t.size) :
    a < t.size := by
  induction h with
  | refl => exact hs
  | inner hscope hp _ ih =>
    obtain ⟨outer, hnested⟩ := hw.nested_of_parent hscope hp
    exact ih (lt_size_of_some hnested.found)

/-- Names lead to `a` or to a scope inside it. -/
def Reached (t : ScopeTree) (a : ScopeId) : Prop := ∃ s, t.Live s ∧ t.Encloses a s

theorem Reached.lt_size (h : t.Reached a) (hw : t.WellFormed) : a < t.size := by
  obtain ⟨s, ⟨names, hnamed, -⟩, henc⟩ := h
  exact henc.lt_size hw hnamed.lt_size

/-- A scope that names lead to after another was entered is that one, in a scope that names led to,
or one that they led to before. -/
theorem live_entered (h : t.Orderly) (hp : t.scopes[p]? = some outer)
    (hs : (t.entered p name outer).Live s) : s = t.size ∧ t.Live p ∨ s < t.size ∧ t.Live s := by
  have hw := h.wellFormed
  obtain ⟨front, hfront⟩ := hw.exists_named (lt_size_of_some hp)
  obtain ⟨names, -, hwalk⟩ := hs
  rw [walk_root_entered hw h.tidy hp hfront] at hwalk
  split at hwalk
  · next hhit =>
    cases hwalk
    exact .inl ⟨rfl, front, hfront, hhit.2⟩
  · have hold : t.Named s names := h.tidy.walk hw.named_root hwalk
    exact .inr ⟨hold.lt_size, names, hold, hwalk⟩

theorem reached_entered (h : t.Orderly) (hp : t.scopes[p]? = some outer)
    (ha : (t.entered p name outer).Reached a) :
    a = t.size ∧ t.Live p ∨ a < t.size ∧ t.Reached a := by
  have hw := h.wellFormed
  have hx := extends_entered hp name
  have hlt := lt_size_of_some hp
  obtain ⟨s, hlive, henc⟩ := ha
  rcases live_entered h hp hlive with ⟨rfl, hin⟩ | ⟨hs, hlive⟩
  · cases henc with
    | refl => exact .inl ⟨rfl, hin⟩
    | inner hscope hparent henc =>
      -- the scopes around a new scope are those around its parent
      rw [getElem?_entered hp, if_neg (Nat.ne_of_gt hlt), if_pos rfl] at hscope
      cases hscope
      rw [(seeded_frame t p name outer).2.1] at hparent
      cases hparent
      have henc := hx.encloses hw hlt henc
      exact .inr ⟨henc.lt_size hw hlt, p, hin, henc⟩
  · have henc := hx.encloses hw hs henc
    exact .inr ⟨henc.lt_size hw hs, s, hlive, henc⟩

theorem reached_addType (hw : t.WellFormed) {id : ScopeId}
    (ha : (t.modify id (addType name)).Reached a) : t.Reached a := by
  have hx := extends_addType t id name
  obtain ⟨s, ⟨names, hnamed, hwalk⟩, henc⟩ := ha
  have hlt : s < t.size := size_modify t id (addType name) ▸ hnamed.lt_size
  rw [walk_addType] at hwalk
  exact ⟨s, ⟨names, (hx.named_iff hw hlt).1 hnamed, hwalk⟩, hx.encloses hw hlt henc⟩

/-- A scope that takes the place of another has all its children by name. -/
theorem child?_entered_of_walk (hp : t.scopes[p]? = some outer)
    (hto : t.walk root names = some p) (hl : t.walk root (names ++ [name]) = some l)
    (hn : (t.child? l n).isSome) : ((t.entered p name outer).child? t.size n).isSome := by
  have hprior : t.child? p name = some l := by
    simpa [walk_append, hto, walk_cons] using hl
  rw [child?_entered hp, if_neg (Nat.ne_of_gt (lt_size_of_some hp)), if_pos rfl, hprior]
  exact hn

/-- Names that lead to a scope go on leading to a scope, to the same or a newer one, and it has all the
children by name. -/
theorem Grown.walk (hg : t.Grown u) (h : t.Orderly) (hq : t.walk root q = some l) :
    ∃ l', u.walk root q = some l' ∧ l ≤ l' ∧
      ∀ n, (t.child? l n).isSome → (u.child? l' n).isSome := by
  induction hg with
  | refl => exact ⟨l, hq, Nat.le_refl l, fun _ hn => hn⟩
  | @enter u p name outer hg hp hname hlimit ih =>
    obtain ⟨l', hl', hle, hkeys⟩ := ih
    have hu := h.grown hg
    have hw := hu.wellFormed
    obtain ⟨front, hfront⟩ := hw.exists_named (lt_size_of_some hp)
    have hlt : l' < u.size := (hu.tidy.walk hw.named_root hl').lt_size
    rw [walk_root_entered hw hu.tidy hp hfront]
    split
    · next hhit =>
      obtain ⟨rfl, hto⟩ := hhit
      exact ⟨u.size, rfl, Nat.le_trans hle (Nat.le_of_lt hlt), fun n hn =>
        child?_entered_of_walk hp hto hl' (hkeys n hn)⟩
    · exact ⟨l', hl', hle, fun n hn => (extends_entered hp name).child? (hkeys n hn)⟩
  | declare hg id hname ih =>
    obtain ⟨l', hl', hle, hkeys⟩ := ih
    refine ⟨l', (walk_addType _ id _ _ _).trans hl', hle, fun n hn => ?_⟩
    rw [child?_addType]
    exact hkeys n hn

/-- No block is newer than the one that its names lead to. -/
theorem le_of_reached (hg : start.Grown t) (ha : t.Reached a) (hq : t.Named a q) :
    ∃ l, t.walk root q = some l ∧ a ≤ l := by
  induction hg generalizing a q with
  | refl =>
    have hw := wellFormed_start
    have hroot : a = root := Nat.lt_one_iff.1 (ha.lt_size hw)
    subst hroot
    exact ⟨root, by rw [hq.unique hw.named_root]; rfl, Nat.le_refl _⟩
  | @enter u p name outer hg hp hname hlimit ih =>
    have hu := orderly_start.grown hg
    have hw := hu.wellFormed
    rcases reached_entered hu hp ha with ⟨rfl, front, hfront, hto⟩ | ⟨hlt, ha⟩
    · refine ⟨u.size, ?_, Nat.le_refl _⟩
      rw [hq.unique (named_entered hw hp hfront name), walk_root_entered hw hu.tidy hp hfront,
        if_pos ⟨rfl, hto⟩]
    · obtain ⟨l, hl, hle⟩ := ih ha (((extends_entered hp name).named_iff hw hlt).1 hq)
      obtain ⟨l', hl', hle', -⟩ := (Grown.enter .refl hp hname hlimit).walk hu hl
      exact ⟨l', hl', Nat.le_trans hle hle'⟩
  | @declare u name hg id hname ih =>
    have hw := (orderly_start.grown hg).wellFormed
    have hlt : a < u.size := size_modify u id (addType name) ▸ hq.lt_size
    have hq := ((extends_addType u id name).named_iff hw hlt).1 hq
    obtain ⟨l, hl, hle⟩ := ih (reached_addType hw ha) hq
    exact ⟨l, (walk_addType u id name _ _).trans hl, hle⟩

/-- A block has all the children that the block before it had, at any stage `t` of the tree at which
the names led to that one. -/
theorem child?_of_earlier_block (hg₀ : start.Grown t) (hg : t.Grown u) (ha : u.Reached a)
    (hq : u.Named a q) (hl : t.walk root q = some l) (hle : l ≤ a)
    (hn : (t.child? l n).isSome) : (u.child? a n).isSome := by
  have ht := orderly_start.grown hg₀
  induction hg generalizing a q l with
  | refl =>
    obtain ⟨l', hl', hle'⟩ := le_of_reached hg₀ ha hq
    cases Option.some.inj (hl.symm.trans hl')
    rwa [Nat.le_antisymm hle' hle]
  | @enter u p name outer hg hp hname hlimit ih =>
    have hu := ht.grown hg
    have hw := hu.wellFormed
    have hx := extends_entered hp name
    rcases reached_entered hu hp ha with ⟨rfl, front, hfront, hto⟩ | ⟨hlt, ha⟩
    · obtain ⟨l', hl', -, hkeys⟩ := hg.walk ht hl
      rw [hq.unique (named_entered hw hp hfront name)] at hl'
      exact child?_entered_of_walk hp hto hl' (hkeys n hn)
    · exact hx.child? (ih ha ((hx.named_iff hw hlt).1 hq) hl hle hn)
  | @declare u name hg id hname ih =>
    have hw := (ht.grown hg).wellFormed
    have hlt : a < u.size := size_modify u id (addType name) ▸ hq.lt_size
    have hq := ((extends_addType u id name).named_iff hw hlt).1 hq
    rw [child?_addType]
    exact ih (reached_addType hw ha) hq hl hle hn

end ScopeTree

namespace Outline
open ScopeTree

/-- A scope that its path leads to sees, in every scope around it, what the block that it lies in and
the blocks before it had for children at any time: `l` is the block that the path of `a` led to after
`k` declarations. -/
theorem find_of_earlier_block {tokens : List Token} {o : Outline} {k : Nat} {b : Builder}
    {rest : Cursor} {s a l c : ScopeId} {n : String} (ho : (ofTokens tokens).value = .ok o)
    (hk : Builder.start.after (content tokens) k = .ok (b, rest)) (hs : o.tree.FoundByPath s)
    (ha : o.tree.Encloses a s) (hl : b.tree.FoundByPath l)
    (hsame : b.tree.namesFrom l [] = o.tree.namesFrom a []) (hle : l ≤ a)
    (hn : b.tree.child l n = .ok (some c)) : ∃ found, o.tree.find s n = .ok (some found) := by
  obtain ⟨last, hrun, rfl⟩ := ofTokens_eq_ok.1 ho
  have hg₀ : start.Grown b.tree := (Builder.follows_after hk).grown
  have hrest : b.run rest = .ok last := (Builder.run_of_after hk).symm.trans hrun
  have hg : b.tree.Grown last.tree := Builder.grown_run hrest
  have hb := orderly_start.grown hg₀
  have hlast := hb.grown hg
  obtain ⟨names, hnamed, hwalk⟩ := hb.live_of_foundByPath hl
  have hreached : last.tree.Reached a := ⟨s, hlast.live_of_foundByPath hs, ha⟩
  have hchild : b.tree.child? l n = some c := by
    obtain ⟨scope, hscope, hc⟩ := map_eq_ok.1 hn
    rw [child?_of_some (get_eq_ok.1 hscope), hc]
  have hnames : last.tree.Named a names := hsame.symm.trans hnamed
  have hseen := child?_of_earlier_block hg₀ hg hreached hnames hwalk hle
    (by rw [hchild]; rfl)
  rw [find_of_plain (hb.wellFormed.plain_of_child? hchild)]
  exact ha.lookup hlast.wellFormed hseen

/-- Of three blocks of `A` the scope `A::B` lies in the second. It sees `X` of the first one. -/
theorem find_of_earlier_block_second :
    let keyword := fun image => Token.plain .keyword image (.point .start)
    let name := fun image => Token.plain .identifier image (.point .start)
    let mark := fun image => Token.plain .punctuator image (.point .start)
    let inA := fun body => [keyword "namespace", name "A", mark "\x7b"] ++ body ++ [mark "\x7d"]
    let cls := fun image =>
      [keyword "class", name image, mark "\x7b", mark "\x7d", mark ";"]
    let inner := [keyword "namespace", name "B", mark "\x7b", mark "\x7d"]
    let tokens := inA (cls "X") ++ inA (inner ++ cls "Z") ++ inA (cls "W")
    ∃ o b rest, (ofTokens tokens).value = .ok o ∧
      Builder.start.after (content tokens) 5 = .ok (b, rest) ∧ o.tree.FoundByPath 4 ∧
      o.tree.Encloses 3 4 ∧ b.tree.FoundByPath 1 ∧
      b.tree.namesFrom 1 [] = o.tree.namesFrom 3 [] ∧ b.tree.child 1 "X" = .ok (some 2) ∧
      ∃ found, o.tree.find 4 "X" = .ok (some found) := by
  intro keyword name mark inA cls inner tokens
  obtain ⟨o, ho, hlast⟩ : ∃ o, (ofTokens tokens).value = .ok o ∧ decide (o.tree.FoundByPath 4 ∧
      o.tree.scopes[4]?.bind Scope.parent = some 3 ∧ o.tree.namesFrom 3 [] = .ok ["A"]) :=
    exists_ok_of_any (by decide +kernel)
  obtain ⟨⟨b, rest⟩, hk, hfirst⟩ : ∃ r, Builder.start.after (content tokens) 5 = .ok r ∧
      decide (r.1.tree.FoundByPath 1 ∧ r.1.tree.namesFrom 1 [] = .ok ["A"] ∧
        r.1.tree.child 1 "X" = .ok (some 2)) :=
    exists_ok_of_any (by decide +kernel)
  obtain ⟨hs, hparent, hnames⟩ := of_decide_eq_true hlast
  obtain ⟨hl, hnames', hn⟩ := of_decide_eq_true hfirst
  obtain ⟨scope, hscope, hparent⟩ := Option.bind_eq_some_iff.1 hparent
  have ha : o.tree.Encloses 3 4 := .inner hscope hparent .refl
  have hsame := hnames'.trans hnames.symm
  exact ⟨o, b, rest, ho, hk, hs, ha, hl, hsame, hn,
    find_of_earlier_block ho hk hs ha hl hsame (by decide) hn⟩

/-- The scope `A::B` of the first block of `A` does not see `C` of the second one. -/
theorem later_block_hidden :
    let keyword := fun image => Token.plain .keyword image (.point .start)
    let name := fun image => Token.plain .identifier image (.point .start)
    let mark := fun image => Token.plain .punctuator image (.point .start)
    let tokens := [keyword "namespace", name "A", mark "\x7b", keyword "namespace", name "B",
      mark "\x7b", mark "\x7d", mark "\x7d", keyword "namespace", name "A", mark "\x7b",
      keyword "class", name "C", mark "\x7b", mark "\x7d", mark ";", mark "\x7d"]
    ∃ o, (ofTokens tokens).value = .ok o ∧ o.tree.path 2 = .ok "A::B::" ∧
      o.tree.FoundByPath 2 ∧ o.tree.atPath "A::" = .ok (some 3) ∧
      o.tree.child 3 "C" = .ok (some 4) ∧ o.tree.find 2 "C" = .ok none := by
  intro keyword name mark tokens
  obtain ⟨o, ho, hall⟩ : ∃ o, (ofTokens tokens).value = .ok o ∧
      decide (o.tree.path 2 = .ok "A::B::" ∧ o.tree.FoundByPath 2 ∧
        o.tree.atPath "A::" = .ok (some 3) ∧ o.tree.child 3 "C" = .ok (some 4) ∧
        o.tree.find 2 "C" = .ok none) :=
    exists_ok_of_any (by decide +kernel)
  exact ⟨o, ho, of_decide_eq_true hall⟩

end Outline
end SourceOutline
