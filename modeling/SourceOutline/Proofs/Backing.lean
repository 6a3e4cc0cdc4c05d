import SourceOutline.Proofs.OutlineRun
import SourceOutline.Proofs.Paths
import SourceOutline.Proofs.ScopeEffects

/-! What an outline lists is in its tree.
An entry is listed while the tree still grows, but nothing that a tree has ever goes away. So an entry
that names a scope or a type when it is listed names one for good. -/
namespace SourceOutline

namespace QualifiedName
open Text

theorem not_infix_of_cutAt? {mark cs front back : List Char} (hm : mark ≠ [])
    (h : cutAt? mark cs = some (front, back)) : ¬ mark <:+: front := by
  induction cs generalizing front with
  | nil => cases h
  | cons c cs ih =>
    rw [cutAt?_cons] at h
    split at h
    · cases h
      simpa using hm
    · next hnot =>
      obtain ⟨⟨front', back'⟩, hcut, heq⟩ := Option.map_eq_some_iff.1 h
      cases heq
      rw [List.infix_cons_iff, not_or]
      refine ⟨fun hp => hnot (hp.trans ?_), ih hcut⟩
      -- the part in front of the mark is a front part of the text
      exact List.cons_prefix_cons.2 ⟨rfl, mark ++ back', append_of_cutAt? hcut⟩

theorem separator_infix_reverse {cs : List Char} : separator <:+: cs.reverse ↔ separator <:+: cs := by
  have hreverse : separator.reverse <:+: cs.reverse ↔ separator <:+: cs := List.reverse_infix
  exact hreverse

theorem cutLast?_of_plain {name : String} (h : Plain name) : cutLast? name.toList = none := by
  have hcut : cutAt? separator name.toList.reverse = none :=
    (cutAt?_eq_none_iff (by simp [separator])).2 (mt separator_infix_reverse.1 h)
  rw [cutLast?, hcut]
  rfl

theorem plain_of_cutLast?_eq_none {name : String} (h : cutLast? name.toList = none) :
    Plain name := by
  have hcut := Option.map_eq_none_iff.1 h
  exact mt separator_infix_reverse.2 ((cutAt?_eq_none_iff (by simp [separator])).1 hcut)

theorem plain_of_cutLast? {cs front last : List Char} (h : cutLast? cs = some (front, last)) :
    Plain (String.ofList last) := by
  obtain ⟨⟨before, behind⟩, hcut, heq⟩ := Option.map_eq_some_iff.1 h
  cases heq
  rw [Plain, String.toList_ofList, separator_infix_reverse]
  exact not_infix_of_cutAt? (by simp [separator]) hcut

theorem plain_of_mem_segments {cs name : List Char} (h : name ∈ segments cs) :
    Plain (String.ofList name) := by
  suffices hfrom : ∀ found, name ∈ segmentsFrom found cs →
      name ∈ found ∨ ¬ separator <:+: name by
    rw [Plain, String.toList_ofList]
    exact (hfrom [] h).resolve_left (by simp)
  clear h
  intro found
  fun_induction segmentsFrom found cs with
  | case1 found cs hcut =>
    intro hmem
    rw [List.mem_reverse, List.mem_cons] at hmem
    rcases hmem with rfl | hmem
    · exact .inr ((cutAt?_eq_none_iff (by simp [separator])).1 hcut)
    · exact .inl hmem
  | case2 found cs front back hcut _ ih =>
    intro hmem
    rcases ih hmem with hmem | hplain
    · rcases List.mem_cons.1 hmem with rfl | hmem
      · exact .inr (not_infix_of_cutAt? (by simp [separator]) hcut)
      · exact .inl hmem
    · exact .inr hplain

/-- Two colons are needed between two segments. -/
theorem length_segments_le (cs : List Char) : 2 * (segments cs).length ≤ cs.count ':' + 2 := by
  suffices hfrom : ∀ found, 2 * (segmentsFrom found cs).length ≤
      cs.count ':' + 2 + 2 * found.length by simpa [segments] using hfrom []
  intro found
  fun_induction segmentsFrom found cs with
  | case1 found cs hcut =>
    simp only [List.length_reverse, List.length_cons]
    omega
  | case2 found cs front back hcut _ ih =>
    have hcount := congrArg (List.count ':') (append_of_cutAt? hcut)
    simp only [separator, List.count_append, List.count_cons_self, List.count_nil] at hcount
    simp only [List.length_cons] at ih
    omega

theorem count_dropSeparators_le (cs : List Char) :
    (dropSeparators cs).count ':' ≤ cs.count ':' := by
  fun_induction dropSeparators cs with
  | case1 cs ih =>
    simp only [List.count_cons_self]
    omega
  | case2 => exact Nat.le_refl _

end QualifiedName

def EntryKind.opensScope : EntryKind → Bool
  | namespaceDef | classDef | structDef | unionDef => true
  | enumDef | typedef | typeAlias => false

namespace ScopeTree
open QualifiedName
variable {t u : ScopeTree} {id p : ScopeId} {s outer : Scope} {name : String} {e : Entry}

theorem Lasting.size_le (h : t.Lasting u) : t.size ≤ u.size := by
  refine Nat.le_of_not_lt fun hlt => ?_
  obtain ⟨s, hs⟩ := exists_of_lt_size hlt
  obtain ⟨s', hs', -⟩ := h _ s hs
  exact Nat.lt_irrefl _ (lt_size_of_some hs')

theorem Grown.lasting (h : t.Grown u) : t.Lasting u := by
  induction h with
  | refl => exact .refl t
  | enter _ _ _ _ ih =>
    exact (ih.trans (lasting_push _ _)).trans (lasting_modify (lasts_addChild _ _))
  | declare _ _ _ ih => exact ih.trans (lasting_modify (lasts_addType _))

theorem WellFormed.depth_le (h : t.WellFormed) (hs : t.scopes[id]? = some s) : s.depth ≤ id := by
  induction id, lt_size_of_some hs using h.climb generalizing s with
  | top =>
    obtain ⟨r, hr, -, -, hdepth⟩ := h.top
    cases Option.some.inj (hr.symm.trans hs)
    exact Nat.le_of_eq hdepth
  | step id s' p outer hs' hn ih =>
    cases Option.some.inj (hs'.symm.trans hs)
    rw [hn.depth]
    exact Nat.succ_le_of_lt (Nat.lt_of_le_of_lt (ih hn.found) hn.lt)

theorem WellFormed.depth_le_limit (h : t.WellFormed) (hs : t.scopes[id]? = some s) :
    s.depth ≤ ScopeError.depthLimit := by
  by_cases hid : id = root
  · subst hid
    exact Nat.le_trans (h.depth_le hs) (Nat.zero_le _)
  · obtain ⟨p, outer, hn⟩ := h.nested id s hs hid
    exact hn.limit

theorem openScope_of_limit_lt (hp : t.scopes[p]? = some outer) (hname : Plain name)
    (hlimit : ScopeError.depthLimit < outer.depth + 1) :
    t.openScope p name = .error (.nestingTooDeep (outer.depth + 1)) := by
  have hcheck : checkName name = .ok () := checkName_eq_ok.2 hname
  simp [openScope, hcheck, get_eq_ok.2 hp, Nat.not_le_of_gt hlimit, bind, Except.bind]

theorem resolve_of_plain {names : List String} (h : t.Named id names) (hname : Plain name) :
    t.resolve id name = .ok (join names ++ name) := by
  simp [resolve, resolution, cutLast?_of_plain hname, path_of_named h, Except.map]

def Opened (t : ScopeTree) (p : ScopeId) (name : String) (id : ScopeId) : Prop :=
  ∃ s, t.scopes[id]? = some s ∧ s.parent = some p ∧ s.name = name

/-- The child of a name is the last scope that was opened as such, if there is one. -/
def Latest (t : ScopeTree) : Prop :=
  ∀ p name id, t.Opened p name id →
    ∃ last, t.child? p name = some last ∧ t.Opened p name last ∧
      ∀ i, t.Opened p name i → i ≤ last

theorem opened_entered (hp : t.scopes[p]? = some outer) {q : ScopeId} {n : String} :
    (t.entered p name outer).Opened q n id ↔
      t.Opened q n id ∨ id = t.size ∧ q = p ∧ n = name := by
  have hlt := lt_size_of_some hp
  obtain ⟨hname, hparent, -⟩ := seeded_frame t p name outer
  unfold Opened
  rw [getElem?_entered hp]
  by_cases hid : id = p
  · subst hid
    simp [hp, addChild, Nat.ne_of_lt hlt]
  · by_cases hnew : id = t.size
    · subst hnew
      have hnone : t.scopes[t.size]? = none := Array.getElem?_eq_none (Nat.le_refl _)
      simp [hid, hname, hparent, hnone, eq_comm]
    · simp [hid, hnew]

theorem opened_addType {i q : ScopeId} {n : String} :
    (t.modify i (addType name)).Opened q n id ↔ t.Opened q n id := by
  unfold Opened
  rw [getElem?_modify]
  split
  · cases t.scopes[id]? <;> simp [addType]
  · rfl

theorem Latest.entered (h : t.Latest) (hp : t.scopes[p]? = some outer) (name : String) :
    (t.entered p name outer).Latest := by
  intro q n id hid
  have hlt : ∀ {i q : ScopeId} {n : String}, t.Opened q n i → i < t.size := fun ⟨s, hs, _⟩ =>
    lt_size_of_some hs
  by_cases hhit : q = p ∧ n = name
  · obtain ⟨rfl, rfl⟩ := hhit
    refine ⟨t.size, by simp [child?_entered hp], (opened_entered hp).2 (.inr ⟨rfl, rfl, rfl⟩), ?_⟩
    intro i hi
    rcases (opened_entered hp).1 hi with hi | ⟨rfl, -⟩
    · exact Nat.le_of_lt (hlt hi)
    · exact Nat.le_refl _
  · have hold : ∀ {i}, (t.entered p name outer).Opened q n i → t.Opened q n i := fun hi =>
      ((opened_entered hp).1 hi).resolve_right fun hnew => hhit hnew.2
    obtain ⟨last, hchild, hlast, hmax⟩ := h q n id (hold hid)
    refine ⟨last, ?_, (opened_entered hp).2 (.inl hlast), fun i hi => hmax i (hold hi)⟩
    -- a scope that others were opened in is not the new one
    have hq : q ≠ t.size := Nat.ne_of_lt (lt_size_of_child? hchild)
    rw [child?_entered hp, if_neg hq]
    by_cases hqp : q = p
    · rw [if_pos hqp, if_neg fun hn => hhit ⟨hqp, hn⟩, ← hqp, hchild]
    · rw [if_neg hqp, hchild]

theorem latest_start : start.Latest := by
  rintro p name id ⟨s, hs, hparent, -⟩
  cases id with
  | zero =>
    cases hs
    cases hparent
  | succ id => simp [start] at hs

theorem Grown.latest (h : t.Grown u) (hl : t.Latest) : u.Latest := by
  induction h with
  | refl => exact hl
  | enter _ hp _ _ ih => exact ih.entered hp _
  | declare _ i _ ih =>
    intro p name id hid
    obtain ⟨last, hchild, hlast, hmax⟩ := ih p name id (opened_addType.1 hid)
    refine ⟨last, (child?_addType _ i _ p name).trans hchild, opened_addType.2 hlast, ?_⟩
    exact fun j hj => hmax j (opened_addType.1 hj)

/-- The tree has what the entry lists: a scope of that path, or a type in a scope. -/
def Backs (t : ScopeTree) (e : Entry) : Prop :=
  if e.kind.opensScope then
    ∃ id path, id ≠ root ∧ t.path id = .ok path ∧ e.name = Builder.displayed path
  else ∃ id path n, t.path id = .ok path ∧ t.typed id n ∧ e.name = path ++ n

theorem lt_size_of_path {path : String} (h : t.path id = .ok path) : id < t.size := by
  obtain ⟨names, hnamed, -⟩ := map_eq_ok.1 h
  exact Named.lt_size hnamed

theorem Lasting.path_ok (h : t.Lasting u) (hw : t.WellFormed) {path : String}
    (hpath : t.path id = .ok path) : u.path id = .ok path :=
  (h.path hw (lt_size_of_path hpath)).trans hpath

theorem Lasting.backs (h : t.Lasting u) (hw : t.WellFormed) (he : t.Backs e) : u.Backs e := by
  by_cases hk : e.kind.opensScope
  · rw [Backs, if_pos hk] at he ⊢
    obtain ⟨id, path, hne, hpath, hname⟩ := he
    exact ⟨id, path, hne, h.path_ok hw hpath, hname⟩
  · rw [Backs, if_neg hk] at he ⊢
    obtain ⟨id, path, n, hpath, hn, hname⟩ := he
    exact ⟨id, path, n, h.path_ok hw hpath, h.typed hn, hname⟩

end ScopeTree
end SourceOutline
