import SourceOutline.Proofs.Names
import SourceOutline.Proofs.Outcome
import SourceOutline.Scope.Tree

/-! What every tree of scopes keeps, whatever is done to it.
Children may point anywhere, also back to an ancestor. Walks go along the parents alone, and a parent
is always older than its scope, so they end at the root and never leave the tree. -/
namespace SourceOutline

namespace ScopeTree
open QualifiedName
variable {t t' : ScopeTree} {id other p : ScopeId} {s outer : Scope} {name : String}

/-- What holds of each scope of a tree of `size` scopes: its names are plain, and each child is
declared as a type and issued. -/
structure Sound (size : Nat) (s : Scope) : Prop where
  name : Plain s.name
  types : ∀ name, s.types.contains name → Plain name
  children : ∀ name child, s.children.get? name = some child →
    s.types.contains name ∧ child < size

/-- The scope `id` lies in the older scope `p`, one step deeper. -/
structure Nested (t : ScopeTree) (id : ScopeId) (s : Scope) (p : ScopeId) (outer : Scope) :
    Prop where
  parent : s.parent = some p
  lt : p < id
  found : t.scopes[p]? = some outer
  depth : s.depth = outer.depth + 1
  limit : s.depth ≤ ScopeError.depthLimit

structure WellFormed (t : ScopeTree) : Prop where
  top : ∃ r, t.scopes[root]? = some r ∧ r.name = "" ∧ r.parent = none ∧ r.depth = 0
  nested : ∀ (id : ScopeId) (s : Scope), t.scopes[id]? = some s → id ≠ root →
    ∃ p outer, Nested t id s p outer
  sound : ∀ (id : ScopeId) (s : Scope), t.scopes[id]? = some s → Sound t.size s

theorem lt_size_of_some (h : t.scopes[id]? = some s) : id < t.size :=
  (Array.getElem?_eq_some_iff.1 h).1

theorem exists_of_lt_size (h : id < t.size) : ∃ s, t.scopes[id]? = some s :=
  ⟨_, Array.getElem?_eq_getElem h⟩

theorem get_eq_ok : t.get id = .ok s ↔ t.scopes[id]? = some s := by
  unfold get
  split <;> simp_all

theorem checkName_eq_ok {u : Unit} : checkName name = .ok u ↔ Plain name := by
  unfold checkName
  rw [← isQualified_eq_false_iff]
  split <;> simp_all

@[simp] theorem size_modify (t : ScopeTree) (id : ScopeId) (f : Scope → Scope) :
    (t.modify id f).size = t.size := by
  simp [modify, size]

theorem getElem?_modify (t : ScopeTree) (id : ScopeId) (f : Scope → Scope) (i : ScopeId) :
    (t.modify id f).scopes[i]? = if id = i then t.scopes[i]?.map f else t.scopes[i]? := by
  simp [modify, Array.getElem?_modify]

def push (t : ScopeTree) (s : Scope) : ScopeTree := ⟨t.scopes.push s⟩

@[simp] theorem size_push (t : ScopeTree) (s : Scope) : (t.push s).size = t.size + 1 := by
  simp [push, size]

theorem getElem?_push (t : ScopeTree) (s : Scope) (i : ScopeId) :
    (t.push s).scopes[i]? = if i = t.size then some s else t.scopes[i]? :=
  Array.getElem?_push

/-! What each operation does when it succeeds. -/

theorem openScope_eq_ok :
    t.openScope p name = .ok (t', id) ↔
      Plain name ∧ ∃ outer, t.scopes[p]? = some outer ∧
        outer.depth + 1 ≤ ScopeError.depthLimit ∧
        t' = t.push ⟨name, some p, outer.depth + 1, .empty, .empty⟩ ∧ id = t.size := by
  unfold openScope
  simp only [bind_eq_ok, checkName_eq_ok, get_eq_ok]
  constructor
  · rintro ⟨-, hname, outer, hp, h⟩
    split at h
    · next hd =>
      cases h
      exact ⟨hname, outer, hp, hd, rfl, rfl⟩
    · cases h
  · rintro ⟨hname, outer, hp, hd, rfl, rfl⟩
    refine ⟨(), hname, outer, hp, ?_⟩
    rw [if_pos hd]
    rfl

def addType (name : String) (s : Scope) : Scope := { s with types := s.types.insert name () }

def addChild (name : String) (child : ScopeId) (s : Scope) : Scope :=
  { s with types := s.types.insert name (), children := s.children.insert name child }

def takeOver (source s : Scope) : Scope :=
  { s with types := s.types.merge source.types, children := s.children.merge source.children }

theorem declare_eq_ok :
    t.declare id name = .ok t' ↔
      Plain name ∧ ∃ s, t.scopes[id]? = some s ∧ s.types.contains name = false ∧
        t' = t.modify id (addType name) := by
  unfold declare
  simp only [bind_eq_ok, checkName_eq_ok, get_eq_ok]
  constructor
  · rintro ⟨-, hname, s, hs, h⟩
    split at h
    · obtain ⟨path, -, h⟩ := bind_eq_ok.1 h
      cases h
    · next hc =>
      cases h
      exact ⟨hname, s, hs, by simpa using hc, rfl⟩
  · rintro ⟨hname, s, hs, hc, rfl⟩
    refine ⟨(), hname, s, hs, ?_⟩
    rw [if_neg (by simp [hc])]
    rfl

theorem declareScope_eq_ok {child : ScopeId} :
    t.declareScope id name child = .ok t' ↔
      Plain name ∧ ∃ s, t.scopes[id]? = some s ∧ t' = t.modify id (addChild name child) := by
  unfold declareScope
  simp only [bind_eq_ok, checkName_eq_ok, get_eq_ok]
  constructor
  · rintro ⟨-, hname, s, hs, h⟩
    cases h
    exact ⟨hname, s, hs, rfl⟩
  · rintro ⟨hname, s, hs, rfl⟩
    exact ⟨(), hname, s, hs, rfl⟩

theorem extend_eq_ok :
    t.extend id other = .ok t' ↔
      (id = other ∧ t' = t) ∨
        id ≠ other ∧ ∃ source s, t.scopes[other]? = some source ∧ t.scopes[id]? = some s ∧
          t' = t.modify id (takeOver source) := by
  unfold extend
  by_cases hid : id = other
  · simp [hid, eq_comm]
  · simp only [hid, ↓reduceIte, bind_eq_ok, get_eq_ok]
    constructor
    · rintro ⟨source, hsource, s, hs, h⟩
      cases h
      exact .inr ⟨hid, source, s, hsource, hs, rfl⟩
    · rintro (⟨h, -⟩ | ⟨-, source, s, hsource, hs, rfl⟩)
      · exact h.elim
      · exact ⟨source, hsource, s, hs, rfl⟩

/-! The invariant is kept by every operation on issued scopes. -/

theorem Sound.mono {m n : Nat} (h : Sound m s) (hle : m ≤ n) : Sound n s :=
  ⟨h.name, h.types, fun name child hc =>
    ⟨(h.children name child hc).1, Nat.lt_of_lt_of_le (h.children name child hc).2 hle⟩⟩

theorem Sound.empty (n : Nat) (hname : Plain name) (parent : Option ScopeId) (depth : Nat) :
    Sound n ⟨name, parent, depth, .empty, .empty⟩ :=
  ⟨hname, by simp [NameTable.contains], by simp⟩

theorem Sound.addType {n : Nat} (h : Sound n s) (hname : Plain name) :
    Sound n (addType name s) := by
  refine ⟨h.name, ?_, ?_⟩
  · intro key hkey
    by_cases hk : name = key
    · exact hk ▸ hname
    · refine h.types key ?_
      simpa [ScopeTree.addType, NameTable.contains, hk] using hkey
  · intro key child hc
    obtain ⟨htype, hlt⟩ := h.children key child hc
    refine ⟨?_, hlt⟩
    by_cases hk : name = key
    · simp [ScopeTree.addType, NameTable.contains, hk]
    · simpa [ScopeTree.addType, NameTable.contains, hk] using htype

theorem Sound.addChild {n : Nat} {child : ScopeId} (h : Sound n s) (hname : Plain name)
    (hchild : child < n) : Sound n (addChild name child s) := by
  have htypes := h.addType hname
  refine ⟨h.name, htypes.types, ?_⟩
  intro key c hc
  by_cases hk : name = key
  · have hcc : child = c := by simpa [ScopeTree.addChild, hk] using hc
    exact ⟨by simp [ScopeTree.addChild, NameTable.contains, hk], hcc ▸ hchild⟩
  · have hold : s.children.get? key = some c := by simpa [ScopeTree.addChild, hk] using hc
    exact htypes.children key c hold

theorem Sound.takeOver {n : Nat} {source : Scope} (h : Sound n s) (hsource : Sound n source) :
    Sound n (takeOver source s) := by
  refine ⟨h.name, ?_, ?_⟩
  · intro key hkey
    have hor : source.types.contains key ∨ s.types.contains key := by
      simpa [ScopeTree.takeOver, NameTable.contains] using hkey
    exact hor.elim (hsource.types key) (h.types key)
  · intro key c hc
    have hor : source.children.get? key = some c ∨ s.children.get? key = some c := by
      have hc' : (source.children.get? key).or (s.children.get? key) = some c := by
        simpa [ScopeTree.takeOver] using hc
      rw [Option.or_eq_some_iff] at hc'
      exact hc'.imp_right And.right
    rcases hor with hc | hc
    · obtain ⟨htype, hlt⟩ := hsource.children key c hc
      exact ⟨by simp_all [ScopeTree.takeOver, NameTable.contains], hlt⟩
    · obtain ⟨htype, hlt⟩ := h.children key c hc
      exact ⟨by simp_all [ScopeTree.takeOver, NameTable.contains], hlt⟩

theorem wellFormed_start : start.WellFormed := by
  have hplain : Plain "" := by simp [Plain, separator]
  have honly : ∀ (id : ScopeId) (s : Scope), start.scopes[id]? = some s →
      id = root ∧ s = ⟨"", none, 0, .empty, .empty⟩ := by
    intro id s h
    cases id with
    | zero => exact ⟨rfl, (Option.some.inj h).symm⟩
    | succ id => simp [start] at h
  refine ⟨⟨_, rfl, rfl, rfl, rfl⟩, ?_, ?_⟩
  · intro id s h hne
    exact absurd (honly id s h).1 hne
  · intro id s h
    rw [(honly id s h).2]
    exact .empty _ hplain none 0

/-- A change that leaves name, parent and depth of a scope alone keeps the nesting. -/
theorem WellFormed.modify (h : t.WellFormed) {f : Scope → Scope}
    (hframe : ∀ s, (f s).name = s.name ∧ (f s).parent = s.parent ∧ (f s).depth = s.depth)
    (hsound : ∀ s, t.scopes[id]? = some s → Sound t.size (f s)) : (t.modify id f).WellFormed := by
  -- a scope of the changed tree has the frame of the scope that it was
  have hold : ∀ (i : ScopeId) (s' : Scope), (t.modify id f).scopes[i]? = some s' →
      ∃ s, t.scopes[i]? = some s ∧ s'.parent = s.parent ∧ s'.depth = s.depth := by
    intro i s' hs'
    rw [getElem?_modify] at hs'
    split at hs'
    · obtain ⟨s, hs, rfl⟩ := Option.map_eq_some_iff.1 hs'
      exact ⟨s, hs, (hframe s).2⟩
    · exact ⟨s', hs', rfl, rfl⟩
  have hnew : ∀ (i : ScopeId) (s : Scope), t.scopes[i]? = some s →
      ∃ s', (t.modify id f).scopes[i]? = some s' ∧
        s'.name = s.name ∧ s'.parent = s.parent ∧ s'.depth = s.depth := by
    intro i s hs
    rw [getElem?_modify, hs]
    split
    · exact ⟨f s, rfl, hframe s⟩
    · exact ⟨s, rfl, rfl, rfl, rfl⟩
  refine ⟨?_, ?_, ?_⟩
  · obtain ⟨r, hr, hname, hparent, hdepth⟩ := h.top
    obtain ⟨r', hr', hn, hp, hd⟩ := hnew root r hr
    exact ⟨r', hr', hn.trans hname, hp.trans hparent, hd.trans hdepth⟩
  · intro i s' hs' hne
    obtain ⟨s, hs, hp, hd⟩ := hold i s' hs'
    obtain ⟨p, outer, hn⟩ := h.nested i s hs hne
    obtain ⟨outer', ho, -, -, hdo⟩ := hnew p outer hn.found
    refine ⟨p, outer', hp.trans hn.parent, hn.lt, ho, ?_, hd ▸ hn.limit⟩
    rw [hd, hdo, hn.depth]
  · intro i s' hs'
    rw [size_modify]
    rw [getElem?_modify] at hs'
    split at hs'
    · next heq =>
      subst heq
      obtain ⟨s, hs, rfl⟩ := Option.map_eq_some_iff.1 hs'
      exact hsound s hs
    · exact h.sound i s' hs'

theorem WellFormed.push (h : t.WellFormed) (hp : t.scopes[p]? = some outer)
    (hparent : s.parent = some p) (hdepth : s.depth = outer.depth + 1)
    (hlimit : outer.depth + 1 ≤ ScopeError.depthLimit) (hsound : Sound (t.size + 1) s) :
    (t.push s).WellFormed := by
  have hold : ∀ (i : ScopeId) (o : Scope), t.scopes[i]? = some o →
      (t.push s).scopes[i]? = some o := by
    intro i o ho
    rw [getElem?_push, if_neg (Nat.ne_of_lt (lt_size_of_some ho)), ho]
  refine ⟨?_, ?_, ?_⟩
  · obtain ⟨r, hr, hrest⟩ := h.top
    exact ⟨r, hold root r hr, hrest⟩
  · intro i o ho hne
    rw [getElem?_push] at ho
    split at ho
    · next heq =>
      cases ho
      exact ⟨p, outer, hparent, heq ▸ lt_size_of_some hp, hold p outer hp, hdepth,
        hdepth ▸ hlimit⟩
    · obtain ⟨q, r, hn⟩ := h.nested i o ho hne
      exact ⟨q, r, hn.parent, hn.lt, hold q r hn.found, hn.depth, hn.limit⟩
  · intro i o ho
    rw [size_push]
    rw [getElem?_push] at ho
    split at ho
    · cases ho
      exact hsound
    · exact (h.sound i o ho).mono (Nat.le_succ _)

theorem WellFormed.openScope (h : t.WellFormed) (ho : t.openScope p name = .ok (t', id)) :
    t'.WellFormed := by
  obtain ⟨hname, outer, hp, hlimit, rfl, -⟩ := openScope_eq_ok.1 ho
  exact h.push hp rfl rfl hlimit (.empty _ hname _ _)

theorem WellFormed.declare (h : t.WellFormed) (hd : t.declare id name = .ok t') :
    t'.WellFormed := by
  obtain ⟨hname, s, -, -, rfl⟩ := declare_eq_ok.1 hd
  exact h.modify (fun _ => ⟨rfl, rfl, rfl⟩) fun s hs => (h.sound id s hs).addType hname

theorem WellFormed.declareScope {child : ScopeId} (h : t.WellFormed) (hchild : child < t.size)
    (hd : t.declareScope id name child = .ok t') : t'.WellFormed := by
  obtain ⟨hname, s, -, rfl⟩ := declareScope_eq_ok.1 hd
  exact h.modify (fun _ => ⟨rfl, rfl, rfl⟩) fun s hs => (h.sound id s hs).addChild hname hchild

theorem WellFormed.extend (h : t.WellFormed) (he : t.extend id other = .ok t') :
    t'.WellFormed := by
  rcases extend_eq_ok.1 he with ⟨-, rfl⟩ | ⟨-, source, s, hsource, -, rfl⟩
  · exact h
  · exact h.modify (fun _ => ⟨rfl, rfl, rfl⟩) fun s hs =>
      (h.sound id s hs).takeOver (h.sound other source hsource)

inductive Operation
  | openScope (parent : ScopeId) (name : String)
  | declare (id : ScopeId) (name : String)
  | declareScope (id : ScopeId) (name : String) (child : ScopeId)
  | extend (id other : ScopeId)

def Operation.scopes : Operation → List ScopeId
  | openScope parent _ => [parent]
  | declare id _ => [id]
  | declareScope id _ child => [id, child]
  | extend id other => [id, other]

def attempt (t : ScopeTree) : Operation → Except ScopeError ScopeTree
  | .openScope parent name => (t.openScope parent name).map (·.1)
  | .declare id name => t.declare id name
  | .declareScope id name child => t.declareScope id name child
  | .extend id other => t.extend id other

/-- The tree after an operation. One that fails leaves the tree as it was. -/
def apply (t : ScopeTree) (op : Operation) : ScopeTree :=
  match t.attempt op with
  | .ok t' => t'
  | .error _ => t

def applyAll (t : ScopeTree) (ops : List Operation) : ScopeTree := ops.foldl apply t

/-- Each operation is given scopes that the tree has issued by then. -/
def Issued (t : ScopeTree) : List Operation → Prop
  | [] => True
  | op :: ops => (∀ id ∈ op.scopes, id < t.size) ∧ Issued (t.apply op) ops

instance decidableIssued (t : ScopeTree) : (ops : List Operation) → Decidable (Issued t ops)
  | [] => isTrue trivial
  | op :: ops =>
    have := decidableIssued (t.apply op) ops
    inferInstanceAs (Decidable ((∀ id ∈ op.scopes, id < t.size) ∧ Issued (t.apply op) ops))

theorem WellFormed.apply {op : Operation} (h : t.WellFormed) (hop : ∀ id ∈ op.scopes, id < t.size) :
    (t.apply op).WellFormed := by
  unfold ScopeTree.apply
  split
  · next t' hok =>
    cases op with
    | openScope parent name =>
      obtain ⟨⟨t', id⟩, ho, rfl⟩ := map_eq_ok.1 hok
      exact h.openScope ho
    | declare id name => exact h.declare hok
    | declareScope id name child => exact h.declareScope (hop child (by simp [Operation.scopes])) hok
    | extend id other => exact h.extend hok
  · exact h

theorem WellFormed.applyAll {ops : List Operation} (h : t.WellFormed) (hops : Issued t ops) :
    (t.applyAll ops).WellFormed := by
  induction ops generalizing t with
  | nil => exact h
  | cons op ops ih => exact ih (h.apply hops.1) hops.2

/-! Walks in a tree that keeps the invariant. A parent is older than its scope, so nothing ends the
climb but the root. -/

theorem WellFormed.root_lt_size (h : t.WellFormed) : root < t.size := by
  obtain ⟨r, hr, -⟩ := h.top
  exact lt_size_of_some hr

theorem WellFormed.nested_of_parent (h : t.WellFormed) (hs : t.scopes[id]? = some s)
    (hp : s.parent = some p) : ∃ outer, Nested t id s p outer := by
  have hne : id ≠ root := by
    rintro rfl
    obtain ⟨r, hr, -, hnone, -⟩ := h.top
    cases Option.some.inj (hr.symm.trans hs)
    rw [hp] at hnone
    cases hnone
  obtain ⟨q, outer, hn⟩ := h.nested id s hs hne
  cases Option.some.inj (hp.symm.trans hn.parent)
  exact ⟨outer, hn⟩

/-- What holds of the root and goes from a parent to its scopes holds of every scope. -/
theorem WellFormed.climb (h : t.WellFormed) {motive : (id : ScopeId) → id < t.size → Prop}
    (top : motive root h.root_lt_size)
    (step : ∀ (id : ScopeId) (s : Scope) (p : ScopeId) (outer : Scope)
      (hs : t.scopes[id]? = some s) (hn : Nested t id s p outer),
      motive p (lt_size_of_some hn.found) → motive id (lt_size_of_some hs))
    (id : ScopeId) (hid : id < t.size) : motive id hid := by
  induction id using Nat.strongRecOn with
  | ind id ih =>
    by_cases hroot : id = root
    · subst hroot
      exact top
    · obtain ⟨s, hs⟩ := exists_of_lt_size hid
      obtain ⟨p, outer, hn⟩ := h.nested id s hs hroot
      exact step id s p outer hs hn (ih p hn.lt (lt_size_of_some hn.found))

theorem namesFrom_top (hs : t.scopes[id]? = some s) (hp : s.parent = none)
    (inner : List String) : t.namesFrom id inner = .ok inner := by
  rw [namesFrom]
  simp [hs, hp]

theorem Nested.namesFrom (hn : Nested t id s p outer) (hs : t.scopes[id]? = some s)
    (inner : List String) : t.namesFrom id inner = t.namesFrom p (s.name :: inner) := by
  rw [ScopeTree.namesFrom]
  simp [hs, hn.parent, hn.lt]

theorem lookup_child {child : ScopeId} (hs : t.scopes[id]? = some s)
    (hc : s.children.get? name = some child) : t.lookup id name = .ok (some child) := by
  rw [lookup]
  simp [hs, hc]

theorem lookup_top (hs : t.scopes[id]? = some s) (hp : s.parent = none)
    (hc : s.children.get? name = none) : t.lookup id name = .ok none := by
  rw [lookup]
  simp [hs, hc, hp]

theorem Nested.lookup (hn : Nested t id s p outer) (hs : t.scopes[id]? = some s)
    (hc : s.children.get? name = none) : t.lookup id name = t.lookup p name := by
  rw [ScopeTree.lookup]
  simp [hs, hc, hn.parent, hn.lt]

/-- The names from the root to a scope, one for each step of its depth. -/
theorem WellFormed.namesFrom_ok (h : t.WellFormed) (hid : id < t.size) (inner : List String) :
    ∃ names s, t.namesFrom id inner = .ok (names ++ inner) ∧ t.scopes[id]? = some s ∧
      names.length = s.depth := by
  induction id, hid using h.climb generalizing inner with
  | top =>
    obtain ⟨r, hr, -, hp, hd⟩ := h.top
    exact ⟨[], r, namesFrom_top hr hp inner, hr, hd.symm⟩
  | step id s p outer hs hn ih =>
    obtain ⟨names, o, hnames, ho, hlen⟩ := ih (s.name :: inner)
    have heq : o = outer := Option.some.inj (ho.symm.trans hn.found)
    refine ⟨names ++ [s.name], s, ?_, hs, ?_⟩
    · rw [hn.namesFrom hs, hnames, List.append_assoc]
      rfl
    · rw [List.length_append, hlen, heq, hn.depth]
      rfl

theorem WellFormed.path_ok (h : t.WellFormed) (hid : id < t.size) :
    ∃ path, t.path id = .ok path := by
  obtain ⟨names, -, hnames, -, -⟩ := h.namesFrom_ok hid []
  exact ⟨_, by rw [path, hnames]; rfl⟩

theorem WellFormed.lookup_ok (h : t.WellFormed) (hid : id < t.size) (name : String) :
    ∃ found, t.lookup id name = .ok found ∧ ∀ child ∈ found, child < t.size := by
  have hchild : ∀ (i : ScopeId) (s : Scope) (child : ScopeId), t.scopes[i]? = some s →
      s.children.get? name = some child →
      ∃ found, t.lookup i name = .ok found ∧ ∀ child ∈ found, child < t.size := by
    intro i s child hs hc
    refine ⟨some child, lookup_child hs hc, ?_⟩
    intro c hmem
    cases hmem
    exact ((h.sound i s hs).children name child hc).2
  induction id, hid using h.climb with
  | top =>
    obtain ⟨r, hr, -, hp, -⟩ := h.top
    cases hc : r.children.get? name with
    | some child => exact hchild root r child hr hc
    | none => exact ⟨none, lookup_top hr hp hc, by simp⟩
  | step id s p outer hs hn ih =>
    cases hc : s.children.get? name with
    | some child => exact hchild id s child hs hc
    | none =>
      rw [hn.lookup hs hc]
      exact ih

theorem WellFormed.findFrom_ok (h : t.WellFormed) (hid : id < t.size) (cs : List Char) :
    ∃ found, t.findFrom id cs = .ok found ∧ ∀ child ∈ found, child < t.size := by
  fun_induction findFrom t id cs with
  | case1 id cs _ => exact h.lookup_ok hid _
  | case2 id cs front back _ e he =>
    obtain ⟨found, hf, -⟩ := h.lookup_ok hid (String.ofList front)
    rw [he] at hf
    cases hf
  | case3 => exact ⟨none, rfl, by simp⟩
  | case4 id cs front back _ next he _ ih =>
    obtain ⟨found, hf, hlt⟩ := h.lookup_ok hid (String.ofList front)
    rw [he] at hf
    cases hf
    exact ih (hlt next rfl)

theorem WellFormed.find_ok (h : t.WellFormed) (hid : id < t.size) (name : String) :
    ∃ found, t.find id name = .ok found ∧ ∀ child ∈ found, child < t.size := by
  unfold find
  split
  · exact h.findFrom_ok h.root_lt_size _
  · exact h.findFrom_ok hid _

theorem WellFormed.resolution_ok (h : t.WellFormed) (hid : id < t.size) (name : String) :
    ∃ r, t.resolution id name = .ok r := by
  obtain ⟨path, hpath⟩ := h.path_ok hid
  unfold resolution
  split
  · exact ⟨_, by rw [hpath]; rfl⟩
  · next qualifier last _ =>
    have hfound : ∀ scope, (∀ child ∈ scope, child < t.size) →
        ∃ r, (match scope with
          | some scope => do return ⟨(← t.path scope) ++ String.ofList last, true⟩
          | none => (t.path id).map fun path => ⟨path ++ name, false⟩ :
            Except ScopeError Resolution) = .ok r := by
      intro scope hlt
      cases scope with
      | none => exact ⟨_, by rw [hpath]; rfl⟩
      | some scope =>
        obtain ⟨q, hq⟩ := h.path_ok (hlt scope rfl)
        exact ⟨_, by simp only [hq]; rfl⟩
    dsimp only
    split
    · exact hfound (some root) (by simpa using h.root_lt_size)
    · obtain ⟨scope, hscope, hlt⟩ := h.find_ok hid (String.ofList qualifier)
      rw [hscope]
      exact hfound scope hlt

theorem WellFormed.close_ok (h : t.WellFormed) (hid : id < t.size) :
    ∃ closed, t.close id = .ok closed ∧ closed < t.size := by
  obtain ⟨s, hs⟩ := exists_of_lt_size hid
  refine ⟨s.parent.getD id, by rw [close, get_eq_ok.2 hs]; rfl, ?_⟩
  by_cases hroot : id = root
  · subst hroot
    obtain ⟨r, hr, -, hp, -⟩ := h.top
    rw [hr] at hs
    cases hs
    simpa [hp] using hid
  · obtain ⟨p, outer, hn⟩ := h.nested id s hs hroot
    rw [hn.parent]
    exact lt_size_of_some hn.found

/-- Every question about an issued scope has an answer, and the answer lies in the tree. -/
structure Answers (t : ScopeTree) (id : ScopeId) (name : String) : Prop where
  find : ∃ found, t.find id name = .ok found ∧ ∀ child ∈ found, child < t.size
  resolve : ∃ text, t.resolve id name = .ok text
  path : ∃ names s, t.scopes[id]? = some s ∧ names.length = s.depth ∧ t.path id = .ok (join names)
  close : ∃ closed, t.close id = .ok closed ∧ closed < t.size

theorem WellFormed.answers (h : t.WellFormed) (hid : id < t.size) (name : String) :
    t.Answers id name := by
  refine ⟨h.find_ok hid name, ?_, ?_, h.close_ok hid⟩
  · obtain ⟨r, hr⟩ := h.resolution_ok hid name
    exact ⟨r.text, by rw [resolve, hr]; rfl⟩
  · obtain ⟨names, s, hnames, hs, hlen⟩ := h.namesFrom_ok hid []
    rw [List.append_nil] at hnames
    exact ⟨names, s, hs, hlen, by rw [ScopeTree.path, hnames]; rfl⟩

/-- Whatever is done to a tree with scopes that it issued, it keeps its invariant, and no walk in it
leaves the tree. -/
theorem wellFormed_and_answers {ops : List Operation} (h : Issued start ops) :
    (start.applyAll ops).WellFormed ∧
      ∀ id < (start.applyAll ops).size, ∀ name, (start.applyAll ops).Answers id name :=
  have hw := wellFormed_start.applyAll h
  ⟨hw, fun _ hid name => hw.answers hid name⟩

/-- The scope `B` has the root for a child, one operation fails on its name and one on a type that was
taken over. -/
theorem wellFormed_and_answers_cycle :
    let ops : List Operation := [.openScope 0 "A", .openScope 1 "B", .declareScope 0 "A" 1,
      .declareScope 1 "B" 0, .extend 2 1, .extend 1 1, .openScope 0 "A::B", .declare 2 "B"]
    Issued start ops ∧ (start.applyAll ops).size = 3 ∧ (start.applyAll ops).WellFormed ∧
      (start.applyAll ops).Answers 2 "B::A::B" ∧
      ((start.applyAll ops).find 2 "B::A::B").toOption = some (some 0) := by
  intro ops
  have h : Issued start ops := by decide +kernel
  have hsize : (start.applyAll ops).size = 3 := by decide +kernel
  obtain ⟨hw, hanswers⟩ := wellFormed_and_answers h
  exact ⟨h, hsize, hw, hanswers 2 (by rw [hsize]; decide) "B::A::B", by decide +kernel⟩

end ScopeTree
end SourceOutline
