import SourceOutline.Proofs.LiveScopes
import SourceOutline.Proofs.SortedTables

/-! What an operation may do to a tree of scopes.
A scope keeps its number, its name and its place for good, and what is declared in it stays declared. An
operation changes one scope at most. One that fails changes nothing, also where it is carried out on the
tree itself and learns only after its change that it has to fail. -/
namespace SourceOutline

namespace ScopeTree
open QualifiedName
variable {t u v : ScopeTree} {id other : ScopeId} {s : Scope} {name : String} {op : Operation}
  {ops : List Operation}

def Sorted (t : ScopeTree) : Prop :=
  ∀ (id : ScopeId) (s : Scope), t.scopes[id]? = some s → s.types.Sorted

theorem sorted_start : start.Sorted := by
  intro id s hs
  cases id with
  | zero =>
    cases hs
    exact NameTable.sorted_empty
  | succ id => simp [start] at hs

theorem Sorted.modify (h : t.Sorted) {f : Scope → Scope}
    (hf : ∀ s, s.types.Sorted → (f s).types.Sorted) : (t.modify id f).Sorted := by
  intro i s hs
  rw [getElem?_modify] at hs
  split at hs
  · obtain ⟨old, hold, rfl⟩ := Option.map_eq_some_iff.1 hs
    exact hf old (h i old hold)
  · exact h i s hs

/-! Scopes that stay what they are. -/

structure Lasts (s s' : Scope) : Prop where
  name : s'.name = s.name
  parent : s'.parent = s.parent
  depth : s'.depth = s.depth
  types : ∀ n, s.types.contains n → s'.types.contains n
  children : ∀ n, (s.children.get? n).isSome → (s'.children.get? n).isSome

theorem Lasts.refl (s : Scope) : Lasts s s := ⟨rfl, rfl, rfl, fun _ h => h, fun _ h => h⟩

def Lasting (t u : ScopeTree) : Prop :=
  ∀ (id : ScopeId) (s : Scope), t.scopes[id]? = some s →
    ∃ s', u.scopes[id]? = some s' ∧ Lasts s s'

theorem Lasting.refl (t : ScopeTree) : t.Lasting t := fun _ s hs => ⟨s, hs, .refl s⟩

theorem Lasting.trans (h : t.Lasting u) (h' : u.Lasting v) : t.Lasting v := by
  intro id s hs
  obtain ⟨s', hs', hl⟩ := h id s hs
  obtain ⟨s'', hs'', hl'⟩ := h' id s' hs'
  exact ⟨s'', hs'', hl'.name.trans hl.name, hl'.parent.trans hl.parent, hl'.depth.trans hl.depth,
    fun n hn => hl'.types n (hl.types n hn), fun n hn => hl'.children n (hl.children n hn)⟩

theorem Lasting.extends (h : t.Lasting u) : t.Extends u := by
  intro id s hs
  obtain ⟨s', hs', hl⟩ := h id s hs
  exact ⟨s', hs', hl.name, hl.parent, hl.children⟩

theorem Lasting.path (h : t.Lasting u) (hw : t.WellFormed) (hid : id < t.size) :
    u.path id = t.path id :=
  congrArg (Except.map join) (h.extends.namesFrom hw hid [])

theorem Lasting.typed (h : t.Lasting u) (hn : t.typed id name) : u.typed id name := by
  obtain ⟨s, hs, hn⟩ := (Option.any_eq_true _ _).1 hn
  obtain ⟨s', hs', hl⟩ := h id s hs
  rw [typed_of_some hs']
  exact hl.types name hn

theorem lasting_push (t : ScopeTree) (s : Scope) : t.Lasting (t.push s) := by
  intro i old hold
  refine ⟨old, ?_, .refl old⟩
  rw [getElem?_push, if_neg (Nat.ne_of_lt (lt_size_of_some hold)), hold]

theorem lasting_modify {f : Scope → Scope} (hf : ∀ s, Lasts s (f s)) : t.Lasting (t.modify id f) := by
  intro i s hs
  rw [getElem?_modify, hs]
  split
  · exact ⟨f s, rfl, hf s⟩
  · exact ⟨s, rfl, .refl s⟩

theorem lasts_addType (name : String) (s : Scope) : Lasts s (addType name s) := by
  refine ⟨rfl, rfl, rfl, fun n hn => ?_, fun _ hn => hn⟩
  by_cases hname : name = n
  · simp [addType, NameTable.contains, hname]
  · simpa [addType, NameTable.contains, hname] using hn

theorem lasts_addChild (name : String) (child : ScopeId) (s : Scope) :
    Lasts s (addChild name child s) := by
  refine ⟨rfl, rfl, rfl, (lasts_addType name s).types, fun n hn => ?_⟩
  by_cases hname : name = n
  · simp [addChild, hname]
  · simpa [addChild, hname] using hn

theorem lasts_takeOver (source s : Scope) : Lasts s (takeOver source s) := by
  refine ⟨rfl, rfl, rfl, fun n hn => ?_, fun n hn => ?_⟩
  · rw [NameTable.contains] at hn
    simp [takeOver, NameTable.contains, hn]
  · simp [takeOver, hn]

/-- What an operation that succeeds makes of the tree: it adds a scope, changes one, or leaves the tree
as it is. -/
theorem attempt_cases (h : t.attempt op = .ok u) :
    (∃ fresh : Scope, fresh.types = .empty ∧ u = t.push fresh) ∨
      (∃ id name, u = t.modify id (addType name)) ∨
      (∃ id name child, u = t.modify id (addChild name child)) ∨
      (∃ (id other : ScopeId) (source : Scope), t.scopes[other]? = some source ∧
        u = t.modify id (takeOver source)) ∨ u = t := by
  cases op with
  | openScope parent name =>
    obtain ⟨⟨t', id⟩, ho, rfl⟩ := map_eq_ok.1 h
    obtain ⟨-, outer, -, -, rfl, -⟩ := openScope_eq_ok.1 ho
    exact .inl ⟨_, rfl, rfl⟩
  | declare id name =>
    obtain ⟨-, s, -, -, rfl⟩ := declare_eq_ok.1 h
    exact .inr (.inl ⟨id, name, rfl⟩)
  | declareScope id name child =>
    obtain ⟨-, s, -, rfl⟩ := declareScope_eq_ok.1 h
    exact .inr (.inr (.inl ⟨id, name, child, rfl⟩))
  | extend id other =>
    rcases extend_eq_ok.1 h with ⟨-, rfl⟩ | ⟨-, source, s, hsource, -, rfl⟩
    · exact .inr (.inr (.inr (.inr rfl)))
    · exact .inr (.inr (.inr (.inl ⟨id, other, source, hsource, rfl⟩)))

theorem Sorted.apply (h : t.Sorted) (op : Operation) : (t.apply op).Sorted := by
  unfold ScopeTree.apply
  split
  · next u hok =>
    rcases attempt_cases hok with ⟨fresh, hfresh, rfl⟩ | ⟨id, name, rfl⟩ | ⟨id, name, child, rfl⟩ |
      ⟨id, other, source, hsource, rfl⟩ | rfl
    · intro i s hs
      rw [getElem?_push] at hs
      split at hs
      · cases hs
        exact hfresh ▸ NameTable.sorted_empty
      · exact h i s hs
    · exact h.modify fun s hs => hs.insert name ()
    · exact h.modify fun s hs => hs.insert name ()
    · exact h.modify fun s hs => hs.merge (h other source hsource)
    · exact h
  · exact h

theorem lasting_apply (t : ScopeTree) (op : Operation) : t.Lasting (t.apply op) := by
  unfold ScopeTree.apply
  split
  · next u hok =>
    rcases attempt_cases hok with ⟨fresh, -, rfl⟩ | ⟨id, name, rfl⟩ | ⟨id, name, child, rfl⟩ |
      ⟨id, other, source, -, rfl⟩ | rfl
    · exact lasting_push t fresh
    · exact lasting_modify (lasts_addType name)
    · exact lasting_modify (lasts_addChild name child)
    · exact lasting_modify (lasts_takeOver source)
    · exact .refl _
  · exact .refl t

theorem lasting_applyAll (t : ScopeTree) (ops : List Operation) : t.Lasting (t.applyAll ops) := by
  induction ops generalizing t with
  | nil => exact .refl t
  | cons op ops ih => exact (lasting_apply t op).trans (ih (t.apply op))

/-! Operations on the tree itself. -/

/-- Work on a tree. What was changed before a failure stays changed. -/
abbrev Work := EStateM ScopeError ScopeTree

namespace Work

def ask {α : Type} (question : ScopeTree → Except ScopeError α) : Work α := fun t =>
  match question t with
  | .ok a => .ok a t
  | .error e => .error e t

def change (f : ScopeTree → ScopeTree) : Work Unit := fun t => .ok () (f t)

def openScope (parent : ScopeId) (name : String) : Work ScopeId := do
  ask fun _ => checkName name
  let outer ← ask (·.get parent)
  if outer.depth + 1 ≤ ScopeError.depthLimit then
    let id ← ask fun t => .ok t.size
    change (·.push ⟨name, some parent, outer.depth + 1, .empty, .empty⟩)
    return id
  else throw (.nestingTooDeep (outer.depth + 1))

/-- The name is put in first; that it was there is found out by that. -/
def declare (id : ScopeId) (name : String) : Work Unit := do
  ask fun _ => checkName name
  let known ← ask (·.hasType id name)
  change (·.modify id (addType name))
  if known then throw (.duplicateType name (← ask (·.path id)))

def declareScope (id : ScopeId) (name : String) (child : ScopeId) : Work Unit := do
  ask fun _ => checkName name
  let _ ← ask (·.get id)
  change (·.modify id (addChild name child))

def extend (id other : ScopeId) : Work Unit := do
  if id = other then return
  let source ← ask (·.get other)
  let _ ← ask (·.get id)
  change (·.modify id (takeOver source))

end Work

def Operation.inPlace : Operation → Work Unit
  | openScope parent name => discard (Work.openScope parent name)
  | declare id name => Work.declare id name
  | declareScope id name child => Work.declareScope id name child
  | extend id other => Work.extend id other

/-- The result of work that leaves the tree `t` alone when it fails. -/
def settled (t : ScopeTree) : Except ScopeError ScopeTree → EStateM.Result ScopeError ScopeTree Unit
  | .ok u => .ok () u
  | .error e => .error e t

theorem Sorted.modify_addType (h : t.Sorted) (hs : t.scopes[id]? = some s)
    (hn : s.types.contains name) : t.modify id (addType name) = t := by
  obtain ⟨value, hvalue⟩ := Option.isSome_iff_exists.1 hn
  have hsame : addType name s = s := by
    unfold addType
    rw [(h id s hs).insert_eq_self hvalue]
  refine congrArg ScopeTree.mk (Array.ext_getElem? fun i => ?_)
  refine (getElem?_modify t id (addType name) i).trans ?_
  split
  · next heq =>
    subst heq
    rw [hs, Option.map_some, hsame]
  · rfl

theorem settled_bind {α : Type} (t : ScopeTree) (r : Except ScopeError α)
    (f : α → Except ScopeError ScopeTree) :
    t.settled (r >>= f) = match r with
      | .ok a => t.settled (f a)
      | .error e => .error e t := by
  cases r <;> rfl

theorem Work.ask_bind {α β : Type} (question : ScopeTree → Except ScopeError α) (f : α → Work β)
    (t : ScopeTree) : (Work.ask question >>= f) t = match question t with
      | .ok a => f a t
      | .error e => .error e t := by
  simp only [bind, EStateM.bind, Work.ask]
  cases question t <;> rfl

theorem Work.change_bind {β : Type} (f : ScopeTree → ScopeTree) (g : Unit → Work β)
    (t : ScopeTree) : (Work.change f >>= g) t = g () (f t) := rfl

theorem inPlace_openScope (t : ScopeTree) (parent : ScopeId) (name : String) :
    Work.openScope parent name t = match t.openScope parent name with
      | .ok (u, id) => .ok id u
      | .error e => .error e t := by
  unfold Work.openScope ScopeTree.openScope
  rw [Work.ask_bind]
  cases checkName name with
  | error e => rfl
  | ok _ =>
    dsimp only
    rw [Work.ask_bind]
    cases t.get parent with
    | error e => rfl
    | ok outer =>
      simp only [bind, Except.bind]
      split <;> rfl

theorem Sorted.inPlace_declare (h : t.Sorted) (id : ScopeId) (name : String) :
    Work.declare id name t = t.settled (t.declare id name) := by
  unfold Work.declare ScopeTree.declare
  rw [Work.ask_bind, settled_bind]
  cases checkName name with
  | error e => rfl
  | ok _ =>
    dsimp only
    rw [Work.ask_bind, settled_bind, hasType]
    cases hget : t.get id with
    | error e => rfl
    | ok s =>
      simp only [Except.map]
      by_cases hn : s.types.contains name
      · -- the tree with the name is the tree as it was, so the path is the same
        have hsame := h.modify_addType (get_eq_ok.1 hget) hn
        simp only [hn, if_true, settled_bind]
        rw [Work.change_bind, hsame, Work.ask_bind]
        cases t.path id <;> rfl
      · simp only [hn]
        rfl

theorem inPlace_declareScope (t : ScopeTree) (id : ScopeId) (name : String) (child : ScopeId) :
    Work.declareScope id name child t = t.settled (t.declareScope id name child) := by
  unfold Work.declareScope ScopeTree.declareScope
  rw [Work.ask_bind, settled_bind]
  cases checkName name with
  | error e => rfl
  | ok _ =>
    dsimp only
    rw [Work.ask_bind, settled_bind]
    cases t.get id <;> rfl

theorem inPlace_extend (t : ScopeTree) (id other : ScopeId) :
    Work.extend id other t = t.settled (t.extend id other) := by
  unfold Work.extend ScopeTree.extend
  by_cases heq : id = other
  · simp only [heq, if_true]
    rfl
  · simp only [heq, if_false]
    change (Work.ask (·.get other) >>= _) t = _
    rw [Work.ask_bind, settled_bind]
    cases t.get other with
    | error e => rfl
    | ok source =>
      dsimp only
      rw [Work.ask_bind, settled_bind]
      cases t.get id <;> rfl

/-- An operation on the tree itself ends like one that gives a new tree, and leaves the tree as it was
when it fails. -/
theorem Sorted.inPlace_eq (h : t.Sorted) (op : Operation) :
    op.inPlace t = t.settled (t.attempt op) := by
  cases op with
  | openScope parent name =>
    change EStateM.map _ (Work.openScope parent name) t = _
    rw [EStateM.map, inPlace_openScope, attempt]
    cases t.openScope parent name <;> rfl
  | declare id name => exact h.inPlace_declare id name
  | declareScope id name child => exact inPlace_declareScope t id name child
  | extend id other => exact inPlace_extend t id other

/-! Runs of operations. -/

/-- The operations of a run, each with the tree that it is asked of. -/
def asked (t : ScopeTree) : List Operation → List (ScopeTree × Operation)
  | [] => []
  | op :: ops => (t, op) :: asked (t.apply op) ops

def issues? : ScopeTree × Operation → Option ScopeId
  | (t, .openScope parent name) => (t.openScope parent name).toOption.map (·.2)
  | _ => none

def declaresType (id : ScopeId) (name : String) : ScopeTree × Operation → Bool
  | (t, .declare i n) => i = id && n = name && (t.declare i n).isOk
  | _ => false

theorem apply_of_attempt (h : t.attempt op = .ok u) : t.apply op = u := by
  rw [ScopeTree.apply, h]

/-- A scope that is opened gets the next number, and nothing else adds a scope. -/
theorem issues?_cases (t : ScopeTree) (op : Operation) :
    issues? (t, op) = some t.size ∧ (t.apply op).size = t.size + 1 ∨
      issues? (t, op) = none ∧ (t.apply op).size = t.size := by
  cases hok : t.attempt op with
  | error e =>
    have hsize : (t.apply op).size = t.size := by rw [ScopeTree.apply, hok]
    refine .inr ⟨?_, hsize⟩
    cases op with
    | openScope parent name =>
      cases ho : t.openScope parent name with
      | error e => simp [issues?, ho, Except.toOption]
      | ok r => simp [attempt, ho, Except.map] at hok
    | declare | declareScope | extend => rfl
  | ok u =>
    rw [apply_of_attempt hok]
    cases op with
    | openScope parent name =>
      obtain ⟨⟨u, id⟩, ho, rfl⟩ := map_eq_ok.1 hok
      obtain ⟨-, outer, -, -, rfl, rfl⟩ := openScope_eq_ok.1 ho
      exact .inl ⟨by simp [issues?, ho, Except.toOption], size_push t _⟩
    | declare id name =>
      obtain ⟨-, s, -, -, rfl⟩ := declare_eq_ok.1 hok
      exact .inr ⟨rfl, size_modify t id _⟩
    | declareScope id name child =>
      obtain ⟨-, s, -, rfl⟩ := declareScope_eq_ok.1 hok
      exact .inr ⟨rfl, size_modify t id _⟩
    | extend id other =>
      rcases extend_eq_ok.1 hok with ⟨-, rfl⟩ | ⟨-, source, s, -, -, rfl⟩
      · exact .inr ⟨rfl, rfl⟩
      · exact .inr ⟨rfl, size_modify t id _⟩

/-- The scopes of a run are numbered in the order of opening. -/
theorem exists_filterMap_issues? (t : ScopeTree) (ops : List Operation) :
    ∃ n, (t.asked ops).filterMap issues? = List.range' t.size n := by
  induction ops generalizing t with
  | nil => exact ⟨0, rfl⟩
  | cons op ops ih =>
    obtain ⟨n, hn⟩ := ih (t.apply op)
    rcases issues?_cases t op with ⟨hsome, hsize⟩ | ⟨hnone, hsize⟩
    · refine ⟨n + 1, ?_⟩
      rw [asked, List.filterMap_cons_some hsome, hn, hsize, List.range'_succ]
    · refine ⟨n, ?_⟩
      rw [asked, List.filterMap_cons_none hnone, hn, hsize]

theorem declaresType_eq_true (h : declaresType id name (t, op)) :
    op = .declare id name ∧ ∃ u, t.declare id name = .ok u := by
  cases op with
  | declare i n =>
    simp only [declaresType, Bool.and_eq_true, decide_eq_true_eq] at h
    obtain ⟨⟨rfl, rfl⟩, hok⟩ := h
    cases hd : t.declare i n with
    | error e => simp [hd, Except.isOk, Except.toBool] at hok
    | ok u => exact ⟨rfl, u, rfl⟩
  | openScope | declareScope | extend => cases h

theorem countP_declaresType_of_typed (h : t.typed id name) (ops : List Operation) :
    (t.asked ops).countP (declaresType id name) = 0 := by
  induction ops generalizing t with
  | nil => rfl
  | cons op ops ih =>
    have hno : ¬ declaresType id name (t, op) := by
      intro hyes
      obtain ⟨-, u, hu⟩ := declaresType_eq_true hyes
      obtain ⟨-, s, hs, hn, -⟩ := declare_eq_ok.1 hu
      rw [typed_of_some hs, hn] at h
      cases h
    rw [asked, List.countP_cons_of_neg hno]
    exact ih ((lasting_apply t op).typed h)

theorem countP_declaresType_le (t : ScopeTree) (ops : List Operation) (id : ScopeId)
    (name : String) : (t.asked ops).countP (declaresType id name) ≤ 1 := by
  induction ops generalizing t with
  | nil => exact Nat.zero_le 1
  | cons op ops ih =>
    by_cases hyes : declaresType id name (t, op)
    · obtain ⟨rfl, u, hu⟩ := declaresType_eq_true hyes
      obtain ⟨-, s, hs, -, rfl⟩ := declare_eq_ok.1 hu
      have hok : t.attempt (.declare id name) = .ok (t.modify id (addType name)) := hu
      have htyped : (t.apply (.declare id name)).typed id name := by
        rw [apply_of_attempt hok, typed_addType (lt_size_of_some hs)]
        simp
      have hcount : (t.asked (.declare id name :: ops)).countP (declaresType id name) = 1 := by
        rw [asked, List.countP_cons_of_pos hyes, countP_declaresType_of_typed htyped]
      exact Nat.le_of_eq hcount
    · rw [asked, List.countP_cons_of_neg hyes]
      exact ih (t.apply op)

def SameBut (id : ScopeId) (t u : ScopeTree) : Prop :=
  u.size = t.size ∧ ∀ i, i ≠ id → u.scopes[i]? = t.scopes[i]?

theorem sameBut_modify (t : ScopeTree) (id : ScopeId) (f : Scope → Scope) :
    SameBut id t (t.modify id f) := by
  refine ⟨size_modify t id f, fun i hi => ?_⟩
  rw [getElem?_modify, if_neg (Ne.symm hi)]

/-- What an operation that is asked of `t` does. -/
def Effect (t : ScopeTree) : Operation → Prop
  | .openScope parent name => ∀ u id, t.openScope parent name = .ok (u, id) →
      u.size = t.size + 1 ∧ ∀ i < t.size, u.scopes[i]? = t.scopes[i]?
  | .declare id name =>
      ((∃ u, t.declare id name = .ok u) ↔ Plain name ∧ t.hasType id name = .ok false) ∧
      ∀ u, t.declare id name = .ok u → SameBut id t u
  | .declareScope id name child => ∀ u, t.declareScope id name child = .ok u → SameBut id t u
  | .extend id other => ∃ u, t.extend id other = .ok u ∧ SameBut id t u ∧
      ∀ n, u.typed id n = (t.typed id n || t.typed other n) ∧
        u.child? id n = (t.child? other n).or (t.child? id n)

theorem effect_extend (hid : id < t.size) (hother : other < t.size) :
    t.Effect (.extend id other) := by
  obtain ⟨s, hs⟩ := exists_of_lt_size hid
  obtain ⟨source, hsource⟩ := exists_of_lt_size hother
  by_cases heq : id = other
  · subst heq
    refine ⟨t, extend_eq_ok.2 (.inl ⟨rfl, rfl⟩), ⟨rfl, fun _ _ => rfl⟩, fun n => ⟨?_, ?_⟩⟩
    · rw [Bool.or_self]
    · rw [Option.or_self]
  · have hnew : (t.modify id (takeOver source)).scopes[id]? = some (takeOver source s) := by
      rw [getElem?_modify, if_pos rfl, hs]
      rfl
    refine ⟨_, extend_eq_ok.2 (.inr ⟨heq, source, s, hsource, hs, rfl⟩), sameBut_modify t id _,
      fun n => ⟨?_, ?_⟩⟩
    · rw [typed_of_some hnew, typed_of_some hs, typed_of_some hsource]
      simp [takeOver, NameTable.contains, Bool.or_comm]
    · rw [child?_of_some hnew, child?_of_some hs, child?_of_some hsource]
      simp [takeOver]

theorem effect_of_issued (hop : ∀ id ∈ op.scopes, id < t.size) : t.Effect op := by
  cases op with
  | openScope parent name =>
    intro u id ho
    obtain ⟨-, outer, -, -, rfl, -⟩ := openScope_eq_ok.1 ho
    refine ⟨size_push t _, fun i hi => ?_⟩
    rw [getElem?_push, if_neg (Nat.ne_of_lt hi)]
  | declare id name =>
    refine ⟨⟨?_, ?_⟩, ?_⟩
    · rintro ⟨u, hu⟩
      obtain ⟨hname, s, hs, hn, -⟩ := declare_eq_ok.1 hu
      exact ⟨hname, map_eq_ok.2 ⟨s, get_eq_ok.2 hs, hn⟩⟩
    · rintro ⟨hname, hn⟩
      obtain ⟨s, hs, hn⟩ := map_eq_ok.1 hn
      exact ⟨_, declare_eq_ok.2 ⟨hname, s, get_eq_ok.1 hs, hn, rfl⟩⟩
    · intro u hu
      obtain ⟨-, s, -, -, rfl⟩ := declare_eq_ok.1 hu
      exact sameBut_modify t id _
  | declareScope id name child =>
    intro u hu
    obtain ⟨-, s, -, rfl⟩ := declareScope_eq_ok.1 hu
    exact sameBut_modify t id _
  | extend id other =>
    exact effect_extend (hop id (by simp [Operation.scopes])) (hop other (by simp [Operation.scopes]))

theorem sorted_and_issued_of_mem_asked (hs : t.Sorted) (h : Issued t ops)
    {x : ScopeTree × Operation} (hx : x ∈ t.asked ops) :
    x.1.Sorted ∧ ∀ id ∈ x.2.scopes, id < x.1.size := by
  induction ops generalizing t with
  | nil => cases hx
  | cons op ops ih =>
    rcases List.mem_cons.1 hx with rfl | hx
    · exact ⟨hs, h.1⟩
    · exact ih (hs.apply op) h.2 hx

theorem issued_of_append {front back : List Operation} (h : Issued t (front ++ back)) :
    Issued t front := by
  induction front generalizing t with
  | nil => trivial
  | cons op front ih => exact ⟨h.1, ih h.2⟩

/-- Scopes are numbered in the order of opening and stay what they are; a type is declared once in a
scope; an operation that fails changes nothing, and one that succeeds changes no scope but its own. -/
theorem scopes_permanent {ops : List Operation} (h : Issued start ops) :
    (∃ n, (start.asked ops).filterMap issues? = List.range' 1 n) ∧
    (∀ id name, (start.asked ops).countP (declaresType id name) ≤ 1) ∧
    (∀ front back, ops = front ++ back →
      (start.applyAll front).Lasting (start.applyAll ops) ∧
      ∀ id < (start.applyAll front).size,
        (start.applyAll ops).path id = (start.applyAll front).path id) ∧
    ∀ x ∈ start.asked ops, x.2.inPlace x.1 = x.1.settled (x.1.attempt x.2) ∧ x.1.Effect x.2 := by
  refine ⟨exists_filterMap_issues? start ops, countP_declaresType_le start ops, ?_, ?_⟩
  · rintro front back rfl
    have hlasting : (start.applyAll front).Lasting (start.applyAll (front ++ back)) := by
      rw [applyAll, applyAll, List.foldl_append]
      exact lasting_applyAll _ back
    have hw := wellFormed_start.applyAll (issued_of_append h)
    exact ⟨hlasting, fun id hid => hlasting.path hw hid⟩
  · intro x hx
    obtain ⟨hsorted, hscopes⟩ := sorted_and_issued_of_mem_asked sorted_start h hx
    exact ⟨hsorted.inPlace_eq x.2, effect_of_issued hscopes⟩

/-- The root takes over what `A` has and `A` becomes its own child; two operations fail, the last one on
a type that was taken over. -/
theorem scopes_permanent_alias :
    let ops : List Operation := [.openScope 0 "A", .openScope 1 "B", .declareScope 1 "B" 2,
      .declare 1 "T", .extend 0 1, .declareScope 1 "A" 1, .openScope 2 "X::Y", .declare 0 "T"]
    let t := start.applyAll (ops.take 7)
    Issued start ops ∧ (start.asked ops).filterMap issues? = [1, 2] ∧
      (start.asked ops).countP (declaresType 1 "T") ≤ 1 ∧
      (start.applyAll ops).path 2 = (start.applyAll (ops.take 2)).path 2 ∧
      t.hasType 0 "T" = .ok true ∧ (¬ ∃ u, t.declare 0 "T" = .ok u) ∧
      Operation.inPlace (.declare 0 "T") t = t.settled (t.attempt (.declare 0 "T")) := by
  intro ops t
  have h : Issued start ops := by decide +kernel
  have hissued : (start.asked ops).filterMap issues? = [1, 2] := by decide +kernel
  have hsize : 2 < (start.applyAll (ops.take 2)).size := by decide +kernel
  have htype : t.hasType 0 "T" = .ok true := by decide +kernel
  obtain ⟨-, hcount, hlasting, hasked⟩ := scopes_permanent h
  have hpath := (hlasting (ops.take 2) (ops.drop 2) rfl).2 2 hsize
  have hmem : (t, .declare 0 "T") ∈ start.asked ops := List.mem_of_getElem? (i := 7) rfl
  obtain ⟨hplace, hdeclare, -⟩ := hasked _ hmem
  refine ⟨h, hissued, hcount 1 "T", hpath, htype, fun hok => ?_, hplace⟩
  have hfree := (hdeclare.1 hok).2
  rw [htype] at hfree
  cases hfree

end ScopeTree
end SourceOutline
