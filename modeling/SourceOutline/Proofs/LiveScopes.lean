import SourceOutline.Proofs.ScopeArena

/-! Scopes that names lead to.
A scope that is entered anew takes over all that the earlier scope of its name declares, and takes its
place as a child. A list of names read from the root therefore leads where it led before, but for the
one list that spells the new scope. -/
namespace SourceOutline.ScopeTree
open QualifiedName
variable {t t' : ScopeTree} {id p c : ScopeId} {s outer : Scope} {name : String}
  {names front inner q : List String}

def child? (t : ScopeTree) (id : ScopeId) (name : String) : Option ScopeId :=
  t.scopes[id]?.bind fun s => s.children.get? name

def typed (t : ScopeTree) (id : ScopeId) (name : String) : Bool :=
  t.scopes[id]?.any fun s => s.types.contains name

theorem child?_of_some (hs : t.scopes[id]? = some s) (name : String) :
    t.child? id name = s.children.get? name := by
  simp [child?, hs]

theorem typed_of_some (hs : t.scopes[id]? = some s) (name : String) :
    t.typed id name = s.types.contains name := by
  simp [typed, hs]

theorem lt_size_of_child? (h : t.child? id name = some c) : id < t.size := by
  obtain ⟨s, hs, -⟩ := Option.bind_eq_some_iff.1 h
  exact lt_size_of_some hs

theorem WellFormed.child?_lt (h : t.WellFormed) (hc : t.child? id name = some c) :
    c < t.size := by
  obtain ⟨s, hs, hc⟩ := Option.bind_eq_some_iff.1 hc
  exact ((h.sound id s hs).children name c hc).2

theorem WellFormed.plain_of_child? (h : t.WellFormed) (hc : t.child? id name = some c) :
    Plain name := by
  obtain ⟨s, hs, hc⟩ := Option.bind_eq_some_iff.1 hc
  exact (h.sound id s hs).types name ((h.sound id s hs).children name c hc).1

/-! The names on the way to a scope. -/

theorem namesFrom_append (t : ScopeTree) (id : ScopeId) (inner : List String) :
    t.namesFrom id inner = (t.namesFrom id []).map (· ++ inner) := by
  induction id using Nat.strongRecOn generalizing inner with
  | ind id ih =>
    rw [namesFrom, namesFrom]
    split
    · rfl
    · next s _ =>
      split
      · rfl
      · next p _ =>
        split
        · next hlt =>
          rw [ih p hlt (s.name :: inner), ih p hlt [s.name]]
          cases t.namesFrom p [] <;> simp [Except.map]
        · rfl

def Named (t : ScopeTree) (id : ScopeId) (names : List String) : Prop :=
  t.namesFrom id [] = .ok names

theorem Named.unique (h : t.Named id names) (h' : t.Named id front) : names = front := by
  rw [Named, h] at h'
  cases h'
  rfl

theorem Named.lt_size (h : t.Named id names) : id < t.size := by
  rw [Named, namesFrom] at h
  split at h
  · cases h
  · next hs => exact lt_size_of_some hs

theorem WellFormed.exists_named (h : t.WellFormed) (hid : id < t.size) :
    ∃ names, t.Named id names := by
  obtain ⟨names, -, hnames, -, -⟩ := h.namesFrom_ok hid []
  rw [List.append_nil] at hnames
  exact ⟨names, hnames⟩

theorem WellFormed.named_root (h : t.WellFormed) : t.Named root [] := by
  obtain ⟨r, hr, -, hp, -⟩ := h.top
  exact namesFrom_top hr hp []

theorem WellFormed.length_of_named (h : t.WellFormed) (hs : t.scopes[id]? = some s)
    (hnamed : t.Named id names) : names.length = s.depth := by
  obtain ⟨front, s', hnames, hs', hlen⟩ := h.namesFrom_ok (lt_size_of_some hs) []
  rw [List.append_nil] at hnames
  rw [hnamed.unique hnames, hlen, Option.some.inj (hs.symm.trans hs')]

theorem Nested.named (hn : Nested t id s p outer) (hs : t.scopes[id]? = some s)
    (hnamed : t.Named p front) : t.Named id (front ++ [s.name]) := by
  rw [Named, hn.namesFrom hs, namesFrom_append, hnamed]
  rfl

/-- A tree that has all of another one: its scopes with their names and parents, and their children
by name. -/
def Extends (t t' : ScopeTree) : Prop :=
  ∀ (id : ScopeId) (s : Scope), t.scopes[id]? = some s → ∃ s', t'.scopes[id]? = some s' ∧
    s'.name = s.name ∧ s'.parent = s.parent ∧
    ∀ name, (s.children.get? name).isSome → (s'.children.get? name).isSome

theorem Extends.child? (h : t.Extends t') (hc : (t.child? id name).isSome) :
    (t'.child? id name).isSome := by
  obtain ⟨c, hc⟩ := Option.isSome_iff_exists.1 hc
  obtain ⟨s, hs, hc⟩ := Option.bind_eq_some_iff.1 hc
  obtain ⟨s', hs', -, -, hkeys⟩ := h id s hs
  rw [child?_of_some hs']
  exact hkeys name (by simp [hc])

theorem Extends.nested (h : t.Extends t') (hs : t.scopes[id]? = some s)
    (hn : Nested t id s p outer) : ∃ s', t'.scopes[id]? = some s' ∧ s'.name = s.name ∧
      s'.parent = some p := by
  obtain ⟨s', hs', hname, hparent, -⟩ := h id s hs
  exact ⟨s', hs', hname, hparent.trans hn.parent⟩

/-- A scope keeps its names. -/
theorem Extends.namesFrom (h : t.Extends t') (hw : t.WellFormed) (hid : id < t.size)
    (inner : List String) : t'.namesFrom id inner = t.namesFrom id inner := by
  induction id, hid using hw.climb generalizing inner with
  | top =>
    obtain ⟨r, hr, -, hp, -⟩ := hw.top
    obtain ⟨r', hr', -, hp', -⟩ := h root r hr
    rw [namesFrom_top hr hp, namesFrom_top hr' (hp'.trans hp)]
  | step id s p outer hs hn ih =>
    obtain ⟨s', hs', hname, hparent⟩ := h.nested hs hn
    rw [hn.namesFrom hs, ← ih, ScopeTree.namesFrom]
    simp [hs', hparent, hn.lt, hname]

theorem Extends.named_iff (h : t.Extends t') (hw : t.WellFormed) (hid : id < t.size) :
    t'.Named id names ↔ t.Named id names := by
  rw [Named, Named, h.namesFrom hw hid]

/-! Lists of names read from a scope. -/

/-- The scope that a list of names leads to, each the child of the one before. -/
def walk (t : ScopeTree) : ScopeId → List String → Option ScopeId
  | id, [] => some id
  | id, name :: names => (t.child? id name).bind fun child => walk t child names

@[simp] theorem walk_nil (t : ScopeTree) (id : ScopeId) : t.walk id [] = some id := rfl

theorem walk_cons (t : ScopeTree) (id : ScopeId) (name : String) (names : List String) :
    t.walk id (name :: names) = (t.child? id name).bind fun child => t.walk child names := rfl

theorem walk_append (t : ScopeTree) (id : ScopeId) (front names : List String) :
    t.walk id (front ++ names) = (t.walk id front).bind fun mid => t.walk mid names := by
  induction front generalizing id with
  | nil => rfl
  | cons name front ih => simp [walk_cons, ih, Option.bind_assoc]

/-- Every child is spelled like its entry in the scope that has it. -/
def Tidy (t : ScopeTree) : Prop :=
  ∀ (id : ScopeId) (names : List String) (name : String) (c : ScopeId), t.Named id names →
    t.child? id name = some c → t.Named c (names ++ [name])

theorem Tidy.walk (h : t.Tidy) (hnamed : t.Named id front) (hw : t.walk id names = some c) :
    t.Named c (front ++ names) := by
  induction names generalizing id front with
  | nil =>
    cases hw
    simpa using hnamed
  | cons name names ih =>
    obtain ⟨mid, hmid, hw⟩ := Option.bind_eq_some_iff.1 hw
    simpa using ih (h id front name mid hnamed hmid) hw

/-! Entering a scope. -/

def seeded (t : ScopeTree) (p : ScopeId) (name : String) (outer : Scope) : Scope :=
  let fresh : Scope := ⟨name, some p, outer.depth + 1, .empty, .empty⟩
  match (outer.children.get? name).bind fun old => t.scopes[old]? with
  | some source => takeOver source fresh
  | none => fresh

def entered (t : ScopeTree) (p : ScopeId) (name : String) (outer : Scope) : ScopeTree :=
  (t.push (t.seeded p name outer)).modify p (addChild name t.size)

theorem seeded_frame (t : ScopeTree) (p : ScopeId) (name : String) (outer : Scope) :
    (t.seeded p name outer).name = name ∧ (t.seeded p name outer).parent = some p ∧
      (t.seeded p name outer).depth = outer.depth + 1 := by
  unfold seeded
  dsimp only
  split <;> exact ⟨rfl, rfl, rfl⟩

theorem get?_children_seeded (hp : t.scopes[p]? = some outer) (n : String) :
    (t.seeded p name outer).children.get? n =
      (t.child? p name).bind fun old => t.child? old n := by
  rw [child?_of_some hp, seeded]
  cases hold : outer.children.get? name with
  | none => simp
  | some old => cases hs : t.scopes[old]? <;> simp [hs, child?, takeOver]

theorem contains_types_seeded (hp : t.scopes[p]? = some outer) (n : String) :
    (t.seeded p name outer).types.contains n =
      (t.child? p name).any fun old => t.typed old n := by
  rw [child?_of_some hp, seeded]
  cases hold : outer.children.get? name with
  | none => simp [NameTable.contains]
  | some old => cases hs : t.scopes[old]? <;> simp [hs, typed, takeOver, NameTable.contains]

@[simp] theorem size_entered (t : ScopeTree) (p : ScopeId) (name : String) (outer : Scope) :
    (t.entered p name outer).size = t.size + 1 := by
  simp [entered]

theorem getElem?_entered (hp : t.scopes[p]? = some outer) (i : ScopeId) :
    (t.entered p name outer).scopes[i]? =
      if i = p then some (addChild name t.size outer)
      else if i = t.size then some (t.seeded p name outer) else t.scopes[i]? := by
  have hne : p ≠ t.size := Nat.ne_of_lt (lt_size_of_some hp)
  rw [entered, getElem?_modify, getElem?_push]
  by_cases hi : i = p
  · subst hi
    simp [hne, hp]
  · simp [hi, Ne.symm hi]

theorem child?_entered (hp : t.scopes[p]? = some outer) (i : ScopeId) (n : String) :
    (t.entered p name outer).child? i n =
      if i = p then if n = name then some t.size else t.child? p n
      else if i = t.size then (t.child? p name).bind fun old => t.child? old n
      else t.child? i n := by
  rw [child?, getElem?_entered hp]
  split
  · rw [child?_of_some hp]
    simp [addChild, eq_comm]
  · split
    · exact get?_children_seeded hp n
    · rfl

theorem typed_entered (hp : t.scopes[p]? = some outer) (i : ScopeId) (n : String) :
    (t.entered p name outer).typed i n =
      if i = p then decide (n = name) || t.typed p n
      else if i = t.size then (t.child? p name).any fun old => t.typed old n
      else t.typed i n := by
  rw [typed, getElem?_entered hp]
  split
  · rw [typed_of_some hp]
    by_cases hn : n = name
    · simp [addChild, NameTable.contains, hn]
    · simp [addChild, NameTable.contains, hn, Ne.symm hn]
  · split
    · exact contains_types_seeded hp n
    · rfl

theorem extends_entered (hp : t.scopes[p]? = some outer) (name : String) :
    t.Extends (t.entered p name outer) := by
  intro i s hs
  rw [getElem?_entered hp]
  by_cases hi : i = p
  · subst hi
    rw [hp] at hs
    cases hs
    refine ⟨_, if_pos rfl, rfl, rfl, ?_⟩
    intro n hn
    by_cases hname : name = n <;> simp [addChild, hname, hn]
  · rw [if_neg hi, if_neg (Nat.ne_of_lt (lt_size_of_some hs))]
    exact ⟨s, hs, rfl, rfl, fun _ hn => hn⟩

theorem WellFormed.entered (h : t.WellFormed) (hp : t.scopes[p]? = some outer)
    (hname : Plain name) (hlimit : outer.depth + 1 ≤ ScopeError.depthLimit) :
    (t.entered p name outer).WellFormed := by
  obtain ⟨-, hparent, hdepth⟩ := seeded_frame t p name outer
  have hsound : Sound (t.size + 1) (t.seeded p name outer) := by
    have hfresh := Sound.empty (t.size + 1) hname (some p) (outer.depth + 1)
    unfold seeded
    dsimp only
    split
    · next source hsource =>
      obtain ⟨old, -, hold⟩ := Option.bind_eq_some_iff.1 hsource
      exact hfresh.takeOver ((h.sound old source hold).mono (Nat.le_succ _))
    · exact hfresh
  have hpush := h.push hp hparent hdepth hlimit hsound
  refine hpush.modify (fun _ => ⟨rfl, rfl, rfl⟩) fun s hs => ?_
  exact (hpush.sound p s hs).addChild hname (by simp)

theorem named_entered (h : t.WellFormed) (hp : t.scopes[p]? = some outer) (hfront : t.Named p front)
    (name : String) : (t.entered p name outer).Named t.size (front ++ [name]) := by
  obtain ⟨hname, hparent, -⟩ := seeded_frame t p name outer
  have hlt := lt_size_of_some hp
  have hnew : (t.entered p name outer).scopes[t.size]? = some (t.seeded p name outer) := by
    rw [getElem?_entered hp, if_neg (Nat.ne_of_gt hlt), if_pos rfl]
  have hkept := ((extends_entered hp name).named_iff h hlt).2 hfront
  rw [Named, namesFrom]
  simp only [hnew, hparent, hlt, ↓reduceIte, hname]
  rw [namesFrom_append, hkept]
  rfl

theorem Tidy.entered (ht : t.Tidy) (h : t.WellFormed) (hp : t.scopes[p]? = some outer)
    (name : String) : (t.entered p name outer).Tidy := by
  have hx := extends_entered hp name
  have hlt := lt_size_of_some hp
  obtain ⟨front, hfront⟩ := h.exists_named hlt
  have hspelled := named_entered h hp hfront name
  -- an entry of the tree before is still spelled right
  have hkept : ∀ (i : ScopeId) (names : List String) (n : String) (c : ScopeId),
      t.Named i names → t.child? i n = some c →
      (t.entered p name outer).Named c (names ++ [n]) := by
    intro i names n c hi hc
    exact (hx.named_iff h (h.child?_lt hc)).2 (ht i names n c hi hc)
  intro i names n c hi hc
  rw [child?_entered hp] at hc
  by_cases hip : i = p
  · subst hip
    have heq : names = front := ((hx.named_iff h hlt).1 hi).unique hfront
    subst heq
    rw [if_pos rfl] at hc
    by_cases hn : n = name
    · rw [if_pos hn] at hc
      cases hc
      exact hn ▸ hspelled
    · rw [if_neg hn] at hc
      exact hkept i names n c hfront hc
  · rw [if_neg hip] at hc
    by_cases his : i = t.size
    · subst his
      rw [if_pos rfl] at hc
      obtain ⟨old, hold, hc⟩ := Option.bind_eq_some_iff.1 hc
      rw [hi.unique hspelled]
      exact hkept old _ n c (ht p front name old hfront hold) hc
    · rw [if_neg his] at hc
      exact hkept i names n c ((hx.named_iff h (lt_size_of_child? hc)).1 hi) hc

/-- Names read from below a scope do not lead back to it. -/
theorem Tidy.walk_ne (ht : t.Tidy) (hfront : t.Named p front)
    (hid : t.Named id (front ++ name :: inner))
    (q : List String) : t.walk id q ≠ some p := by
  intro hq
  have hlen := congrArg List.length ((ht.walk hid hq).unique hfront)
  simp only [List.length_append, List.length_cons] at hlen
  omega

/-- Names lead where they led before if they do not lead to `p` and then spell the new scope. -/
theorem walk_entered (h : t.WellFormed) (ht : t.Tidy) (hp : t.scopes[p]? = some outer)
    (hid : id < t.size) (hmiss : ∀ front, q = front ++ [name] → t.walk id front ≠ some p) :
    (t.entered p name outer).walk id q = t.walk id q := by
  obtain ⟨front, hfront⟩ := h.exists_named (lt_size_of_some hp)
  induction q generalizing id with
  | nil => rfl
  | cons n q ih =>
    rw [walk_cons, walk_cons, child?_entered hp, if_neg (Nat.ne_of_lt hid)]
    by_cases hnew : id = p ∧ n = name
    · obtain ⟨rfl, rfl⟩ := hnew
      rw [if_pos rfl, if_pos rfl]
      cases q with
      | nil => exact absurd rfl (hmiss [] rfl)
      | cons m q =>
        -- the new scope has the children of the old one, and those lead on as before
        change (t.entered id n outer).walk t.size (m :: q) = _
        rw [walk_cons, child?_entered hp, if_neg (Nat.ne_of_gt hid), if_pos rfl]
        cases hold : t.child? id n with
        | none => rfl
        | some old =>
          have hlt := h.child?_lt hold
          have hbelow := ht id front n old hfront hold
          have hne : old ≠ id := fun heq => ht.walk_ne hfront hbelow [] (congrArg some heq)
          have hwalk := ih hlt fun r _ => ht.walk_ne hfront hbelow r
          rw [walk_cons, child?_entered hp, if_neg hne, if_neg (Nat.ne_of_lt hlt)] at hwalk
          exact hwalk
    · have hchild : (if id = p then if n = name then some t.size else t.child? p n
          else t.child? id n) = t.child? id n := by
        by_cases hip : id = p
        · subst hip
          rw [if_pos rfl, if_neg fun hn => hnew ⟨rfl, hn⟩]
        · exact if_neg hip
      rw [hchild]
      cases hc : t.child? id n with
      | none => rfl
      | some child =>
        refine ih (h.child?_lt hc) fun r hr hto => hmiss (n :: r) (by rw [hr]; rfl) ?_
        rw [walk_cons, hc]
        exact hto

theorem walk_root_entered (h : t.WellFormed) (ht : t.Tidy) (hp : t.scopes[p]? = some outer)
    (hfront : t.Named p front) (name : String) (q : List String) :
    (t.entered p name outer).walk root q =
      if q = front ++ [name] ∧ t.walk root front = some p then some t.size
      else t.walk root q := by
  have hroot := h.root_lt_size
  by_cases hhit : q = front ++ [name] ∧ t.walk root front = some p
  · obtain ⟨rfl, hto⟩ := hhit
    rw [if_pos ⟨rfl, hto⟩, walk_append]
    have hkept : (t.entered p name outer).walk root front = some p := by
      refine (walk_entered h ht hp hroot fun r hr hback => ?_).trans hto
      have heq := (ht.walk h.named_root hback).unique hfront
      have hlen := congrArg List.length (hr.symm.trans heq.symm)
      simp at hlen
    rw [hkept]
    simp [walk_cons, child?_entered hp]
  · rw [if_neg hhit]
    refine walk_entered h ht hp hroot fun r hr hto => hhit ?_
    have heq : r = front := (ht.walk h.named_root hto).unique hfront
    exact ⟨heq ▸ hr, heq ▸ hto⟩

/-! Declaring a type. -/

@[simp] theorem child?_addType (t : ScopeTree) (id : ScopeId) (name : String) (i : ScopeId)
    (n : String) : (t.modify id (addType name)).child? i n = t.child? i n := by
  rw [child?, child?, getElem?_modify]
  split
  · cases t.scopes[i]? <;> rfl
  · rfl

@[simp] theorem walk_addType (t : ScopeTree) (id : ScopeId) (name : String) (i : ScopeId)
    (q : List String) : (t.modify id (addType name)).walk i q = t.walk i q := by
  induction q generalizing i with
  | nil => rfl
  | cons n q ih => simp [walk_cons, ih]

theorem typed_addType (hid : id < t.size) (name : String) (i : ScopeId) (n : String) :
    (t.modify id (addType name)).typed i n = (decide (i = id ∧ n = name) || t.typed i n) := by
  obtain ⟨s, hs⟩ := exists_of_lt_size hid
  rw [typed, typed, getElem?_modify]
  by_cases hi : id = i
  · subst hi
    by_cases hn : n = name
    · simp [hs, addType, NameTable.contains, hn]
    · simp [hs, addType, NameTable.contains, hn, Ne.symm hn]
  · simp [hi, Ne.symm hi]

theorem extends_addType (t : ScopeTree) (id : ScopeId) (name : String) :
    t.Extends (t.modify id (addType name)) := by
  intro i s hs
  rw [getElem?_modify, hs]
  split
  · exact ⟨addType name s, rfl, rfl, rfl, fun _ h => h⟩
  · exact ⟨s, rfl, rfl, rfl, fun _ h => h⟩

theorem WellFormed.addType (h : t.WellFormed) (id : ScopeId) (hname : Plain name) :
    (t.modify id (addType name)).WellFormed :=
  h.modify (fun _ => ⟨rfl, rfl, rfl⟩) fun s hs => (h.sound id s hs).addType hname

theorem Tidy.addType (ht : t.Tidy) (h : t.WellFormed) (id : ScopeId) (name : String) :
    (t.modify id (addType name)).Tidy := by
  have hx := extends_addType t id name
  intro i names n c hi hc
  rw [child?_addType] at hc
  have hi := (hx.named_iff h (lt_size_of_child? hc)).1 hi
  exact (hx.named_iff h (h.child?_lt hc)).2 (ht i names n c hi hc)

/-! Trees that grow. -/

/-- The trees that come from `t` by entering scopes and declaring types. -/
inductive Grown (t : ScopeTree) : ScopeTree → Prop
  | refl : Grown t t
  | enter {u : ScopeTree} {p : ScopeId} {name : String} {outer : Scope} (h : Grown t u)
      (hp : u.scopes[p]? = some outer) (hname : Plain name)
      (hlimit : outer.depth + 1 ≤ ScopeError.depthLimit) : Grown t (u.entered p name outer)
  | declare {u : ScopeTree} {name : String} (h : Grown t u) (id : ScopeId) (hname : Plain name) :
      Grown t (u.modify id (addType name))

theorem Grown.trans {u : ScopeTree} (h : t.Grown t') (h' : t'.Grown u) : t.Grown u := by
  induction h' with
  | refl => exact h
  | enter _ hp hname hlimit ih => exact ih.enter hp hname hlimit
  | declare _ id hname ih => exact ih.declare id hname

structure Orderly (t : ScopeTree) : Prop where
  wellFormed : t.WellFormed
  tidy : t.Tidy

theorem orderly_start : start.Orderly := by
  refine ⟨wellFormed_start, ?_⟩
  intro id names name c _ hc
  have hid : id = root := Nat.lt_one_iff.1 (lt_size_of_child? hc)
  subst hid
  simp [child?, start, root] at hc

theorem Orderly.grown (h : t.Orderly) (hg : t.Grown t') : t'.Orderly := by
  induction hg with
  | refl => exact h
  | enter _ hp hname hlimit ih =>
    exact ⟨ih.wellFormed.entered hp hname hlimit, ih.tidy.entered ih.wellFormed hp _⟩
  | declare _ id hname ih =>
    exact ⟨ih.wellFormed.addType id hname, ih.tidy.addType ih.wellFormed id _⟩

end SourceOutline.ScopeTree
