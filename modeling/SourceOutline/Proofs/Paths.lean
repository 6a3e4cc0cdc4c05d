import SourceOutline.Proofs.LiveScopes

/-! Paths as texts.
A path is read segment by segment, and a segment that a scope lacks is looked up further out. No such
detour ends at a scope whose own path is the text that was read: what is looked up further out has a
shorter path. -/
namespace SourceOutline.ScopeTree
open QualifiedName
variable {t : ScopeTree} {id s c : ScopeId} {name : String} {names front q : List String}

theorem toList_join (names : List String) :
    (join names).toList = names.flatMap fun name => name.toList ++ separator := by
  have hfold : ∀ path : String,
      (names.foldl (fun path name => path ++ name ++ "::") path).toList =
        path.toList ++ names.flatMap fun name => name.toList ++ separator := by
    induction names with
    | nil => simp
    | cons name names ih =>
      intro path
      rw [List.foldl_cons, ih]
      simp [separator]
  rw [join, hfold]
  simp

theorem join_append (names : List String) (last : String) :
    join names ++ last = "::".intercalate (names ++ [last]) := by
  induction names with
  | nil => simp [join]
  | cons name names ih =>
    rw [List.cons_append, String.intercalate_cons_of_ne_nil (by simp), ← ih]
    apply String.toList_inj.1
    simp [toList_join, separator]

theorem path_of_named (h : t.Named id names) : t.path id = .ok (join names) :=
  map_eq_ok.2 ⟨_, h, rfl⟩

theorem resolve_of_not_mem (h : t.Named id names) (hname : ':' ∉ name.toList) :
    t.resolve id name = .ok (join names ++ name) := by
  simp [resolve, resolution, cutLast?_eq_none hname, path_of_named h, Except.map]

def spelled (names : List String) : Nat := (join names).toList.length

@[simp] theorem spelled_nil : spelled [] = 0 := rfl

@[simp] theorem spelled_append (front names : List String) :
    spelled (front ++ names) = spelled front + spelled names := by
  simp [spelled, toList_join]

@[simp] theorem spelled_singleton (name : String) : spelled [name] = name.toList.length + 2 := by
  simp [spelled, toList_join, separator]

@[simp] theorem beforeSeparator?_append (cs : List Char) :
    beforeSeparator? (cs ++ separator) = some cs := by
  simp [beforeSeparator?, afterSeparator?, separator]

theorem length_of_afterSeparator? {cs rest : List Char} (h : afterSeparator? cs = some rest) :
    rest.length + 2 = cs.length := by
  unfold afterSeparator? at h
  split at h
  · cases h
    simp
  · cases h

/-- A look-up finds a child of the scope itself, or something of a shorter path. -/
theorem Orderly.lookup_cases (h : t.Orderly) (hid : id < t.size) (hnamed : t.Named id front)
    (hl : t.lookup id name = .ok (some c)) :
    t.child? id name = some c ∨
      ∃ q, t.Named c (q ++ [name]) ∧ spelled q < spelled front := by
  have hw := h.wellFormed
  induction id, hid using hw.climb generalizing front with
  | top =>
    obtain ⟨r, hr, -, hp, -⟩ := hw.top
    cases hc : r.children.get? name with
    | none => rw [lookup_top hr hp hc] at hl; cases hl
    | some child =>
      rw [lookup_child hr hc] at hl
      cases hl
      exact .inl ((child?_of_some hr name).trans hc)
  | step id s p outer hs hn ih =>
    cases hc : s.children.get? name with
    | some child =>
      rw [lookup_child hs hc] at hl
      cases hl
      exact .inl ((child?_of_some hs name).trans hc)
    | none =>
      rw [hn.lookup hs hc] at hl
      obtain ⟨outside, houtside⟩ := hw.exists_named (lt_size_of_some hn.found)
      have hfront : front = outside ++ [s.name] := hnamed.unique (hn.named hs houtside)
      have hlt : spelled outside < spelled front := by
        rw [hfront]
        simp
      right
      rcases ih houtside hl with hchild | ⟨q, hq, hshort⟩
      · exact ⟨outside, h.tidy p outside name c houtside hchild, hlt⟩
      · exact ⟨q, hq, Nat.lt_trans hshort hlt⟩

/-- What a text leads to from a scope has a path no longer than the path of that scope and the text.
If it is as long, every segment was a child of the scope before it. -/
theorem Orderly.findFrom_spelled (h : t.Orderly) {cs : List Char} (hid : id < t.size)
    (hnamed : t.Named id front) (hf : t.findFrom id cs = .ok (some c)) (hc : t.Named c q) :
    spelled q ≤ spelled front + (cs.length + 2) ∧
      (spelled q = spelled front + (cs.length + 2) → ∃ names, t.walk id names = some c) := by
  have hw := h.wellFormed
  -- one segment, looked up from `id`
  have hone : ∀ {id c : ScopeId} {front q : List String} {cs : List Char}, id < t.size →
      t.Named id front → t.lookup id (String.ofList cs) = .ok (some c) → t.Named c q →
      spelled q < spelled front + (cs.length + 2) ∨
        spelled q = spelled front + (cs.length + 2) ∧
          t.child? id (String.ofList cs) = some c := by
    intro id c front q cs hid hnamed hl hc
    rcases h.lookup_cases hid hnamed hl with hchild | ⟨r, hr, hshort⟩
    · right
      refine ⟨?_, hchild⟩
      rw [hc.unique (h.tidy id front _ c hnamed hchild)]
      simp
    · left
      rw [hc.unique hr]
      simp only [spelled_append, spelled_singleton, String.toList_ofList]
      omega
  fun_induction findFrom t id cs generalizing front with
  | case1 id cs _ =>
    rcases hone hid hnamed hf hc with hlt | ⟨heq, hchild⟩
    · exact ⟨Nat.le_of_lt hlt, fun heq => absurd heq (Nat.ne_of_lt hlt)⟩
    · refine ⟨Nat.le_of_eq heq, fun _ => ⟨[String.ofList cs], ?_⟩⟩
      simp [walk_cons, hchild]
  | case2 => cases hf
  | case3 => cases hf
  | case4 id cs head back hcut next hl _ ih =>
    obtain ⟨found, hfound, hlt⟩ := hw.lookup_ok hid (String.ofList head)
    rw [hl] at hfound
    cases hfound
    have hnext : next < t.size := hlt next rfl
    obtain ⟨mid, hmid⟩ := hw.exists_named hnext
    have hlen : head.length + (back.length + 2) = cs.length := by
      have happ := congrArg List.length (Text.append_of_cutAt? hcut)
      simpa [separator] using happ
    obtain ⟨hle, hwalk⟩ := ih hnext hmid hf
    rcases hone hid hnamed hl hmid with hlt | ⟨heq, hchild⟩
    · exact ⟨by omega, fun heq => by omega⟩
    · refine ⟨by omega, fun htotal => ?_⟩
      obtain ⟨names, hnames⟩ := hwalk (by omega)
      refine ⟨String.ofList head :: names, ?_⟩
      rw [walk_cons, hchild]
      exact hnames

/-- The scope that a path leads to from the root. The empty path is that of the root. -/
def atPath (t : ScopeTree) (path : String) : Except ScopeError (Option ScopeId) :=
  match beforeSeparator? path.toList with
  | none => .ok (some root)
  | some cs => t.find root (String.ofList cs)

def FoundByPath (t : ScopeTree) (s : ScopeId) : Prop :=
  ∃ path, t.path s = .ok path ∧ t.atPath path = .ok (some s)

instance decidableFoundByPath (t : ScopeTree) (s : ScopeId) : Decidable (t.FoundByPath s) :=
  match h : t.path s with
  | .error e => .isFalse (by rintro ⟨path, hp, -⟩; rw [h] at hp; cases hp)
  | .ok path => decidable_of_iff (t.atPath path = .ok (some s)) (by simp [FoundByPath, h])

/-- Whether the names of a scope lead to it, each as a child of the scope before. -/
def Live (t : ScopeTree) (s : ScopeId) : Prop :=
  ∃ names, t.Named s names ∧ t.walk root names = some s

theorem Orderly.live_of_foundByPath (h : t.Orderly) (hf : t.FoundByPath s) : t.Live s := by
  have hw := h.wellFormed
  obtain ⟨path, hpath, hat⟩ := hf
  obtain ⟨names, hnamed, rfl⟩ := map_eq_ok.1 hpath
  have hroot := hw.root_lt_size
  -- a walk that ends at `s` is the one along its names
  have hlive : (∃ r, t.walk root r = some s) → t.Live s := by
    rintro ⟨r, hr⟩
    exact ⟨r, h.tidy.walk hw.named_root hr, hr⟩
  rcases List.eq_nil_or_concat names with rfl | ⟨front, name, rfl⟩
  · have heq : root = s := by simpa [atPath, join, beforeSeparator?, afterSeparator?] using hat
    exact ⟨[], heq ▸ hw.named_root, congrArg some heq⟩
  · obtain ⟨cs, hcs⟩ : ∃ cs, (join (front ++ [name])).toList = cs ++ separator :=
      ⟨(join front).toList ++ name.toList, by simp [toList_join]⟩
    have hlen : spelled (front ++ [name]) = cs.length + 2 := by
      rw [spelled, hcs]
      simp [separator]
    rw [List.concat_eq_append] at hnamed hat
    rw [atPath, hcs, beforeSeparator?_append] at hat
    simp only [find, String.toList_ofList] at hat
    split at hat
    · next rest hrest =>
      have hshort := (h.findFrom_spelled hroot hw.named_root hat hnamed).1
      have hcut := length_of_afterSeparator? hrest
      simp only [spelled_nil] at hshort
      omega
    · refine hlive ((h.findFrom_spelled hroot hw.named_root hat hnamed).2 ?_)
      rw [hlen, spelled_nil, Nat.zero_add]

end SourceOutline.ScopeTree
