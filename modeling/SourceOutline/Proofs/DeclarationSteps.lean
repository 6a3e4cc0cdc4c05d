import SourceOutline.Proofs.DeclarationLanguage
import SourceOutline.Proofs.OutlineStep
import SourceOutline.Proofs.Paths

/-! What a declaration does to a builder and to a listing.
A scope is entered anew at each of its blocks, yet the names around a declaration always lead to the
scope that it is in: blocks inside it change only what longer lists of names lead to. -/
namespace SourceOutline
open QualifiedName

/-! How names are shown. -/

theorem join_append_eq_shown (path : List String) {name : String} (h : name ≠ "") :
    ScopeTree.join path ++ name = Listing.shown path name := by
  rw [ScopeTree.join_append, Listing.shown, if_neg h]

theorem beforeSeparator?_eq_none (cs : List Char) {name : List Char} (hne : name ≠ [])
    (h : ':' ∉ name) : beforeSeparator? (cs ++ name) = none := by
  rw [beforeSeparator?, List.reverse_append]
  cases hr : name.reverse with
  | nil => exact absurd (List.reverse_eq_nil_iff.1 hr) hne
  | cons c rest =>
    have hc : c ≠ ':' := by
      rintro rfl
      exact h (List.mem_reverse.1 (hr ▸ List.mem_cons_self))
    unfold afterSeparator?
    split
    · next heq => exact absurd (List.cons.inj heq).1 hc
    · rfl

theorem displayed_join (path : List String) {name : String} (h : ':' ∉ name.toList) :
    Builder.displayed (ScopeTree.join (path ++ [name])) = Listing.shown path name := by
  have hjoin : (ScopeTree.join (path ++ [name])).toList =
      (ScopeTree.join path).toList ++ name.toList ++ separator := by
    simp [ScopeTree.toList_join]
  unfold Builder.displayed
  simp only [hjoin, ScopeTree.beforeSeparator?_append, Option.getD_some]
  by_cases hname : name = ""
  · -- what is left of the path is empty or ends with a separator
    have hmissing : (ScopeTree.join path).toList.isEmpty ||
        (beforeSeparator? (ScopeTree.join path).toList).isSome := by
      rcases List.eq_nil_or_concat path with rfl | ⟨front, last, rfl⟩
      · rfl
      · rw [List.concat_eq_append, ScopeTree.toList_join, List.flatMap_append,
          List.flatMap_singleton, ← List.append_assoc, ScopeTree.beforeSeparator?_append]
        simp
    simp [hname, hmissing, Listing.shown, ← ScopeTree.join_append]
  · have hne : name.toList ≠ [] := by simpa using hname
    have hlast := beforeSeparator?_eq_none (ScopeTree.join path).toList hne h
    simp [hne, hlast, ← join_append_eq_shown path hname]

namespace ScopeTree
variable {t : ScopeTree} {l : Listing} {p : ScopeId} {outer : Scope} {path : List String}
  {name : String}

def typedAt (t : ScopeTree) (path : List String) (name : String) : Bool :=
  (t.walk root path).any fun id => t.typed id name

/-- The names that lead to a scope, and the types there, are those of a listing. -/
structure Matches (t : ScopeTree) (l : Listing) : Prop where
  orderly : t.Orderly
  scopes : ∀ path name, (t.walk root (path ++ [name])).isSome ↔ (path, name) ∈ l.scopes
  types : ∀ path name, t.typedAt path name ↔ (path, name) ∈ l.types

theorem Matches.named (h : t.Matches l) (hto : t.walk root path = some p) : t.Named p path :=
  h.orderly.tidy.walk h.orderly.wellFormed.named_root hto

theorem Matches.walk_inj (h : t.Matches l) (hto : t.walk root path = some p) {q : List String}
    {id : ScopeId} (hid : t.walk root q = some id) : id = p ↔ q = path := by
  constructor
  · rintro rfl
    exact (h.named hid).unique (h.named hto)
  · rintro rfl
    exact Option.some.inj (hid.symm.trans hto)

theorem matches_start : start.Matches .empty := by
  have hchild : ∀ id name, start.child? id name = none := by
    intro id name
    cases id <;> simp [child?, start]
  have htyped : ∀ id name, start.typed id name = false := by
    intro id name
    cases id <;> simp [typed, start, NameTable.contains]
  refine ⟨orderly_start, fun path name => ?_, fun path name => ?_⟩
  · simp [walk_append, walk_cons, hchild, Listing.empty]
  · simp [typedAt, htyped, Listing.empty]

theorem Matches.walk_entered (h : t.Matches l) (hp : t.scopes[p]? = some outer)
    (hto : t.walk root path = some p) (name : String) (q : List String) :
    (t.entered p name outer).walk root q =
      if q = path ++ [name] then some t.size else t.walk root q := by
  rw [walk_root_entered h.orderly.wellFormed h.orderly.tidy hp (h.named hto)]
  simp only [hto, and_true]

/-- The new scope has the types of the one that it takes the place of. -/
theorem Matches.typedAt_entered (h : t.Matches l) (hp : t.scopes[p]? = some outer)
    (hto : t.walk root path = some p) (name : String) (q : List String) (n : String) :
    (t.entered p name outer).typedAt q n = (decide (q = path ∧ n = name) || t.typedAt q n) := by
  have hlt := lt_size_of_some hp
  rw [typedAt, h.walk_entered hp hto]
  by_cases hq : q = path ++ [name]
  · subst hq
    have hchild : t.walk root (path ++ [name]) = t.child? p name := by
      simp [walk_append, hto, walk_cons]
    simp [typed_entered hp, typedAt, hchild, Nat.ne_of_gt hlt]
  · rw [if_neg hq, typedAt]
    cases hid : t.walk root q with
    | none =>
      have hne : q ≠ path := fun heq => by simp [heq, hto] at hid
      simp [hne]
    | some id =>
      have hsize : id ≠ t.size := Nat.ne_of_lt (h.named hid).lt_size
      have hiff := h.walk_inj hto hid
      by_cases hpath : q = path
      · simp [typed_entered hp, hiff.2 hpath, hpath]
      · simp [typed_entered hp, mt hiff.1 hpath, hsize, hpath]

theorem Matches.enter (h : t.Matches l) (hp : t.scopes[p]? = some outer)
    (hto : t.walk root path = some p) (hname : Plain name)
    (hlimit : outer.depth + 1 ≤ ScopeError.depthLimit) :
    (t.entered p name outer).Matches (l.enter path name) := by
  refine ⟨h.orderly.grown (.enter .refl hp hname hlimit), fun q n => ?_, fun q n => ?_⟩
  · rw [h.walk_entered hp hto, Listing.enter, List.mem_cons, Prod.mk.injEq, ← h.scopes]
    by_cases hq : q = path ∧ n = name
    · simp [hq]
    · have hne : q ++ [n] ≠ path ++ [name] := 
        fun heq => hq (by simpa using List.append_inj' heq rfl)
      simp [hq, hne]
  · rw [h.typedAt_entered hp hto, Bool.or_eq_true, decide_eq_true_eq, h.types]
    simp [Listing.enter, Listing.declare]

theorem Matches.declare (h : t.Matches l) (hto : t.walk root path = some p) (hname : Plain name) :
    (t.modify p (addType name)).Matches (l.declare path name) := by
  refine ⟨h.orderly.grown (.declare .refl p hname), fun q n => ?_, fun q n => ?_⟩
  · rw [walk_addType]
    exact h.scopes q n
  · have htyped : (t.modify p (addType name)).typedAt q n =
        (decide (q = path ∧ n = name) || t.typedAt q n) := by
      rw [typedAt, typedAt, walk_addType]
      cases hid : t.walk root q with
      | none =>
        have hne : q ≠ path := fun heq => by simp [heq, hto] at hid
        simp [hne]
      | some id => simp [typed_addType (h.named hto).lt_size, h.walk_inj hto hid]
    rw [htyped, Bool.or_eq_true, decide_eq_true_eq, h.types]
    simp [Listing.declare]

theorem declare_of_contains (hp : t.scopes[p]? = some outer) (h : t.Named p path)
    (hname : Plain name) (hold : outer.types.contains name) :
    t.declare p name = .error (.duplicateType name (join path)) := by
  have hcheck : checkName name = .ok () := checkName_eq_ok.2 hname
  simp [ScopeTree.declare, hcheck, get_eq_ok.2 hp, hold, path_of_named h, bind, Except.bind]

/-- Only the members of a listing matter. -/
theorem Matches.congr {l' : Listing} (h : t.Matches l) (hs : ∀ x, x ∈ l'.scopes ↔ x ∈ l.scopes)
    (ht : ∀ x, x ∈ l'.types ↔ x ∈ l.types) : t.Matches l' :=
  ⟨h.orderly, fun q n => (h.scopes q n).trans (hs _).symm,
    fun q n => (h.types q n).trans (ht _).symm⟩

end ScopeTree

namespace Builder
open ScopeTree
variable {b b' inner : Builder} {l : Listing} {path : List String} {name : String}
  {kind : EntryKind} {line : Nat} {scope : ScopeId}

/-- The builder is in the scope that `path` leads to, and the listing has all it knows. -/
structure Agrees (b : Builder) (l : Listing) (path : List String) : Prop where
  tree : b.tree.Matches l
  here : b.tree.walk root path = some b.current
  entries : b.entries.reverse = l.entries

theorem agrees_start : start.Agrees .empty [] := ⟨matches_start, rfl, rfl⟩

theorem Agrees.lt_size (h : b.Agrees l path) : b.current < b.tree.size :=
  (h.tree.named h.here).lt_size

/-- The types of the current scope are those of its path. -/
theorem Agrees.contains_iff (h : b.Agrees l path) {s : Scope}
    (hs : b.tree.scopes[b.current]? = some s) (name : String) :
    s.types.contains name ↔ (path, name) ∈ l.types := by
  rw [← h.tree.types, typedAt, h.here, Option.any_some, typed_of_some hs]

def Keeps (depth : Nat) (b b' : Builder) : Prop :=
  ∀ q : List String, q.length ≤ depth → b'.tree.walk root q = b.tree.walk root q

structure Kept (depth : Nat) (b b' : Builder) : Prop where
  current : b'.current = b.current
  frames : b'.frames = b.frames
  keeps : Keeps depth b b'

theorem Kept.refl (depth : Nat) (b : Builder) : Kept depth b b := ⟨rfl, rfl, fun _ _ => rfl⟩

theorem Kept.trans {depth : Nat} (h : Kept depth b inner) (h' : Kept depth inner b') :
    Kept depth b b' :=
  ⟨h'.current.trans h.current, h'.frames.trans h.frames,
    fun q hq => (h'.keeps q hq).trans (h.keeps q hq)⟩

theorem Agrees.enter (h : b.Agrees l path) (hname : Plain name)
    (hdepth : path.length < ScopeError.depthLimit) :
    ∃ e, b.enter b.current name = .ok e ∧ e.builder.tree.Matches (l.enter path name) ∧
      e.builder.tree.walk root (path ++ [name]) = some e.scope ∧
      (e.reopened ↔ (path, name) ∈ l.scopes) ∧ e.builder.entries = b.entries ∧
      Kept path.length b e.builder := by
  obtain ⟨outer, hp⟩ := exists_of_lt_size h.lt_size
  have hlimit : outer.depth + 1 ≤ ScopeError.depthLimit := by
    rw [← h.tree.orderly.wellFormed.length_of_named hp (h.tree.named h.here)]
    exact hdepth
  obtain ⟨e, he, henters⟩ := exists_enters h.tree.orderly.wellFormed hp hname hlimit
  have hwalk := h.tree.walk_entered hp h.here name
  refine ⟨e, he, ?_, ?_, ?_, henters.entries, henters.current, henters.frames, fun q hq => ?_⟩
  · rw [henters.tree]
    exact h.tree.enter hp h.here hname hlimit
  · rw [henters.tree, hwalk, if_pos rfl, henters.scope]
  · rw [henters.reopened, ← h.tree.scopes]
    simp [walk_append, h.here, walk_cons]
  · have hne : q ≠ path ++ [name] := by
      rintro rfl
      rw [List.length_append] at hq
      exact absurd hq (by simp)
    rw [henters.tree, hwalk, if_neg hne]

theorem recordScope_eq (h : b.tree.Named scope (path ++ [name])) (hname : ':' ∉ name.toList)
    (kind : EntryKind) (line : Nat) : b.recordScope kind scope line =
      .ok (b.record ⟨kind, Listing.shown path name, line⟩) := by
  unfold recordScope
  rw [path_of_named h, ← displayed_join path hname]
  rfl

theorem Agrees.record (h : b.Agrees l path) (kind : EntryKind) (line : Nat) (q : List String)
    (name : String) :
    (b.record ⟨kind, Listing.shown q name, line⟩).Agrees (l.record kind line q name) path :=
  ⟨h.tree.congr (fun _ => .rfl) fun _ => .rfl, h.here, by
    simp [Builder.record, Listing.record, h.entries]⟩

theorem Agrees.enterClass (h : b.Agrees l path) (hname : ':' ∉ name.toList)
    (hdepth : path.length < ScopeError.depthLimit) (kind : EntryKind) (line : Nat) :
    ∃ inner, b.enterClass kind line b.current name = .ok inner ∧
      inner.Agrees ((l.enter path name).record kind line path name) (path ++ [name]) ∧
      inner.frames = b.frames.push (.scope b.current) ∧ Keeps path.length b inner := by
  obtain ⟨e, he, hmatches, hto, -, hentries, hkept⟩ := h.enter (plain_of_not_mem hname) hdepth
  have hrecord := recordScope_eq (hmatches.named hto) hname kind line
  have hinside : Agrees { e.builder with current := e.scope } (l.enter path name)
      (path ++ [name]) :=
    ⟨hmatches, hto, (congrArg List.reverse hentries).trans h.entries⟩
  have hlisted := hinside.record kind line path name
  let listed := e.builder.record ⟨kind, Listing.shown path name, line⟩
  have hok : b.enterClass kind line b.current name = .ok
      { listed with frames := listed.frames.push (.scope b.current), current := e.scope } := by
    unfold Builder.enterClass
    rw [he]
    simp only [bind, Except.bind, hrecord]
    rfl
  exact ⟨_, hok, ⟨hlisted.tree, hlisted.here, hlisted.entries⟩,
    congrArg (Frames.push · (.scope b.current)) hkept.frames, hkept.keeps⟩

/-- The parts of a namespace's name are entered, and listed if they are new. -/
theorem Agrees.enterAll {names : List String} (h : b.Agrees l path)
    (hnames : ∀ name ∈ names, ':' ∉ name.toList)
    (hdepth : path.length + names.length ≤ ScopeError.depthLimit) (line : Nat) :
    ∃ inner, b.enterAll line names = .ok inner ∧
      inner.Agrees (l.enterAll line path names) (path ++ names) ∧ inner.frames = b.frames ∧
      Keeps path.length b inner := by
  induction names generalizing b l path with
  | nil => exact ⟨b, rfl, by simpa [Listing.enterAll] using h, rfl, fun _ _ => rfl⟩
  | cons name names ih =>
    have hname := hnames name List.mem_cons_self
    rw [List.length_cons] at hdepth
    obtain ⟨e, he, hmatches, hto, hreopened, hentries, hkept⟩ :=
      h.enter (plain_of_not_mem hname) (by omega)
    have hinside : Agrees { e.builder with current := e.scope } (l.enter path name)
        (path ++ [name]) :=
      ⟨hmatches, hto, (congrArg List.reverse hentries).trans h.entries⟩
    -- the part that was entered is listed unless it was there before
    obtain ⟨listed, hlisted, hagrees, hframes, htree⟩ : ∃ listed, e.listed line = .ok listed ∧
        Agrees { listed with current := e.scope }
          ((if (path, name) ∈ l.scopes then l else l.record .namespaceDef line path name).enter
            path name) (path ++ [name]) ∧
        listed.frames = e.builder.frames ∧ listed.tree = e.builder.tree := by
      unfold Entered.listed
      by_cases hold : (path, name) ∈ l.scopes
      · simp only [if_pos hold, if_pos (hreopened.2 hold)]
        exact ⟨_, rfl, hinside, rfl, rfl⟩
      · simp only [if_neg hold, if_neg (mt hreopened.1 hold)]
        exact ⟨_, recordScope_eq (hmatches.named hto) hname _ line,
          hinside.record .namespaceDef line path name, rfl, rfl⟩
    obtain ⟨inner, hinner, hin, hframes', hkeeps⟩ := ih hagrees
      (fun n hn => hnames n (List.mem_cons_of_mem _ hn)) (by simp; omega)
    refine ⟨inner, enterAll_cons_eq_ok.2 ⟨e, listed, he, hlisted, hinner⟩, ?_, ?_, ?_⟩
    · rw [List.append_cons]
      exact hin
    · rw [hframes', hframes, hkept.frames]
    · intro q hq
      rw [hkeeps q (by simp; omega), htree]
      exact hkept.keeps q hq

theorem Agrees.forward (h : b.Agrees l path) (hname : Plain name)
    (hdepth : path.length < ScopeError.depthLimit) :
    ∃ b', b.forward b.current name = .ok b' ∧ b'.Agrees (l.enter path name) path ∧
      Kept path.length b b' := by
  obtain ⟨s, hs⟩ := exists_of_lt_size h.lt_size
  have hchild : b.tree.child b.current name = .ok (s.children.get? name) :=
    map_eq_ok.2 ⟨s, get_eq_ok.2 hs, rfl⟩
  unfold Builder.forward
  rw [hchild]
  cases hold : s.children.get? name with
  | some old =>
    have hscope : (path, name) ∈ l.scopes := by
      rw [← h.tree.scopes]
      simp [walk_append, h.here, walk_cons, child?_of_some hs, hold]
    have htype : (path, name) ∈ l.types := (h.contains_iff hs name).1
      ((h.tree.orderly.wellFormed.sound _ s hs).children name old hold).1
    refine ⟨b, rfl, ⟨h.tree.congr (fun x => ?_) fun x => ?_, h.here, h.entries⟩, .refl _ b⟩
    · exact List.mem_cons.trans (or_iff_right_of_imp fun hx => hx ▸ hscope)
    · exact List.mem_cons.trans (or_iff_right_of_imp fun hx => hx ▸ htype)
  | none =>
    obtain ⟨e, he, hmatches, -, -, hentries, hkept⟩ := h.enter hname hdepth
    have hhere : e.builder.tree.walk root path = some e.builder.current := by
      rw [hkept.keeps path (Nat.le_refl _), hkept.current]
      exact h.here
    refine ⟨e.builder, ?_, ⟨hmatches, hhere, (congrArg List.reverse hentries).trans h.entries⟩,
      hkept⟩
    simp only [bind, Except.bind, lift, he]
    rfl

theorem Agrees.declareType (h : b.Agrees l path) (hname : Plain name) :
    ∃ b', b.declareType name = .ok b' ∧ b'.Agrees (l.declare path name) path ∧
      Kept path.length b b' := by
  obtain ⟨s, hs⟩ := exists_of_lt_size h.lt_size
  unfold Builder.declareType
  by_cases hold : s.types.contains name
  · have hdeclare := declare_of_contains hs (h.tree.named h.here) hname hold
    have hhalts : (ScopeError.duplicateType name (join path)).code.halts = false := rfl
    rw [hdeclare]
    simp only [hhalts]
    refine ⟨_, rfl, ⟨h.tree.congr (fun _ => .rfl) fun x => ?_, h.here, h.entries⟩,
      rfl, rfl, fun _ _ => rfl⟩
    exact List.mem_cons.trans (or_iff_right_of_imp fun hx => hx ▸ (h.contains_iff hs name).1 hold)
  · have hdeclare : b.tree.declare b.current name =
        .ok (b.tree.modify b.current (addType name)) :=
      declare_eq_ok.2 ⟨hname, s, hs, by simpa using hold, rfl⟩
    rw [hdeclare]
    exact ⟨_, rfl, ⟨h.tree.declare h.here hname, (walk_addType _ _ _ _ _).trans h.here, h.entries⟩,
      rfl, rfl, fun q _ => walk_addType _ _ _ _ q⟩

theorem Agrees.recordType (h : b.Agrees l path) (hname : ':' ∉ name.toList) (hne : name ≠ "")
    (kind : EntryKind) (line : Nat) :
    ∃ b', b.recordType kind name line = .ok b' ∧
      b'.Agrees ((l.declare path name).record kind line path name) path ∧
      Kept path.length b b' := by
  have hplain := plain_of_not_mem hname
  obtain ⟨declared, hdeclared, hagrees, hkept⟩ := h.declareType hplain
  have hresolve : declared.tree.resolve declared.current name =
      .ok (Listing.shown path name) := by
    rw [resolve_of_not_mem (hagrees.tree.named hagrees.here) hname, join_append_eq_shown path hne]
  refine ⟨_, ?_, hagrees.record kind line path name, hkept.trans ⟨rfl, rfl, fun _ _ => rfl⟩⟩
  unfold Builder.recordType
  simp only [hdeclared, hresolve, bind, Except.bind, lift]
  rfl

/-- An enumeration is listed unless its name is a type. -/
theorem Agrees.enumerate (h : b.Agrees l path) (hname : ':' ∉ name.toList) (hne : name ≠ "")
    (line : Nat) :
    ∃ known b', b.tree.hasType b.current name = .ok known ∧
      (if known then .ok b else b.recordType .enumDef name line) = .ok b' ∧
      b'.Agrees (if (path, name) ∈ l.types then l
        else (l.declare path name).record .enumDef line path name) path ∧
      Kept path.length b b' := by
  obtain ⟨s, hs⟩ := exists_of_lt_size h.lt_size
  have hknown : b.tree.hasType b.current name = .ok (s.types.contains name) :=
    map_eq_ok.2 ⟨s, get_eq_ok.2 hs, rfl⟩
  by_cases hold : (path, name) ∈ l.types
  · have hcontains := (h.contains_iff hs name).2 hold
    refine ⟨_, b, hknown, if_pos hcontains, ?_, .refl _ b⟩
    rwa [if_pos hold]
  · have hcontains := mt (h.contains_iff hs name).1 hold
    obtain ⟨b', hrecord, hagrees, hkept⟩ := h.recordType hname hne .enumDef line
    refine ⟨_, b', hknown, (if_neg hcontains).trans hrecord, ?_, hkept⟩
    rwa [if_neg hold]

theorem Agrees.closeBrace {q : List String} {l₀ : Listing} (h : inner.Agrees l q)
    (hb : b.Agrees l₀ path) (hframes : inner.frames = b.frames.push (.scope b.current))
    (hkeeps : Keeps path.length b inner) (t : Token) :
    (inner.closeBrace t).Agrees l path ∧ Kept path.length b (inner.closeBrace t) := by
  have hclose : inner.closeBrace t = { inner with current := b.current, frames := b.frames } := by
    unfold Builder.closeBrace
    rw [hframes]
    rfl
  rw [hclose]
  exact ⟨⟨h.tree, (hkeeps path (Nat.le_refl _)).trans hb.here, h.entries⟩, rfl, rfl, hkeeps⟩

end Builder
end SourceOutline
