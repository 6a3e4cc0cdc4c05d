import SourceOutline.Outline
import SourceOutline.Proofs.LiveScopes

/-! What an outline does to its builder at a declaration.
The tree only grows, by scopes that are entered and types that are declared. The open braces and the
current scope change where a scope is entered. -/
namespace SourceOutline

theorem ScopeTree.modify_push (t : ScopeTree) (s : Scope) (f : Scope → Scope) :
    (t.push s).modify t.size f = t.push (f s) := by
  have harray : ((t.push s).modify t.size f).scopes = (t.push (f s)).scopes := by
    refine Array.ext_getElem? fun i => ?_
    rw [getElem?_modify, getElem?_push, getElem?_push]
    by_cases hi : i = t.size
    · simp [hi]
    · simp [hi, Ne.symm hi]
  exact congrArg ScopeTree.mk harray

namespace Builder
open ScopeTree QualifiedName
variable {b b' inner : Builder} {p : ScopeId} {name : String} {outer : Scope} {c d : Cursor}
  {before : Option Token} {t : Token} {kind : EntryKind} {line : Nat}

theorem lift_eq_ok {α : Type} {r : Except ScopeError α} {a : α} :
    b.lift name r = .ok a ↔ r = .ok a := by
  unfold lift
  split <;> simp

structure Enters (b : Builder) (p : ScopeId) (name : String) (outer : Scope) (e : Entered) :
    Prop where
  found : b.tree.scopes[p]? = some outer
  plain : Plain name
  limit : outer.depth + 1 ≤ ScopeError.depthLimit
  tree : e.builder.tree = b.tree.entered p name outer
  scope : e.scope = b.tree.size
  reopened : e.reopened = (b.tree.child? p name).isSome
  current : e.builder.current = b.current
  frames : e.builder.frames = b.frames
  entries : e.builder.entries = b.entries

theorem enter_eq_ok {e : Entered} :
    b.enter p name = .ok e ↔
      ∃ prior opened id seeded tree, b.tree.child p name = .ok prior ∧
        b.tree.openScope p name = .ok (opened, id) ∧
        (∀ old, prior = some old → opened.extend id old = .ok seeded) ∧
        (prior = none → seeded = opened) ∧ seeded.declareScope p name id = .ok tree ∧
        e = ⟨{ b.log (opened.openedEvents id) with tree := tree }, id, prior.isSome⟩ := by
  unfold enter
  simp only [bind_eq_ok, lift_eq_ok]
  constructor
  · rintro ⟨prior, hprior, ⟨opened, id⟩, hopened, h⟩
    cases prior with
    | none =>
      obtain ⟨seeded, hseeded, tree, htree, he⟩ := by simpa only [bind_eq_ok, lift_eq_ok] using h
      cases hseeded
      cases he
      exact ⟨none, opened, id, opened, tree, hprior, hopened, by simp, by simp, htree, rfl⟩
    | some old =>
      obtain ⟨seeded, hseeded, tree, htree, he⟩ := by simpa only [bind_eq_ok, lift_eq_ok] using h
      cases he
      exact ⟨some old, opened, id, seeded, tree, hprior, hopened, by simp [hseeded], by simp,
        htree, rfl⟩
  · rintro ⟨prior, opened, id, seeded, tree, hprior, hopened, hsome, hnone, htree, rfl⟩
    refine ⟨prior, hprior, (opened, id), hopened, ?_⟩
    cases prior with
    | none =>
      cases hnone rfl
      simp only [bind_eq_ok, lift_eq_ok]
      exact ⟨opened, rfl, tree, htree, rfl⟩
    | some old =>
      simp only [bind_eq_ok, lift_eq_ok]
      exact ⟨seeded, hsome old rfl, tree, htree, rfl⟩

theorem enters_of_enter {e : Entered} (h : b.enter p name = .ok e) :
    ∃ outer, Enters b p name outer e := by
  obtain ⟨prior, opened, id, seeded, tree, hprior, hopened, hsome, hnone, htree, rfl⟩ :=
    enter_eq_ok.1 h
  obtain ⟨hname, outer, hp, hlimit, rfl, rfl⟩ := openScope_eq_ok.1 hopened
  obtain ⟨s, hs, rfl⟩ := map_eq_ok.1 hprior
  cases Option.some.inj (hp.symm.trans (get_eq_ok.1 hs))
  obtain ⟨-, -, -, rfl⟩ := declareScope_eq_ok.1 htree
  have hpush : seeded = b.tree.push (b.tree.seeded p name outer) := by
    unfold ScopeTree.seeded
    cases hold : outer.children.get? name with
    | none => exact hnone hold
    | some old =>
      rcases extend_eq_ok.1 (hsome old hold) with ⟨rfl, rfl⟩ | ⟨hne, source, -, hsource, -, rfl⟩
      · simp [size]
      · rw [getElem?_push, if_neg (Ne.symm hne)] at hsource
        simp only [Option.bind_some, hsource]
        exact modify_push _ _ _
  refine ⟨outer, hp, hname, hlimit, ?_, rfl, ?_, rfl, rfl, rfl⟩
  · exact congrArg (fun u => u.modify p (addChild name b.tree.size)) hpush
  · rw [child?_of_some hp]

/-- Nothing but the depth can keep a plain name from being entered. -/
theorem exists_enters (hw : b.tree.WellFormed) (hp : b.tree.scopes[p]? = some outer)
    (hname : Plain name) (hlimit : outer.depth + 1 ≤ ScopeError.depthLimit) :
    ∃ e, b.enter p name = .ok e ∧ Enters b p name outer e := by
  suffices hok : ∃ e, b.enter p name = .ok e by
    obtain ⟨e, he⟩ := hok
    obtain ⟨outer', henters⟩ := enters_of_enter he
    cases Option.some.inj (hp.symm.trans henters.found)
    exact ⟨e, he, henters⟩
  have hpush : ∀ (i : ScopeId) (s fresh : Scope), b.tree.scopes[i]? = some s →
      (b.tree.push fresh).scopes[i]? = some s := by
    intro i s fresh hs
    rw [getElem?_push, if_neg (Nat.ne_of_lt (lt_size_of_some hs)), hs]
  have hprior : b.tree.child p name = .ok (outer.children.get? name) :=
    map_eq_ok.2 ⟨outer, get_eq_ok.2 hp, rfl⟩
  have hopened := openScope_eq_ok.2 ⟨hname, outer, hp, hlimit, rfl, rfl⟩
  cases hold : outer.children.get? name with
  | none =>
    rw [hold] at hprior
    exact ⟨_, enter_eq_ok.2 ⟨none, _, _, _, _, hprior, hopened, by simp, fun _ => rfl,
      declareScope_eq_ok.2 ⟨hname, outer, hpush _ _ _ hp, rfl⟩, rfl⟩⟩
  | some old =>
    rw [hold] at hprior
    have hlt := ((hw.sound p outer hp).children name old hold).2
    obtain ⟨source, hsource⟩ := exists_of_lt_size hlt
    have hextend : ∀ fresh, (b.tree.push fresh).extend b.tree.size old =
        .ok (b.tree.push (takeOver source fresh)) := by
      intro fresh
      rw [← modify_push]
      exact extend_eq_ok.2 (.inr ⟨Nat.ne_of_gt hlt, source, fresh, hpush _ _ _ hsource,
        by rw [getElem?_push, if_pos rfl], rfl⟩)
    exact ⟨_, enter_eq_ok.2 ⟨some old, _, _, _, _, hprior, hopened,
      fun o ho => by cases ho; exact hextend _, by simp,
      declareScope_eq_ok.2 ⟨hname, outer, hpush _ _ _ hp, rfl⟩, rfl⟩⟩

/-- The builder is at the same place and its tree has grown. -/
structure Stays (b b' : Builder) : Prop where
  current : b'.current = b.current
  frames : b'.frames = b.frames
  grown : b.tree.Grown b'.tree

theorem Stays.refl (b : Builder) : Stays b b := ⟨rfl, rfl, .refl⟩

theorem Stays.trans (h : Stays b inner) (h' : Stays inner b') : Stays b b' :=
  ⟨h'.current.trans h.current, h'.frames.trans h.frames, h.grown.trans h'.grown⟩

theorem stays_log (b : Builder) (events : List Event) : Stays b (b.log events) :=
  ⟨rfl, rfl, .refl⟩

theorem stays_record (b : Builder) (entry : Entry) : Stays b (b.record entry) :=
  ⟨rfl, rfl, .refl⟩

theorem Enters.stays {e : Entered} (h : Enters b p name outer e) : Stays b e.builder :=
  ⟨h.current, h.frames, h.tree ▸ .enter .refl h.found h.plain h.limit⟩

theorem stays_recordScope {scope : ScopeId} (h : b.recordScope kind scope line = .ok b') :
    Stays b b' := by
  obtain ⟨path, -, h⟩ := bind_eq_ok.1 h
  cases h
  exact stays_record _ _

theorem stays_declareType (h : b.declareType name = .ok b') : Stays b b' := by
  unfold declareType at h
  split at h
  · next tree hd =>
    cases h
    obtain ⟨hname, -, -, -, rfl⟩ := declare_eq_ok.1 hd
    exact ⟨rfl, rfl, .declare .refl _ hname⟩
  · split at h
    · cases h
    · cases h
      exact stays_log _ _

theorem stays_recordType (h : b.recordType kind name line = .ok b') : Stays b b' := by
  obtain ⟨inner, hinner, h⟩ := bind_eq_ok.1 h
  obtain ⟨full, -, h⟩ := bind_eq_ok.1 h
  cases h
  exact (stays_declareType hinner).trans (stays_record _ _)

theorem stays_recordAll {names : List String} (h : b.recordAll line names = .ok b') :
    Stays b b' := by
  induction names generalizing b with
  | nil =>
    cases h
    exact .refl _
  | cons name names ih =>
    obtain ⟨inner, hinner, h⟩ := bind_eq_ok.1 h
    exact (stays_recordType hinner).trans (ih h)

theorem stays_forward (h : b.forward p name = .ok b') : Stays b b' := by
  obtain ⟨child, -, h⟩ := bind_eq_ok.1 h
  cases child with
  | some child =>
    cases h
    exact .refl b
  | none =>
    obtain ⟨e, he, h⟩ := bind_eq_ok.1 h
    cases h
    obtain ⟨outer, henters⟩ := enters_of_enter he
    exact henters.stays

def Entered.listed (e : Entered) (line : Nat) : Except Halted Builder :=
  if e.reopened then .ok e.builder else e.builder.recordScope .namespaceDef e.scope line

theorem enterAll_cons_eq_ok {names : List String} :
    b.enterAll line (name :: names) = .ok b' ↔
      ∃ e inner, b.enter b.current name = .ok e ∧ e.listed line = .ok inner ∧
        enterAll { inner with current := e.scope } line names = .ok b' := by
  rw [enterAll, bind_eq_ok]
  refine exists_congr fun e => ?_
  unfold Entered.listed
  split
  · simp [bind, Except.bind, pure, Except.pure]
  · simp only [bind_eq_ok, exists_and_left]

theorem stays_listed {e : Entered} (h : e.listed line = .ok b') : Stays e.builder b' := by
  unfold Entered.listed at h
  split at h
  · cases h
    exact .refl _
  · exact stays_recordScope h

theorem enterAll_spec {names : List String} (h : b.enterAll line names = .ok b') :
    b'.frames = b.frames ∧ b.tree.Grown b'.tree := by
  induction names generalizing b with
  | nil =>
    cases h
    exact ⟨rfl, .refl⟩
  | cons name names ih =>
    obtain ⟨e, inner, he, hlisted, h⟩ := enterAll_cons_eq_ok.1 h
    obtain ⟨outer, henters⟩ := enters_of_enter he
    have hstays := henters.stays.trans (stays_listed hlisted)
    obtain ⟨hframes, hgrown⟩ := ih h
    exact ⟨hframes.trans hstays.frames, hstays.grown.trans hgrown⟩

/-- A class is entered at its brace, which is to lead back to the scope around it. -/
theorem enterClass_spec (h : b.enterClass kind line p name = .ok b') :
    b'.frames = b.frames.push (.scope b.current) ∧ b.tree.Grown b'.tree := by
  obtain ⟨e, he, h⟩ := bind_eq_ok.1 h
  obtain ⟨inner, hinner, h⟩ := bind_eq_ok.1 h
  cases h
  obtain ⟨outer, henters⟩ := enters_of_enter he
  have hstays := henters.stays.trans (stays_recordScope hinner)
  exact ⟨congrArg (Frames.push · _) hstays.frames, hstays.grown⟩

theorem tree_passToken (b : Builder) (t : Token) : (b.passToken t).tree = b.tree := by
  unfold passToken openBrace closeBrace log
  split
  · rfl
  · split
    · split <;> rfl
    · rfl

end Builder
end SourceOutline
