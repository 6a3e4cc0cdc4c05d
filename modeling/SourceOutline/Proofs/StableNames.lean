import SourceOutline.Proofs.Paths

/-! Names that are resolved to themselves.
Where each scope is a child of its parent under its own name, the path of a scope leads to the scope
from anywhere. A full name is then a path and a last segment, or a path with a qualifier behind it that
leads nowhere, and both are found again from the root. -/
namespace SourceOutline

namespace QualifiedName

def Segment (name : String) : Prop := name ≠ "" ∧ ':' ∉ name.toList

instance decidableSegment (name : String) : Decidable (Segment name) :=
  inferInstanceAs (Decidable (_ ∧ _))

theorem cutLast?_append (front : List Char) {back : List Char} (h : ':' ∉ back) :
    cutLast? (front ++ separator ++ back) = some (front, back) := by
  have hcut : Text.cutAt? separator (back.reverse ++ separator ++ front.reverse) =
      some (back.reverse, front.reverse) := cutFirst?_append (by simpa using h) front.reverse
  have hreverse : (front ++ separator ++ back).reverse =
      back.reverse ++ separator ++ front.reverse := by
    simp [separator]
  rw [cutLast?, hreverse, hcut]
  simp

theorem afterSeparator?_of_head {cs : List Char} (h : cs.head? ≠ some ':') :
    afterSeparator? cs = none := by
  unfold afterSeparator?
  split
  · simp at h
  · rfl

theorem toList_intercalate_separator (names : List String) :
    ("::".intercalate names).toList = separator.intercalate (names.map String.toList) :=
  String.toList_intercalate

theorem head?_intercalate {names : List String} (hne : names ≠ [])
    (h : ∀ name ∈ names, Segment name) : ∃ c, ("::".intercalate names).toList.head? = some c ∧
      c ≠ ':' := by
  cases names with
  | nil => exact absurd rfl hne
  | cons name names =>
    obtain ⟨hname, hcolon⟩ := h name List.mem_cons_self
    cases hcs : name.toList with
    | nil => exact absurd (String.toList_eq_nil_iff.1 hcs) hname
    | cons c cs =>
      refine ⟨c, ?_, fun hc => hcolon (by simp [hcs, hc])⟩
      rw [toList_intercalate_separator]
      cases names with
      | nil => simp [hcs]
      | cons next names => simp [List.intercalate_cons_cons, hcs]

end QualifiedName

namespace ScopeTree
open QualifiedName
variable {t : ScopeTree} {id s c f : ScopeId} {name last : String} {names front q : List String}

/-- Looks up names one after the other, each from the scope found last. -/
def follow (t : ScopeTree) : ScopeId → List String → Except ScopeError (Option ScopeId)
  | id, [] => .ok (some id)
  | id, name :: names =>
    match t.lookup id name with
    | .error e => .error e
    | .ok none => .ok none
    | .ok (some found) => follow t found names

@[simp] theorem follow_nil (t : ScopeTree) (id : ScopeId) : t.follow id [] = .ok (some id) := rfl

theorem follow_of_lookup (h : t.lookup id name = .ok (some c)) (names : List String) :
    t.follow id (name :: names) = t.follow c names := by
  simp [follow, h]

theorem follow_singleton (t : ScopeTree) (id : ScopeId) (name : String) :
    t.follow id [name] = t.lookup id name := by
  rcases h : t.lookup id name with e | _ | found <;> simp [follow, h]

theorem lookup_of_child? (h : t.child? id name = some c) : t.lookup id name = .ok (some c) := by
  obtain ⟨s, hs, hc⟩ := Option.bind_eq_some_iff.1 h
  exact lookup_child hs hc

/-- A child is found before anything further out. -/
theorem follow_of_walk (h : t.walk id front = some c) (names : List String) :
    t.follow id (front ++ names) = t.follow c names := by
  induction front generalizing id with
  | nil =>
    cases h
    rfl
  | cons name front ih =>
    obtain ⟨mid, hmid, hw⟩ := Option.bind_eq_some_iff.1 h
    rw [List.cons_append, follow_of_lookup (lookup_of_child? hmid), ih hw]

theorem WellFormed.follow_ok (h : t.WellFormed) (hid : id < t.size) (names : List String) :
    ∃ found, t.follow id names = .ok found ∧ ∀ c ∈ found, c < t.size := by
  induction names generalizing id with
  | nil => exact ⟨some id, rfl, by simpa using hid⟩
  | cons name names ih =>
    obtain ⟨found, hfound, hlt⟩ := h.lookup_ok hid name
    cases found with
    | none => exact ⟨none, by simp [follow, hfound], by simp⟩
    | some c =>
      rw [follow_of_lookup hfound]
      exact ih (hlt c rfl)

def andThen (r : Except ScopeError (Option ScopeId))
    (next : ScopeId → Except ScopeError (Option ScopeId)) : Except ScopeError (Option ScopeId) :=
  match r with
  | .error e => .error e
  | .ok none => .ok none
  | .ok (some found) => next found

theorem findFrom_plain {cs : List Char} (h : cutFirst? cs = none) (id : ScopeId) :
    t.findFrom id cs = t.lookup id (String.ofList cs) := by
  rw [findFrom]
  split
  · rfl
  · next hcut => rw [h] at hcut; cases hcut

theorem findFrom_cut {cs first rest : List Char} (h : cutFirst? cs = some (first, rest))
    (id : ScopeId) :
    t.findFrom id cs = andThen (t.lookup id (String.ofList first)) (t.findFrom · rest) := by
  rw [findFrom]
  split
  · next hcut => rw [h] at hcut; cases hcut
  · next hcut =>
    rw [h] at hcut
    cases hcut
    rfl

/-- A text is cut into the names that it is made of. -/
theorem findFrom_intercalate (hne : names ≠ []) (h : ∀ name ∈ names, ':' ∉ name.toList)
    (id : ScopeId) : t.findFrom id ("::".intercalate names).toList = t.follow id names := by
  rw [toList_intercalate_separator]
  induction names generalizing id with
  | nil => exact absurd rfl hne
  | cons name names ih =>
    have hname := h name List.mem_cons_self
    cases names with
    | nil =>
      rw [List.map_singleton, List.intercalate_singleton,
        findFrom_plain (cutFirst?_eq_none hname), String.ofList_toList, follow_singleton]
    | cons next names =>
      have hcut := cutFirst?_append hname (separator.intercalate ((next :: names).map String.toList))
      have hrest := ih (List.cons_ne_nil _ _) fun n hn => h n (List.mem_cons_of_mem name hn)
      rw [List.map_cons, List.map_cons, List.intercalate_cons_cons, ← List.map_cons,
        findFrom_cut hcut, follow, String.ofList_toList]
      rcases t.lookup id name with e | _ | found
      · rfl
      · rfl
      · exact hrest found

theorem find_intercalate (hne : names ≠ []) (h : ∀ name ∈ names, Segment name) (id : ScopeId) :
    t.find id ("::".intercalate names) = t.follow id names := by
  obtain ⟨c, hc, hcolon⟩ := head?_intercalate hne h
  have hafter : afterSeparator? ("::".intercalate names).toList = none :=
    afterSeparator?_of_head (by rw [hc]; simpa using hcolon)
  rw [find, hafter]
  exact findFrom_intercalate hne (fun name hn => (h name hn).2) id

theorem find_separator (hne : names ≠ []) (h : ∀ name ∈ names, ':' ∉ name.toList) (id : ScopeId) :
    t.find id ("::" ++ "::".intercalate names) = t.follow root names := by
  have hafter : afterSeparator? ("::" ++ "::".intercalate names).toList =
      some ("::".intercalate names).toList := by
    simp [afterSeparator?]
  rw [find, hafter]
  exact findFrom_intercalate hne h root

theorem join_of_ne_nil (h : names ≠ []) : join names = "::".intercalate names ++ "::" := by
  obtain ⟨front, last, rfl⟩ := (List.eq_nil_or_concat names).resolve_left h
  rw [List.concat_eq_append, ← join_append]
  apply String.toList_inj.1
  simp [toList_join, separator]

theorem resolution_join (hq : ∀ name ∈ q, Segment name) (hlast : ':' ∉ last.toList) (hne : q ≠ [])
    (s : ScopeId) :
    t.resolution s (join q ++ last) =
      match t.follow s q with
      | .error e => .error e
      | .ok (some f) => (t.path f).map fun path => ⟨path ++ last, true⟩
      | .ok none => (t.path s).map fun path => ⟨path ++ (join q ++ last), false⟩ := by
  obtain ⟨c, hc, -⟩ := head?_intercalate hne hq
  have hstem : ("::".intercalate q).toList.isEmpty = false := by
    cases hcs : ("::".intercalate q).toList with
    | nil => rw [hcs] at hc; cases hc
    | cons d ds => rfl
  have hcut : cutLast? (join q ++ last).toList = some (("::".intercalate q).toList, last.toList) := by
    rw [join_of_ne_nil hne, String.toList_append, String.toList_append]
    exact cutLast?_append _ hlast
  rw [resolution, hcut]
  simp only [hstem, Bool.false_eq_true, if_false, String.ofList_toList, find_intercalate hne hq]
  rcases t.follow s q with e | _ | f <;> rfl

/-- The qualifier leads to a scope, whose path takes its place. -/
theorem resolve_of_follow (hq : ∀ name ∈ q, Segment name) (hlast : ':' ∉ last.toList)
    (hf : t.follow s q = .ok (some f)) (hnamed : t.Named f names) :
    t.resolve s (join q ++ last) = .ok (join names ++ last) := by
  cases q with
  | nil =>
    cases hf
    simpa [join] using resolve_of_not_mem hnamed hlast
  | cons name q =>
    rw [resolve, resolution_join hq hlast (List.cons_ne_nil _ _), hf]
    simp [path_of_named hnamed, Except.map]

/-- The qualifier leads nowhere and stays behind the path of the scope. -/
theorem resolve_of_lost (hq : ∀ name ∈ q, Segment name) (hlast : ':' ∉ last.toList)
    (hf : t.follow s q = .ok none) (hnamed : t.Named s names) :
    t.resolve s (join q ++ last) = .ok (join (names ++ q) ++ last) := by
  cases q with
  | nil => cases hf
  | cons name q =>
    have hjoin : join (names ++ name :: q) = join names ++ join (name :: q) := by
      apply String.toList_inj.1
      simp [toList_join]
    rw [resolve, resolution_join hq hlast (List.cons_ne_nil _ _), hf, hjoin, String.append_assoc]
    simp [path_of_named hnamed, Except.map]

/-- Each scope but the root has a name of its own and is the child of its parent under it. What else is
listed as a child does not matter. -/
def Listed (t : ScopeTree) : Prop :=
  ∀ id < t.size, ∀ s ∈ t.scopes[id]?, id ≠ root →
    Segment s.name ∧ ∀ p ∈ s.parent, t.child? p s.name = some id

instance decidableListed (t : ScopeTree) : Decidable t.Listed :=
  inferInstanceAs (Decidable (∀ id < t.size, _))

theorem Listed.named (hl : t.Listed) (h : t.WellFormed) (hid : id < t.size)
    (hnamed : t.Named id names) :
    (∀ name ∈ names, Segment name) ∧ t.walk root names = some id := by
  induction id, hid using h.climb generalizing names with
  | top =>
    rw [hnamed.unique h.named_root]
    exact ⟨by simp, rfl⟩
  | step id s p outer hs hn ih =>
    have hne : id ≠ root := Nat.ne_of_gt (Nat.lt_of_le_of_lt (Nat.zero_le p) hn.lt)
    obtain ⟨hname, hchild⟩ := hl id (lt_size_of_some hs) s hs hne
    obtain ⟨front, hfront⟩ := h.exists_named (lt_size_of_some hn.found)
    obtain ⟨hsegments, hwalk⟩ := ih hfront
    rw [hnamed.unique (hn.named hs hfront)]
    refine ⟨?_, ?_⟩
    · intro n hmem
      rcases List.mem_append.1 hmem with hmem | hmem
      · exact hsegments n hmem
      · rw [List.mem_singleton.1 hmem]
        exact hname
    · simp [walk_append, hwalk, walk_cons, hchild p hn.parent]

/-- The names of a scope lead from the root to the scope, and on from there. -/
theorem Listed.follow (hl : t.Listed) (h : t.WellFormed) (hnamed : t.Named id names)
    (q : List String) : t.follow root (names ++ q) = t.follow id q :=
  follow_of_walk (hl.named h hnamed.lt_size hnamed).2 q

theorem Listed.find_path (hl : t.Listed) (h : t.WellFormed) (hid : id < t.size) (hne : id ≠ root)
    (c : ScopeId) : ∃ stem, t.path id = .ok (stem ++ "::") ∧ t.find c ("::" ++ stem) = .ok (some id) := by
  obtain ⟨names, hnamed⟩ := h.exists_named hid
  obtain ⟨hsegments, hwalk⟩ := hl.named h hid hnamed
  have hnames : names ≠ [] := by
    rintro rfl
    exact hne (Option.some.inj hwalk).symm
  refine ⟨"::".intercalate names, ?_, ?_⟩
  · rw [path_of_named hnamed, join_of_ne_nil hnames]
  · rw [find_separator hnames fun name hn => (hsegments name hn).2]
    simpa using hl.follow h hnamed []

theorem Listed.resolve_resolve (hl : t.Listed) (h : t.WellFormed) (hid : s < t.size)
    (hq : ∀ name ∈ q, Segment name) (hlast : ':' ∉ last.toList) :
    ∃ full, t.resolve s (join q ++ last) = .ok full ∧ t.resolve root full = .ok full := by
  obtain ⟨names, hnamed⟩ := h.exists_named hid
  obtain ⟨hsegments, -⟩ := hl.named h hid hnamed
  obtain ⟨found, hfound, hlt⟩ := h.follow_ok hid q
  cases found with
  | some f =>
    obtain ⟨fnames, hfnamed⟩ := h.exists_named (hlt f rfl)
    refine ⟨join fnames ++ last, resolve_of_follow hq hlast hfound hfnamed, ?_⟩
    have hback : t.follow root fnames = .ok (some f) := by
      simpa using hl.follow h hfnamed []
    exact resolve_of_follow (hl.named h (hlt f rfl) hfnamed).1 hlast hback hfnamed
  | none =>
    refine ⟨join (names ++ q) ++ last, resolve_of_lost hq hlast hfound hnamed, ?_⟩
    have hall : ∀ name ∈ names ++ q, Segment name := by
      intro name hmem
      exact (List.mem_append.1 hmem).elim (hsegments name) (hq name)
    have hback : t.follow root (names ++ q) = .ok none := by
      rw [hl.follow h hnamed, hfound]
    simpa using resolve_of_lost hall hlast hback h.named_root

/-- In a tree where each scope is listed under its own name, the path of a scope leads to it from
everywhere, and full names are resolved to themselves, whether or not their qualifiers lead anywhere. -/
theorem full_names_stable {ops : List Operation} (h : Issued start ops)
    (hl : (start.applyAll ops).Listed) :
    let t := start.applyAll ops
    (∀ s < t.size, s ≠ root → ∀ c, ∃ stem, t.path s = .ok (stem ++ "::") ∧
      t.find c ("::" ++ stem) = .ok (some s)) ∧
    ∀ s < t.size, ∀ segments : List String, segments ≠ [] → (∀ name ∈ segments, Segment name) →
      ∃ full, t.resolve s ("::".intercalate segments) = .ok full ∧ t.resolve root full = .ok full := by
  intro t
  have hw : t.WellFormed := wellFormed_start.applyAll h
  refine ⟨fun s hs hne c => hl.find_path hw hs hne c, ?_⟩
  intro s hs segments hne hsegments
  obtain ⟨q, last, rfl⟩ := (List.eq_nil_or_concat segments).resolve_left hne
  rw [List.concat_eq_append] at hsegments ⊢
  rw [← join_append]
  exact hl.resolve_resolve hw hs (fun name hn => hsegments name (by simp [hn]))
    (hsegments last (by simp)).2

/-- The innermost scope bears the name of the outermost one and lists the root as a child. -/
theorem full_names_stable_nested :
    let ops : List Operation :=
      [.openScope 0 "A", .declareScope 0 "A" 1, .openScope 1 "B", .declareScope 1 "B" 2,
        .openScope 2 "A", .declareScope 2 "A" 3, .declareScope 3 "X" 0]
    let t := start.applyAll ops
    Issued start ops ∧ t.Listed ∧
      (∃ stem, t.path 3 = .ok (stem ++ "::") ∧ t.find 2 ("::" ++ stem) = .ok (some 3)) ∧
      (∃ full, t.resolve 3 "X::Y::n" = .ok full ∧ t.resolve root full = .ok full) ∧
      t.resolve 3 "X::Y::n" = .ok "A::B::A::X::Y::n" ∧ t.resolve 3 "A::n" = .ok "A::B::A::n" := by
  intro ops t
  have hops : Issued start ops := by decide +kernel
  have hl : t.Listed := by decide +kernel
  obtain ⟨hpath, hname⟩ := full_names_stable hops hl
  have hsize : 3 < t.size := by decide +kernel
  have hne : ["X", "Y", "n"] ≠ [] := by simp
  exact ⟨hops, hl, hpath 3 hsize (by decide) 2, hname 3 hsize ["X", "Y", "n"] hne (by decide),
    by decide +kernel, by decide +kernel⟩

end ScopeTree
end SourceOutline
