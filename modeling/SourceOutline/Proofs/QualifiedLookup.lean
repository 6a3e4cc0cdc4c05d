import SourceOutline.Proofs.StableNames

/-! Qualified names, step by step.
A name is looked up as its front and then, from the scope found, as what follows. So the meaning of
plain names settles that of all others, wherever they are cut. -/
namespace SourceOutline

namespace QualifiedName

theorem afterSeparator?_eq_some_iff {cs rest : List Char} :
    afterSeparator? cs = some rest ↔ cs = separator ++ rest := by
  constructor
  · intro h
    unfold afterSeparator? at h
    split at h
    · cases h
      rfl
    · cases h
  · rintro rfl
    rfl

theorem afterSeparator?_append {cs : List Char} (hne : cs ≠ []) (hlast : cs.getLast? ≠ some ':')
    (ds : List Char) : afterSeparator? (cs ++ ds) = (afterSeparator? cs).map (· ++ ds) := by
  ext rest
  rw [Option.map_eq_some_iff, afterSeparator?_eq_some_iff]
  simp only [afterSeparator?_eq_some_iff]
  constructor
  · intro h
    cases cs with
    | nil => exact absurd rfl hne
    | cons c cs =>
      cases cs with
      | nil =>
        obtain ⟨rfl, -⟩ := List.cons.inj h
        exact absurd rfl hlast
      | cons d cs =>
        simp only [List.cons_append, separator, List.nil_append, List.cons.injEq] at h
        obtain ⟨rfl, rfl, hrest⟩ := h
        exact ⟨cs, rfl, hrest⟩
  · rintro ⟨front, rfl, rfl⟩
    exact List.append_assoc _ _ _

/-- What is left of a name behind a separator ends as the name does. -/
theorem getLast?_of_append {front back : List Char} (h : (front ++ back).getLast? ≠ some ':') :
    back.getLast? ≠ some ':' := by
  cases back with
  | nil => simp
  | cons c back => simpa [List.getLast?_append] using h

end QualifiedName

namespace ScopeTree
open QualifiedName
variable {t : ScopeTree} {id s c p : ScopeId} {name : String} {cs : List Char}

/-- The scope that a name stands for when it is looked up in `id`, and further out where there is no
such child. -/
inductive Visible (t : ScopeTree) (name : String) : ScopeId → ScopeId → Prop
  | here {id c : ScopeId} {s : Scope} (hs : t.scopes[id]? = some s)
      (hc : s.children.get? name = some c) : Visible t name id c
  | outside {id p c : ScopeId} {s : Scope} (hs : t.scopes[id]? = some s)
      (hc : s.children.get? name = none) (hp : s.parent = some p) (h : Visible t name p c) :
      Visible t name id c

theorem WellFormed.lookup_eq_some_iff (h : t.WellFormed) (hid : id < t.size) :
    t.lookup id name = .ok (some c) ↔ t.Visible name id c := by
  constructor
  · intro hl
    induction id, hid using h.climb with
    | top =>
      obtain ⟨r, hr, -, hp, -⟩ := h.top
      cases hc : r.children.get? name with
      | none => rw [lookup_top hr hp hc] at hl; cases hl
      | some child =>
        rw [lookup_child hr hc] at hl
        cases hl
        exact .here hr hc
    | step id s p outer hs hn ih =>
      cases hc : s.children.get? name with
      | none =>
        rw [hn.lookup hs hc] at hl
        exact .outside hs hc hn.parent (ih hl)
      | some child =>
        rw [lookup_child hs hc] at hl
        cases hl
        exact .here hs hc
  · intro hv
    induction hv with
    | here hs hc => exact lookup_child hs hc
    | outside hs hc hp _ ih =>
      obtain ⟨outer, hn⟩ := h.nested_of_parent hs hp
      rw [hn.lookup hs hc]
      exact ih (lt_size_of_some hn.found)

/-- A text is followed through its front and then from where that leads. -/
theorem findFrom_append (hlast : cs.getLast? ≠ some ':') (id : ScopeId) (ds : List Char) :
    t.findFrom id (cs ++ separator ++ ds) =
      andThen (t.findFrom id cs) (t.findFrom · ds) := by
  fun_induction findFrom t id cs with
  | case1 id cs hcut => rw [findFrom_cut (cutFirst?_append_of_none hcut hlast ds)]
  | case2 id cs front back hcut e he =>
    rw [List.append_assoc, findFrom_cut (Text.cutAt?_append hcut _), he]
    rfl
  | case3 id cs front back hcut he =>
    rw [List.append_assoc, findFrom_cut (Text.cutAt?_append hcut _), he]
    rfl
  | case4 id cs front back hcut found he _ ih =>
    have hback : back.getLast? ≠ some ':' := by
      rw [← Text.append_of_cutAt? hcut, ← List.append_assoc] at hlast
      exact getLast?_of_append hlast
    rw [List.append_assoc, findFrom_cut (Text.cutAt?_append hcut _), he, ← ih hback,
      List.append_assoc]
    rfl

theorem find_plain (h : Plain name) (id : ScopeId) : t.find id name = t.lookup id name := by
  have hafter : afterSeparator? name.toList = none := by
    rw [Option.eq_none_iff_forall_ne_some]
    intro rest hrest
    exact h ⟨[], rest, (afterSeparator?_eq_some_iff.1 hrest).symm⟩
  have hcut : cutFirst? name.toList = none :=
    (Text.cutAt?_eq_none_iff (by simp [separator])).2 h
  rw [find, hafter]
  dsimp only
  rw [findFrom_plain hcut, String.ofList_toList]

theorem find_leading (h : name.toList.head? ≠ some ':') (id : ScopeId) :
    t.find id ("::" ++ name) = t.find root name := by
  have hafter : afterSeparator? ("::" ++ name).toList = some name.toList :=
    afterSeparator?_eq_some_iff.2 (by simp [separator])
  rw [find, find, hafter, afterSeparator?_of_head h]

/-- A qualified name is found by going on from where its front leads. -/
theorem find_append {a b : String} (hne : a ≠ "") (hlast : a.toList.getLast? ≠ some ':')
    (hhead : b.toList.head? ≠ some ':') (id : ScopeId) :
    t.find id (a ++ "::" ++ b) =
      andThen (t.find id a) (t.find · b) := by
  have hb : ∀ found, t.find found b = t.findFrom found b.toList := by
    intro found
    rw [find, afterSeparator?_of_head hhead]
  have htext : (a ++ "::" ++ b).toList = a.toList ++ (separator ++ b.toList) := by
    simp [separator]
  have hcs : a.toList ≠ [] := mt String.toList_eq_nil_iff.1 hne
  simp only [hb]
  rw [find, find, htext, afterSeparator?_append hcs hlast]
  cases hafter : afterSeparator? a.toList with
  | none =>
    rw [← List.append_assoc]
    exact findFrom_append hlast id b.toList
  | some rest =>
    have hrest : rest.getLast? ≠ some ':' := by
      rw [afterSeparator?_eq_some_iff.1 hafter] at hlast
      exact getLast?_of_append hlast
    rw [Option.map_some, ← List.append_assoc]
    exact findFrom_append hrest root b.toList

/-- Looking up names in a tree whose scopes were all issued never fails. A plain name stands for the
child of that name in the nearest scope around that has one, a separator in front leads to the root,
and a qualified name is looked up in two steps wherever it is cut. -/
theorem find_composes {ops : List Operation} (h : Issued start ops) {s : ScopeId}
    (hs : s < (start.applyAll ops).size) :
    let t := start.applyAll ops
    (∀ name, Plain name →
      ∃ found, t.find s name = .ok found ∧ ∀ c, found = some c ↔ t.Visible name s c) ∧
    (∀ name : String, name.toList.head? ≠ some ':' → t.find s ("::" ++ name) = t.find root name) ∧
    ∀ a b : String, a ≠ "" → a.toList.getLast? ≠ some ':' → b.toList.head? ≠ some ':' →
      (t.find s a = .ok none ∧ t.find s (a ++ "::" ++ b) = .ok none) ∨
        ∃ c found, t.find s a = .ok (some c) ∧ t.find c b = .ok found ∧
          t.find s (a ++ "::" ++ b) = .ok found := by
  intro t
  have hw : t.WellFormed := wellFormed_start.applyAll h
  refine ⟨?_, ?_, ?_⟩
  · intro name hname
    have hlookup := find_plain (t := t) hname s
    obtain ⟨found, hfound, -⟩ := hw.lookup_ok hs name
    refine ⟨found, hlookup.trans hfound, fun c => ?_⟩
    rw [← hw.lookup_eq_some_iff hs, hfound]
    simp
  · intro name hname
    exact find_leading hname s
  · intro a b hne hlast hhead
    rw [find_append hne hlast hhead]
    obtain ⟨found, hfound, hlt⟩ := hw.find_ok hs a
    cases found with
    | none => exact .inl ⟨hfound, by rw [hfound]; rfl⟩
    | some c =>
      obtain ⟨r, hr, -⟩ := hw.find_ok (hlt c rfl) b
      exact .inr ⟨c, r, hfound, hr, by rw [hfound]; exact hr⟩

/-- The second scope has no name, and the third lists the root as a child under a colon. -/
theorem find_composes_unnamed :
    let ops : List Operation :=
      [.openScope 0 "A", .declareScope 0 "A" 1, .openScope 1 "", .declareScope 1 "" 2,
        .openScope 2 "B", .declareScope 2 "B" 3, .declareScope 3 ":" 0]
    let t := start.applyAll ops
    Issued start ops ∧ 3 < t.size ∧
      (∃ found, t.find 3 ":" = .ok found ∧ ∀ c, found = some c ↔ t.Visible ":" 3 c) ∧
      t.find 3 ("::" ++ "A::::B") = t.find root "A::::B" ∧
      ((t.find 3 "A::::B" = .ok none ∧ t.find 3 ("A::::B" ++ "::" ++ "A") = .ok none) ∨
        ∃ c found, t.find 3 "A::::B" = .ok (some c) ∧ t.find c "A" = .ok found ∧
          t.find 3 ("A::::B" ++ "::" ++ "A") = .ok found) ∧
      t.find 3 "A::::B" = .ok (some 3) ∧ t.find 3 ("A::::B" ++ "::" ++ "A") = .ok (some 1) ∧
      t.find 3 ":" = .ok (some 0) ∧ t.find 1 ("A::B" ++ "::" ++ "A") = .ok none := by
  intro ops t
  have hops : Issued start ops := by decide +kernel
  have hsize : 3 < t.size := by decide +kernel
  obtain ⟨hplain, hleading, hcomposes⟩ := find_composes hops hsize
  have hcolon : Plain ":" := isQualified_eq_false_iff.1 (by decide +kernel)
  exact ⟨hops, hsize, hplain ":" hcolon, hleading "A::::B" (by decide),
    hcomposes "A::::B" "A" (by decide) (by decide) (by decide), by decide +kernel, by decide +kernel,
    by decide +kernel, by decide +kernel⟩

end ScopeTree
end SourceOutline
