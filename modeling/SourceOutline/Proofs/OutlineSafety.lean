import SourceOutline.Proofs.Backing
import SourceOutline.Proofs.DeclarationSteps
import SourceOutline.Proofs.Braces

/-! An outline fails only where scopes nest too deep, and all that it lists is in its tree.
Whatever the tokens are, the builder stays inside its tree: the current scope and the scopes that
open braces lead back to are issued, so that every question to the tree has an answer. A name that
is declared is plain, and a type that is declared twice is only reported. What is left to fail is
the depth. -/
namespace SourceOutline

namespace Cursor
variable {c d : Cursor} {text name : String}

theorem count_nameFrom_le {front : String} {tokens : List Token}
    (hplain : ∀ t ∈ tokens, t.kind = .identifier → ':' ∉ t.image.toList)
    (h : nameFrom front tokens = some (name, d)) :
    name.toList.count ':' + 2 * d.rest.length ≤ front.toList.count ':' + 2 * tokens.length := by
  have hcount : ∀ (front : String) (t : Token), t ∈ tokens → t.is .identifier →
      (front ++ t.image).toList.count ':' = front.toList.count ':' := by
    intro front t hmem ht
    have hnone := List.count_eq_zero.2 (hplain t hmem (by simpa [Token.is] using ht))
    rw [String.toList_append, List.count_append, hnone, Nat.add_zero]
  fun_induction nameFrom front tokens with
  | case1 => cases h
  | case2 front t ht =>
    cases h
    rw [hcount front t List.mem_cons_self ht]
    simp
  | case3 front t ht s more hs ih =>
    have hrest := ih (fun u hu => hplain u (by simp [hu])) h fun f u hu => hcount f u (by simp [hu])
    rw [String.toList_append, List.count_append, hcount front t List.mem_cons_self ht] at hrest
    simp only [List.length_cons]
    have htwo : "::".toList.count ':' = 2 := by decide
    omega
  | case4 front t ht s more =>
    cases h
    rw [hcount front t List.mem_cons_self ht]
    simp only [List.length_cons]
    omega
  | case5 => cases h

theorem count_qualifiedName?_le
    (hplain : ∀ t ∈ c.rest, t.kind = .identifier → ':' ∉ t.image.toList)
    (h : c.qualifiedName? = some (name, d)) :
    name.toList.count ':' + 2 * d.rest.length ≤ 2 * c.rest.length := by
  unfold qualifiedName? at h
  split at h
  · cases h
  · next t rest hr =>
    rw [hr] at hplain ⊢
    split at h
    · have hle := count_nameFrom_le (fun u hu => hplain u (List.mem_cons_of_mem t hu)) h
      have htwo : "::".toList.count ':' = 2 := by decide
      rw [List.length_cons]
      omega
    · simpa using count_nameFrom_le hplain h

end Cursor

namespace Builder
open ScopeTree QualifiedName
variable {source ts us : List Token} {b b' : Builder} {t : Token} {kind : EntryKind} {line : Nat}
  {name : String} {names : List String} {p : ScopeId} {c d : Cursor} {α β : Type}

/-- A result as wanted, or the error of scopes that nest too deep. It takes more than 256 tokens to get
there; `n` is their number. -/
def Gives (n : Nat) (wanted : α → Prop) : Except Halted α → Prop
  | .ok a => wanted a
  | .error h => h.error = .nestingTooDeep (ScopeError.depthLimit + 1) ∧ ScopeError.depthLimit < n

theorem Gives.bind {n : Nat} {mid : α → Prop} {wanted : β → Prop} {r : Except Halted α}
    {f : α → Except Halted β} (h : Gives n mid r)
    (hf : ∀ a, r = .ok a → mid a → Gives n wanted (f a)) : Gives n wanted (r >>= f) := by
  cases r with
  | error e => exact h
  | ok a => exact hf a rfl h

theorem gives_ok {n : Nat} {wanted : α → Prop} {a : α} (h : wanted a) : Gives n wanted (.ok a) := h

theorem gives_lift {n : Nat} {wanted : α → Prop} {r : Except ScopeError α} {a : α} (hr : r = .ok a)
    (h : wanted a) : Gives n wanted (b.lift name r) := by
  rw [hr]
  exact h

def Announces (source : List Token) (kind : EntryKind) (line : Nat) : Prop :=
  ∃ t ∈ source, t.kind = .keyword ∧ t.image = kind.keyword ∧ t.beginLine = line

def PlainNames (source : List Token) : Prop :=
  ∀ t ∈ source, t.kind = .identifier → ':' ∉ t.image.toList

instance decidablePlainNames (source : List Token) : Decidable (PlainNames source) :=
  inferInstanceAs (Decidable (∀ t ∈ source, _))

/-- The builder is inside its tree, with the tokens `ts` of `source` still to come. All that it lists is
in the tree and stands behind a keyword, and it has opened no more scopes than it has passed tokens. -/
structure Faithful (source : List Token) (b : Builder) (ts : List Token) : Prop where
  orderly : b.tree.Orderly
  current : b.current < b.tree.size
  frames : ∀ saved, .scope saved ∈ b.frames.list → saved < b.tree.size
  entries : ∀ e ∈ b.entries, b.tree.Backs e ∧ Announces source e.kind e.line
  tokens : ts <:+ source
  room : b.tree.size + ts.length ≤ source.length + 1

theorem Faithful.of_suffix (h : Faithful source b ts) (hs : us <:+ ts) : Faithful source b us :=
  { h with
    tokens := hs.trans h.tokens
    room := Nat.le_trans (Nat.add_le_add_left hs.length_le _) h.room }

theorem Faithful.tail (h : Faithful source b (t :: ts)) : Faithful source b ts :=
  h.of_suffix (List.suffix_cons t ts)

theorem Faithful.mem (h : Faithful source b ts) (ht : t ∈ ts) : t ∈ source := h.tokens.subset ht

/-- What a builder is faithful to is kept where its tree grows. -/
theorem Faithful.grown (h : Faithful source b ts) (hg : b.tree.Grown b'.tree)
    (hc : b'.current < b'.tree.size) (hf : b'.frames = b.frames) (he : b'.entries = b.entries)
    (hroom : b'.tree.size + us.length ≤ source.length + 1) (hs : us <:+ ts) :
    Faithful source b' us := by
  have hl := hg.lasting
  refine ⟨h.orderly.grown hg, hc, fun saved hsaved => ?_, fun e hmem => ?_, hs.trans h.tokens, hroom⟩
  · rw [hf] at hsaved
    exact Nat.lt_of_lt_of_le (h.frames saved hsaved) hl.size_le
  · rw [he] at hmem
    obtain ⟨hbacks, hline⟩ := h.entries e hmem
    exact ⟨hl.backs h.orderly.wellFormed hbacks, hline⟩

theorem Faithful.log (h : Faithful source b ts) (events : List Event) :
    Faithful source (b.log events) ts :=
  ⟨h.orderly, h.current, h.frames, h.entries, h.tokens, h.room⟩

theorem Faithful.record (h : Faithful source b ts) {e : Entry} (hbacks : b.tree.Backs e)
    (hline : Announces source e.kind e.line) : Faithful source (b.record e) ts := by
  refine { h.log [e.event] with entries := fun e' hmem => ?_ }
  rcases List.mem_cons.1 hmem with rfl | hmem
  · exact ⟨hbacks, hline⟩
  · exact h.entries e' hmem

theorem enter_of_limit_lt {outer : Scope} (hp : b.tree.scopes[p]? = some outer) (hname : Plain name)
    (hlimit : ScopeError.depthLimit < outer.depth + 1) :
    ∃ h, b.enter p name = .error h ∧ h.error = .nestingTooDeep (outer.depth + 1) := by
  have hchild : b.tree.child p name = .ok (outer.children.get? name) :=
    map_eq_ok.2 ⟨outer, get_eq_ok.2 hp, rfl⟩
  have hopen := openScope_of_limit_lt hp hname hlimit
  unfold enter
  rw [hchild, hopen]
  exact ⟨_, rfl, rfl⟩

theorem Faithful.enter (h : Faithful source b ts) (hp : p < b.tree.size) (hname : Plain name)
    (hroom : b.tree.size + 1 + ts.length ≤ source.length + 1) :
    Gives source.length (fun e => Faithful source e.builder ts ∧ e.scope < e.builder.tree.size ∧
      e.scope ≠ root ∧ e.builder.tree.size = b.tree.size + 1) (b.enter p name) := by
  have hw := h.orderly.wellFormed
  obtain ⟨outer, houter⟩ := exists_of_lt_size hp
  by_cases hlimit : outer.depth + 1 ≤ ScopeError.depthLimit
  · obtain ⟨e, he, henters⟩ := exists_enters hw houter hname hlimit
    have hsize : e.builder.tree.size = b.tree.size + 1 := by
      rw [henters.tree, size_entered]
    have hstays := henters.stays
    rw [he]
    refine ⟨h.grown hstays.grown ?_ henters.frames henters.entries (by rw [hsize]; exact hroom)
      (List.suffix_refl ts), ?_, ?_, hsize⟩
    · rw [henters.current]
      exact Nat.lt_of_lt_of_le h.current hstays.grown.lasting.size_le
    · rw [henters.scope, hsize]
      exact Nat.lt_succ_self _
    · rw [henters.scope]
      exact Nat.ne_of_gt hw.root_lt_size
  · obtain ⟨halted, herror, hdeep⟩ := enter_of_limit_lt houter hname (Nat.lt_of_not_le hlimit)
    have hdepth : outer.depth = ScopeError.depthLimit :=
      Nat.le_antisymm (hw.depth_le_limit houter) (Nat.le_of_lt_succ (Nat.lt_of_not_le hlimit))
    rw [herror]
    refine ⟨by rw [hdeep, hdepth], ?_⟩
    -- a scope is at least as new as it is deep, and each scope took a token
    have hle := hw.depth_le houter
    rw [hdepth] at hle
    have hlt : ScopeError.depthLimit < b.tree.size := Nat.lt_of_le_of_lt hle hp
    omega

theorem Faithful.recordScope (h : Faithful source b ts) {scope : ScopeId}
    (hscope : scope < b.tree.size) (hne : scope ≠ root) (hkind : kind.opensScope)
    (hline : Announces source kind line) :
    Gives source.length (fun b' => Faithful source b' ts ∧ b'.tree = b.tree)
      (b.recordScope kind scope line) := by
  obtain ⟨path, hpath⟩ := h.orderly.wellFormed.path_ok hscope
  refine Gives.bind (gives_lift hpath rfl) fun path' _ heq => ?_
  refine gives_ok ⟨h.record ?_ hline, rfl⟩
  rw [Backs, if_pos hkind]
  exact ⟨scope, path', hne, heq ▸ hpath, rfl⟩

theorem Faithful.declareType (h : Faithful source b ts) (hname : Plain name) :
    Gives source.length (fun b' => Faithful source b' ts ∧ b'.tree.typed b'.current name)
      (b.declareType name) := by
  obtain ⟨s, hs⟩ := exists_of_lt_size h.current
  obtain ⟨names, hnamed⟩ := h.orderly.wellFormed.exists_named h.current
  unfold Builder.declareType
  by_cases hold : s.types.contains name
  · rw [declare_of_contains hs hnamed hname hold]
    exact gives_ok ⟨h.log _, (typed_of_some hs name).trans hold⟩
  · have hdeclare : b.tree.declare b.current name = .ok (b.tree.modify b.current (addType name)) :=
      declare_eq_ok.2 ⟨hname, s, hs, by simpa using hold, rfl⟩
    have hsize := size_modify b.tree b.current (addType name)
    rw [hdeclare]
    refine gives_ok ⟨h.grown (.declare .refl _ hname) ?_ rfl rfl ?_ (List.suffix_refl ts), ?_⟩
    · exact hsize ▸ h.current
    · exact hsize ▸ h.room
    · rw [typed_addType h.current]
      simp

theorem Faithful.recordType (h : Faithful source b ts) (hname : Plain name)
    (hkind : ¬ kind.opensScope) (hline : Announces source kind line) :
    Gives source.length (fun b' => Faithful source b' ts) (b.recordType kind name line) := by
  refine (h.declareType hname).bind fun b' _ ⟨h', htyped⟩ => ?_
  obtain ⟨names, hnamed⟩ := h'.orderly.wellFormed.exists_named h'.current
  refine Gives.bind (gives_lift (resolve_of_plain hnamed hname) rfl) fun full _ heq => ?_
  refine gives_ok (h'.record ?_ hline)
  rw [Backs, if_neg hkind]
  exact ⟨b'.current, join names, name, path_of_named hnamed, htyped, heq.symm⟩

theorem Faithful.recordAll (h : Faithful source b ts) (hnames : ∀ name ∈ names, Plain name)
    (hline : Announces source .typedef line) :
    Gives source.length (fun b' => Faithful source b' ts) (b.recordAll line names) := by
  induction names generalizing b with
  | nil => exact gives_ok h
  | cons name names ih =>
    refine (h.recordType (hnames name List.mem_cons_self) (by decide) hline).bind fun b' _ h' => ?_
    exact ih h' fun n hn => hnames n (List.mem_cons_of_mem name hn)

/-- The parts of a namespace's name are entered; each takes a token. -/
theorem Faithful.enterAll (h : Faithful source b ts) (hnames : ∀ name ∈ names, Plain name)
    (hroom : b.tree.size + names.length + ts.length ≤ source.length + 1)
    (hline : Announces source .namespaceDef line) :
    Gives source.length (fun b' => Faithful source b' ts) (b.enterAll line names) := by
  induction names generalizing b with
  | nil => exact gives_ok h
  | cons name names ih =>
    rw [List.length_cons] at hroom
    refine (h.enter h.current (hnames name List.mem_cons_self) (by omega)).bind ?_
    rintro e - ⟨he, hscope, hne, hsize⟩
    have hnext : ∀ b', Faithful source b' ts → b'.tree = e.builder.tree →
        Gives source.length (fun b' => Faithful source b' ts)
          (Builder.enterAll { b' with current := e.scope } line names) := by
      intro b' h' htree
      refine ih ⟨h'.orderly, htree ▸ hscope, h'.frames, h'.entries, h'.tokens, h'.room⟩
        (fun n hn => hnames n (List.mem_cons_of_mem name hn)) ?_
      change b'.tree.size + _ + _ ≤ _
      rw [htree, hsize]
      omega
    -- the part is listed unless it was there before
    dsimp only
    split
    · exact hnext e.builder he rfl
    · exact (he.recordScope hscope hne rfl hline).bind fun b' _ h' => hnext b' h'.1 h'.2

theorem Faithful.pushScope (h : Faithful source b ts) {saved scope : ScopeId}
    (hsaved : saved < b.tree.size) (hscope : scope < b.tree.size) :
    Faithful source { b with frames := b.frames.push (.scope saved), current := scope } ts := by
  refine ⟨h.orderly, hscope, fun id hid => ?_, h.entries, h.tokens, h.room⟩
  rcases List.mem_cons.1 hid with heq | hid
  · cases heq
    exact hsaved
  · exact h.frames id hid

theorem Faithful.enterClass (h : Faithful source b ts) (hp : p < b.tree.size) (hname : Plain name)
    (hroom : b.tree.size + 1 + ts.length ≤ source.length + 1) (hkind : kind.opensScope)
    (hline : Announces source kind line) :
    Gives source.length (fun b' => Faithful source b' ts) (b.enterClass kind line p name) := by
  refine (h.enter hp hname hroom).bind fun e _ ⟨he, hscope, hne, hsize⟩ => ?_
  refine (he.recordScope hscope hne hkind hline).bind fun inner _ ⟨hinner, htree⟩ => ?_
  have hsaved : b.current < inner.tree.size := by
    rw [htree, hsize]
    exact Nat.lt_succ_of_lt h.current
  exact gives_ok (hinner.pushScope hsaved (htree ▸ hscope))

theorem Faithful.forward (h : Faithful source b ts) (hp : p < b.tree.size) (hname : Plain name)
    (hroom : b.tree.size + 1 + ts.length ≤ source.length + 1) :
    Gives source.length (fun b' => Faithful source b' ts) (b.forward p name) := by
  obtain ⟨outer, houter⟩ := exists_of_lt_size hp
  have hchild : b.tree.child p name = .ok (outer.children.get? name) :=
    map_eq_ok.2 ⟨outer, get_eq_ok.2 houter, rfl⟩
  have hlift : Gives source.length (fun _ => True) (b.lift name (b.tree.child p name)) :=
    gives_lift hchild trivial
  refine hlift.bind fun child _ _ => ?_
  cases child with
  | some _ => exact gives_ok h
  | none => exact (h.enter hp hname hroom).bind fun e _ he => gives_ok he.1

theorem Faithful.owner (h : Faithful source b ts) (name : String) :
    Gives source.length (fun r => r.1 < b.tree.size ∧ Plain r.2) (b.owner name) := by
  have hw := h.orderly.wellFormed
  unfold Builder.owner
  split
  · next hcut => exact gives_ok ⟨h.current, plain_of_cutLast?_eq_none hcut⟩
  · next qualifier last hcut =>
    have hfound : ∀ found : Option ScopeId, (∀ child ∈ found, child < b.tree.size) →
        found.getD b.current < b.tree.size := by
      intro found hlt
      cases found with
      | none => exact h.current
      | some child => exact hlt child rfl
    have hplain := plain_of_cutLast? hcut
    split
    · exact gives_ok ⟨hw.root_lt_size, hplain⟩
    · obtain ⟨found, hfind, hlt⟩ := hw.find_ok h.current (String.ofList qualifier)
      refine Gives.bind (gives_lift hfind rfl) fun found' _ heq => ?_
      exact gives_ok ⟨heq ▸ hfound found hlt, hplain⟩

theorem Faithful.closeBrace (h : Faithful source b ts) (t : Token) :
    Faithful source (b.closeBrace t) ts := by
  obtain ⟨tree, current, ⟨list, count, hcount⟩, entries, journal⟩ := b
  have hrest : ∀ saved, .scope saved ∈ list.tail → saved < tree.size := fun saved hsaved =>
    h.frames saved (List.mem_of_mem_tail hsaved)
  cases list with
  | nil => exact ⟨h.orderly, h.current, h.frames, h.entries, h.tokens, h.room⟩
  | cons frame frames =>
    cases frame with
    | plain => exact ⟨h.orderly, h.current, hrest, h.entries, h.tokens, h.room⟩
    | scope saved =>
      exact ⟨h.orderly, h.frames saved List.mem_cons_self, hrest, h.entries, h.tokens, h.room⟩

theorem Faithful.passToken (h : Faithful source b (t :: ts)) : Faithful source (b.passToken t) ts := by
  have h' := h.tail
  unfold Builder.passToken
  split
  · refine { h' with frames := fun saved hsaved => ?_ }
    exact h'.frames saved ((List.mem_cons.1 hsaved).resolve_left nofun)
  · split
    · exact h'.closeBrace t
    · exact h'

theorem Faithful.skipFrom (h : Faithful source b ts) (depth : Nat) (before : Option Token) :
    Faithful source (b.skipFrom depth before ts).1 (b.skipFrom depth before ts).2.rest := by
  induction ts generalizing b before with
  | nil => exact h
  | cons t ts ih =>
    unfold Builder.skipFrom
    split
    · exact h
    · split
      · exact h.tail
      · exact ih h.passToken _

/-! Declarations. -/

theorem plain_of_mem_namespaceParts {part : String} (h : part ∈ namespaceParts name) : Plain part := by
  obtain ⟨cs, hcs, rfl⟩ := List.mem_map.1 h
  exact plain_of_mem_segments hcs

/-- A name has at most one part more than it has separators. -/
theorem length_namespaceParts_le (name : String) :
    2 * (namespaceParts name).length ≤ name.toList.count ':' + 2 := by
  have hdrop := count_dropSeparators_le name.toList
  have hparts := length_segments_le (dropSeparators name.toList)
  rw [namespaceParts, List.length_map]
  omega

theorem Faithful.skipStatement (h : Faithful source b c.rest) :
    Faithful source (b.skipStatement c).1 (b.skipStatement c).2.rest :=
  h.skipFrom b.frames.count c.before

theorem Faithful.namespaceBody (h : Faithful source b c.rest) (hplain : PlainNames source)
    (hline : Announces source .namespaceDef line) :
    Gives source.length (fun r => Faithful source r.1 r.2.rest) (b.namespaceBody line c) := by
  -- the name has no more parts than tokens, the brace included
  have hnamed : (c.qualifiedName?.getD ("", c)).2.rest <:+ c.rest ∧
      (namespaceParts (c.qualifiedName?.getD ("", c)).1).length +
        (c.qualifiedName?.getD ("", c)).2.rest.length ≤ c.rest.length + 1 := by
    cases hq : c.qualifiedName? with
    | none =>
      have hparts : 2 * (namespaceParts "").length ≤ 0 + 2 := length_namespaceParts_le ""
      refine ⟨List.suffix_refl _, ?_⟩
      simp only [Option.getD_none]
      omega
    | some r =>
      have hcount := Cursor.count_qualifiedName?_le (fun t ht => hplain t (h.mem ht)) hq
      have hparts := length_namespaceParts_le r.1
      refine ⟨(follows_qualifiedName? b hq).suffix, ?_⟩
      simp only [Option.getD_some]
      omega
  unfold Builder.namespaceBody
  dsimp only
  generalize c.qualifiedName?.getD ("", c) = named at hnamed
  obtain ⟨hsuffix, hlength⟩ := hnamed
  have h' := h.of_suffix hsuffix
  split
  · exact gives_ok (h'.of_suffix named.2.advance_suffix).skipStatement
  · split
    · next hbrace =>
      obtain ⟨t, -, -, hrest⟩ := Cursor.exists_of_sees hbrace
      have hinside := h'.of_suffix named.2.advance_suffix
      have hroom := h.room
      rw [hrest, List.length_cons] at hlength
      refine (hinside.enterAll (fun _ => plain_of_mem_namespaceParts) (by omega) hline).bind ?_
      intro inner hinner hfaithful
      have hgrown := (enterAll_spec hinner).2
      exact gives_ok (hfaithful.pushScope
        (Nat.lt_of_lt_of_le h.current hgrown.lasting.size_le) hfaithful.current)
    · exact gives_ok h'

theorem announces_of_ofClassKey? (ht : t ∈ source) (hkey : EntryKind.ofClassKey? t = some kind) :
    Announces source kind t.beginLine ∧ kind.opensScope := by
  unfold EntryKind.ofClassKey? at hkey
  split at hkey
  · next hkeyword =>
    have hkind : t.kind = .keyword := by simpa [Token.is] using hkeyword
    have hall : ∀ key : EntryKind, t.image = key.keyword → Announces source key t.beginLine :=
      fun _ himage => ⟨t, ht, hkind, himage, rfl⟩
    split at hkey
    · next himage =>
      cases hkey
      exact ⟨hall _ himage, rfl⟩
    · split at hkey
      · next himage =>
        cases hkey
        exact ⟨hall _ himage, rfl⟩
      · split at hkey
        · next himage =>
          cases hkey
          exact ⟨hall _ himage, rfl⟩
        · cases hkey
  · cases hkey

theorem Faithful.classBody (h : Faithful source b (t :: ts))
    (hkey : EntryKind.ofClassKey? t = some kind) (before : Option Token) :
    Gives source.length (fun r => Faithful source r.1 r.2.rest)
      (b.classBody kind t.beginLine before ⟨some t, ts⟩) := by
  obtain ⟨hline, hkind⟩ := announces_of_ofClassKey? (h.mem List.mem_cons_self) hkey
  have hroom := h.room
  rw [List.length_cons] at hroom
  unfold Builder.classBody
  split
  · exact gives_ok h.tail
  · split
    · exact gives_ok h.tail
    · next name c hname =>
      have hsuffix : c.rest <:+ ts := (follows_qualifiedName? b hname).suffix
      have hnamed := h.tail.of_suffix hsuffix
      -- wherever the declaration ends, its keyword left room for one scope
      have hone : ∀ us : List Token, us <:+ c.rest →
          b.tree.size + 1 + us.length ≤ source.length + 1 := by
        intro us hus
        have hle := (hus.trans hsuffix).length_le
        omega
      split
      · refine (hnamed.owner name).bind fun r _ ⟨hp, hlast⟩ => ?_
        obtain ⟨p, last⟩ := r
        dsimp only
        split
        · have hend := c.advance_suffix
          exact ((hnamed.of_suffix hend).forward hp hlast (hone _ hend)).bind fun _ _ hb => gives_ok hb
        · have hbody := (c.skipUntil endsHead).advance_suffix.trans (Cursor.skipFrom_suffix _ _ _)
          have hinside := hnamed.of_suffix hbody
          split
          · exact (hinside.enterClass hp hlast (hone _ hbody) hkind hline).bind fun _ _ hb =>
              gives_ok hb
          · exact gives_ok hinside
      · exact gives_ok hnamed

theorem Faithful.enumBody (h : Faithful source b c.rest) (hline : Announces source .enumDef line) :
    Gives source.length (fun r => Faithful source r.1 r.2.rest) (b.enumBody line c) := by
  have hkey : (if c.sees "class" then c.advance else c.eat "struct").rest <:+ c.rest := by
    split
    · exact c.advance_suffix
    · unfold Cursor.eat
      split
      · exact c.advance_suffix
      · exact List.suffix_refl _
  unfold Builder.enumBody
  dsimp only
  have h' := h.of_suffix hkey
  split
  · exact gives_ok h'
  · next name d hname =>
    have hnamed := h'.of_suffix (follows_qualifiedName? b hname).suffix
    split
    · exact gives_ok hnamed
    · next hplain =>
      split
      · obtain ⟨s, hs⟩ := exists_of_lt_size h.current
        have hknown : b.tree.hasType b.current name = .ok (s.types.contains name) :=
          map_eq_ok.2 ⟨s, get_eq_ok.2 hs, rfl⟩
        refine Gives.bind (gives_lift hknown rfl) fun known _ _ => ?_
        split
        · exact gives_ok hnamed
        · have hname := isQualified_eq_false_iff.1 (Bool.not_eq_true _ ▸ hplain)
          exact (hnamed.recordType hname (by decide) hline).bind fun _ _ hb => gives_ok hb
      · exact gives_ok hnamed

theorem Faithful.aliasBody (h : Faithful source b c.rest) (hplain : PlainNames source)
    (hline : Announces source .typeAlias line) :
    Gives source.length (fun r => Faithful source r.1 r.2.rest) (b.aliasBody line c) := by
  unfold Builder.aliasBody
  split
  · next name hpeek =>
    split
    · next hsides =>
      have hkind : name.kind = .identifier := by
        simpa [Token.is] using (Bool.and_eq_true_iff.1 hsides).1
      have hmem : name ∈ c.rest := (Cursor.rest_of_peek? hpeek).2 ▸ List.mem_cons_self
      have hname := plain_of_not_mem (hplain name (h.mem hmem) hkind)
      have hpassed := (h.of_suffix c.advance_suffix).skipStatement
      exact (hpassed.recordType hname (by decide) hline).bind fun _ _ hb => gives_ok hb
    · exact gives_ok h.skipStatement
  · exact gives_ok h.skipStatement

def Declarators.AllPlain (ds : Declarators) : Prop :=
  (∀ name ∈ ds.names, Plain name) ∧ (∀ name ∈ ds.last, Plain name) ∧ ∀ name ∈ ds.pointer, Plain name

theorem Declarators.AllPlain.finish {ds : Declarators} (h : ds.AllPlain) : ds.finish.AllPlain := by
  obtain ⟨hnames, hlast, hpointer⟩ := h
  refine ⟨fun name hname => ?_, nofun, nofun⟩
  rcases List.mem_append.1 hname with hname | hname
  · rw [Option.mem_toList, Option.or_eq_some_iff] at hname
    exact hname.elim (hpointer name) fun hl => hlast name hl.2
  · exact hnames name hname

theorem Declarators.AllPlain.pass {ds : Declarators} (h : ds.AllPlain)
    (ht : t.is .identifier → Plain t.image)
    (hrest : ∀ u ∈ c.rest, u.is .identifier → Plain u.image) : (ds.pass t c).AllPlain := by
  obtain ⟨hnames, hlast, hpointer⟩ := h
  have hafter : ∀ name ∈ nameAfter c, Plain name := by
    intro name hname
    unfold nameAfter at hname
    split at hname
    · next first u more hr =>
      split at hname
      · next hu =>
        cases hname
        exact hrest u (by simp [hr]) hu
      · cases hname
    · cases hname
  unfold Declarators.pass
  dsimp only
  split
  · split
    · exact ⟨hnames, hlast, hafter⟩
    · exact ⟨hnames, hlast, hpointer⟩
  · split
    · exact ⟨hnames, hlast, hpointer⟩
    · split
      · split
        · exact ⟨hnames, hlast, hpointer⟩
        · split
          · exact ⟨hnames, hlast, hpointer⟩
          · split
            · exact ⟨hnames, hlast, hpointer⟩
            · split
              · next hid =>
                refine ⟨hnames, fun name hname => ?_, hpointer⟩
                cases hname
                exact ht hid
              · exact ⟨hnames, hlast, hpointer⟩
      · exact ⟨hnames, hlast, hpointer⟩

theorem Faithful.declarators {depth : Nat} {ds : Declarators} (h : Faithful source b c.rest)
    (hplain : PlainNames source) (hds : ds.AllPlain) :
    Gives source.length (fun r => Faithful source r.1 r.2.2.rest ∧ r.2.1.AllPlain)
      (b.declarators depth ds c) := by
  have himage : ∀ t ∈ source, t.is .identifier → Plain t.image := fun t ht hid =>
    plain_of_not_mem (hplain t ht (by simpa [Token.is] using hid))
  fun_induction Builder.declarators b depth ds c with
  | case1 | case2 => exact gives_ok ⟨h, hds⟩
  | case3 b ds c t rest hr shorter after atTop _ hend =>
    rw [hr] at h
    exact gives_ok ⟨h.tail, hds.finish⟩
  | case4 b ds c t rest hr shorter after atTop _ _ hcomma ih =>
    rw [hr] at h
    exact ih h.tail hds.finish
  | case5 b ds c t rest hr shorter after atTop _ _ _ kind hk halted hb =>
    rw [hr] at h
    have hgives := h.classBody hk c.before
    rwa [hb] at hgives
  | case6 b ds c t rest hr shorter after atTop _ _ _ kind hk inner next hb hle ih =>
    rw [hr] at h
    have hgives := h.classBody hk c.before
    rw [hb] at hgives
    exact ih hgives hds
  | case7 b ds c t rest hr shorter after atTop _ _ _ hk hbrace ih =>
    rw [hr] at h
    exact ih h.passToken hds
  | case8 b ds c t rest hr shorter after atTop _ _ _ hk hbrace ih =>
    rw [hr] at h
    refine ih h.tail ?_
    split
    · exact hds.pass (himage t (h.mem List.mem_cons_self)) fun u hu =>
        himage u (h.mem (List.mem_cons_of_mem t hu))
    · exact hds

theorem Faithful.typedefBody (h : Faithful source b c.rest) (hplain : PlainNames source)
    (hline : Announces source .typedef line) :
    Gives source.length (fun r => Faithful source r.1 r.2.rest) (b.typedefBody line c) := by
  have hnone : Declarators.none.AllPlain := ⟨nofun, nofun, nofun⟩
  refine (h.declarators hplain hnone).bind fun r _ ⟨hr, hds⟩ => ?_
  obtain ⟨inner, ds, rest⟩ := r
  refine (hr.recordAll (fun name hname => ?_) hline).bind fun _ _ hb => gives_ok hb
  exact hds.1 name (List.mem_reverse.1 hname)

theorem Faithful.declaration (h : Faithful source b (t :: ts)) (hplain : PlainNames source)
    (before : Option Token) :
    Gives source.length (fun r => Faithful source r.1 r.2.rest)
      (b.declaration before t ⟨some t, ts⟩) := by
  have hkeyword : ∀ key : EntryKind, t.is .keyword && t.image = key.keyword →
      Announces source key t.beginLine := by
    intro key ht
    obtain ⟨hkind, himage⟩ := Bool.and_eq_true_iff.1 ht
    exact ⟨t, h.mem List.mem_cons_self, by simpa [Token.is] using hkind, by simpa using himage, rfl⟩
  have hrest : Faithful source b (Cursor.mk (some t) ts).rest := h.tail
  unfold Builder.declaration
  split
  · next ht => exact hrest.namespaceBody hplain (hkeyword .namespaceDef ht)
  · split
    · exact gives_ok (hrest.of_suffix (Cursor.skipAngles_suffix _))
    · split
      · next ht => exact hrest.enumBody (hkeyword .enumDef ht)
      · split
        · next ht => exact hrest.typedefBody hplain (hkeyword .typedef ht)
        · split
          · next ht => exact hrest.aliasBody hplain (hkeyword .typeAlias ht)
          · split
            · next kind hk =>
              split
              · exact gives_ok h.tail
              · exact h.classBody hk before
            · exact gives_ok h.passToken

/-- A run keeps the builder inside its tree up to the end, or fails on the depth. -/
theorem Faithful.run (h : Faithful source b c.rest) (hplain : PlainNames source) :
    Gives source.length (fun b' => Faithful source b' []) (b.run c) := by
  fun_induction Builder.run b c with
  | case1 | case2 => exact gives_ok (h.of_suffix List.nil_suffix)
  | case3 b c t rest hr _ halted hd =>
    rw [hr] at h
    have hgives := h.declaration hplain c.before
    rwa [hd] at hgives
  | case4 b c t rest hr _ inner mid hd _ ih =>
    rw [hr] at h
    have hgives := h.declaration hplain c.before
    rw [hd] at hgives
    exact ih hgives

theorem faithful_start (source : List Token) : Faithful source start source :=
  ⟨orderly_start, Nat.one_pos, nofun, nofun, List.suffix_refl _, Nat.le_of_eq (Nat.add_comm 1 _)⟩

end Builder

namespace Outline
open ScopeTree Builder
variable {tokens : List Token} {o : Outline}

theorem content_subset (tokens : List Token) : (content tokens).rest ⊆ tokens :=
  (List.takeWhile_prefix _).subset

theorem gives_run (hplain : PlainNames tokens) :
    Gives (content tokens).rest.length
      (fun b => Faithful (content tokens).rest b []) (Builder.start.run (content tokens)) :=
  (faithful_start _).run fun t ht => hplain t (content_subset tokens ht)

/-- Of any tokens whose identifiers are plain there is an outline, unless their scopes nest too deep. An
access to a scope that is not there, a name that cannot be declared and a type that is declared twice
would be errors of their own. -/
theorem outlined_or_too_deep (hplain : PlainNames tokens) :
    (∃ o, (ofTokens tokens).value = .ok o) ∨
      (ofTokens tokens).value = .error (.nestingTooDeep 257) ∧ 256 < tokens.length := by
  have hgives := gives_run hplain
  cases hrun : Builder.start.run (content tokens) with
  | ok b => exact .inl ⟨_, ofTokens_eq_ok.2 ⟨b, hrun, rfl⟩⟩
  | error halted =>
    rw [hrun] at hgives
    obtain ⟨herror, hlength⟩ := hgives
    have hvalue : (ofTokens tokens).value = .error halted.error := by
      rw [run_content] at hrun
      unfold ofTokens
      rw [hrun]
    exact .inr ⟨hvalue.trans (congrArg _ herror),
      Nat.lt_of_lt_of_le hlength (List.takeWhile_prefix _).length_le⟩

/-- Braces that close nothing or are never closed, a type that is declared twice, and an end mark in the
middle. -/
theorem outlined_or_too_deep_stray :
    let keyword := fun image => Token.plain .keyword image (.point .start)
    let name := fun image => Token.plain .identifier image (.point .start)
    let mark := fun image => Token.plain .punctuator image (.point .start)
    let typedef := [keyword "typedef", keyword "int", name "T", mark ";"]
    let tokens := [mark "\x7d"] ++ typedef ++ typedef ++ [keyword "class", name "A", mark "\x7b",
      keyword "using", name "X", mark "=", mark "\x7b", Token.endMark (.point .start), mark "\x7d"]
    PlainNames tokens ∧ tokens.length = 18 ∧ ∃ o, (ofTokens tokens).value = .ok o := by
  intro keyword name mark typedef tokens
  have hplain : PlainNames tokens := by decide +kernel
  refine ⟨hplain, rfl, (outlined_or_too_deep hplain).resolve_right fun hdeep => ?_⟩
  have hlength : 256 < 18 := hdeep.2
  exact absurd hlength (by decide)

/-- Every entry lists a scope or a type of the finished tree, on the line of its keyword; and the child
of a name in the tree is the last scope that was opened under it. -/
theorem entries_backed (hplain : PlainNames tokens) (ho : (ofTokens tokens).value = .ok o) :
    (∀ e ∈ o.entries, o.tree.Backs e ∧ Announces tokens e.kind e.line) ∧
      ∀ id s, o.tree.scopes[id]? = some s → id ≠ root → ∃ p last, s.parent = some p ∧
        o.tree.child p s.name = .ok (some last) ∧ o.tree.Opened p s.name last ∧
        ∀ i, o.tree.Opened p s.name i → i ≤ last := by
  obtain ⟨b, hrun, rfl⟩ := ofTokens_eq_ok.1 ho
  have hb := gives_run hplain
  rw [hrun] at hb
  refine ⟨fun e he => ?_, fun id s hs hne => ?_⟩
  · obtain ⟨hbacks, t, ht, hline⟩ := hb.entries e (List.mem_reverse.1 he)
    exact ⟨hbacks, t, content_subset tokens ht, hline⟩
  · obtain ⟨p, outer, hn⟩ := hb.orderly.wellFormed.nested id s hs hne
    have hgrown := grown_run hrun
    obtain ⟨last, hchild, hlast⟩ := hgrown.latest latest_start p s.name id ⟨s, hs, hn.parent, rfl⟩
    refine ⟨p, last, hn.parent, ?_, hlast⟩
    rw [child?_of_some hn.found] at hchild
    exact map_eq_ok.2 ⟨outer, get_eq_ok.2 hn.found, hchild⟩

/-- The second block of `A` has a class inside a typedef. -/
theorem entries_backed_reopened :
    let keyword := fun image => Token.plain .keyword image (.point .start)
    let name := fun image => Token.plain .identifier image (.point .start)
    let mark := fun image => Token.plain .punctuator image (.point .start)
    let inA := fun body => [keyword "namespace", name "A", mark "\x7b"] ++ body ++ [mark "\x7d"]
    let tokens := inA [keyword "enum", name "E", mark "\x7b", mark "\x7d", mark ";"] ++
      inA [keyword "typedef", keyword "struct", name "S", mark "\x7b", mark "\x7d", name "T", mark ";"]
    ∃ o, PlainNames tokens ∧ (ofTokens tokens).value = .ok o ∧
      o.entries.map (fun e => (e.kind, e.name)) = [(.namespaceDef, "A"), (.enumDef, "A::E"),
        (.structDef, "A::S"), (.typedef, "A::T")] ∧
      (∀ e ∈ o.entries, o.tree.Backs e ∧ Announces tokens e.kind e.line) ∧
      o.tree.Opened root "A" 1 ∧ o.tree.child root "A" = .ok (some 2) := by
  intro keyword name mark inA tokens
  have hplain : PlainNames tokens := by decide +kernel
  obtain ⟨o, ho, hall⟩ : ∃ o, (ofTokens tokens).value = .ok o ∧
      decide (o.entries.map (fun e => (e.kind, e.name)) = [(.namespaceDef, "A"), (.enumDef, "A::E"),
        (.structDef, "A::S"), (.typedef, "A::T")] ∧
        (o.tree.scopes[1]?.map fun s => (s.parent, s.name)) = some (some root, "A") ∧
        o.tree.child root "A" = .ok (some 2)) :=
    exists_ok_of_any (by decide +kernel)
  obtain ⟨hentries, hfirst, hchild⟩ := of_decide_eq_true hall
  obtain ⟨s, hs, heq⟩ := Option.map_eq_some_iff.1 hfirst
  have hopened : o.tree.Opened root "A" 1 := ⟨s, hs, congrArg Prod.fst heq, congrArg Prod.snd heq⟩
  exact ⟨o, hplain, ho, hentries, (entries_backed hplain ho).1, hopened, hchild⟩

end Outline
end SourceOutline
