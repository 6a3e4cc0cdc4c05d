import SourceOutline.Proofs.SourceParts

/-! Filters that are registered while an engine is in use.
Whatever is asked of an engine, its filters have distinct names. So a token fits at most one of them,
and the order in which they were registered cannot be seen in anything that is given out. -/
namespace SourceOutline

namespace Filter
variable {kind : FilterKind} {name value : String} {f : Filter}

/-- A filter comes from texts; there is no other way to get one. -/
def Made (f : Filter) : Prop := ∃ value, (ofTexts f.kind f.name value).value = .ok f

theorem ofTexts_eq_ok (h : (ofTexts kind name value).value = .ok f) :
    (checkName kind name).value = .ok () ∧ f.kind = kind ∧ f.name = name := by
  unfold ofTexts at h
  simp only [Reported.value_bind] at h
  split at h
  · cases h
  · next hname =>
    simp only [Reported.value_bind] at h
    split at h
    · cases h
    · cases h
      exact ⟨hname, rfl, rfl⟩

theorem made_of_ofTexts (h : (ofTexts kind name value).value = .ok f) : f.Made := by
  obtain ⟨_, hkind, hname⟩ := ofTexts_eq_ok h
  exact ⟨value, by rw [hkind, hname, h]⟩

theorem Made.checkName (h : f.Made) : (checkName f.kind f.name).value = .ok () := by
  obtain ⟨value, hf⟩ := h
  exact (ofTexts_eq_ok hf).1

end Filter

namespace Engine
open SourceOutline.Filter Rewriting

inductive Call
  | register (kind : FilterKind) (name value : String)
  | add (f : Filter) (made : f.Made)
  | reset (input : String)
  | next

namespace Call

def perform (e : Engine) : Call → Engine
  | register kind name value => (e.register kind name value).value.2
  | add f _ => (e.add f).value.2
  | reset input => e.reset input
  | next => e.next.engine

def Fails (e : Engine) : Call → Prop
  | register kind name value => ∃ error, (e.register kind name value).value.1 = .error error
  | add f _ => ∃ error, (e.add f).value.1 = .error error
  | reset _ => False
  | next => ∃ error, e.next.result = .error error

end Call

variable {e e' : Engine}

/-- A filter is added under a name that is not in use and while there is room, or not at all. -/
theorem add_cases (e : Engine) (f : Filter) :
    (∃ error, (e.add f).value = (.error error, e)) ∨
      f.name ∉ e.registered.map Filter.name ∧ e.registered.length < FilterError.filterLimit ∧
        (e.add f).value = (.ok (), { e with registered := f :: e.registered }) := by
  unfold Engine.add
  split
  · exact .inl ⟨_, rfl⟩
  · next hnone =>
    split
    · next hroom => exact .inr ⟨name_ne_of_find?_eq_none hnone, hroom, rfl⟩
    · exact .inl ⟨_, rfl⟩

theorem register_cases (e : Engine) (kind : FilterKind) (name value : String) :
    (∃ error, (e.register kind name value).value = (.error error, e)) ∨
      ∃ f, f.Made ∧ (e.register kind name value).value = (e.add f).value := by
  unfold Engine.register
  dsimp only
  split
  · exact .inl ⟨_, rfl⟩
  · next f hf => exact .inr ⟨f, made_of_ofTexts hf, rfl⟩

/-- A call leaves the filters as they were, or it succeeds and adds one under a new name. -/
theorem registered_perform (e : Engine) (c : Call) :
    (c.perform e).registered = e.registered ∨
      ¬ c.Fails e ∧ ∃ f, f.Made ∧ f.name ∉ e.registered.map Filter.name ∧
        e.registered.length < FilterError.filterLimit ∧
        (c.perform e).registered = f :: e.registered := by
  cases c with
  | register kind name value =>
    simp only [Call.perform, Call.Fails]
    rcases register_cases e kind name value with ⟨error, h⟩ | ⟨f, hmade, h⟩
    · exact .inl (by rw [h])
    · rw [h]
      rcases add_cases e f with ⟨error, h⟩ | ⟨hname, hroom, h⟩
      · exact .inl (by rw [h])
      · exact .inr ⟨by simp [h], f, hmade, hname, hroom, by rw [h]⟩
  | add f hmade =>
    simp only [Call.perform, Call.Fails]
    rcases add_cases e f with ⟨error, h⟩ | ⟨hname, hroom, h⟩
    · exact .inl (by rw [h])
    · exact .inr ⟨by simp [h], f, hmade, hname, hroom, by rw [h]⟩
  | reset input => exact .inl rfl
  | next => exact .inl (registered_next e)

structure Kept (filters : List Filter) : Prop where
  distinct : (filters.map Filter.name).Nodup
  limit : filters.length ≤ FilterError.filterLimit
  valid : ∀ f ∈ filters, (checkName f.kind f.name).value = .ok ()

theorem Kept.perform (h : Kept e.registered) (c : Call) : Kept (c.perform e).registered := by
  rcases registered_perform e c with heq | ⟨_, f, hmade, hname, hroom, heq⟩
  · rw [heq]
    exact h
  · rw [heq]
    refine ⟨List.nodup_cons.2 ⟨hname, h.distinct⟩, hroom, ?_⟩
    intro g hg
    rcases List.mem_cons.1 hg with rfl | hg
    · exact hmade.checkName
    · exact h.valid g hg

theorem Kept.calls (h : Kept e.registered) (calls : List Call) :
    Kept (calls.foldl Call.perform e).registered := by
  induction calls generalizing e with
  | nil => exact h
  | cons c calls ih => exact ih (h.perform c)

theorem kept_start (source : TokenSource) (preferences : FilterPreferences) :
    Kept (ofSource source preferences).registered :=
  ⟨List.nodup_nil, Nat.zero_le _, by simp [ofSource]⟩

/-- Offers a token to filters in turn until one of them replaces it. One that declines has looked at
the token behind it, which waits from then on. -/
def offer (t : Token) : List Filter → Engine → Except FilterError (Option Filter) × Engine
  | [], e => (.ok none, e)
  | f :: filters, e =>
    if f.fits t then
      match (f.apply t e.buffer).value with
      | (.error error, b) => (.error error, { e with buffer := b })
      | (.ok true, b) =>
        (.ok (some f), { e with buffer := b, metrics := e.metrics.countUse f.kind })
      | (.ok false, b) =>
        offer t filters { e with buffer := b, metrics := e.metrics.countDecline f.kind }
    else offer t filters e

theorem offer_of_unfit {t : Token} {filters : List Filter} (h : ∀ f ∈ filters, f.fits t = false)
    (e : Engine) : offer t filters e = (.ok none, e) := by
  induction filters with
  | nil => rfl
  | cons f filters ih =>
    rw [offer, h f List.mem_cons_self]
    exact ih fun g hg => h g (List.mem_cons_of_mem f hg)

/-- With distinct names no second filter is asked, so asking the one of the right name is enough. -/
theorem offer_eq_substitute {filters : List Filter} (hn : (filters.map Filter.name).Nodup)
    {t : Token} (hfind : triggered? e.registered t = filters.find? (·.fits t)) :
    offer t filters e = (e.substitute t).value := by
  induction filters with
  | nil =>
    rw [substitute_none hfind]
    rfl
  | cons f filters ih =>
    obtain ⟨hf, hrest⟩ := List.nodup_cons.1 hn
    cases hfits : f.fits t with
    | false =>
      rw [List.find?_cons, hfits] at hfind
      rw [offer, hfits]
      exact ih hrest hfind
    | true =>
      have hlater : ∀ g ∈ filters, g.fits t = false := by
        intro g hg
        refine eq_false_of_ne_true fun hgt => hf ?_
        rw [name_of_fits hfits, ← name_of_fits hgt]
        exact List.mem_map_of_mem hg
      rw [List.find?_cons, hfits] at hfind
      rw [substitute_some hfind, offer, hfits]
      dsimp only [if_true]
      rcases (f.apply t e.buffer).value with ⟨error | taken, b⟩
      · rfl
      · cases taken
        · exact offer_of_unfit hlater _
        · rfl

/-- Two engines in the same state. They find the same filters and may report differently. -/
structure Alike (e e' : Engine) : Prop where
  find : ∀ t, triggered? e'.registered t = triggered? e.registered t
  buffer : e'.buffer = e.buffer
  carried : e'.carried = e.carried
  metrics : e'.metrics = e.metrics

namespace Alike

theorem withSource (h : Alike e e') (s : TokenSource) : Alike (e.withSource s) (e'.withSource s) :=
  ⟨h.find, by simp [Engine.withSource, h.buffer], h.carried, h.metrics⟩

theorem emit (h : Alike e e') (t : Token) :
    (e'.emit t).1 = (e.emit t).1 ∧ Alike (e.emit t).2 (e'.emit t).2 := by
  refine ⟨?_, h.find, h.buffer, rfl, ?_⟩
  · simp [Engine.emit, h.carried]
  · simp [Engine.emit, h.metrics]

theorem carry (h : Alike e e') (t : Token) : Alike (e.carry t) (e'.carry t) :=
  ⟨h.find, h.buffer, by simp [Engine.carry, h.carried], h.metrics⟩

theorem substitute (h : Alike e e') (t : Token) :
    (e'.substitute t).value.1 = (e.substitute t).value.1 ∧
      Alike (e.substitute t).value.2 (e'.substitute t).value.2 := by
  cases hf : triggered? e.registered t with
  | none =>
    rw [substitute_none hf, substitute_none ((h.find t).trans hf)]
    exact ⟨rfl, h⟩
  | some f =>
    rw [substitute_some hf, substitute_some ((h.find t).trans hf), h.buffer]
    dsimp only
    rcases (f.apply t e.buffer).value with ⟨error | taken, b⟩
    · exact ⟨rfl, h.find, rfl, h.carried, h.metrics⟩
    · cases taken
      · exact ⟨rfl, h.find, rfl, h.carried, by simp [h.metrics]⟩
      · exact ⟨rfl, h.find, rfl, h.carried, by simp [h.metrics]⟩

theorem substitute_eq (h : Alike e e') {t : Token} {after : Engine}
    {r : Except FilterError (Option Filter)} (hs : (e.substitute t).value = (r, after)) :
    ∃ after', (e'.substitute t).value = (r, after') ∧ Alike after after' := by
  obtain ⟨hr, ha⟩ := h.substitute t
  rw [hs] at hr ha
  exact ⟨(e'.substitute t).value.2, Prod.ext hr rfl, ha⟩

structure Turns {α : Type} (turn turn' : Turn α) : Prop where
  result : turn'.result = turn.result
  engine : Alike turn.engine turn'.engine

theorem turns_emit (h : Alike e e') (t : Token) (events events' : List Event) :
    Turns ⟨.ok (e.emit t).1, (e.emit t).2, events⟩ ⟨.ok (e'.emit t).1, (e'.emit t).2, events'⟩ :=
  ⟨congrArg Except.ok (h.emit t).1, (h.emit t).2⟩

theorem turns_nextFrom (e : Engine) (log : List Event) :
    ∀ (log' : List Event) (e' : Engine), Alike e e' →
      Turns (e.nextFrom log) (e'.nextFrom log') := by
  fun_induction Engine.nextFrom e log with
  | case1 e log p rest hp out =>
    intro log' e' h
    have hrest : Alike { e with buffer := { e.buffer with pending := rest } }
        { e' with buffer := { e'.buffer with pending := rest } } :=
      ⟨h.find, by simp [h.buffer], h.carried, h.metrics⟩
    rw [nextFrom_pending (by rw [h.buffer, hp])]
    exact hrest.turns_emit p.token _ _
  | case2 e log hp r error s hn =>
    intro log' e' h
    rw [nextFrom_failure (by rw [h.buffer, hp]) (by rw [h.buffer]; exact hn)]
    exact ⟨rfl, h.withSource s⟩
  | case3 e log hp r t s hn ht out =>
    intro log' e' h
    rw [nextFrom_endMark (by rw [h.buffer, hp]) (by rw [h.buffer]; exact hn) ht]
    exact (h.withSource s).turns_emit t _ _
  | case4 e log hp r t s hn ht q _ error after hs =>
    intro log' e' h
    obtain ⟨after', hs', ha⟩ := (h.withSource s).substitute_eq hs
    obtain ⟨hresult, hengine⟩ := nextFrom_error (by rw [h.buffer, hp])
      (by rw [h.buffer]; exact hn) (eq_false_of_ne_true ht) hs' log'
    exact ⟨hresult, by rw [hengine]; exact ha⟩
  | case5 e log hp r t s hn ht q _ after hs out =>
    intro log' e' h
    obtain ⟨after', hs', ha⟩ := (h.withSource s).substitute_eq hs
    obtain ⟨hresult, hengine⟩ := nextFrom_kept (by rw [h.buffer, hp])
      (by rw [h.buffer]; exact hn) (eq_false_of_ne_true ht) hs' log'
    obtain ⟨htoken, hafter⟩ := ha.emit t
    exact ⟨hresult.trans (congrArg Except.ok htoken), by rw [hengine]; exact hafter⟩
  | case6 e log hp r t s hn ht q _ f after hs _ ih =>
    intro log' e' h
    obtain ⟨after', hs', ha⟩ := (h.withSource s).substitute_eq hs
    rw [nextFrom_replaced (by rw [h.buffer, hp]) (by rw [h.buffer]; exact hn)
      (eq_false_of_ne_true ht) hs']
    exact ih _ _ (ha.carry t)

theorem next (h : Alike e e') : Turns e.next e'.next := turns_nextFrom e [] [] e' h

theorem runFrom (found : List Token) (log log' : List Event) {e' : Engine} (h : Alike e e') :
    Turns (e.runFrom found log) (e'.runFrom found log') := by
  fun_induction Engine.runFrom e found log generalizing e' log' with
  | case1 e found log turn error hr =>
    have hstep : Turns turn e'.next := h.next
    rw [runFrom_error (hstep.result.trans hr)]
    exact ⟨rfl, hstep.engine⟩
  | case2 e found log turn t hr ht =>
    have hstep : Turns turn e'.next := h.next
    rw [runFrom_endMark (hstep.result.trans hr) ht]
    exact ⟨rfl, hstep.engine⟩
  | case3 e found log turn t hr ht _ ih =>
    have hstep : Turns turn e'.next := h.next
    rw [runFrom_more (hstep.result.trans hr) (eq_false_of_ne_true ht)]
    exact ih _ hstep.engine

theorem tokenizeAll {input : String} (h : Alike (e.reset input) (e'.reset input)) :
    Turns (e.tokenizeAll input) (e'.tokenizeAll input) where
  result := by
    rw [result_tokenizeAll, result_tokenizeAll]
    exact (h.runFrom [] [] []).result
  engine := by
    rw [engine_tokenizeAll, engine_tokenizeAll]
    exact (h.runFrom [] [] []).engine

end Alike

/-- Starting over forgets all but the filters and the source. -/
theorem alike_reset {input : String} (hp : e'.filters.Perm e.filters)
    (hn : (e.registered.map Filter.name).Nodup)
    (hsource : e'.buffer.source.reset input = e.buffer.source.reset input) :
    Alike (e.reset input) (e'.reset input) where
  find := by
    have hregistered : e'.registered.Perm e.registered :=
      (List.reverse_perm e'.registered).symm.trans (hp.trans (List.reverse_perm e.registered))
    exact triggered?_perm hregistered hn
  buffer := by simp [reset, TokenBuffer.reset, hsource]
  carried := rfl
  metrics := rfl

/-- An engine in use has at most so many filters, under distinct and valid names. Calls that fail,
starting over and taking tokens leave them alone. Tokens are offered to them in turn, and what comes
out does not depend on their order. -/
theorem registered_filters (source : TokenSource) (preferences : FilterPreferences)
    (calls : List Call) :
    let e := calls.foldl Call.perform (ofSource source preferences)
    (e.filters.map Filter.name).Nodup ∧ e.filters.length ≤ FilterError.filterLimit ∧
      (∀ f ∈ e.filters, (checkName f.kind f.name).value = .ok ()) ∧
      (∀ c : Call, c.Fails e → (c.perform e).filters = e.filters) ∧
      (∀ input, (e.reset input).filters = e.filters) ∧ e.next.engine.filters = e.filters ∧
      (∀ t, (e.substitute t).value = offer t e.filters e) ∧
      ∀ (e' : Engine) (input : String), e'.filters.Perm e.filters →
        e'.buffer.source.reset input = e.buffer.source.reset input →
        (e'.tokenizeAll input).result = (e.tokenizeAll input).result ∧
          (e'.tokenizeAll input).engine.metrics = (e.tokenizeAll input).engine.metrics ∧
          (e'.tokenizeAll input).engine.buffer = (e.tokenizeAll input).engine.buffer := by
  intro e
  have hk : Kept e.registered := (kept_start source preferences).calls calls
  have hnames : (e.filters.map Filter.name).Nodup :=
    ((List.reverse_perm e.registered).map _).nodup_iff.2 hk.distinct
  refine ⟨hnames, ?_, ?_, ?_, fun _ => rfl, ?_, ?_, ?_⟩
  · rw [filters, List.length_reverse]
    exact hk.limit
  · intro f hf
    exact hk.valid f (List.mem_reverse.1 hf)
  · intro c hc
    rcases registered_perform e c with heq | ⟨hok, _⟩
    · rw [filters, heq, filters]
    · exact absurd hc hok
  · rw [filters, registered_next, filters]
  · intro t
    have hfind := (triggered?_reverse hk.distinct t).symm.trans (find?_fits e.filters t).symm
    exact (offer_eq_substitute hnames hfind).symm
  · intro e' input hp hsource
    have hrun := (alike_reset hp hk.distinct hsource).tokenizeAll
    exact ⟨hrun.result, hrun.engine.metrics, hrun.engine.buffer⟩

/-- Two filters are registered in either order, and the second one once more. -/
theorem registered_filters_swapped :
    let t (kind : TokenKind) (image : String) := Token.plain kind image (.point .start)
    let ts := [t .identifier "A", t .identifier "B", t .leftParen "(", t .rightParen ")",
      t .identifier "B", t .identifier "A", t .eof ""]
    let start := ofSource (.script (.ofItems (ts.map .ok))) ⟨false, false⟩
    let a := Call.register .define "A" "x y"
    let b := Call.register .call "B" ""
    let e := [a, .reset "", b].foldl Call.perform start
    let e' := [b, a].foldl Call.perform start
    e.filters.map Filter.name = ["A", "B"] ∧ e'.filters.map Filter.name = ["B", "A"] ∧
      b.Fails e ∧ (b.perform e).filters = e.filters ∧
      (e'.tokenizeAll "").result = (e.tokenizeAll "").result ∧
      (e.tokenizeAll "").result.toOption.map (List.map Token.image) =
        some ["x", "y", "B", "A", ""] := by
  intro t ts start a b e e'
  obtain ⟨_, _, _, hfails, _, _, _, horder⟩ :=
    registered_filters start.buffer.source ⟨false, false⟩ [a, .reset "", b]
  have hb : b.Fails e :=
    ⟨.duplicateFilter "B" .call .call, by decide +kernel⟩
  have hp : e'.filters.Perm e.filters := by decide +kernel
  have hsource : e'.buffer.source.reset "" = e.buffer.source.reset "" := by
    simp only [e, e', a, b, List.foldl_cons, List.foldl_nil, Call.perform, buffer_register, reset,
      TokenBuffer.reset]
    rfl
  have hreached : e.Reached := .register (.reset (.register (.start _ _) _ _ _) _) _ _ _
  obtain ⟨s, hy⟩ : ∃ s, Yields TokenSource.next (e.buffer.source.reset "") ts s := by
    simp only [e, a, b, List.foldl_cons, List.foldl_nil, Call.perform, buffer_register, reset,
      TokenBuffer.reset]
    exact ⟨_, .more rfl rfl (.more rfl rfl (.more rfl rfl (.more rfl rfl (.more rfl rfl
      (.more rfl rfl (.last rfl rfl))))))⟩
  refine ⟨by decide +kernel, by decide +kernel, hb, hfails b hb, (horder e' "" hp hsource).1, ?_⟩
  rw [result_of_yields hreached.wellFormed "" hy]
  decide +kernel

end Engine
end SourceOutline
