import SourceOutline.Engine
import SourceOutline.Proofs.TokenRun

/-! Engines that come about by use, and what a whole run of one gives out. -/
namespace SourceOutline

theorem Filter.template_of_ofTexts {kind : FilterKind} {name value : String} {f : Filter}
    (h : (ofTexts kind name value).value = .ok f) : ∀ t ∈ f.template, t.isEof = false := by
  unfold ofTexts at h
  simp only [Reported.value_bind] at h
  split at h
  · cases h
  · simp only [Reported.value_bind] at h
    split at h
    · cases h
    · next tokens htokens =>
      cases h
      intro t ht
      obtain ⟨u, hu, rfl⟩ := List.mem_map.1 ht
      show u.isEof = false
      exact Lexer.isEof_of_mem_tokenize htokens hu

namespace Engine

inductive Reached : Engine → Prop
  | start (source : TokenSource) (preferences : FilterPreferences) :
      Reached (ofSource source preferences)
  | register {e : Engine} (he : Reached e) (kind : FilterKind) (name value : String) :
      Reached (e.register kind name value).value.2
  | reset {e : Engine} (he : Reached e) (input : String) : Reached (e.reset input)
  | next {e : Engine} (he : Reached e) : Reached e.next.engine

/-- Every name has one filter, and no template would end the stream. -/
structure WellFormed (e : Engine) : Prop where
  distinct : (e.registered.map Filter.name).Nodup
  unmarked : ∀ f ∈ e.registered, ∀ t ∈ f.template, t.isEof = false

@[simp] theorem registered_substitute (e : Engine) (t : Token) :
    (e.substitute t).value.2.registered = e.registered := by
  unfold substitute
  split
  · rfl
  · dsimp only
    split <;> rfl

@[simp] theorem registered_nextFrom (e : Engine) (log : List Event) :
    (e.nextFrom log).engine.registered = e.registered := by
  have hsub : ∀ (e : Engine) (s : TokenSource) (t : Token) r after,
      ((e.withSource s).substitute t).value = (r, after) → after.registered = e.registered := by
    intro e s t r after h
    have := registered_substitute (e.withSource s) t
    rw [h] at this
    exact this
  fun_induction nextFrom e log with
  | case1 => rfl
  | case2 => rfl
  | case3 => rfl
  | case4 e log _ r t s _ _ q _ error after hs => exact hsub e s t _ after hs
  | case5 e log _ r t s _ _ q _ after hs => exact hsub e s t _ after hs
  | case6 e log _ r t s _ _ q _ f after hs _ ih => exact ih.trans (hsub e s t _ after hs)

@[simp] theorem registered_next (e : Engine) : e.next.engine.registered = e.registered :=
  registered_nextFrom e []

theorem WellFormed.of_registered_eq {e e' : Engine} (h : e.WellFormed)
    (heq : e'.registered = e.registered) : e'.WellFormed :=
  ⟨heq ▸ h.distinct, heq ▸ h.unmarked⟩

theorem name_ne_of_find?_eq_none {e : Engine} {name : String} (h : e.find? name = none) :
    name ∉ e.registered.map Filter.name := by
  intro hm
  obtain ⟨f, hf, rfl⟩ := List.mem_map.1 hm
  have := List.find?_eq_none.1 h f hf
  simp at this

theorem WellFormed.add {e : Engine} (h : e.WellFormed) {f : Filter}
    (hf : ∀ t ∈ f.template, t.isEof = false) : (e.add f).value.2.WellFormed := by
  unfold Engine.add
  split
  · exact h
  · next hnone =>
    split
    · refine ⟨?_, ?_⟩
      · simp only [List.map_cons, List.nodup_cons]
        exact ⟨name_ne_of_find?_eq_none hnone, h.distinct⟩
      · intro g hg
        rcases List.mem_cons.1 hg with rfl | hg
        · exact hf
        · exact h.unmarked g hg
    · exact h

theorem WellFormed.register {e : Engine} (h : e.WellFormed) (kind : FilterKind)
    (name value : String) : (e.register kind name value).value.2.WellFormed := by
  unfold Engine.register
  dsimp only
  split
  · exact h
  · next f hf => exact h.add (Filter.template_of_ofTexts hf)

theorem Reached.wellFormed {e : Engine} (h : e.Reached) : e.WellFormed := by
  induction h with
  | start source preferences => exact ⟨List.nodup_nil, by simp [ofSource]⟩
  | register _ kind name value ih => exact ih.register kind name value
  | reset _ input ih => exact ih.of_registered_eq rfl
  | next _ ih => exact ih.of_registered_eq (registered_next _)

@[simp] theorem buffer_add (e : Engine) (f : Filter) : (e.add f).value.2.buffer = e.buffer := by
  unfold Engine.add
  split
  · rfl
  · split <;> rfl

@[simp] theorem buffer_register (e : Engine) (kind : FilterKind) (name value : String) :
    (e.register kind name value).value.2.buffer = e.buffer := by
  unfold Engine.register
  dsimp only
  split
  · rfl
  · exact buffer_add e _

def output (e : Engine) : Except FilterError (List Token) := (e.runFrom [] []).result

section Step
variable {e after : Engine} {s : TokenSource} {t : Token}

theorem nextFrom_pending {p : Pending} {rest : List Pending} (hp : e.buffer.pending = p :: rest)
    (log : List Event) :
    e.nextFrom log =
      let out := { e with buffer := { e.buffer with pending := rest } }.emit p.token
      ⟨.ok out.1, out.2, log.reverse⟩ := by
  rw [nextFrom, hp]

variable (hp : e.buffer.pending = [])
include hp

theorem nextFrom_failure {error : LexError}
    (hn : e.buffer.source.next.value = (.error error, s)) (log : List Event) :
    e.nextFrom log =
      ⟨.error (.source error), e.withSource s, log.reverse ++ e.buffer.source.next.events⟩ := by
  rw [nextFrom, hp]
  dsimp only
  split
  · next h => rw [hn] at h; cases h; rfl
  · next h => rw [hn] at h; cases h

theorem nextFrom_endMark (hn : e.buffer.source.next.value = (.ok t, s)) (ht : t.isEof = true)
    (log : List Event) :
    e.nextFrom log =
      let out := (e.withSource s).emit t
      ⟨.ok out.1, out.2, log.reverse ++ e.buffer.source.next.events⟩ := by
  rw [nextFrom, hp]
  dsimp only
  split
  · next h => rw [hn] at h; cases h
  · next h => rw [hn] at h; cases h; rw [dif_pos ht]

theorem nextFrom_offered (hn : e.buffer.source.next.value = (.ok t, s)) (ht : t.isEof = false)
    (log : List Event) :
    e.nextFrom log =
      let q := (e.withSource s).substitute t
      let log := q.events.reverse ++ (e.buffer.source.next.events.reverse ++ log)
      match q.value with
      | (.error error, after) => ⟨.error error, after, log.reverse ++ error.report⟩
      | (.ok none, after) =>
        let out := after.emit t
        ⟨.ok out.1, out.2, log.reverse⟩
      | (.ok (some _), after) => (after.carry t).nextFrom log := by
  rw [nextFrom, hp]
  dsimp only
  split
  · next h => rw [hn] at h; cases h
  · next h =>
    rw [hn] at h
    cases h
    rw [dif_neg (by simp [ht])]
    split
    · next h => rw [h]
    · next h => rw [h]
    · next h => rw [h]

theorem nextFrom_error (hn : e.buffer.source.next.value = (.ok t, s)) (ht : t.isEof = false)
    {error : FilterError} (hs : ((e.withSource s).substitute t).value = (.error error, after))
    (log : List Event) :
    (e.nextFrom log).result = .error error ∧ (e.nextFrom log).engine = after := by
  rw [nextFrom_offered hp hn ht]
  simp only [hs, and_self]

theorem nextFrom_kept (hn : e.buffer.source.next.value = (.ok t, s)) (ht : t.isEof = false)
    (hs : ((e.withSource s).substitute t).value = (.ok none, after)) (log : List Event) :
    (e.nextFrom log).result = .ok (after.emit t).1 ∧
      (e.nextFrom log).engine = (after.emit t).2 := by
  rw [nextFrom_offered hp hn ht]
  simp only [hs, and_self]

theorem nextFrom_replaced (hn : e.buffer.source.next.value = (.ok t, s)) (ht : t.isEof = false)
    {f : Filter} (hs : ((e.withSource s).substitute t).value = (.ok (some f), after))
    (log : List Event) :
    e.nextFrom log = (after.carry t).nextFrom
      (((e.withSource s).substitute t).events.reverse ++
        (e.buffer.source.next.events.reverse ++ log)) := by
  rw [nextFrom_offered hp hn ht]
  simp only [hs]

end Step

theorem result_nextFrom (e : Engine) (log log' : List Event) :
    (e.nextFrom log).result = (e.nextFrom log').result ∧
      (e.nextFrom log).engine = (e.nextFrom log').engine := by
  fun_induction nextFrom e log generalizing log' with
  | case1 e log p rest hp out => simp [nextFrom_pending hp, out]
  | case2 e log hp r error s hn => simp [nextFrom_failure hp hn]
  | case3 e log hp r t s hn ht out => simp [nextFrom_endMark hp hn ht, out]
  | case4 e log hp r t s hn ht q _ error after hs =>
    simp [nextFrom_error hp hn (eq_false_of_ne_true ht) hs]
  | case5 e log hp r t s hn ht q _ after hs out =>
    simp [nextFrom_kept hp hn (eq_false_of_ne_true ht) hs, out]
  | case6 e log hp r t s hn ht q _ f after hs _ ih =>
    rw [nextFrom_replaced hp hn (eq_false_of_ne_true ht) hs]
    exact ih _

theorem runFrom_error {e : Engine} {error : FilterError} (h : e.next.result = .error error)
    (found : List Token) (log : List Event) :
    e.runFrom found log = ⟨.error error, e.next.engine, log.reverse ++ e.next.events⟩ := by
  rw [runFrom]
  split
  · next h' => rw [h] at h'; cases h'; rfl
  · next h' => rw [h] at h'; cases h'

theorem runFrom_endMark {e : Engine} {t : Token} (h : e.next.result = .ok t)
    (ht : t.isEof = true) (found : List Token) (log : List Event) :
    e.runFrom found log =
      ⟨.ok (t :: found).reverse, e.next.engine, log.reverse ++ e.next.events⟩ := by
  rw [runFrom]
  split
  · next h' => rw [h] at h'; cases h'
  · next h' => rw [h] at h'; cases h'; rw [dif_pos ht]

theorem runFrom_more {e : Engine} {t : Token} (h : e.next.result = .ok t)
    (ht : t.isEof = false) (found : List Token) (log : List Event) :
    e.runFrom found log = e.next.engine.runFrom (t :: found) (e.next.events.reverse ++ log) := by
  rw [runFrom]
  split
  · next h' => rw [h] at h'; cases h'
  · next h' => rw [h] at h'; cases h'; rw [dif_neg (by simp [ht])]

theorem result_runFrom (e : Engine) (found before : List Token) (log log' : List Event) :
    (e.runFrom (found ++ before) log').result =
      (e.runFrom found log).result.map (before.reverse ++ ·) := by
  fun_induction runFrom e found log generalizing log' with
  | case1 e found log turn error h => rw [runFrom_error h]; rfl
  | case2 e found log turn t h ht => rw [runFrom_endMark h ht]; simp [Except.map]
  | case3 e found log turn t h ht _ ih => rw [runFrom_more h (eq_false_of_ne_true ht)]; exact ih _

/-- What was found and reported before plays no part in where a run ends. -/
theorem engine_runFrom (e : Engine) (found found' : List Token) (log log' : List Event) :
    (e.runFrom found' log').engine = (e.runFrom found log).engine := by
  fun_induction runFrom e found log generalizing found' log' with
  | case1 e found log turn error h => rw [runFrom_error h]
  | case2 e found log turn t h ht => rw [runFrom_endMark h ht]
  | case3 e found log turn t h ht _ ih => rw [runFrom_more h (eq_false_of_ne_true ht)]; exact ih _ _

def final (e : Engine) : Engine := (e.runFrom [] []).engine

theorem output_error {e : Engine} {error : FilterError} (h : e.next.result = .error error) :
    e.output = .error error := by
  rw [output, runFrom_error h]

theorem output_endMark {e : Engine} {t : Token} (h : e.next.result = .ok t)
    (ht : t.isEof = true) : e.output = .ok [t] := by
  rw [output, runFrom_endMark h ht]
  rfl

theorem final_endMark {e : Engine} {t : Token} (h : e.next.result = .ok t)
    (ht : t.isEof = true) : e.final = e.next.engine := by
  rw [final, runFrom_endMark h ht]

/-- The engine gives out `us` and then goes on as `e'` does. -/
structure Leads (e : Engine) (us : List Token) (e' : Engine) : Prop where
  output : e.output = e'.output.map (us ++ ·)
  final : e.final = e'.final

namespace Leads
variable {e e' e'' : Engine} {us vs : List Token}

theorem refl (e : Engine) : Leads e [] e := ⟨by cases e.output <;> rfl, rfl⟩

theorem trans (h : Leads e us e') (h' : Leads e' vs e'') : Leads e (us ++ vs) e'' where
  output := by
    rw [h.output, h'.output]
    cases e''.output <;> simp [Except.map]
  final := h.final.trans h'.final

end Leads

theorem leads_of_next {e : Engine} {t : Token} (h : e.next.result = .ok t) (ht : t.isEof = false) :
    Leads e [t] e.next.engine where
  output := by
    rw [output, runFrom_more h ht]
    exact result_runFrom e.next.engine [] [t] [] _
  final := by
    rw [final, runFrom_more h ht]
    exact engine_runFrom _ _ _ _ _

/-- A run depends on the next step alone. -/
theorem leads_of_next_eq {e e' : Engine} (h : e.next.result = e'.next.result)
    (he : e.next.engine = e'.next.engine) : Leads e [] e' := by
  cases hr : e'.next.result with
  | error x =>
    refine ⟨?_, ?_⟩
    · rw [output_error (h.trans hr), output_error hr]
      rfl
    · rw [final, runFrom_error (h.trans hr), final, runFrom_error hr]
      exact he
  | ok t =>
    cases ht : t.isEof with
    | true =>
      refine ⟨?_, ?_⟩
      · rw [output_endMark (h.trans hr) ht, output_endMark hr ht]
        rfl
      · rw [final_endMark (h.trans hr) ht, final_endMark hr ht, he]
    | false =>
      have h₁ := leads_of_next (h.trans hr) ht
      have h₂ := leads_of_next hr ht
      rw [he] at h₁
      refine ⟨?_, h₁.final.trans h₂.final.symm⟩
      rw [h₁.output, ← h₂.output]
      exact (Leads.refl e').output

theorem result_tokenizeAll (e : Engine) (input : String) :
    (e.tokenizeAll input).result = (e.reset input).output := by
  unfold tokenizeAll
  dsimp only
  split
  · rfl
  · rfl

theorem engine_tokenizeAll (e : Engine) (input : String) :
    (e.tokenizeAll input).engine = (e.reset input).final := by
  unfold tokenizeAll
  dsimp only
  split
  · rfl
  · rfl

end Engine
end SourceOutline
