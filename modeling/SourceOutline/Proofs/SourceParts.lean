import SourceOutline.Proofs.Arguments
import SourceOutline.Proofs.EngineRun
import SourceOutline.Proofs.Outcome

/-! What becomes of the tokens that come in, part by part.
An engine holds tokens back, looks one token ahead and starts over after a replacement. Its run is
told by cutting the tokens of the source into parts, each of which is dealt with as a whole. -/
namespace SourceOutline
namespace Rewriting

/-- Tokens of the source that an engine deals with together. -/
inductive Part
  /-- A token that no filter takes. -/
  | kept (t : Token)
  /-- The name of a call filter that is not called, and the token after it. -/
  | passed (name after : Token)
  /-- A trigger and the argument list that is dropped with it. -/
  | replaced (f : Filter) (trigger : Token) (dropped : List Token)

/-- The parts of the tokens of a source, the end mark included. -/
def parts (filters : List Filter) : List Token → Except FilterError (List Part)
  | [] => .ok []
  | t :: ts =>
    match triggered? filters t with
    | none => (parts filters ts).map (.kept t :: ·)
    | some f =>
      match f.kind, ts with
      | .define, ts => (parts filters ts).map (.replaced f t [] :: ·)
      | .call, [] => .ok [.kept t]
      | .call, u :: us =>
        if u.is .leftParen then
          match closing? 0 us with
          | some n =>
            if n ≤ FilterError.argumentLimit then
              (parts filters (us.drop n)).map (.replaced f t (u :: us.take n) :: ·)
            else .error (.argumentsTooLong f.name t.span)
          | none =>
            -- the end mark does not count
            if us.length - 1 ≤ FilterError.argumentLimit then
              .error (.unbalancedArguments f.name t.span)
            else .error (.argumentsTooLong f.name t.span)
        else (parts filters us).map (.passed t u :: ·)
termination_by ts => ts.length
decreasing_by all_goals simp; try omega

namespace Part

def spared : Part → List Token
  | kept t => [t]
  | passed t u => [t, u]
  | replaced _ t _ => [t]

/-- The tokens of a part that are dropped unseen. -/
def dropped : Part → List Token
  | replaced _ _ dropped => dropped
  | _ => []

def source (p : Part) : List Token := p.spared ++ p.dropped

/-- What is written for a part, trivia aside. -/
def written : Part → List Token
  | kept t => [t]
  | passed t u => [t, u]
  | replaced f t _ => copies f.template t.span

/-- What is given out for a part in front of `us`. Trivia of a trigger goes to the next token. -/
def given (us : List Token) : Part → List Token
  | kept t => t :: us
  | passed t u => t :: u :: us
  | replaced f t _ => Token.lead t.trivia (copies f.template t.span ++ us)

def count (m : EngineMetrics) : Part → EngineMetrics
  | kept _ => { m with emitted := m.emitted + 1 }
  | passed _ _ => { m with emitted := m.emitted + 2, declined := m.declined + 1 }
  | replaced f _ _ =>
    let used := m.countUse f.kind
    { used with emitted := used.emitted + f.template.length }

end Part

def given (ps : List Part) : List Token := ps.foldr (fun p us => p.given us) []

@[simp] theorem given_nil : given [] = [] := rfl

@[simp] theorem given_cons (p : Part) (ps : List Part) : given (p :: ps) = p.given (given ps) := rfl

/-- A run of tokens, the last of which is its only end mark, cut into parts without a fault. -/
inductive Cut (filters : List Filter) : List Token → List Part → Prop
  | endMark {t : Token} (ht : t.isEof = true) : Cut filters [t] [.kept t]
  | kept {t : Token} {ts : List Token} {ps : List Part} (ht : t.isEof = false)
      (hf : triggered? filters t = none) (h : Cut filters ts ps) :
      Cut filters (t :: ts) (.kept t :: ps)
  | define {f : Filter} {t : Token} {ts : List Token} {ps : List Part}
      (hf : triggered? filters t = some f) (hk : f.kind = .define) (h : Cut filters ts ps) :
      Cut filters (t :: ts) (.replaced f t [] :: ps)
  | call {f : Filter} {t u : Token} {us ts : List Token} {ps : List Part}
      (hf : triggered? filters t = some f) (hk : f.kind = .call)
      (hu : u.is .leftParen = true) (hus : closing? 0 (us ++ ts) = some us.length)
      (hle : us.length ≤ FilterError.argumentLimit) (h : Cut filters ts ps) :
      Cut filters (t :: u :: (us ++ ts)) (.replaced f t (u :: us) :: ps)
  | passed {f : Filter} {t u : Token} {ts : List Token} {ps : List Part}
      (hf : triggered? filters t = some f) (hk : f.kind = .call)
      (hu : u.is .leftParen = false) (he : u.isEof = false) (h : Cut filters ts ps) :
      Cut filters (t :: u :: ts) (.passed t u :: ps)
  | passedEnd {f : Filter} {t u : Token} (hf : triggered? filters t = some f)
      (hk : f.kind = .call) (he : u.isEof = true) : Cut filters [t, u] [.passed t u]

theorem cut_of_parts {filters : List Filter} {ts : List Token} {ps : List Part}
    {s v : TokenSource} (h : Yields TokenSource.next s ts v) (hps : parts filters ts = .ok ps) :
    Cut filters ts ps := by
  fun_induction parts filters ts generalizing s ps with
  | case1 => exact absurd rfl h.ne_nil
  | case2 t ts hnone ih =>
    obtain ⟨qs, hqs, rfl⟩ := map_eq_ok.1 hps
    cases ht : t.isEof with
    | true =>
      obtain rfl := h.eq_nil_of_isEof ht
      rw [parts] at hqs
      cases hqs
      exact .endMark ht
    | false =>
      obtain ⟨u, _, hy⟩ := h.head ht
      exact .kept ht hnone (ih hy hqs)
  | case3 t f hsome ts hk ih =>
    obtain ⟨qs, hqs, rfl⟩ := map_eq_ok.1 hps
    obtain ⟨u, _, hy⟩ := h.head (Filter.isEof_of_triggered? hsome)
    exact .define hsome hk (ih hy hqs)
  | case4 t f hsome hk =>
    obtain ⟨u, _, hy⟩ := h.head (Filter.isEof_of_triggered? hsome)
    exact absurd rfl hy.ne_nil
  | case5 t f hsome r rs hk hr n hn hle ih =>
    obtain ⟨qs, hqs, rfl⟩ := map_eq_ok.1 hps
    obtain ⟨u, _, hy⟩ := h.head (Filter.isEof_of_triggered? hsome)
    obtain ⟨w, _, hy⟩ := hy.head (Filter.isEof_of_leftParen hr)
    obtain ⟨x, _, hy⟩ := Filter.skipArguments_closed f t hy hn hle []
    have hlen : (rs.take n).length = n := List.length_take_of_le (closing?_le hn)
    have hcut : Cut filters (t :: r :: (rs.take n ++ rs.drop n)) _ :=
      .call hsome hk hr (by rw [List.take_append_drop, hn, hlen]) (by rwa [hlen]) (ih hy hqs)
    rwa [List.take_append_drop] at hcut
  | case6 => cases hps
  | case7 => cases hps
  | case8 => cases hps
  | case9 t f hsome r rs hk hr ih =>
    obtain ⟨qs, hqs, rfl⟩ := map_eq_ok.1 hps
    obtain ⟨u, _, hy⟩ := h.head (Filter.isEof_of_triggered? hsome)
    cases he : r.isEof with
    | true =>
      obtain rfl := hy.eq_nil_of_isEof he
      rw [parts] at hqs
      cases hqs
      exact .passedEnd hsome hk he
    | false =>
      obtain ⟨w, _, hy⟩ := hy.head he
      exact .passed hsome hk (eq_false_of_ne_true hr) he (ih hy hqs)

namespace Cut
variable {filters : List Filter} {ts : List Token} {ps : List Part}

theorem parts_eq (h : Cut filters ts ps) : parts filters ts = .ok ps := by
  induction h with
  | endMark ht =>
    rw [parts, Filter.triggered?_of_isEof ht, parts]
    rfl
  | kept ht hf h ih => rw [parts, hf, ih]; rfl
  | define hf hk h ih =>
    rw [parts, hf]
    simp only [hk, ih]
    rfl
  | call hf hk hu hus hle h ih =>
    rw [parts, hf]
    simp [hk, hu, hus, hle, ih, Except.map]
  | passed hf hk hu he h ih =>
    rw [parts, hf]
    simp [hk, hu, ih, Except.map]
  | passedEnd hf hk he =>
    rw [parts, hf]
    simp [hk, Filter.leftParen_of_isEof he, parts, Except.map]

theorem flatMap_source (h : Cut filters ts ps) : ps.flatMap Part.source = ts := by
  induction h with
  | endMark => rfl
  | kept _ _ _ ih => simp [Part.source, Part.spared, Part.dropped, ih]
  | define _ _ _ ih => simp [Part.source, Part.spared, Part.dropped, ih]
  | call _ _ _ _ _ _ ih => simp [Part.source, Part.spared, Part.dropped, ih]
  | passed _ _ _ _ _ ih => simp [Part.source, Part.spared, Part.dropped, ih]
  | passedEnd => rfl

end Cut
end Rewriting

open Rewriting

namespace Engine
open SourceOutline.Filter

def resumed (e : Engine) (s : TokenSource) (carried : List Trivia) (m : EngineMetrics) : Engine :=
  { e with buffer := ⟨[], s⟩, carried := carried, metrics := m }

/-- The engine that gave out the name of a call filter and holds back the token `t` after it. -/
def waiting (e : Engine) (t : Token) (s : TokenSource) : Engine :=
  { e with
    buffer := ⟨[.lookahead t], s⟩
    carried := []
    metrics := { e.metrics with
      emitted := e.metrics.emitted + 1
      declined := e.metrics.declined + 1 } }

/-- Pending tokens are given out as they are, before the source is asked. The first of them takes
the trivia that was carried. -/
theorem leads_pending (ps : List Pending) (hps : ∀ p ∈ ps, p.token.isEof = false) {e : Engine}
    {s : TokenSource} (hb : e.buffer = ⟨ps, s⟩) :
    Leads e (Token.lead e.carried.reverse (ps.map Pending.token))
      (e.resumed s (if ps = [] then e.carried else [])
        { e.metrics with emitted := e.metrics.emitted + ps.length }) := by
  induction ps generalizing e with
  | nil =>
    have he : e.resumed s e.carried e.metrics = e := by
      rw [resumed, ← hb]
    simpa [Token.lead, he] using Leads.refl e
  | cons p ps ih =>
    have hn : e.next = _ := nextFrom_pending (congrArg TokenBuffer.pending hb) []
    have hfirst := leads_of_next (congrArg Turn.result hn) (hps p List.mem_cons_self)
    have hrest := ih (fun q hq => hps q (List.mem_cons_of_mem _ hq))
      (e := e.next.engine) (by rw [hn, hb]; rfl)
    rw [hn] at hfirst hrest
    have hboth := hfirst.trans hrest
    simp only [emit, List.reverse_nil, Token.lead_nil, ite_self, List.reverseAux_eq] at hboth
    simpa [Token.lead, resumed, Nat.add_comm, Nat.add_left_comm] using hboth

section Source
variable {e : Engine} {s u v : TokenSource} {t : Token} {f : Filter}

theorem withSource_mk {source : TokenSource} (hb : e.buffer = ⟨[], source⟩) :
    (e.withSource s).buffer = ⟨[], s⟩ := by
  simp [withSource, hb]

theorem substitute_none (h : triggered? e.registered t = none) :
    e.substitute t = .silent (.ok none, e) := by
  rw [substitute, find?_fits, h]

theorem substitute_some (h : triggered? e.registered t = some f) :
    e.substitute t =
      let r := f.apply t e.buffer
      match r.value with
      | (.error error, b) => ⟨(.error error, { e with buffer := b }), r.events⟩
      | (.ok true, b) =>
        ⟨(.ok (some f), { e with buffer := b, metrics := e.metrics.countUse f.kind }),
          r.events ++ if e.preferences.logSubstitutions then [substitutionEvent f t] else []⟩
      | (.ok false, b) =>
        ⟨(.ok none, { e with buffer := b, metrics := e.metrics.countDecline f.kind }),
          r.events⟩ := by
  have hfind := (find?_fits e.registered t).trans h
  unfold substitute
  split
  · next hnone =>
    rw [hfind] at hnone
    cases hnone
  · next g hg =>
    rw [hfind] at hg
    cases hg
    rfl

theorem leads_kept (hb : e.buffer = ⟨[], s⟩) (hn : s.next.value = (.ok t, u))
    (ht : t.isEof = false) (hf : triggered? e.registered t = none) :
    Leads e (Token.lead e.carried.reverse [t])
      (e.resumed u [] { e.metrics with emitted := e.metrics.emitted + 1 }) := by
  have hsub := congrArg Reported.value (substitute_none (e := e.withSource u) hf)
  obtain ⟨hresult, hengine⟩ := nextFrom_kept (by rw [hb]) (by rw [hb]; exact hn) ht hsub []
  have hlead : Leads e _ e.next.engine := leads_of_next hresult ht
  rw [show e.next.engine = _ from hengine] at hlead
  simpa [emit, withSource, resumed, hb, Token.lead, List.reverseAux_eq] using hlead

/-- A trigger is replaced by its template, once its filter has left `v` as the source. -/
theorem leads_replaced (hb : e.buffer = ⟨[], s⟩) (hn : s.next.value = (.ok t, u))
    (hf : triggered? e.registered t = some f) (hclean : ∀ r ∈ f.template, r.isEof = false)
    (ha : (f.apply t ⟨[], u⟩).value =
      (.ok true, (TokenBuffer.mk [] v).pushReplacement (copies f.template t.span))) :
    Leads e (Token.lead (e.carried.reverse ++ t.trivia) (copies f.template t.span))
      (e.resumed v (if copies f.template t.span = [] then t.trivia.reverse ++ e.carried else [])
        ((Part.replaced f t []).count e.metrics)) := by
  have ht := isEof_of_triggered? hf
  have hsub := congrArg Reported.value (substitute_some (e := e.withSource u) hf)
  simp only [withSource_mk hb, ha] at hsub
  obtain ⟨after, hafter⟩ : ∃ after, after = ({ e.withSource u with
    buffer := (TokenBuffer.mk [] v).pushReplacement (copies f.template t.span)
    metrics := (e.withSource u).metrics.countUse f.kind } : Engine).carry t := ⟨_, rfl⟩
  have hstart : Leads e [] after := by
    have hstep : e.next = _ := nextFrom_replaced (by rw [hb]) (by rw [hb]; exact hn) ht hsub []
    rw [← hafter] at hstep
    obtain ⟨hresult, hengine⟩ := result_nextFrom after _ []
    rw [← hstep] at hresult hengine
    exact leads_of_next_eq hresult hengine
  have hpending : after.buffer = ⟨(copies f.template t.span).map .replacement, v⟩ := by
    simp [hafter, carry, TokenBuffer.pushReplacement]
  have htemplate : ∀ p ∈ (copies f.template t.span).map Pending.replacement,
      p.token.isEof = false := by
    intro p hp
    obtain ⟨r, hr, rfl⟩ := List.mem_map.1 hp
    obtain ⟨q, hq, rfl⟩ := List.mem_map.1 hr
    exact hclean q hq
  have hboth := hstart.trans (leads_pending _ htemplate hpending)
  simpa [hafter, carry, resumed, withSource, Part.count, copies, Pending.token,
    Function.comp_def] using hboth

theorem leads_declined {r : Token} (hb : e.buffer = ⟨[], s⟩) (hn : s.next.value = (.ok t, u))
    (hf : triggered? e.registered t = some f) (hk : f.kind = .call)
    (hr : u.next.value = (.ok r, v)) (hparen : r.is .leftParen = false) :
    Leads e (Token.lead e.carried.reverse [t]) (e.waiting r v) := by
  have hfits := fits_of_triggered? hf
  have hsub := congrArg Reported.value (substitute_some (e := e.withSource u) hf)
  simp only [withSource_mk hb, apply_uncalled hfits hk hr hparen] at hsub
  obtain ⟨hresult, hengine⟩ :=
    nextFrom_kept (by rw [hb]) (by rw [hb]; exact hn) (isEof_of_fits hfits) hsub []
  have hlead : Leads e _ e.next.engine := leads_of_next hresult (isEof_of_fits hfits)
  rw [show e.next.engine = _ from hengine] at hlead
  simpa [emit, withSource, waiting, List.reverseAux_eq, hk, EngineMetrics.countDecline] using hlead

theorem output_eq_error {after : Engine} {error : FilterError} (hb : e.buffer = ⟨[], s⟩)
    (hn : s.next.value = (.ok t, u)) (ht : t.isEof = false)
    (hs : ((e.withSource u).substitute t).value = (.error error, after)) :
    e.output = .error error :=
  output_error (nextFrom_error (by rw [hb]) (by rw [hb]; exact hn) ht hs []).1

theorem output_refused {r : Token} {error : FilterError} (hb : e.buffer = ⟨[], s⟩)
    (hn : s.next.value = (.ok t, u)) (hf : triggered? e.registered t = some f)
    (hk : f.kind = .call) (hr : u.next.value = (.ok r, v)) (hparen : r.is .leftParen = true)
    (hskip : (f.skipArguments t FilterError.argumentLimit 0 u.next.events.reverse
      ⟨[], v⟩).value.1 = .error error) :
    e.output = .error error := by
  have hfits := fits_of_triggered? hf
  have hsub := congrArg Reported.value (substitute_some (e := e.withSource u) hf)
  simp only [withSource_mk hb, apply_called hfits hk hr hparen] at hsub
  cases hres : (f.skipArguments t FilterError.argumentLimit 0 u.next.events.reverse
      ⟨[], v⟩).value with
  | mk result b =>
    rw [hres] at hskip
    cases hskip
    rw [hres] at hsub
    exact output_eq_error hb hn (isEof_of_fits hfits) hsub

end Source

/-- The run of an engine with nothing pending goes as `r` has it. -/
structure Told (e : Engine) (r : Except FilterError (List Part)) : Prop where
  output : e.output = r.map fun ps => Token.lead e.carried.reverse (given ps)
  metrics : ∀ ps, r = .ok ps → e.final.metrics = ps.foldl Part.count e.metrics

namespace Told
variable {e e' : Engine} {t : Token}

theorem of_error {error : FilterError} (h : e.output = .error error) : Told e (.error error) where
  output := h
  metrics := by simp

theorem of_endMark (h : e.next.result = .ok { t with trivia := e.carried.reverse ++ t.trivia })
    (ht : t.isEof = true)
    (hm : e.next.engine.metrics = (Part.kept t).count e.metrics) : Told e (.ok [.kept t]) where
  output := output_endMark h ht
  metrics := by
    rintro ps ⟨⟩
    rw [final_endMark h ht]
    exact hm

theorem cons {p : Part} {us : List Token} {r : Except FilterError (List Part)}
    (h : Leads e us e')
    (hgiven : ∀ vs, Token.lead e.carried.reverse (p.given vs) =
      us ++ Token.lead e'.carried.reverse vs)
    (hm : e'.metrics = p.count e.metrics) (ht : Told e' r) : Told e (r.map (p :: ·)) where
  output := by
    rw [h.output, ht.output]
    cases r <;> simp [Except.map, hgiven]
  metrics := by
    cases r with
    | error x => simp [Except.map]
    | ok qs =>
      rintro ps ⟨⟩
      rw [h.final, ht.metrics qs rfl, hm]
      rfl

/-- A trigger whose template is given out. Without a template its trivia is carried further. -/
theorem replaced {f : Filter} {v : TokenSource} {m : EngineMetrics}
    {r : Except FilterError (List Part)}
    (h : Leads e (Token.lead (e.carried.reverse ++ t.trivia) (copies f.template t.span))
      (e.resumed v (if copies f.template t.span = [] then t.trivia.reverse ++ e.carried else []) m))
    (hm : m = (Part.replaced f t []).count e.metrics)
    (ht : Told (e.resumed v
      (if copies f.template t.span = [] then t.trivia.reverse ++ e.carried else []) m) r)
    (dropped : List Token) : Told e (r.map (.replaced f t dropped :: ·)) := by
  refine cons h ?_ hm ht
  intro vs
  rw [Part.given, Token.lead_lead, Token.lead_append]
  by_cases hnil : copies f.template t.span = [] <;> simp [hnil, resumed]

theorem passed {u : Token} {v : TokenSource} {r : Except FilterError (List Part)}
    (h : Leads e (Token.lead e.carried.reverse [t]) (e.waiting u v))
    (ht : Told (e.waiting u v) (r.map (.kept u :: ·))) : Told e (r.map (.passed t u :: ·)) where
  output := by
    rw [h.output, ht.output]
    cases r <;> simp [Except.map, Part.given, waiting]
  metrics := by
    cases r with
    | error x => simp [Except.map]
    | ok qs =>
      rintro ps ⟨⟩
      rw [h.final, ht.metrics _ rfl]
      rfl

end Told

section Parts
variable {e : Engine} {filters : List Filter} {f : Filter} {t : Token} {ts : List Token}
  {s u v : TokenSource} {r : Except FilterError (List Part)}

theorem told_endMark (hb : e.buffer = ⟨[], s⟩) (hn : s.next.value = (.ok t, u))
    (ht : t.isEof = true) : Told e (.ok [.kept t]) := by
  have hstep : e.next = _ := nextFrom_endMark (by rw [hb]) (by rw [hb]; exact hn) ht []
  refine .of_endMark ?_ ht ?_
  · rw [hstep]
    simp [emit, withSource, List.reverseAux_eq]
  · rw [hstep]
    rfl

theorem told_kept (hb : e.buffer = ⟨[], s⟩) (hn : s.next.value = (.ok t, u))
    (ht : t.isEof = false) (hf : triggered? e.registered t = none)
    (hr : ∀ m, Told (e.resumed u [] m) r) : Told e (r.map (.kept t :: ·)) := by
  refine .cons (leads_kept hb hn ht hf) ?_ rfl (hr _)
  intro vs
  simp [Part.given, resumed]

theorem told_replaced (hb : e.buffer = ⟨[], s⟩) (hn : s.next.value = (.ok t, u))
    (hf : triggered? e.registered t = some f) (hclean : ∀ r ∈ f.template, r.isEof = false)
    (ha : (f.apply t ⟨[], u⟩).value =
      (.ok true, (TokenBuffer.mk [] v).pushReplacement (copies f.template t.span)))
    (hr : ∀ carried m, Told (e.resumed v carried m) r) (dropped : List Token) :
    Told e (r.map (.replaced f t dropped :: ·)) :=
  .replaced (leads_replaced hb hn hf hclean ha) rfl (hr _ _) dropped

theorem told_waiting_endMark (e : Engine) (s : TokenSource) (ht : t.isEof = true) :
    Told (e.waiting t s) (.ok [.kept t]) := by
  have hstep : (e.waiting t s).next = _ := nextFrom_pending rfl []
  refine .of_endMark ?_ ht ?_
  · rw [hstep]
    simp [emit, waiting, Pending.token]
  · rw [hstep]
    rfl

theorem told_waiting (ht : t.isEof = false) (hr : ∀ m, Told (e.resumed s [] m) r) :
    Told (e.waiting t s) (r.map (.kept t :: ·)) := by
  have hlead := leads_pending [.lookahead t] (by simpa [Pending.token] using ht)
    (e := e.waiting t s) rfl
  refine .cons hlead ?_ rfl (hr _)
  intro vs
  simp [Part.given, Pending.token, resumed, waiting]

theorem told_refused {c : Token} {cs : List Token} {error : FilterError}
    (hb : e.buffer = ⟨[], s⟩) (h : Yields TokenSource.next s (t :: c :: cs) v)
    (hf : triggered? e.registered t = some f) (hk : f.kind = .call)
    (hc : c.is .leftParen = true)
    (hskip : ∀ u log, Yields TokenSource.next u cs v →
      (f.skipArguments t FilterError.argumentLimit 0 log ⟨[], u⟩).value.1 = .error error) :
    Told e (.error error) := by
  obtain ⟨u, hu, hy⟩ := h.head (isEof_of_triggered? hf)
  obtain ⟨w, hw, hy⟩ := hy.head (isEof_of_leftParen hc)
  exact .of_error (output_refused hb hu hf hk hw hc (hskip w _ hy))

end Parts

/-- An engine with nothing pending goes through the parts of what its source gives. `filters` may
list the filters in any order that finds the same ones. -/
theorem told_parts {filters : List Filter} {ts : List Token} {s v : TokenSource} {e : Engine}
    (hfind : ∀ t, triggered? e.registered t = triggered? filters t)
    (hclean : ∀ f ∈ e.registered, ∀ t ∈ f.template, t.isEof = false)
    (hb : e.buffer = ⟨[], s⟩) (h : Yields TokenSource.next s ts v) :
    Told e (parts filters ts) := by
  fun_induction parts filters ts generalizing e s with
  | case1 => exact absurd rfl h.ne_nil
  | case2 t ts hnone ih =>
    cases ht : t.isEof with
    | true =>
      obtain rfl := h.eq_nil_of_isEof ht
      obtain ⟨u, hn⟩ := h.next_eq
      rw [parts]
      exact told_endMark hb hn ht
    | false =>
      obtain ⟨u, hn, hy⟩ := h.head ht
      exact told_kept hb hn ht ((hfind t).trans hnone) fun _ => ih hfind hclean rfl hy
  | case3 t f hsome ts hk ih =>
    have hf := (hfind t).trans hsome
    have hfits := fits_of_triggered? hf
    obtain ⟨u, hn, hy⟩ := h.head (isEof_of_fits hfits)
    exact told_replaced hb hn hf (hclean f (mem_of_triggered? hf))
      (congrArg Reported.value (apply_define hfits hk ⟨[], u⟩))
      (fun _ _ => ih hfind hclean rfl hy) []
  | case4 t f hsome hk =>
    obtain ⟨u, hn, hy⟩ := h.head (isEof_of_triggered? hsome)
    exact absurd rfl hy.ne_nil
  | case5 t f hsome c cs hk hc n hn hle ih =>
    have hf := (hfind t).trans hsome
    have hfits := fits_of_triggered? hf
    obtain ⟨u, hu, hy⟩ := h.head (isEof_of_fits hfits)
    obtain ⟨w, hw, hy⟩ := hy.head (isEof_of_leftParen hc)
    obtain ⟨x, hx, hy⟩ := skipArguments_closed f t hy hn hle u.next.events.reverse
    have ha := apply_called hfits hk hw hc
    rw [hx] at ha
    exact told_replaced hb hu hf (hclean f (mem_of_triggered? hf)) ha
      (fun _ _ => ih hfind hclean rfl hy) _
  | case6 t f hsome c cs hk hc n hn hle =>
    refine told_refused hb h ((hfind t).trans hsome) hk hc fun u log hy => ?_
    exact skipArguments_long hy (by rw [hn]; simpa using hle) log
  | case7 t f hsome c cs hk hc hn hle =>
    exact told_refused hb h ((hfind t).trans hsome) hk hc fun u log hy =>
      skipArguments_open hy hn hle log
  | case8 t f hsome c cs hk hc hn hle =>
    refine told_refused hb h ((hfind t).trans hsome) hk hc fun u log hy => ?_
    exact skipArguments_long hy (by rw [hn]; exact Nat.lt_of_not_le hle) log
  | case9 t f hsome c cs hk hc ih =>
    obtain ⟨u, hu, hy⟩ := h.head (isEof_of_triggered? hsome)
    obtain ⟨w, hw⟩ := hy.next_eq
    refine .passed (leads_declined hb hu ((hfind t).trans hsome) hk hw (eq_false_of_ne_true hc)) ?_
    cases he : c.isEof with
    | true =>
      obtain rfl := hy.eq_nil_of_isEof he
      rw [parts]
      exact told_waiting_endMark e w he
    | false =>
      obtain ⟨x, hx, hy⟩ := hy.head he
      rw [hw] at hx
      cases hx
      exact told_waiting he fun _ => ih hfind hclean rfl hy

section Success
variable {e : Engine} {s u : TokenSource} {t : Token} {us : List Token}

/-- The engine has dealt with some tokens of `s` and goes on in the same way behind them. -/
def Proceeds (e : Engine) (s : TokenSource) : Prop :=
  ∃ ts u vs e', Takes TokenSource.next s ts u ∧ u.remaining < s.remaining ∧ Leads e vs e' ∧
    e'.buffer = ⟨[], u⟩ ∧ e'.registered = e.registered

theorem proceeds_of_call {f : Filter} (hb : e.buffer = ⟨[], s⟩) (hn : s.next.value = (.ok t, u))
    (hf : triggered? e.registered t = some f) (hk : f.kind = .call)
    (hclean : ∀ r ∈ f.template, r.isEof = false) (h : e.output = .ok us) :
    (∃ ts v, Yields TokenSource.next s ts v) ∨ e.Proceeds s := by
  have hfits := fits_of_triggered? hf
  have ht := isEof_of_fits hfits
  have hlt := TokenSource.remaining_next_lt hn ht
  rcases hu : u.next.value with ⟨error | r, w⟩
  · have hsub := congrArg Reported.value (substitute_some (e := e.withSource u) hf)
    simp only [withSource_mk hb, apply_failure hfits hk hu] at hsub
    rw [output_eq_error hb hn ht hsub] at h
    cases h
  · have hle : w.remaining ≤ u.remaining := by
      have := u.remaining_next_le
      rwa [hu] at this
    cases hparen : r.is .leftParen with
    | true =>
      right
      rcases hskip : (f.skipArguments t FilterError.argumentLimit 0 u.next.events.reverse
        ⟨[], w⟩).value with ⟨error | _, b⟩
      · rw [output_refused hb hn hf hk hu hparen (congrArg Prod.fst hskip)] at h
        cases h
      · obtain ⟨ds, x, rfl, hds⟩ := takes_of_skipArguments hskip
        have ha := apply_called hfits hk hu hparen
        rw [hskip] at ha
        have hrest := hds.remaining_le
        exact ⟨t :: r :: ds, x, _, _, .cons hn ht (.cons hu (isEof_of_leftParen hparen) hds),
          by omega, leads_replaced hb hn hf hclean ha, rfl, rfl⟩
    | false =>
      have hlead := leads_declined hb hn hf hk hu hparen
      cases he : r.isEof with
      | true => exact .inl ⟨[t, r], w, .more hn ht (.last hu he)⟩
      | false =>
        right
        have hrest := leads_pending [.lookahead r] (by simpa [Pending.token] using he)
          (e := e.waiting r w) rfl
        exact ⟨[t, r], w, _, _, .cons hn ht (.cons hu he .nil), Nat.lt_of_le_of_lt hle hlt,
          hlead.trans hrest, rfl, rfl⟩

theorem proceeds_of_output (hclean : ∀ f ∈ e.registered, ∀ t ∈ f.template, t.isEof = false)
    (hb : e.buffer = ⟨[], s⟩) (h : e.output = .ok us) :
    (∃ ts v, Yields TokenSource.next s ts v) ∨ e.Proceeds s := by
  rcases hn : s.next.value with ⟨error | t, u⟩
  · have hstep : e.next = _ := nextFrom_failure (by rw [hb]) (by rw [hb]; exact hn) []
    rw [output_error (congrArg Turn.result hstep)] at h
    cases h
  · cases ht : t.isEof with
    | true => exact .inl ⟨[t], u, .last hn ht⟩
    | false =>
      have htakes : Takes TokenSource.next s [t] u := .cons hn ht .nil
      have hlt := TokenSource.remaining_next_lt hn ht
      cases hf : triggered? e.registered t with
      | none => exact .inr ⟨[t], u, _, _, htakes, hlt, leads_kept hb hn ht hf, rfl, rfl⟩
      | some f =>
        have htemplate := hclean f (mem_of_triggered? hf)
        cases hk : f.kind with
        | define =>
          exact .inr ⟨[t], u, _, _, htakes, hlt, leads_replaced hb hn hf htemplate
            (congrArg Reported.value (apply_define (fits_of_triggered? hf) hk ⟨[], u⟩)), rfl, rfl⟩
        | call => exact proceeds_of_call hb hn hf hk htemplate h

/-- A run that comes to its end has read the source to its end. -/
theorem yields_of_output (hclean : ∀ f ∈ e.registered, ∀ t ∈ f.template, t.isEof = false)
    (hb : e.buffer = ⟨[], s⟩) (h : e.output = .ok us) :
    ∃ ts v, Yields TokenSource.next s ts v := by
  obtain ⟨n, hn⟩ : ∃ n, n = s.remaining := ⟨_, rfl⟩
  induction n using Nat.strongRecOn generalizing s e us with
  | ind n ih =>
    rcases proceeds_of_output hclean hb h with hy | ⟨ts, u, vs, e', htakes, hlt, hlead, hb', hr⟩
    · exact hy
    · have hout := hlead.output
      rw [h] at hout
      cases ho : e'.output with
      | error x => rw [ho] at hout; cases hout
      | ok ws =>
        obtain ⟨rest, v, hy⟩ := ih _ (hn ▸ hlt) (hr ▸ hclean) hb' ho rfl
        exact ⟨ts ++ rest, v, htakes.yields hy⟩

end Success

theorem triggered?_eq_some_iff {filters : List Filter} (h : (filters.map Filter.name).Nodup)
    {t : Token} {f : Filter} : triggered? filters t = some f ↔ f ∈ filters ∧ f.fits t = true := by
  constructor
  · intro hf
    exact ⟨mem_of_triggered? hf, fits_of_triggered? hf⟩
  · rintro ⟨hmem, hfits⟩
    rw [← find?_fits]
    induction filters with
    | nil => cases hmem
    | cons g filters ih =>
      obtain ⟨hg, hrest⟩ := List.nodup_cons.1 h
      rcases List.mem_cons.1 hmem with rfl | hmem
      · simp [hfits]
      · -- another filter in front has another name, so it does not fit
        have hother : g.fits t = false := by
          refine eq_false_of_ne_true fun hgt => hg ?_
          rw [name_of_fits hgt, ← name_of_fits hfits]
          exact List.mem_map_of_mem hmem
        rw [List.find?_cons, hother]
        exact ih hrest hmem

/-- With distinct names the order of the filters does not matter. -/
theorem triggered?_perm {filters filters' : List Filter} (hp : filters'.Perm filters)
    (h : (filters.map Filter.name).Nodup) (t : Token) :
    triggered? filters' t = triggered? filters t := by
  ext f
  rw [triggered?_eq_some_iff h, triggered?_eq_some_iff ((hp.map _).nodup_iff.2 h), hp.mem_iff]

theorem triggered?_reverse {filters : List Filter} (h : (filters.map Filter.name).Nodup)
    (t : Token) : triggered? filters.reverse t = triggered? filters t :=
  triggered?_perm (List.reverse_perm filters) h t

/-- An engine that starts on an input goes through the parts of all its tokens. -/
theorem told_reset {e : Engine} (hw : e.WellFormed) (input : String) {ts : List Token}
    {s : TokenSource} (hy : Yields TokenSource.next (e.buffer.source.reset input) ts s) :
    Told (e.reset input) (parts e.filters ts) :=
  told_parts (fun t => (triggered?_reverse hw.distinct t).symm) hw.unmarked rfl hy

theorem result_of_yields {e : Engine} (hw : e.WellFormed) (input : String) {ts : List Token}
    {s : TokenSource} (hy : Yields TokenSource.next (e.buffer.source.reset input) ts s) :
    (e.tokenizeAll input).result = (parts e.filters ts).map given := by
  rw [result_tokenizeAll, (told_reset hw input hy).output]
  cases parts e.filters ts <;> simp [Except.map, reset]

theorem cut_of_tokenizeAll {e : Engine} (he : e.Reached) {input : String} {us : List Token}
    (h : (e.tokenizeAll input).result = .ok us) :
    ∃ ts s ps, Yields TokenSource.next (e.buffer.source.reset input) ts s ∧
      Cut e.filters ts ps ∧ us = given ps := by
  have hw := he.wellFormed
  have hout : (e.reset input).output = .ok us := by rw [← result_tokenizeAll, h]
  obtain ⟨ts, s, hy⟩ := yields_of_output (e := e.reset input) hw.unmarked rfl hout
  rw [result_of_yields hw input hy] at h
  obtain ⟨ps, hps, rfl⟩ := map_eq_ok.1 h
  exact ⟨ts, s, ps, hy, cut_of_parts hy hps, rfl⟩

/-- A source that can be cut into parts is filtered to its end. -/
theorem tokenizeAll_of_cut {e : Engine} (hw : e.WellFormed) (input : String) {ts : List Token}
    {s : TokenSource} {ps : List Part}
    (hy : Yields TokenSource.next (e.buffer.source.reset input) ts s)
    (hcut : Cut e.filters ts ps) :
    (e.tokenizeAll input).result = .ok (given ps) ∧
      (e.tokenizeAll input).engine.metrics = ps.foldl Part.count .zero := by
  rw [result_of_yields hw input hy, engine_tokenizeAll,
    (told_reset hw input hy).metrics ps hcut.parts_eq, hcut.parts_eq]
  exact ⟨rfl, rfl⟩

end Engine
end SourceOutline
