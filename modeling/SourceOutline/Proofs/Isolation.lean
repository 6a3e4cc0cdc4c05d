import SourceOutline.Dump
import SourceOutline.Proofs.LexerStep
import SourceOutline.Proofs.SourceParts

/-! Listings by one engine, one after another.
Whatever an engine has been through, starting over on a text gives the engine that a fresh one would
be. So nothing of an earlier text shows in a later listing, however the earlier one ended. -/
namespace SourceOutline

@[simp] theorem TokenSource.reset_next (s : TokenSource) (input : String) :
    s.next.value.2.reset input = s.reset input := by
  cases s with
  | text l => exact congrArg (fun q => text (.ofString q input)) l.preferences_next_snd
  | script c =>
    unfold next
    dsimp only
    split <;> rfl

@[simp] theorem TokenSource.reset_reset (s : TokenSource) (text input : String) :
    (s.reset text).reset input = s.reset input := by
  cases s <;> rfl

theorem TokenBuffer.reset_next {b c : TokenBuffer} {r : Except LexError Pending}
    (h : b.next.value = (r, c)) (input : String) : c.reset input = b.reset input := by
  have hb : b.next.value.2.reset input = b.reset input := by
    unfold next
    split
    · rfl
    · simp [nextFromSource, reset]
  rwa [h] at hb

namespace Filter

@[simp] theorem reset_skipArguments (f : Filter) (trigger : Token) (room depth : Nat)
    (log : List Event) (b : TokenBuffer) (input : String) :
    (f.skipArguments trigger room depth log b).value.2.reset input = b.reset input := by
  refine skipArguments_induct f trigger (P := fun _ b r => r.value.2.reset input = b.reset input)
    ?_ ?_ ?_ room depth log b
  · intro log b c error hn
    exact TokenBuffer.reset_next hn input
  · intro log b c p r d hn _ hd
    have hsource : d.reset input = c.reset input := by rw [TokenBuffer.reset, hd, TokenBuffer.reset]
    exact hsource.trans (TokenBuffer.reset_next hn input)
  · intro log b c p r hn hrest
    exact hrest.trans (TokenBuffer.reset_next hn input)

@[simp] theorem reset_apply (f : Filter) (trigger : Token) (b : TokenBuffer) (input : String) :
    (f.apply trigger b).value.2.reset input = b.reset input := by
  unfold apply
  split
  · split
    · rfl
    · dsimp only
      split
      · next hn => exact TokenBuffer.reset_next hn input
      · next p c hn =>
        have hc := TokenBuffer.reset_next hn input
        split
        · have hs := f.reset_skipArguments trigger FilterError.argumentLimit 0
            b.next.events.reverse c input
          split
          · next h => rw [h] at hs; exact hs.trans hc
          · next h => rw [h] at hs; exact hs.trans hc
        · exact hc
  · rfl

end Filter

namespace Engine

@[simp] theorem reset_substitute (e : Engine) (t : Token) (input : String) :
    (e.substitute t).value.2.reset input = e.reset input := by
  unfold substitute
  split
  · rfl
  · next f _ =>
    have hb := f.reset_apply t e.buffer input
    dsimp only
    split
    all_goals
      next ha =>
      rw [ha] at hb
      simpa [reset] using hb

@[simp] theorem reset_nextFrom (e : Engine) (log : List Event) (input : String) :
    (e.nextFrom log).engine.reset input = e.reset input := by
  have hmoved : ∀ (e : Engine) s r, e.buffer.source.next.value = (r, s) →
      (e.withSource s).reset input = e.reset input := by
    intro e s r h
    have hs := e.buffer.source.reset_next input
    rw [h] at hs
    simpa [reset, withSource, TokenBuffer.reset] using hs
  have hsub : ∀ (e : Engine) s r t q after, e.buffer.source.next.value = (r, s) →
      ((e.withSource s).substitute t).value = (q, after) → after.reset input = e.reset input := by
    intro e s r t q after h hq
    have hs := reset_substitute (e.withSource s) t input
    rw [hq] at hs
    exact hs.trans (hmoved e s r h)
  fun_induction nextFrom e log with
  | case1 => rfl
  | case2 e log _ r error s hn => exact hmoved e s _ hn
  | case3 e log _ r t s hn => exact hmoved e s _ hn
  | case4 e log _ r t s hn _ q _ error after hs => exact hsub e s _ t _ after hn hs
  | case5 e log _ r t s hn _ q _ after hs => exact hsub e s _ t _ after hn hs
  | case6 e log _ r t s hn _ q _ f after hs _ ih => exact ih.trans (hsub e s _ t _ after hn hs)

/-- No run leaves a trace for the next one. -/
@[simp] theorem reset_runFrom (e : Engine) (found : List Token) (log : List Event)
    (input : String) : (e.runFrom found log).engine.reset input = e.reset input := by
  fun_induction runFrom e found log with
  | case1 e => exact reset_nextFrom e [] input
  | case2 e => exact reset_nextFrom e [] input
  | case3 e _ _ _ _ _ _ _ ih => exact ih.trans (reset_nextFrom e [] input)

@[simp] theorem reset_tokenizeAll (e : Engine) (text input : String) :
    (e.tokenizeAll text).engine.reset input = e.reset input := by
  rw [engine_tokenizeAll, final, reset_runFrom]
  simp [reset, TokenBuffer.reset]

theorem tokenizeAll_congr {e e' : Engine} {text : String} (h : e'.reset text = e.reset text) :
    e'.tokenizeAll text = e.tokenizeAll text := by
  rw [tokenizeAll, tokenizeAll, h]

end Engine

namespace Dump
open Writer

@[simp] theorem engine_source {σ : Type} [Writer σ] (e : Engine) (options : DumpOptions)
    (text : String) (out : σ) :
    (source e options text out).engine = (e.tokenizeAll text).engine := by
  unfold source
  dsimp only
  split
  · rfl
  · split <;> rfl

/-- A listing is decided before anything is written: it is refused, or it writes lines that do not
depend on where they go. -/
theorem source_cases (e : Engine) (options : DumpOptions) (text : String) :
    (∃ error, ∀ {σ : Type} [Writer σ] (out : σ),
      (source e options text out).result = .error (.filter error) ∧
        (source e options text out).sink = out) ∨
    (∃ error, ∀ {σ : Type} [Writer σ] (out : σ),
      (source e options text out).result = .error (.scope error) ∧
        (source e options text out).sink = out) ∨
    ∃ ls, ∀ {σ : Type} [Writer σ] (out : σ),
      (source e options text out).result = (writeLines out ls).1.mapError .output ∧
        (source e options text out).sink = (writeLines out ls).2 := by
  cases hr : (e.tokenizeAll text).result with
  | error x => exact .inl ⟨x, fun out => by simp [source, hr]⟩
  | ok tokens =>
    right
    cases hl : (lines options tokens).value with
    | error x => exact .inl ⟨x, fun out => by simp [source, hr, hl]⟩
    | ok ls => exact .inr ⟨ls, fun out => by simp [source, hr, hl]⟩

section
variable {σ : Type} [Writer σ] {e : Engine} {options : DumpOptions} {text : String} {out : σ}

/-- Only a listing whose writing fails, or that succeeds, has written anything. -/
theorem sink_of_error {error : DumpError} (h : (source e options text out).result = .error error)
    (hne : ∀ reason, error ≠ .output reason) : (source e options text out).sink = out := by
  rcases source_cases e options text with ⟨_, hs⟩ | ⟨_, hs⟩ | ⟨ls, hs⟩
  · exact (hs out).2
  · exact (hs out).2
  · rw [(hs out).1] at h
    cases hw : (writeLines out ls).1 with
    | ok _ => rw [hw] at h; cases h
    | error reason =>
      rw [hw] at h
      cases h
      exact absurd rfl (hne reason)

/-- A listing whose writing fails has written a part of what would be written without the failure. -/
theorem received_of_output {reason : String}
    (h : (source e options text out).result = .error (.output reason)) :
    ∃ all taken, taken <+: all ∧
      received (source e options text out).sink = received out ++ taken ∧
      ∀ {τ : Type} [Writer τ] (steady : τ), Steady steady →
        (source e options text steady).result = .ok () ∧
          received (source e options text steady).sink = received steady ++ all := by
  rcases source_cases e options text with ⟨_, hs⟩ | ⟨_, hs⟩ | ⟨ls, hs⟩
  · rw [(hs out).1] at h
    cases h
  · rw [(hs out).1] at h
    cases h
  · refine ⟨bytes ls, ?_⟩
    rcases hw : writeLines out ls with ⟨x | u, s⟩
    · obtain ⟨taken, htaken, hr⟩ := received_writeLines_error hw
      refine ⟨taken, htaken, by rw [(hs out).2, hw, hr], ?_⟩
      intro τ _ steady hsteady
      have hok : writeLines steady ls = (.ok (), (writeLines steady ls).2) :=
        Prod.ext (hsteady ls) rfl
      rw [(hs steady).1, (hs steady).2, hsteady ls]
      exact ⟨rfl, received_writeLines_ok hok⟩
    · rw [(hs out).1, hw] at h
      cases h

end

structure Call where
  {State : Type}
  [writer : Writer State]
  options : DumpOptions
  text : String
  out : State

attribute [instance] Call.writer

def Call.engine (e : Engine) (c : Call) : Engine := (source e c.options c.text c.out).engine

theorem reset_calls (e : Engine) (calls : List Call) (input : String) :
    (calls.foldl Call.engine e).reset input = e.reset input := by
  induction calls generalizing e with
  | nil => rfl
  | cons c calls ih =>
    rw [List.foldl_cons, ih, Call.engine, engine_source, Engine.reset_tokenizeAll]

theorem source_calls {σ : Type} [Writer σ] (e : Engine) (calls : List Call) (options : DumpOptions)
    (text : String) (out : σ) :
    source (calls.foldl Call.engine e) options text out = source e options text out := by
  rw [source, source, Engine.tokenizeAll_congr (reset_calls e calls text)]

/-- Listings by one engine do not depend on one another, however they end. One that is refused writes
nothing. One whose writing fails has written the first bytes of what it writes elsewhere. -/
theorem source_isolated {σ : Type} [Writer σ] (e : Engine) (earlier : List Call)
    (options : DumpOptions) (text : String) (out : σ) :
    let turn := source (earlier.foldl Call.engine e) options text out
    turn = source e options text out ∧
      (∀ error, turn.result = .error (.filter error) → turn.sink = out) ∧
      (∀ error, turn.result = .error (.scope error) → turn.sink = out) ∧
      ∀ reason, turn.result = .error (.output reason) →
        ∃ all taken, taken <+: all ∧ received turn.sink = received out ++ taken ∧
          ∀ {τ : Type} [Writer τ] (steady : τ), Steady steady →
            (source e options text steady).result = .ok () ∧
              received (source e options text steady).sink = received steady ++ all := by
  rw [source_calls]
  refine ⟨rfl, ?_, ?_, ?_⟩
  · intro error h
    exact sink_of_error h (by simp)
  · intro error h
    exact sink_of_error h (by simp)
  · intro reason h
    exact received_of_output h

theorem source_isolated_limit :
    let t (kind : TokenKind) (image : String) := Token.plain kind image (.point .start)
    let ts := [t .identifier "x", t .identifier "y", t .eof ""]
    let e := Engine.ofSource (.script (.ofItems (ts.map .ok))) ⟨false, false⟩
    let options : DumpOptions := ⟨.tokens, .text, false⟩
    let earlier : List Call := [⟨options, "", Sink.bounded 0⟩]
    let turn := source (earlier.foldl Call.engine e) options "" (Sink.bounded 30)
    turn.result = .error (.output "limit") ∧
      ∃ taken, taken <+: received (source e options "" Sink.unbounded).sink ∧
        received turn.sink = taken := by
  intro t ts e options earlier turn
  have hy : ∃ s, Yields TokenSource.next (e.buffer.source.reset "") ts s :=
    ⟨_, .more rfl rfl (.more rfl rfl (.last rfl rfl))⟩
  obtain ⟨s, hy⟩ := hy
  have htokens : (e.tokenizeAll "").result = .ok ts := by
    rw [Engine.result_of_yields (Engine.Reached.start _ _).wellFormed "" hy]
    decide +kernel
  obtain ⟨heq, _, _, hlimit⟩ := source_isolated e earlier options "" (Sink.bounded 30)
  have hresult : turn.result = .error (.output "limit") := by
    rw [show turn = _ from heq, source, htokens]
    decide +kernel
  obtain ⟨all, taken, htaken, hr, hall⟩ := hlimit "limit" hresult
  have hsteady := (hall Sink.unbounded Sink.steady_unbounded).2
  refine ⟨hresult, taken, ?_, hr⟩
  rw [hsteady]
  exact htaken

end Dump
end SourceOutline
