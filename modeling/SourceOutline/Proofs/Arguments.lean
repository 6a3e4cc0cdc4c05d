import SourceOutline.Proofs.TokenRun
import SourceOutline.Filter

/-! Argument lists, and what a filter does in front of a source.
Where an argument list closes is said by counting parentheses. A filter finds the same place by going
through the tokens one by one. -/
namespace SourceOutline
namespace Rewriting

/-- The filter that is named by the identifier `t`. -/
def triggered? (filters : List Filter) (t : Token) : Option Filter :=
  filters.find? fun f => t.kind = .identifier ∧ t.image = f.name

/-- The kinds and images of a template at another place, without trivia. -/
def copies (template : List Token) (span : Span) : List Token :=
  template.map fun u => ⟨u.kind, u.image, span, []⟩

def closes (depth : Nat) (ts : List Token) : Bool :=
  ts.countP (·.is .rightParen) == ts.countP (·.is .leftParen) + (depth + 1)

/-- The length of the shortest front that closes the open parentheses. -/
def closing? (depth : Nat) (ts : List Token) : Option Nat :=
  (List.range (ts.length + 1)).find? fun n => closes depth (ts.take n)

def depthAfter (depth : Nat) (t : Token) : Option Nat :=
  match t.kind, depth with
  | .leftParen, depth => some (depth + 1)
  | .rightParen, 0 => none
  | .rightParen, depth + 1 => some depth
  | _, depth => some depth

theorem closes_nil (depth : Nat) : closes depth [] = false := by simp [closes]

theorem closes_cons (depth : Nat) (t : Token) (ts : List Token) :
    closes depth (t :: ts) =
      match depthAfter depth t with
      | none => ts.countP (·.is .rightParen) == ts.countP (·.is .leftParen)
      | some d => closes d ts := by
  obtain ⟨kind, image, span, trivia⟩ := t
  rw [Bool.eq_iff_iff]
  cases kind <;> cases depth <;> simp [closes, depthAfter, Token.is] <;> omega

theorem closing?_nil (depth : Nat) : closing? depth [] = none := by
  simp [closing?, closes_nil, List.range_succ]

theorem closing?_cons (depth : Nat) (t : Token) (ts : List Token) :
    closing? depth (t :: ts) =
      match depthAfter depth t with
      | none => some 1
      | some d => (closing? d ts).map (· + 1) := by
  have hsplit : closing? depth (t :: ts) =
      ((List.range (ts.length + 1)).find? fun n => closes depth (t :: ts.take n)).map (· + 1) := by
    rw [closing?, List.length_cons, List.range_succ_eq_map, List.find?_cons, List.take_zero,
      closes_nil, List.find?_map]
    rfl
  rw [hsplit]
  simp only [closes_cons]
  cases depthAfter depth t with
  | none => simp [List.range_succ_eq_map]
  | some d => rfl

theorem closing?_pos {depth n : Nat} {ts : List Token} (h : closing? depth ts = some n) :
    0 < n := by
  have hc := List.find?_some h
  rcases Nat.eq_zero_or_pos n with rfl | hn
  · rw [List.take_zero, closes_nil] at hc
    cases hc
  · exact hn

theorem closing?_le {depth n : Nat} {ts : List Token} (h : closing? depth ts = some n) :
    n ≤ ts.length := by
  have hmem := List.mem_of_find?_eq_some h
  rw [List.mem_range] at hmem
  omega

end Rewriting

open Rewriting

namespace TokenBuffer

theorem next_of_empty {s u : TokenSource} {t : Token} (h : s.next.value = (.ok t, u)) :
    (TokenBuffer.mk [] s).next.value = (.ok (.lookahead t), ⟨[], u⟩) := by
  simp [next, nextFromSource, h, Except.map]

theorem next_of_failure {s u : TokenSource} {error : LexError}
    (h : s.next.value = (.error error, u)) :
    (TokenBuffer.mk [] s).next.value = (.error error, ⟨[], u⟩) := by
  simp [next, nextFromSource, h, Except.map]

end TokenBuffer

namespace Filter
variable {f : Filter} {trigger t : Token} {s u v : TokenSource} {ts : List Token}

section Step
variable {b c : TokenBuffer} {p : Pending}

/-- One token of an argument list, wherever it comes from. -/
theorem skipArguments_next (hn : b.next.value = (.ok p, c)) (hp : p.token.isEof = false)
    (room depth : Nat) (log : List Event) :
    f.skipArguments trigger (room + 1) depth log b =
      match depthAfter depth p.token with
      | none => ⟨(.ok (), c), log.reverse ++ b.next.events⟩
      | some d => f.skipArguments trigger room d (b.next.events.reverse ++ log) c := by
  rw [skipArguments]
  simp only [hn, hp, Bool.false_eq_true, if_false]
  unfold depthAfter
  cases p.token.kind <;> cases depth <;> simp

theorem skipArguments_next_full (hn : b.next.value = (.ok p, c)) (hp : p.token.isEof = false)
    (depth : Nat) (log : List Event) :
    f.skipArguments trigger 0 depth log b =
      ⟨(.error (.argumentsTooLong f.name trigger.span), c), log.reverse ++ b.next.events⟩ := by
  simp [skipArguments, hn, hp]

theorem skipArguments_next_endMark (hn : b.next.value = (.ok p, c)) (hp : p.token.isEof = true)
    (room depth : Nat) (log : List Event) :
    f.skipArguments trigger room depth log b =
      ⟨(.error (.unbalancedArguments f.name trigger.span), c.restore (.lookahead p.token)),
        log.reverse ++ b.next.events⟩ := by
  cases room <;> simp [skipArguments, hn, hp]

theorem skipArguments_next_failure {error : LexError} (hn : b.next.value = (.error error, c))
    (room depth : Nat) (log : List Event) :
    f.skipArguments trigger room depth log b =
      ⟨(.error (.source error), c), log.reverse ++ b.next.events⟩ := by
  cases room <;> simp [skipArguments, hn]

end Step

/-- What holds wherever an argument list ends or fails, and goes from behind a token to in front of
it, holds of all of them. -/
theorem skipArguments_induct (f : Filter) (trigger : Token)
    {P : List Event → TokenBuffer → Reported (Except FilterError Unit × TokenBuffer) → Prop}
    (failure : ∀ {log b c error}, b.next.value = (.error error, c) →
      P log b ⟨(.error (.source error), c), log.reverse ++ b.next.events⟩)
    (stop : ∀ {log b c p r d}, b.next.value = (.ok p, c) → (∀ error, r ≠ .error (.source error)) →
      d.source = c.source → P log b ⟨(r, d), log.reverse ++ b.next.events⟩)
    (more : ∀ {log b c p r}, b.next.value = (.ok p, c) → P (b.next.events.reverse ++ log) c r →
      P log b r)
    (room depth : Nat) (log : List Event) (b : TokenBuffer) :
    P log b (f.skipArguments trigger room depth log b) := by
  rcases hn : b.next.value with ⟨error | p, c⟩
  · rw [skipArguments_next_failure hn]
    exact failure hn
  · cases hp : p.token.isEof with
    | true =>
      rw [skipArguments_next_endMark hn hp]
      exact stop hn (by simp) rfl
    | false =>
      cases room with
      | zero =>
        rw [skipArguments_next_full hn hp]
        exact stop hn (by simp) rfl
      | succ room =>
        rw [skipArguments_next hn hp]
        cases depthAfter depth p.token with
        | none => exact stop hn (by simp) rfl
        | some d => exact more hn (skipArguments_induct f trigger failure stop more room d _ c)
termination_by room

theorem skipArguments_step (hn : s.next.value = (.ok t, u)) (ht : t.isEof = false)
    (room depth : Nat) (log : List Event) :
    (f.skipArguments trigger (room + 1) depth log ⟨[], s⟩).value =
      match depthAfter depth t with
      | none => (.ok (), ⟨[], u⟩)
      | some d => (f.skipArguments trigger room d (s.next.events.reverse ++ log) ⟨[], u⟩).value := by
  rw [skipArguments_next (TokenBuffer.next_of_empty hn) ht, Pending.token]
  cases depthAfter depth t <;> rfl

theorem skipArguments_full (hn : s.next.value = (.ok t, u)) (ht : t.isEof = false) (depth : Nat)
    (log : List Event) :
    (f.skipArguments trigger 0 depth log ⟨[], s⟩).value =
      (.error (.argumentsTooLong f.name trigger.span), ⟨[], u⟩) := by
  rw [skipArguments_next_full (TokenBuffer.next_of_empty hn) ht]

theorem skipArguments_endMark (hn : s.next.value = (.ok t, u)) (ht : t.isEof = true)
    (room depth : Nat) (log : List Event) :
    (f.skipArguments trigger room depth log ⟨[], s⟩).value.1 =
      .error (.unbalancedArguments f.name trigger.span) := by
  rw [skipArguments_next_endMark (TokenBuffer.next_of_empty hn) ht]

theorem closing?_endMark {depth : Nat} (ht : t.isEof = true) : closing? depth [t] = none := by
  rw [Token.isEof_iff] at ht
  simp [closing?_cons, closing?_nil, depthAfter, ht]

/-- An argument list that closes in time is dropped. -/
theorem skipArguments_closed (f : Filter) (trigger : Token) (h : Yields TokenSource.next s ts v)
    {depth room n : Nat} (hn : closing? depth ts = some n) (hle : n ≤ room) (log : List Event) :
    ∃ u, (f.skipArguments trigger room depth log ⟨[], s⟩).value = (.ok (), ⟨[], u⟩) ∧
      Yields TokenSource.next u (ts.drop n) v := by
  induction h generalizing depth room n log with
  | last _ ht => rw [closing?_endMark ht] at hn; cases hn
  | @more s u v t ts hs ht hy ih =>
    have hpos := closing?_pos hn
    rw [closing?_cons] at hn
    cases room with
    | zero => omega
    | succ room =>
      rw [skipArguments_step hs ht]
      cases hd : depthAfter depth t with
      | none =>
        rw [hd] at hn
        cases hn
        exact ⟨u, rfl, hy⟩
      | some d =>
        rw [hd] at hn
        obtain ⟨k, hk, rfl⟩ := Option.map_eq_some_iff.1 hn
        exact ih hk (by omega) _

/-- An argument list that is too long is refused before its end is seen. -/
theorem skipArguments_long (h : Yields TokenSource.next s ts v) {depth room : Nat}
    (hlt : room < (closing? depth ts).getD (ts.length - 1)) (log : List Event) :
    (f.skipArguments trigger room depth log ⟨[], s⟩).value.1 =
      .error (.argumentsTooLong f.name trigger.span) := by
  induction h generalizing depth room log with
  | last _ ht => rw [closing?_endMark ht] at hlt; simp at hlt
  | @more s u v t ts hs ht hy ih =>
    rw [closing?_cons] at hlt
    cases room with
    | zero => rw [skipArguments_full hs ht]
    | succ room =>
      rw [skipArguments_step hs ht]
      cases hd : depthAfter depth t with
      | none => simp [hd] at hlt
      | some d =>
        refine ih ?_ _
        have hpos := List.length_pos_iff.2 hy.ne_nil
        rw [hd] at hlt
        cases hc : closing? d ts with
        | none => simp [hc] at hlt ⊢; omega
        | some k => simp [hc] at hlt ⊢; omega

/-- An argument list that meets the end mark in time is reported as open. -/
theorem skipArguments_open (h : Yields TokenSource.next s ts v) {depth room : Nat}
    (hn : closing? depth ts = none) (hle : ts.length - 1 ≤ room) (log : List Event) :
    (f.skipArguments trigger room depth log ⟨[], s⟩).value.1 =
      .error (.unbalancedArguments f.name trigger.span) := by
  induction h generalizing depth room log with
  | last hs ht => exact skipArguments_endMark hs ht room depth log
  | @more s u v t ts hs ht hy ih =>
    rw [closing?_cons] at hn
    have hpos := List.length_pos_iff.2 hy.ne_nil
    simp only [List.length_cons] at hle
    cases room with
    | zero => omega
    | succ room =>
      rw [skipArguments_step hs ht]
      cases hd : depthAfter depth t with
      | none => simp [hd] at hn
      | some d =>
        rw [hd] at hn
        exact ih (by simpa using hn) (by omega) _

theorem skipArguments_failure {error : LexError} (hn : s.next.value = (.error error, u))
    (room depth : Nat) (log : List Event) :
    (f.skipArguments trigger room depth log ⟨[], s⟩).value.1 = .error (.source error) := by
  rw [skipArguments_next_failure (TokenBuffer.next_of_failure hn)]

theorem takes_of_skipArguments {s : TokenSource} {room depth : Nat} {log : List Event}
    {b : TokenBuffer} (h : (f.skipArguments trigger room depth log ⟨[], s⟩).value = (.ok (), b)) :
    ∃ ds u, b = ⟨[], u⟩ ∧ Takes TokenSource.next s ds u := by
  have hok := congrArg Prod.fst h
  rcases hs : s.next.value with ⟨error | t, u⟩
  · rw [skipArguments_failure hs] at hok
    cases hok
  · cases ht : t.isEof with
    | true =>
      rw [skipArguments_endMark hs ht] at hok
      cases hok
    | false =>
      cases room with
      | zero =>
        rw [skipArguments_full hs ht] at hok
        cases hok
      | succ room =>
        rw [skipArguments_step hs ht] at h
        cases hd : depthAfter depth t with
        | none =>
          rw [hd] at h
          cases h
          exact ⟨[t], u, rfl, .cons hs ht .nil⟩
        | some d =>
          rw [hd] at h
          obtain ⟨ds, w, rfl, hw⟩ := takes_of_skipArguments h
          exact ⟨t :: ds, w, rfl, .cons hs ht hw⟩
termination_by room

theorem apply_define (hf : f.fits trigger = true) (hk : f.kind = .define) (b : TokenBuffer) :
    f.apply trigger b = .silent (.ok true, b.pushReplacement (copies f.template trigger.span)) := by
  simp only [apply, hf, hk, if_true]
  rfl

section Call
variable {b c : TokenBuffer} {p : Pending}

theorem apply_next_uncalled (hf : f.fits trigger = true) (hk : f.kind = .call)
    (hn : b.next.value = (.ok p, c)) (hp : p.token.is .leftParen = false) :
    f.apply trigger b = ⟨(.ok false, c.restore p), b.next.events⟩ := by
  simp [apply, hf, hk, hn, hp]

theorem apply_next_called (hf : f.fits trigger = true) (hk : f.kind = .call)
    (hn : b.next.value = (.ok p, c)) (hp : p.token.is .leftParen = true) :
    f.apply trigger b =
      let s := f.skipArguments trigger FilterError.argumentLimit 0 b.next.events.reverse c
      ⟨match s.value with
        | (.error e, b) => (.error e, b)
        | (.ok (), b) => (.ok true, b.pushReplacement (copies f.template trigger.span)),
        s.events⟩ := by
  simp only [apply, hf, hk, hn, hp, if_true]
  rcases (f.skipArguments trigger FilterError.argumentLimit 0 b.next.events.reverse c).value with
    ⟨error | _, d⟩
  · rfl
  · rfl

theorem apply_next_failure {error : LexError} (hf : f.fits trigger = true)
    (hk : f.kind = .call) (hn : b.next.value = (.error error, c)) :
    f.apply trigger b = ⟨(.error (.source error), c), b.next.events⟩ := by
  simp [apply, hf, hk, hn]

end Call

theorem apply_uncalled (hf : f.fits trigger = true) (hk : f.kind = .call)
    (hn : s.next.value = (.ok t, u)) (ht : t.is .leftParen = false) :
    (f.apply trigger ⟨[], s⟩).value = (.ok false, ⟨[.lookahead t], u⟩) := by
  rw [apply_next_uncalled hf hk (TokenBuffer.next_of_empty hn) ht]
  rfl

theorem apply_called (hf : f.fits trigger = true) (hk : f.kind = .call)
    (hn : s.next.value = (.ok t, u)) (ht : t.is .leftParen = true) :
    (f.apply trigger ⟨[], s⟩).value =
      match (f.skipArguments trigger FilterError.argumentLimit 0 s.next.events.reverse
        ⟨[], u⟩).value with
      | (.error e, b) => (.error e, b)
      | (.ok (), b) => (.ok true, b.pushReplacement (copies f.template trigger.span)) := by
  rw [apply_next_called hf hk (TokenBuffer.next_of_empty hn) ht]
  rfl

theorem apply_failure {error : LexError} (hf : f.fits trigger = true) (hk : f.kind = .call)
    (hn : s.next.value = (.error error, u)) :
    (f.apply trigger ⟨[], s⟩).value = (.error (.source error), ⟨[], u⟩) := by
  rw [apply_next_failure hf hk (TokenBuffer.next_of_failure hn)]

theorem fits_iff : f.fits t = true ↔ t.kind = .identifier ∧ t.image = f.name := by
  simp [fits, Token.isIdentifier, Token.is]

theorem isEof_of_fits (hf : f.fits t = true) : t.isEof = false := by
  rw [Token.isEof, Token.is, (fits_iff.1 hf).1]
  rfl

theorem name_of_fits (hf : f.fits t = true) : f.name = t.image := (fits_iff.1 hf).2.symm

theorem find?_fits (filters : List Filter) (t : Token) :
    filters.find? (·.fits t) = triggered? filters t := by
  have hfits : (fun f : Filter => f.fits t) =
      fun f => decide (t.kind = .identifier ∧ t.image = f.name) := by
    funext f
    rw [Bool.eq_iff_iff, decide_eq_true_iff]
    exact fits_iff
  rw [triggered?, ← hfits]

theorem fits_of_triggered? {filters : List Filter} (h : triggered? filters t = some f) :
    f.fits t = true := by
  rw [← find?_fits] at h
  simpa using List.find?_some h

theorem isEof_of_triggered? {filters : List Filter} (h : triggered? filters t = some f) :
    t.isEof = false :=
  isEof_of_fits (fits_of_triggered? h)

theorem mem_of_triggered? {filters : List Filter} (h : triggered? filters t = some f) :
    f ∈ filters :=
  List.mem_of_find?_eq_some h

theorem isEof_of_leftParen (ht : t.is .leftParen = true) : t.isEof = false := by
  simp only [Token.isEof, Token.is, beq_iff_eq] at ht ⊢
  rw [ht]
  rfl

theorem leftParen_of_isEof (ht : t.isEof = true) : t.is .leftParen = false := by
  rw [Token.isEof_iff] at ht
  rw [Token.is, ht]
  rfl

theorem triggered?_of_isEof {filters : List Filter} (ht : t.isEof = true) :
    triggered? filters t = none := by
  rw [← find?_fits]
  refine List.find?_eq_none.2 fun f _ hf => ?_
  rw [isEof_of_fits hf] at ht
  cases ht

end Filter
end SourceOutline
