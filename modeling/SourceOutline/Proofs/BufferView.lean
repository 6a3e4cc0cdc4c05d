import Mathlib.Data.Stream.Init
import SourceOutline.Proofs.Arguments

/-! A buffer as a stack of tokens in front of its source.
The view of a buffer is all that a reader will be given, call by call. Every operation is told by
what it does to the view, whether the tokens stand in the buffer or are still to come from the
source. -/
namespace SourceOutline

/-- A token, or a failure of the source, for each call to come. -/
abbrev TokenView := Stream' (Except LexError Token)

def TokenView.behind (ts : List Token) (v : TokenView) : TokenView := ts.map .ok ++ₛ v

open TokenView (behind)

namespace TokenView

theorem behind_append (ts us : List Token) (v : TokenView) :
    behind (ts ++ us) v = behind ts (behind us v) := by
  simp [behind]

theorem eq_cons_of_head {v : TokenView} {x : Except LexError Token} (h : v.head = x) :
    v = .cons x v.tail := by
  rw [← h, Stream'.eta]

end TokenView

def TokenSource.supply (s : TokenSource) : TokenView := Stream'.corec' (fun s => s.next.value) s

namespace TokenBuffer

/-- The pending tokens and then those of the source. -/
def view (b : TokenBuffer) : TokenView := behind (b.pending.map Pending.token) b.source.supply

theorem view_next (b : TokenBuffer) :
    b.view = .cons (b.next.value.1.map Pending.token) b.next.value.2.view := by
  obtain ⟨pending, source⟩ := b
  cases pending with
  | cons p rest => rfl
  | nil =>
    have hgiven : (source.next.value.1.map Pending.lookahead).map Pending.token =
        source.next.value.1 := by
      cases source.next.value.1 <;> rfl
    rw [next]
    dsimp only [nextFromSource]
    rw [hgiven]
    exact Stream'.corec'_eq (fun s : TokenSource => s.next.value) source

@[simp] theorem view_restore (b : TokenBuffer) (p : Pending) :
    (b.restore p).view = .cons (.ok p.token) b.view := rfl

@[simp] theorem view_pushReplacement (b : TokenBuffer) (ts : List Token) :
    (b.pushReplacement ts).view = behind ts b.view := by
  have htokens : (ts.map Pending.replacement).map Pending.token = ts := by
    simp [Function.comp_def, Pending.token]
  rw [view, pushReplacement, List.map_append, htokens]
  exact TokenView.behind_append _ _ _

theorem next_of_view {b : TokenBuffer} {x : Except LexError Token} {v : TokenView}
    (h : b.view = .cons x v) :
    b.next.value.1.map Pending.token = x ∧ b.next.value.2.view = v := by
  rw [view_next] at h
  exact Stream'.cons_injective2 h

theorem next_of_view_token {b : TokenBuffer} {t : Token} {v : TokenView}
    (h : b.view = .cons (.ok t) v) :
    ∃ p c, b.next.value = (.ok p, c) ∧ p.token = t ∧ c.view = v := by
  obtain ⟨hhead, htail⟩ := next_of_view h
  rcases hn : b.next.value with ⟨failure | p, c⟩ <;> rw [hn] at hhead htail
  · cases hhead
  · exact ⟨p, c, rfl, Except.ok.inj hhead, htail⟩

theorem next_of_view_failure {b : TokenBuffer} {error : LexError} {v : TokenView}
    (h : b.view = .cons (.error error) v) :
    ∃ c, b.next.value = (.error error, c) ∧ c.view = v := by
  obtain ⟨hhead, htail⟩ := next_of_view h
  rcases hn : b.next.value with ⟨x | p, c⟩ <;> rw [hn] at hhead htail
  · exact ⟨c, by rw [Except.error.inj hhead], htail⟩
  · cases hhead

end TokenBuffer

namespace Rewriting

structure OpenList (depth : Nat) (ts : List Token) : Prop where
  unmarked : ∀ t ∈ ts, t.isEof = false
  unclosed : closing? depth ts = none

/-- The tokens hold no end mark, and the last of them closes `depth + 1` parentheses. -/
structure ClosedList (depth : Nat) (ts : List Token) : Prop where
  unmarked : ∀ t ∈ ts, t.isEof = false
  closed : closing? depth ts = some ts.length

variable {depth d : Nat} {t : Token} {ts : List Token}

theorem openList_nil (depth : Nat) : OpenList depth [] :=
  ⟨by simp, closing?_nil depth⟩

theorem openList_cons :
    OpenList depth (t :: ts) ↔
      t.isEof = false ∧ ∃ d, depthAfter depth t = some d ∧ OpenList d ts := by
  constructor
  · rintro ⟨hmarks, hopen⟩
    obtain ⟨ht, hts⟩ := List.forall_mem_cons.1 hmarks
    rw [closing?_cons] at hopen
    cases hd : depthAfter depth t with
    | none => rw [hd] at hopen; cases hopen
    | some d =>
      rw [hd] at hopen
      exact ⟨ht, d, rfl, hts, Option.map_eq_none_iff.1 hopen⟩
  · rintro ⟨ht, d, hd, hts, hopen⟩
    refine ⟨List.forall_mem_cons.2 ⟨ht, hts⟩, ?_⟩
    simp [closing?_cons, hd, hopen]

theorem closedList_cons :
    ClosedList depth (t :: ts) ↔
      t.isEof = false ∧ (depthAfter depth t = none ∧ ts = [] ∨
        ∃ d, depthAfter depth t = some d ∧ ClosedList d ts) := by
  constructor
  · rintro ⟨hmarks, hclosed⟩
    obtain ⟨ht, hts⟩ := List.forall_mem_cons.1 hmarks
    rw [closing?_cons] at hclosed
    cases hd : depthAfter depth t with
    | none =>
      rw [hd] at hclosed
      exact ⟨ht, .inl ⟨rfl, by simpa using hclosed⟩⟩
    | some d =>
      rw [hd] at hclosed
      exact ⟨ht, .inr ⟨d, rfl, hts, by simpa using hclosed⟩⟩
  · rintro ⟨ht, ⟨hd, rfl⟩ | ⟨d, hd, hts, hclosed⟩⟩
    · exact ⟨by simpa using ht, by simp [closing?_cons, hd]⟩
    · refine ⟨List.forall_mem_cons.2 ⟨ht, hts⟩, ?_⟩
      simp [closing?_cons, hd, hclosed]

end Rewriting

open Rewriting

namespace Filter
open FilterError (argumentLimit)
open TokenBuffer (next_of_view_token next_of_view_failure)

/-- What comes of dropping the rest of an argument list from a view, and the view after it. At most
`room` tokens may be dropped. -/
inductive Skips (f : Filter) (trigger : Token) (room depth : Nat) (v : TokenView) :
    Except FilterError Unit → TokenView → Prop
  /-- The list is dropped. -/
  | closed {args : List Token} {rest : TokenView} (hargs : ClosedList depth args)
      (hroom : args.length ≤ room) (hv : v = behind args rest) :
      Skips f trigger room depth v (.ok ()) rest
  /-- The end mark that is met in an open list stays. -/
  | unclosed {args : List Token} {t : Token} {rest : TokenView} (hargs : OpenList depth args)
      (hroom : args.length ≤ room) (ht : t.isEof = true)
      (hv : v = behind args (.cons (.ok t) rest)) :
      Skips f trigger room depth v (.error (.unbalancedArguments f.name trigger.span))
        (.cons (.ok t) rest)
  /-- One token more than there is room for. -/
  | overlong {args : List Token} {t : Token} {rest : TokenView} (hargs : OpenList depth args)
      (hroom : args.length = room) (ht : t.isEof = false)
      (hv : v = behind args (.cons (.ok t) rest)) :
      Skips f trigger room depth v (.error (.argumentsTooLong f.name trigger.span)) rest
  | failed {args : List Token} {error : LexError} {rest : TokenView}
      (hargs : OpenList depth args) (hroom : args.length ≤ room)
      (hv : v = behind args (.cons (.error error) rest)) :
      Skips f trigger room depth v (.error (.source error)) rest

variable {f : Filter} {trigger t : Token} {room depth d : Nat} {v w : TokenView}
  {r : Except FilterError Unit} {b : TokenBuffer} {ts : List Token}

theorem Skips.cons (ht : t.isEof = false) (hd : depthAfter depth t = some d)
    (h : Skips f trigger room d v r w) :
    Skips f trigger (room + 1) depth (.cons (.ok t) v) r w := by
  have hopen : ∀ {ts : List Token}, OpenList d ts → OpenList depth (t :: ts) :=
    fun hts => openList_cons.2 ⟨ht, d, hd, hts⟩
  cases h with
  | closed hargs hroom hv =>
    exact .closed (closedList_cons.2 ⟨ht, .inr ⟨d, hd, hargs⟩⟩) (Nat.succ_le_succ hroom)
      (congrArg (Stream'.cons (.ok t)) hv)
  | unclosed hargs hroom he hv =>
    exact .unclosed (hopen hargs) (Nat.succ_le_succ hroom) he (congrArg (Stream'.cons (.ok t)) hv)
  | overlong hargs hroom he hv =>
    exact .overlong (hopen hargs) (congrArg (· + 1) hroom) he (congrArg (Stream'.cons (.ok t)) hv)
  | failed hargs hroom hv =>
    exact .failed (hopen hargs) (Nat.succ_le_succ hroom) (congrArg (Stream'.cons (.ok t)) hv)

/-- Every view goes on in one of these ways. -/
theorem exists_skips (f : Filter) (trigger : Token) (room depth : Nat) (v : TokenView) :
    ∃ r w, Skips f trigger room depth v r w := by
  rw [← Stream'.eta v]
  cases v.head with
  | error error => exact ⟨_, _, .failed (openList_nil depth) (Nat.zero_le _) rfl⟩
  | ok t =>
    cases ht : t.isEof with
    | true => exact ⟨_, _, .unclosed (openList_nil depth) (Nat.zero_le _) ht rfl⟩
    | false =>
      cases room with
      | zero => exact ⟨_, _, .overlong (openList_nil depth) rfl ht rfl⟩
      | succ room =>
        cases hd : depthAfter depth t with
        | none =>
          have hlast : ClosedList depth [t] := closedList_cons.2 ⟨ht, .inl ⟨hd, rfl⟩⟩
          exact ⟨_, _, .closed hlast (Nat.succ_le_succ (Nat.zero_le room)) rfl⟩
        | some d =>
          obtain ⟨r, w, h⟩ := exists_skips f trigger room d v.tail
          exact ⟨r, w, h.cons ht hd⟩
termination_by room

/-- Tokens that leave the list open are dropped one by one. -/
theorem skipArguments_openList (f : Filter) (trigger : Token) (h : OpenList depth ts)
    (hb : b.view = behind ts v) (room : Nat) (log : List Event) :
    ∃ d c log', c.view = v ∧
      f.skipArguments trigger (room + ts.length) depth log b =
        f.skipArguments trigger room d log' c := by
  induction ts generalizing depth b log with
  | nil => exact ⟨depth, b, log, hb, rfl⟩
  | cons t ts ih =>
    obtain ⟨ht, d, hd, hts⟩ := openList_cons.1 h
    obtain ⟨p, c, hn, rfl, hc⟩ := next_of_view_token hb
    rw [List.length_cons, ← Nat.add_assoc, skipArguments_next hn ht, hd]
    exact ih hts hc _

theorem skipArguments_closedList (f : Filter) (trigger : Token) (h : ClosedList depth ts)
    (hb : b.view = behind ts v) (hroom : ts.length ≤ room) (log : List Event) :
    ∃ c, (f.skipArguments trigger room depth log b).value = (.ok (), c) ∧ c.view = v := by
  induction ts generalizing depth b room log with
  | nil => exact absurd h.closed (by simp [closing?_nil])
  | cons t ts ih =>
    obtain ⟨ht, hts⟩ := closedList_cons.1 h
    obtain ⟨p, c, hn, rfl, hc⟩ := next_of_view_token hb
    cases room with
    | zero => exact absurd hroom (by simp)
    | succ room =>
      rw [skipArguments_next hn ht]
      obtain ⟨hd, rfl⟩ | ⟨d, hd, hts⟩ := hts
      · rw [hd]
        exact ⟨c, rfl, hc⟩
      · rw [hd]
        exact ih hts hc (Nat.le_of_succ_le_succ hroom) _

theorem Skips.skipArguments (h : Skips f trigger room depth b.view r w) (log : List Event) :
    ∃ c, (f.skipArguments trigger room depth log b).value = (r, c) ∧ c.view = w := by
  cases h with
  | closed hargs hroom hv => exact skipArguments_closedList f trigger hargs hv hroom log
  | unclosed hargs hroom ht hv =>
    obtain ⟨k, rfl⟩ := Nat.exists_eq_add_of_le' hroom
    obtain ⟨d, c, _, hc, heq⟩ := skipArguments_openList f trigger hargs hv k log
    obtain ⟨p, a, hn, rfl, rfl⟩ := next_of_view_token hc
    exact ⟨_, by rw [heq, skipArguments_next_endMark hn ht], rfl⟩
  | overlong hargs hroom ht hv =>
    obtain ⟨d, c, _, hc, heq⟩ := skipArguments_openList f trigger hargs hv 0 log
    obtain ⟨p, a, hn, rfl, rfl⟩ := next_of_view_token hc
    rw [Nat.zero_add, hroom] at heq
    exact ⟨_, by rw [heq, skipArguments_next_full hn ht], rfl⟩
  | failed hargs hroom hv =>
    obtain ⟨k, rfl⟩ := Nat.exists_eq_add_of_le' hroom
    obtain ⟨d, c, _, hc, heq⟩ := skipArguments_openList f trigger hargs hv k log
    obtain ⟨a, hn, rfl⟩ := next_of_view_failure hc
    exact ⟨_, by rw [heq, skipArguments_next_failure hn], rfl⟩

inductive Acts (f : Filter) (trigger : Token) (v : TokenView) :
    Except FilterError Bool → TokenView → Prop
  | unfit (hf : f.fits trigger = false) : Acts f trigger v (.ok false) v
  /-- A define replaces nothing but its trigger. -/
  | defined (hf : f.fits trigger = true) (hk : f.kind = .define) :
      Acts f trigger v (.ok true) (behind (copies f.template trigger.span) v)
  | declined {t : Token} (hf : f.fits trigger = true) (hk : f.kind = .call)
      (ht : t.is .leftParen = false) (hv : v.head = .ok t) : Acts f trigger v (.ok false) v
  /-- A call filter replaces the list from its opening parenthesis through the closing one. -/
  | called {t : Token} {u rest : TokenView} (hf : f.fits trigger = true) (hk : f.kind = .call)
      (ht : t.is .leftParen = true) (hv : v = .cons (.ok t) u)
      (hu : Skips f trigger argumentLimit 0 u (.ok ()) rest) :
      Acts f trigger v (.ok true) (behind (copies f.template trigger.span) rest)
  | refused {t : Token} {u rest : TokenView} {e : FilterError} (hf : f.fits trigger = true)
      (hk : f.kind = .call) (ht : t.is .leftParen = true) (hv : v = .cons (.ok t) u)
      (hu : Skips f trigger argumentLimit 0 u (.error e) rest) : Acts f trigger v (.error e) rest
  | failed {error : LexError} {rest : TokenView} (hf : f.fits trigger = true)
      (hk : f.kind = .call) (hv : v = .cons (.error error) rest) :
      Acts f trigger v (.error (.source error)) rest

theorem exists_acts (f : Filter) (trigger : Token) (v : TokenView) :
    ∃ r w, Acts f trigger v r w := by
  cases hf : f.fits trigger with
  | false => exact ⟨_, _, .unfit hf⟩
  | true =>
    cases hk : f.kind with
    | define => exact ⟨_, _, .defined hf hk⟩
    | call =>
      cases hv : v.head with
      | error error => exact ⟨_, _, .failed hf hk (TokenView.eq_cons_of_head hv)⟩
      | ok t =>
        cases ht : t.is .leftParen with
        | false => exact ⟨_, _, .declined hf hk ht hv⟩
        | true =>
          obtain ⟨r, w, hu⟩ := exists_skips f trigger argumentLimit 0 v.tail
          cases r with
          | ok done => exact ⟨_, _, .called hf hk ht (TokenView.eq_cons_of_head hv) hu⟩
          | error e => exact ⟨_, _, .refused hf hk ht (TokenView.eq_cons_of_head hv) hu⟩

theorem Acts.apply {r : Except FilterError Bool} (h : Acts f trigger b.view r w) :
    ∃ c, (f.apply trigger b).value = (r, c) ∧ c.view = w := by
  cases h with
  | unfit hf => exact ⟨b, by simp [Filter.apply, hf, Reported.silent], rfl⟩
  | defined hf hk => exact ⟨_, by rw [apply_define hf hk, Reported.silent], b.view_pushReplacement _⟩
  | declined hf hk ht hv =>
    have hcons := TokenView.eq_cons_of_head hv
    obtain ⟨p, c, hn, rfl, hc⟩ := next_of_view_token hcons
    refine ⟨_, by rw [apply_next_uncalled hf hk hn ht], ?_⟩
    rw [hcons, ← hc]
    exact c.view_restore p
  | called hf hk ht hv hu =>
    obtain ⟨p, c, hn, rfl, rfl⟩ := next_of_view_token hv
    obtain ⟨a, hs, rfl⟩ := hu.skipArguments b.next.events.reverse
    exact ⟨_, by simp only [apply_next_called hf hk hn ht, hs], a.view_pushReplacement _⟩
  | refused hf hk ht hv hu =>
    obtain ⟨p, c, hn, rfl, rfl⟩ := next_of_view_token hv
    obtain ⟨a, hs, rfl⟩ := hu.skipArguments b.next.events.reverse
    exact ⟨a, by simp only [apply_next_called hf hk hn ht, hs], rfl⟩
  | failed hf hk hv =>
    obtain ⟨c, hn, rfl⟩ := next_of_view_failure hv
    exact ⟨c, by rw [apply_next_failure hf hk hn], rfl⟩

/-- A filter does to a buffer exactly what it does to its view. -/
theorem apply_iff {r : Except FilterError Bool} :
    (f.apply trigger b).value.1 = r ∧ (f.apply trigger b).value.2.view = w ↔
      Acts f trigger b.view r w := by
  constructor
  · rintro ⟨rfl, rfl⟩
    obtain ⟨r, w, h⟩ := exists_acts f trigger b.view
    obtain ⟨c, hc, rfl⟩ := h.apply
    rw [hc]
    exact h
  · intro h
    obtain ⟨c, hc, rfl⟩ := h.apply
    rw [hc]
    exact ⟨rfl, rfl⟩

/-- The tokens that a filter drops behind its trigger: none, or an argument list. -/
def Drops (f : Filter) (dropped : List Token) : Prop :=
  match f.kind with
  | .define => dropped = []
  | .call => ∃ t args, dropped = t :: args ∧ t.is .leftParen = true ∧ ClosedList 0 args ∧
      args.length ≤ argumentLimit

theorem acts_false_iff :
    Acts f trigger v (.ok false) w ↔
      (¬ (trigger.kind = .identifier ∧ trigger.image = f.name) ∨
        f.kind = .call ∧ ∃ t, v.head = .ok t ∧ t.is .leftParen = false) ∧ w = v := by
  rw [← fits_iff, Bool.not_eq_true]
  constructor
  · intro h
    cases h with
    | unfit hf => exact ⟨.inl hf, rfl⟩
    | declined hf hk ht hv => exact ⟨.inr ⟨hk, _, hv, ht⟩, rfl⟩
  · rintro ⟨hf | ⟨hk, t, hv, ht⟩, rfl⟩
    · exact .unfit hf
    · cases hf : f.fits trigger with
      | false => exact .unfit hf
      | true => exact .declined hf hk ht hv

theorem acts_true_iff :
    Acts f trigger v (.ok true) w ↔
      (trigger.kind = .identifier ∧ trigger.image = f.name) ∧
        ∃ dropped rest, f.Drops dropped ∧ v = behind dropped rest ∧
          w = behind (f.template.map fun u => ⟨u.kind, u.image, trigger.span, []⟩) rest := by
  rw [← fits_iff]
  unfold Drops
  constructor
  · intro h
    cases h with
    | defined hf hk =>
      rw [hk]
      exact ⟨hf, [], v, rfl, rfl, rfl⟩
    | called hf hk ht hv hu =>
      cases hu with
      | closed hargs hroom hu =>
        rw [hk]
        exact ⟨hf, _, _, ⟨_, _, rfl, ht, hargs, hroom⟩, hv.trans (congrArg _ hu), rfl⟩
  · rintro ⟨hf, dropped, rest, hdropped, rfl, rfl⟩
    cases hk : f.kind with
    | define =>
      rw [hk] at hdropped
      cases hdropped
      exact .defined hf hk
    | call =>
      rw [hk] at hdropped
      obtain ⟨t, args, rfl, ht, hargs, hroom⟩ := hdropped
      exact .called hf hk ht rfl (.closed hargs hroom rfl)

theorem acts_unbalanced_iff {name : String} {span : Span} :
    Acts f trigger v (.error (.unbalancedArguments name span)) w ↔
      (trigger.kind = .identifier ∧ trigger.image = f.name) ∧ f.kind = .call ∧
      name = f.name ∧ span = trigger.span ∧
      ∃ t args e rest, t.is .leftParen = true ∧ OpenList 0 args ∧ args.length ≤ argumentLimit ∧
        e.isEof = true ∧ v = behind (t :: args) (.cons (.ok e) rest) ∧ w = .cons (.ok e) rest := by
  rw [← fits_iff]
  constructor
  · intro h
    cases h with
    | refused hf hk ht hv hu =>
      cases hu with
      | unclosed hargs hroom he hu =>
        exact ⟨hf, hk, rfl, rfl, _, _, _, _, ht, hargs, hroom, he, hv.trans (congrArg _ hu), rfl⟩
  · rintro ⟨hf, hk, rfl, rfl, t, args, e, rest, ht, hargs, hroom, he, rfl, rfl⟩
    exact .refused hf hk ht rfl (.unclosed hargs hroom he rfl)

end Filter

namespace TokenBuffer

/-- A buffer is a stack of tokens in front of its source. The next token is the head of the view,
and what is put back or pushed comes to stand in front of it. A filter that does not replace its
trigger leaves the view alone. One that does puts its template, at the place of the trigger, instead
of nothing or of the argument list at the front. In a list that is not closed it goes as far as the
end mark and leaves that. -/
theorem stack_of_tokens (b : TokenBuffer) :
    (b.next.value.1.map Pending.token = b.view.head ∧ b.next.value.2.view = b.view.tail) ∧
    (∀ p, (b.restore p).view = .cons (.ok p.token) b.view) ∧
    (∀ ts, (b.pushReplacement ts).view = behind ts b.view) ∧
    ∀ (f : Filter) (trigger : Token),
      let r := (f.apply trigger b).value
      (∀ w, r.1 = .ok false ∧ r.2.view = w ↔
        (¬ (trigger.kind = .identifier ∧ trigger.image = f.name) ∨
          f.kind = .call ∧ ∃ t, b.view.head = .ok t ∧ t.is .leftParen = false) ∧ w = b.view) ∧
      (∀ w, r.1 = .ok true ∧ r.2.view = w ↔
        (trigger.kind = .identifier ∧ trigger.image = f.name) ∧
        ∃ dropped rest, f.Drops dropped ∧ b.view = behind dropped rest ∧
          w = behind (f.template.map fun u => ⟨u.kind, u.image, trigger.span, []⟩) rest) ∧
      ∀ name span w, r.1 = .error (.unbalancedArguments name span) ∧ r.2.view = w ↔
        (trigger.kind = .identifier ∧ trigger.image = f.name) ∧ f.kind = .call ∧
        name = f.name ∧ span = trigger.span ∧
        ∃ t args e rest, t.is .leftParen = true ∧ OpenList 0 args ∧
          args.length ≤ FilterError.argumentLimit ∧ e.isEof = true ∧
          b.view = behind (t :: args) (.cons (.ok e) rest) ∧ w = .cons (.ok e) rest := by
  refine ⟨?_, b.view_restore, b.view_pushReplacement, fun f trigger => ⟨?_, ?_, ?_⟩⟩
  · rw [b.view_next]
    exact ⟨rfl, rfl⟩
  · exact fun w => Filter.apply_iff.trans Filter.acts_false_iff
  · exact fun w => Filter.apply_iff.trans Filter.acts_true_iff
  · exact fun name span w => Filter.apply_iff.trans Filter.acts_unbalanced_iff

/-- An argument list that begins in the buffer and ends in the source, and one that does not end. The
template stands at the place of the trigger. -/
theorem stack_of_tokens_split :
    let cell (n : Nat) : Span := ⟨⟨n, 1, n + 1⟩, ⟨n + 1, 1, n + 2⟩⟩
    let t (kind : TokenKind) (image : String) (n : Nat) := Token.plain kind image (cell n)
    let f : Filter := ⟨.call, "M", [t .identifier "y" 70, t .identifier "z" 80]⟩
    let trigger := t .identifier "M" 2
    let pending := [Pending.replacement (t .leftParen "(" 3), .lookahead (t .identifier "M" 4)]
    let b (c : Script) : TokenBuffer := ⟨pending, .script c⟩
    let closed := Script.ofItems [.ok (t .rightParen ")" 5), .ok (t .identifier "x" 6)]
    let rest : TokenBuffer := ⟨[], .script ⟨closed.items, [.ok (t .identifier "x" 6)], 1⟩⟩
    let opened := Script.ofItems []
    let r := (f.apply trigger (b closed)).value
    let q := (f.apply trigger (b opened)).value
    (r.1 = .ok true ∧ r.2.view = behind
        [⟨.identifier, "y", cell 2, []⟩, ⟨.identifier, "z", cell 2, []⟩] rest.view) ∧
      q.1 = .error (.unbalancedArguments "M" (cell 2)) ∧
      q.2.view.head = .ok (.endMark TokenSource.nowhere) := by
  intro cell t f trigger pending b closed rest opened r q
  have hclosed : (b closed).view =
      behind [t .leftParen "(" 3, t .identifier "M" 4, t .rightParen ")" 5] rest.view :=
    congrArg (behind (pending.map Pending.token)) (view_next ⟨[], .script closed⟩)
  have hopened : (b opened).view = behind [t .leftParen "(" 3, t .identifier "M" 4]
      (.cons (.ok (.endMark TokenSource.nowhere)) _) :=
    congrArg (behind (pending.map Pending.token)) (view_next ⟨[], .script opened⟩)
  have hr := ((stack_of_tokens (b closed)).2.2.2 f trigger).2.1
  have hq := ((stack_of_tokens (b opened)).2.2.2 f trigger).2.2
  obtain ⟨hresult, hview⟩ := (hq "M" (cell 2) _).2 ⟨⟨rfl, rfl⟩, rfl, rfl, rfl, _, [_], _, _, rfl,
    ⟨by decide, by decide⟩, by decide, rfl, hopened, rfl⟩
  exact ⟨(hr _).2 ⟨⟨rfl, rfl⟩, _, _, ⟨_, _, rfl, rfl, ⟨by decide, by decide⟩, by decide⟩, hclosed,
    rfl⟩, hresult, congrArg Stream'.head hview⟩

end TokenBuffer
end SourceOutline
