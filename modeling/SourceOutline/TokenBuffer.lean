import SourceOutline.TokenSource

/-! Tokens put back in front of a source. -/
namespace SourceOutline

/-- A token that waits in front of the source, and how it came there. -/
inductive Pending
  | replacement (token : Token)
  | lookahead (token : Token)
  deriving DecidableEq, Repr

def Pending.token : Pending → Token
  | replacement t => t
  | lookahead t => t

/-- The pending tokens, the next one first, and the source behind them. -/
structure TokenBuffer where
  pending : List Pending
  source : TokenSource

namespace TokenBuffer

def ofSource (source : TokenSource) : TokenBuffer := ⟨[], source⟩

/-- Drops the pending tokens and starts over on the input. -/
def reset (b : TokenBuffer) (input : String) : TokenBuffer := ⟨[], b.source.reset input⟩

def isEmpty (b : TokenBuffer) : Bool := b.pending.isEmpty

def size (b : TokenBuffer) : Nat := b.pending.length

/-- The first pending token. -/
def pop (b : TokenBuffer) : Option Pending × TokenBuffer :=
  match b.pending with
  | [] => (none, b)
  | p :: rest => (some p, { b with pending := rest })

/-- A token from the source, whatever is pending. -/
def nextFromSource (b : TokenBuffer) : Reported (Except LexError Token × TokenBuffer) :=
  let r := b.source.next
  ⟨(r.value.1, { b with source := r.value.2 }), r.events⟩

/-- The first pending token, or else one from the source. -/
def next (b : TokenBuffer) : Reported (Except LexError Pending × TokenBuffer) :=
  match b.pending with
  | p :: rest => .silent (.ok p, { b with pending := rest })
  | [] =>
    let r := b.nextFromSource
    ⟨(r.value.1.map .lookahead, r.value.2), r.events⟩

/-- Puts one token in front. -/
def restore (b : TokenBuffer) (p : Pending) : TokenBuffer := { b with pending := p :: b.pending }

/-- Puts tokens in front, the first of them first. -/
def pushReplacement (b : TokenBuffer) (tokens : List Token) : TokenBuffer :=
  { b with pending := tokens.map .replacement ++ b.pending }

theorem remaining_nextFromSource_le (b : TokenBuffer) :
    b.nextFromSource.value.2.source.remaining ≤ b.source.remaining :=
  b.source.remaining_next_le

theorem remaining_next_le (b : TokenBuffer) :
    b.next.value.2.source.remaining ≤ b.source.remaining := by
  unfold next
  split
  · exact Nat.le_refl _
  · exact b.remaining_nextFromSource_le

@[simp] theorem source_restore (b : TokenBuffer) (p : Pending) :
    (b.restore p).source = b.source := rfl

@[simp] theorem source_pushReplacement (b : TokenBuffer) (tokens : List Token) :
    (b.pushReplacement tokens).source = b.source := rfl

end TokenBuffer
end SourceOutline
