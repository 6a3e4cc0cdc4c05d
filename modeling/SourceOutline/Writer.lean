/-! Things that lines of text are written to. -/
namespace SourceOutline

/-- Something that takes texts. A write that fails may have taken the first bytes of its text. -/
class Writer (σ : Type) where
  write : σ → String → Except String Unit × σ
  /-- All bytes taken so far. -/
  received : σ → List UInt8
  received_of_ok {s s' : σ} {text : String} (h : write s text = (.ok (), s')) :
    received s' = received s ++ text.toUTF8.data.toList
  received_of_error {s s' : σ} {text reason : String} (h : write s text = (.error reason, s')) :
    ∃ taken, taken <+: text.toUTF8.data.toList ∧ received s' = received s ++ taken

namespace Writer
variable {σ : Type} [Writer σ]

/-- A line with its end. -/
def ended (line : String) : String := line ++ "\n"

/-- Writes lines up to the first that fails. -/
def writeLines (s : σ) : List String → Except String Unit × σ
  | [] => (.ok (), s)
  | line :: lines =>
    match write s (ended line) with
    | (.ok (), s) => writeLines s lines
    | (.error reason, s) => (.error reason, s)

/-- The bytes of lines with their ends. -/
def bytes (lines : List String) : List UInt8 :=
  lines.flatMap fun line => (ended line).toUTF8.data.toList

@[simp] theorem bytes_nil : bytes [] = [] := rfl

@[simp] theorem bytes_cons (line : String) (lines : List String) :
    bytes (line :: lines) = (ended line).toUTF8.data.toList ++ bytes lines := rfl

/-- Lines that are all written are received in full. -/
theorem received_writeLines_ok {s s' : σ} {lines : List String}
    (h : writeLines s lines = (.ok (), s')) : received s' = received s ++ bytes lines := by
  induction lines generalizing s with
  | nil =>
    cases h
    simp
  | cons line lines ih =>
    unfold writeLines at h
    split at h
    · next u hw => rw [ih h, received_of_ok hw, bytes_cons, List.append_assoc]
    · cases h

/-- Lines of which one fails are received up to some place in it. -/
theorem received_writeLines_error {s s' : σ} {lines : List String} {reason : String}
    (h : writeLines s lines = (.error reason, s')) :
    ∃ taken, taken <+: bytes lines ∧ received s' = received s ++ taken := by
  induction lines generalizing s with
  | nil => cases h
  | cons line lines ih =>
    unfold writeLines at h
    split at h
    · next u hw =>
      obtain ⟨taken, htaken, hr⟩ := ih h
      refine ⟨_, (List.prefix_append_right_inj _).2 htaken, ?_⟩
      rw [hr, received_of_ok hw, List.append_assoc]
    · next u hw =>
      cases h
      obtain ⟨taken, htaken, hr⟩ := received_of_error hw
      exact ⟨taken, htaken.trans (List.prefix_append _ _), hr⟩

/-- No write ever fails, whatever has been written. -/
def Steady (s : σ) : Prop := ∀ lines, (writeLines s lines).1 = .ok ()

end Writer

/-- A text that grows. `room` is the number of bytes that still fit, `none` for no bound. The pieces
of the text stand last one first. -/
structure Sink where
  room : Option Nat
  written : List String

namespace Sink

def unbounded : Sink := ⟨none, []⟩

def bounded (room : Nat) : Sink := ⟨some room, []⟩

def text (s : Sink) : String := String.join s.written.reverse

/-- Writes a piece, if it fits as a whole. -/
def write (s : Sink) (text : String) : Except String Unit × Sink :=
  match s.room with
  | none => (.ok (), { s with written := text :: s.written })
  | some room =>
    if text.utf8ByteSize ≤ room then
      (.ok (), ⟨some (room - text.utf8ByteSize), text :: s.written⟩)
    else (.error "limit", s)

@[simp] theorem text_cons (s : Sink) (room : Option Nat) (piece : String) :
    (Sink.mk room (piece :: s.written)).text = s.text ++ piece := by
  simp [text]

theorem write_cases (s : Sink) (text : String) :
    (∃ room, s.write text = (.ok (), ⟨room, text :: s.written⟩)) ∨
      s.write text = (.error "limit", s) := by
  unfold write
  split
  · exact .inl ⟨_, rfl⟩
  · split
    · exact .inl ⟨_, rfl⟩
    · exact .inr rfl

end Sink

instance : Writer Sink where
  write := Sink.write
  received s := s.text.toUTF8.data.toList
  received_of_ok {s s' text} h := by
    rcases s.write_cases text with ⟨room, hw⟩ | hw
    · rw [hw] at h
      cases h
      simp
    · rw [hw] at h
      cases h
  received_of_error {s s' text reason} h := by
    rcases s.write_cases text with ⟨room, hw⟩ | hw
    · rw [hw] at h
      cases h
    · rw [hw] at h
      cases h
      exact ⟨[], List.nil_prefix, by simp⟩

namespace Sink
open Writer

/-- Without a bound every line is written. -/
theorem writeLines_unbounded (written lines : List String) :
    writeLines (Sink.mk none written) lines =
      (.ok (), ⟨none, (lines.map ended).reverse ++ written⟩) := by
  induction lines generalizing written with
  | nil => rfl
  | cons line lines ih => simpa [writeLines, Writer.write, write] using ih (ended line :: written)

theorem steady_unbounded : Steady unbounded := by
  intro lines
  rw [unbounded, writeLines_unbounded]

end Sink
end SourceOutline
