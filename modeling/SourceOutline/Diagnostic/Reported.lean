import SourceOutline.Diagnostic.Event

/-! Results that come with the events reported on the way to them. -/
namespace SourceOutline

/-- A value and the events reported while it was made, oldest first. -/
structure Reported (α : Type) where
  value : α
  events : List Event

namespace Reported
variable {α β : Type}

/-- A value without events. -/
def silent (a : α) : Reported α := ⟨a, []⟩

def report (e : Event) : Reported Unit := ⟨(), [e]⟩

def bind (r : Reported α) (f : α → Reported β) : Reported β :=
  let next := f r.value
  ⟨next.value, r.events ++ next.events⟩

instance : Monad Reported where
  pure := silent
  bind := bind

@[simp] theorem value_pure (a : α) : (pure a : Reported α).value = a := rfl
@[simp] theorem events_pure (a : α) : (pure a : Reported α).events = [] := rfl

@[simp] theorem value_bind (r : Reported α) (f : α → Reported β) :
    (r >>= f).value = (f r.value).value := rfl

@[simp] theorem events_bind (r : Reported α) (f : α → Reported β) :
    (r >>= f).events = r.events ++ (f r.value).events := rfl

/-- Marks all events with the file that is being worked on. -/
def inFile (file : Option String) (r : Reported α) : Reported α :=
  ⟨r.value, r.events.map (Event.inFile file)⟩

end Reported
end SourceOutline
