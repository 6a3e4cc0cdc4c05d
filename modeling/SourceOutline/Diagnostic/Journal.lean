import SourceOutline.Diagnostic.Event

/-! A memory of the events reported last. -/
namespace SourceOutline

/-- The events at or above a level, newest first. Only the newest `capacity` of them count. -/
structure Journal where
  least : Level
  newest : List Event

namespace Journal

def capacity : Nat := 10000

def empty (least : Level) : Journal := ⟨least, []⟩

def admits (j : Journal) (level : Level) : Bool := level.passes j.least

/-- Takes note of an event that the journal admits. -/
def record (j : Journal) (e : Event) : Journal :=
  if j.admits e.level then { j with newest := e :: j.newest } else j

def clear (j : Journal) : Journal := { j with newest := [] }

/-- The events still remembered, oldest first. -/
def events (j : Journal) : List Event := (j.newest.take capacity).reverse

def size (j : Journal) : Nat := min capacity j.newest.length

def errors (j : Journal) : List Event := j.events.filter Event.isError

def withCode (j : Journal) (code : Code) : List Event := j.events.filter (·.code == code)

def inCategory (j : Journal) (name : String) : List Event :=
  j.events.filter (·.code.category == name)

def hasError (j : Journal) (code : Code) : Bool :=
  j.events.any fun e => e.isError && e.code == code

def hasSuccess (j : Journal) (code : Code) : Bool :=
  j.events.any fun e => e.isInfo && e.code == code

end Journal
end SourceOutline
