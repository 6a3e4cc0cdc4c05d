/-! Tables keyed by names, listed in the byte order of the names. -/
namespace SourceOutline

/-- Values under names. `insert` keeps the entries in increasing order. -/
structure NameTable (α : Type) where
  entries : List (String × α)
  deriving DecidableEq, Repr

/-- A set of names. -/
abbrev NameSet := NameTable Unit

namespace NameTable
variable {α : Type}

def empty : NameTable α := ⟨[]⟩

instance : Inhabited (NameTable α) := ⟨empty⟩
instance : EmptyCollection (NameTable α) := ⟨empty⟩

def lookup (name : String) : List (String × α) → Option α
  | [] => none
  | (key, value) :: rest => if key = name then some value else lookup name rest

def get? (t : NameTable α) (name : String) : Option α := lookup name t.entries

def contains (t : NameTable α) (name : String) : Bool := (t.get? name).isSome

def insertEntry (name : String) (value : α) : List (String × α) → List (String × α)
  | [] => [(name, value)]
  | (key, old) :: rest =>
    if key = name then (name, value) :: rest
    else if name < key then (name, value) :: (key, old) :: rest
    else (key, old) :: insertEntry name value rest

/-- Puts `value` under `name`, in place of an earlier value. -/
def insert (t : NameTable α) (name : String) (value : α) : NameTable α :=
  ⟨insertEntry name value t.entries⟩

/-- All entries of both tables; those of `other` win. -/
def merge (t other : NameTable α) : NameTable α :=
  if t.entries.isEmpty then other
  else other.entries.foldr (fun e merged => merged.insert e.1 e.2) t

def size (t : NameTable α) : Nat := t.entries.length

def isEmpty (t : NameTable α) : Bool := t.entries.isEmpty

def names (t : NameTable α) : List String := t.entries.map Prod.fst

def ofList (entries : List (String × α)) : NameTable α :=
  entries.foldl (fun t e => t.insert e.1 e.2) empty

@[simp] theorem get?_empty (name : String) : (empty : NameTable α).get? name = none := rfl

theorem lookup_insertEntry (name key : String) (value : α) (entries : List (String × α)) :
    lookup key (insertEntry name value entries) =
      if name = key then some value else lookup key entries := by
  induction entries with
  | nil => simp [insertEntry, lookup]
  | cons e rest ih =>
    obtain ⟨k, old⟩ := e
    by_cases hk : k = name
    · subst hk
      by_cases hn : k = key <;> simp [insertEntry, lookup, hn]
    · by_cases hlt : name < k
      · simp [insertEntry, lookup, hk, hlt]
      · by_cases hn : name = key
        · subst hn
          simp [insertEntry, lookup, hk, hlt, ih]
        · simp [insertEntry, lookup, hk, hlt, ih, hn]

@[simp] theorem get?_insert (t : NameTable α) (name key : String) (value : α) :
    (t.insert name value).get? key = if name = key then some value else t.get? key :=
  lookup_insertEntry name key value t.entries

theorem get?_foldr_insert (t : NameTable α) (entries : List (String × α)) (key : String) :
    (entries.foldr (fun e merged => merged.insert e.1 e.2) t).get? key =
      (lookup key entries).or (t.get? key) := by
  induction entries with
  | nil => simp [lookup]
  | cons e rest ih =>
    obtain ⟨k, v⟩ := e
    by_cases h : k = key <;> simp [lookup, h, ih]

@[simp] theorem get?_merge (t other : NameTable α) (key : String) :
    (t.merge other).get? key = (other.get? key).or (t.get? key) := by
  obtain ⟨entries⟩ := t
  cases entries with
  | nil => simp [merge, get?, lookup]
  | cons e rest => exact get?_foldr_insert ⟨e :: rest⟩ other.entries key

end NameTable
end SourceOutline
