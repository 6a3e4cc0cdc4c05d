import SourceOutline.Diagnostic.Event

/-! What can go wrong in a tree of scopes. -/
namespace SourceOutline

/-- The number of a scope in its tree, in the order of opening. -/
abbrev ScopeId := Nat

inductive ScopeError
  | invalidName (name reason : String)
  | duplicateType (name scope : String)
  | nestingTooDeep (depth : Nat)
  /-- An access to a scope that the tree, which has `count` scopes, did not issue. -/
  | foreign (id : ScopeId) (count : Nat)
  deriving DecidableEq, Repr

namespace ScopeError

/-- The greatest depth of a scope. -/
def depthLimit : Nat := 256

def message : ScopeError → String
  | invalidName name reason => s!"Invalid scope or type name '{name}': {reason}"
  | duplicateType name scope => s!"Type '{name}' is already declared in scope '{scope}'"
  | nestingTooDeep depth => s!"Scope nesting too deep: {depth} (max {depthLimit})"
  | foreign id count => s!"ScopeId({id}) was not issued by this ScopeTree ({count} scopes)"

def code : ScopeError → Code
  | invalidName .. => .invalidScopeName
  | duplicateType .. => .duplicateTypeName
  | nestingTooDeep _ => .scopeNestingTooDeep
  | foreign .. => .internalError

/-- The report of an error met while working on `name`. A foreign access is a mistake of the caller
and is not reported. -/
def events (name : String) (e : ScopeError) : List Event :=
  match e with
  | duplicateType .. => [.error e.code e.message]
  | foreign .. => []
  | _ => [(Event.error e.code e.message).withContext "name" name]

end ScopeError
end SourceOutline
