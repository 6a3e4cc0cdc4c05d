import SourceOutline.Regex.Parser
import SourceOutline.Regex.Search

/-! Patterns ready for search, and why a text may be none. -/
namespace SourceOutline.Regex

inductive PatternError
  | fault (pattern : String) (f : Fault)
  /-- Words in all alphabets are asked for. -/
  | noWords
  | tooLarge

def PatternError.message : PatternError → String
  | fault pattern f => f.text pattern
  | noWords => "error building NFA"
  | tooLarge => s!"Compiled regex exceeds size limit of {Expression.roomLimit} bytes."

/-- The expression that a text stands for. -/
def Expression.parse (pattern : String) : Except PatternError Expression := do
  let tree ← (Tree.parse pattern).mapError (PatternError.fault pattern)
  let e ← (tree.expression .initial).mapError (PatternError.fault pattern)
  if Expression.roomLimit < e.1.room then .error .tooLarge
  else if e.1.needsWords then .error .noWords
  else return e.1

end SourceOutline.Regex
