import LazyFormula.Grammar
import LazyFormula.Value
/-!
# The log

What a host can watch: which texts are read, which values come from a cache and which definitions are forced, and
every write with the reach of what it drops. An event also says in which scope it happened and what was written there,
which its line does not show.
-/
namespace LazyFormula

/-- Where a value in a scope comes from: a write, or a look-up that memoized it. -/
inductive SlotKind where
  | bound
  | derived
deriving DecidableEq, Repr

/-- **How much of its values a scope drops.** -/
inductive Reach where
  /-- Every value. -/
  | everything
  /-- The values that look-ups memoized. -/
  | derived
deriving DecidableEq, Repr

def Reach.text : Reach → String
  | .everything => "Everything"
  | .derived => "Derived"

/-- **Something the log tells.** -/
inductive Event where
  | reading (text : String) (grammar : Grammar)
  /-- A look-up found a value in a scope. -/
  | cacheHit (scope : ScopeId) (name : String)
  /-- A look-up evaluates a definition of a scope. -/
  | forcing (scope : ScopeId) (name : String) (definition : Expr)
  | defining (scope : ScopeId) (name : String) (definition : Expr)
  /-- A value of a scope is overwritten and keeps its kind. -/
  | assigning (scope : ScopeId) (name : String) (kind : SlotKind)
  /-- A scope and all below it drop values because of a write of some names. -/
  | invalidation (scope : ScopeId) (reach : Reach) (written : List String)

/-- The line of an event. -/
def Event.text : Event → String
  | .reading text grammar => "parsing " ++ Text.quoted text ++ " as " ++ grammar.text
  | .cacheHit _ name => "cache hit for " ++ name
  | .forcing _ name e => "forcing definition of " ++ name ++ ": " ++ e.text
  | .defining _ name e => "defining " ++ name ++ " := " ++ e.text
  | .assigning _ name _ => "assigning " ++ name
  | .invalidation _ reach _ => "invalidation (" ++ reach.text ++ ")"

end LazyFormula
