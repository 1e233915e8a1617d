import LazyFormula.Store
/-!
# Lifetimes

A scope is alive as long as something holds it: the host, a child of it, or a procedure that some scope holds and that
is not held weakly. Scopes that nobody holds die, and with them what they held, until every scope that is left is held.
Two scopes that hold each other therefore never die, while a procedure in the very scope that it closes over is held
weakly and keeps nothing alive.
-/
namespace LazyFormula

/-- The scopes that a value keeps alive. -/
def Value.held (v : Value) : List ScopeId := (v.procedures.filter (·.hold == .strong)).map (·.scope)

/-- The scopes that a scope keeps alive: its parent and those of the procedures in its values. -/
def Scope.held (c : Scope) : List ScopeId := c.parent?.toList ++ c.slots.values.flatMap (·.value.held)

namespace Store

/-- A mark for every scope that the host or a live scope holds. -/
def heldMarks (st : Store) (host : List ScopeId) : Array Bool :=
  st.scopes.foldl (fun marks c => (c.map Scope.held |>.getD []).foldl (·.setIfInBounds · true) marks)
    (host.foldl (·.setIfInBounds · true) (.replicate st.scopes.size false))

/-- The scopes that are held stay; the others die. -/
def keepHeld (st : Store) (host : List ScopeId) : Store :=
  let marks := st.heldMarks host
  { st with scopes := st.scopes.mapIdx fun s c => if marks[s]?.getD false then c else none }

/-- The number of live scopes. -/
def liveCount (st : Store) : Nat := st.scopes.foldl (fun n c => if c.isSome then n + 1 else n) 0

/-- Scopes die until all that are left are held; a round that lets none die is the last one. -/
def sweepRounds (host : List ScopeId) : Nat → Store → Store
  | 0, st => st
  | rounds + 1, st =>
    let next := st.keepHeld host
    if next.liveCount = st.liveCount then next else sweepRounds host rounds next

/-- Listeners that died are forgotten. -/
def forgetDead (st : Store) : Store :=
  { st with scopes := st.scopes.map (·.map fun c => { c with listeners := c.listeners.filter st.alive }) }

/-- **Every scope that nothing keeps alive dies.** There are at most as many rounds as live scopes. -/
def sweep (st : Store) (host : List ScopeId) : Store := (sweepRounds host st.liveCount st).forgetDead

end Store
end LazyFormula
