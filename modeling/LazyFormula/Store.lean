import LazyFormula.Bindings
import LazyFormula.Event
/-!
# The store of scopes

A scope resolves names by its values, then by its definitions, then through its ancestors. All scopes live in one
store and are known by their number there; a scope is made after its ancestors, so its number is above theirs. The
scopes that descend from one root form a tree, which shares a bound on how deep evaluations may nest.
-/
namespace LazyFormula

/-- **A value in a scope.** -/
structure Slot where
  value : Value
  kind : SlotKind

/-- **A scope.** -/
structure Scope where
  /-- The tree that the scope belongs to. -/
  tree : Nat
  /-- The scopes that names are looked up in after this one, the parent first and the root last. -/
  ancestors : List ScopeId
  /-- The lazy definitions. -/
  definitions : Bindings Expr
  /-- The values, written or memoized. -/
  slots : Bindings Slot
  /-- The children that hear of what this scope drops. -/
  listeners : List ScopeId
  /-- How often values were dropped here. -/
  generation : Nat
deriving Inhabited

namespace Scope

def parent? (c : Scope) : Option ScopeId := c.ancestors.head?

/-- Whether nothing but memoized values lives here. -/
def holdsOnlyDerived (c : Scope) : Bool :=
  c.definitions.isEmpty && c.slots.values.all (·.kind == .derived)

/-- A scope after it dropped values. -/
def clear (reach : Reach) (c : Scope) : Scope :=
  { c with
    slots := match reach with
      | .everything => .empty
      | .derived => c.slots.filter fun _ slot => slot.kind == .bound
    generation := c.generation + 1 }

/-- A scope with a value under a name. -/
def put (name : String) (slot : Slot) (c : Scope) : Scope := { c with slots := c.slots.insert name slot }

/-- A scope with a lazy definition of a name. -/
def putDefinition (name : String) (e : Expr) (c : Scope) : Scope :=
  { c with definitions := c.definitions.insert name e }

/-- A scope with one more listener. -/
def listen (child : ScopeId) (c : Scope) : Scope := { c with listeners := child :: c.listeners }

end Scope

/-- **What the scopes of one root share**: a bound on nested evaluations and the number of those in progress. -/
structure Tree where
  maxDepth : Nat
  depth : Nat
deriving Inhabited, DecidableEq, Repr

/-- **All scopes**, by number, with what is counted and logged. A scope that died leaves its place empty. -/
structure Store where
  scopes : Array (Option Scope)
  trees : Array Tree
  /-- The number of the next lambda or builtin. -/
  fresh : Nat
  /-- The calls of counting builtins, by the builtin's number. -/
  calls : List (Nat × Nat)
  /-- The log, last event first. -/
  log : List Event
deriving Inhabited

namespace Store

def empty : Store := ⟨#[], #[], 0, [], []⟩

/-! ## Reading -/

def scope? (st : Store) (s : ScopeId) : Option Scope := st.scopes[s]?.join

/-- Whether a scope is alive. -/
def alive (st : Store) (s : ScopeId) : Bool := (st.scope? s).isSome

/-- A scope; one that is not alive knows nothing. -/
def scope (st : Store) (s : ScopeId) : Scope := (st.scope? s).getD default

/-- A scope and its ancestors, in the order in which names are looked up. -/
def chain (st : Store) (s : ScopeId) : List ScopeId := s :: (st.scope s).ancestors

/-- The tree of a scope. -/
def treeOf (st : Store) (s : ScopeId) : Tree := (st.trees[(st.scope s).tree]?).getD default

/-- How many more evaluations can be nested, over all trees. -/
def depthLeft (st : Store) : Nat := st.trees.foldl (fun n t => n + (t.maxDepth - t.depth)) 0

/-- How often a counting builtin was called. -/
def callsOf (st : Store) (b : Builtin) : Nat := (st.calls.lookup b.id).getD 0

/-- The number of live children that hear of what a scope drops. -/
def listenerCount (st : Store) (s : ScopeId) : Nat := ((st.scope s).listeners.filter st.alive).length

/-- Whether a name would resolve from a scope. -/
def contains (st : Store) (s : ScopeId) (name : String) : Bool :=
  (st.chain s).any fun t => (st.scope t).slots.contains name || (st.scope t).definitions.contains name

/-! ## Changing -/

def modify (st : Store) (s : ScopeId) (f : Scope → Scope) : Store :=
  { st with scopes := st.scopes.modify s (·.map f) }

def record (st : Store) (e : Event) : Store := { st with log := e :: st.log }

/-- One more call of a counting builtin. -/
def countCall (st : Store) (b : Builtin) : Store :=
  { st with calls := (b.id, st.callsOf b + 1) :: st.calls.filter (·.1 != b.id) }

/-- A number for a new lambda or builtin. -/
def takeFresh (st : Store) : Nat × Store := (st.fresh, { st with fresh := st.fresh + 1 })

/-- The trees with the depth of one changed. -/
def setDepth (st : Store) (tree : Nat) (f : Nat → Nat) : Store :=
  { st with trees := st.trees.modify tree fun t => { t with depth := f t.depth } }

/-! ## New scopes -/

/-- A new scope without a parent, in a tree of its own. -/
def addOrphan (st : Store) (maxDepth : Nat) : ScopeId × Store :=
  (st.scopes.size,
    { st with
      scopes := st.scopes.push (some ⟨st.trees.size, [], .empty, .empty, [], 0⟩)
      trees := st.trees.push ⟨maxDepth, 0⟩ })

/-- A new child of a scope, with values bound from the start. -/
def addChild (st : Store) (parent : ScopeId) (values : List (String × Value)) : ScopeId × Store :=
  let child : Scope :=
    { tree := (st.scope parent).tree
      ancestors := st.chain parent
      definitions := .empty
      slots := .ofList (values.map fun (name, v) => (name, ⟨v, .bound⟩))
      listeners := []
      generation := 0 }
  let id := st.scopes.size
  (id, { st with scopes := st.scopes.push (some child) }.modify parent (·.listen id))

end Store
end LazyFormula
