import LazyFormula.Store
/-!
# Writing to scopes

A definition drops every value of its scope and of all scopes below it. A value that is written drops only what
look-ups memoized there and below, and keeps what other writes bound. The scopes below are found through the listeners
that every scope has among its children.
-/
namespace LazyFormula
namespace Store

/-- A scope and the live scopes below it, down to a number of levels. -/
def reachDown (st : Store) : Nat → ScopeId → List ScopeId
  | 0, s => [s]
  | levels + 1, s => s :: ((st.scope s).listeners.filter st.alive).flatMap (st.reachDown levels)

/-- **A scope and all live scopes below it.** A child is made after its parent, so there are fewer levels than
scopes. -/
def reach (st : Store) (s : ScopeId) : List ScopeId := st.reachDown st.scopes.size s

/-- **A scope and all scopes below it drop values**, because some names are written there. -/
def invalidate (st : Store) (s : ScopeId) (reach : Reach) (written : List String) : Store :=
  ((st.reach s).foldl (fun st t => st.modify t (·.clear reach)) st).record (.invalidation s reach written)

/-- A value goes into a scope; nothing is dropped. -/
def put (st : Store) (s : ScopeId) (name : String) (v : Value) (kind : SlotKind) : Store :=
  st.modify s (·.put name ⟨v.detach s, kind⟩)

/-- **Values are bound in a scope**, whether or not the names have definitions there. -/
def update (st : Store) (s : ScopeId) (values : List (String × Value)) : Store :=
  values.foldl (fun st (name, v) => st.put s name v .bound) (st.invalidate s .derived (values.map Prod.fst))

/-- A value is bound in a scope. -/
def add (st : Store) (s : ScopeId) (name : String) (v : Value) : Store := st.update s [(name, v)]

/-- **A name gets a lazy definition**, in place of the one it had. -/
def define (st : Store) (s : ScopeId) (name : String) (e : Expr) : Store :=
  ((st.record (.defining s name e)).modify s (·.putDefinition name e)).invalidate s .everything [name]

/-- The first of some scopes whose value of a name may be overwritten, and that value: a scope that also defines the
name is passed over. -/
def assignable? (st : Store) (name : String) : List ScopeId → Option (ScopeId × Slot)
  | [] => none
  | s :: up =>
    match (st.scope s).slots.get? name, (st.scope s).definitions.get? name with
    | some slot, none => some (s, slot)
    | _, _ => st.assignable? name up

/-- **The nearest value of a name is overwritten**, if there is one on the way up. It stays bound or memoized, as it
was. -/
def assign? (st : Store) (s : ScopeId) (name : String) (v : Value) : Option Store :=
  (st.assignable? name (st.chain s)).map fun (target, slot) =>
    ((st.record (.assigning target name slot.kind)).invalidate target .derived [name]).put target name v slot.kind

end Store
end LazyFormula
