import LazyFormula.Store.Write
/-!
# Root environments

A root is a child of a scope that holds the builtins and constants. What a host writes to the root does not reach
them.
-/
namespace LazyFormula

/-- The bound on nested evaluations that holds unless another one is asked for. -/
def defaultMaxDepth : Nat := 400

namespace Root

/-- The constants of every root. -/
def constants : List (String × Value) :=
  [("pi", .float 3.141592653589793), ("e", .float 2.718281828459045), ("true", .bool true), ("false", .bool false),
    ("#t", .bool true), ("#f", .bool false), ("nil", .nil)]

/-- The builtins of every root. -/
def actions : List Action :=
  ([.add, .multiply, .subtract, .divide, .power, .expt, .modulo,
    .compare .greater, .compare .less, .compare .greaterOrEqual, .compare .lessOrEqual, .numericEqual,
    .abs, .round, .max, .min,
    .real .sqrt, .real .exp, .log, .real .sin, .real .cos, .real .tan, .real .asin, .real .acos, .real .atan, .atan2,
    .real .sind, .real .cosd, .real .tand, .real .asind, .real .acosd, .real .atand, .atan2d, .floor, .ceil,
    .list, .cons, .car, .cdr, .append, .length, .isNull, .isList, .isNumber, .isSymbol, .isProcedure,
    .not, .identical, .equal, .begin] : List Primitive).map .primitive ++ [.map]

/-- **What a root starts with**, by name; the builtins are numbered from `first` on. -/
def standardValues (first : Nat) : List (String × Value) :=
  constants ++ actions.zipIdx.map fun (a, i) => (a.name, .builtin ⟨first + i, a⟩)

end Root

namespace Store

/-- **A new root**, in a tree of its own. -/
def addRoot (st : Store) (maxDepth : Nat) : ScopeId × Store :=
  let (builtins, st) := st.addOrphan maxDepth
  let values := Root.standardValues st.fresh
  ({ st with fresh := st.fresh + Root.actions.length }.update builtins values).addChild builtins []

end Store
end LazyFormula
