import LazyFormula.Primitive.Run
import LazyFormula.Proofs.Procedures
import Mathlib.Tactic.Common
/-!
# Sheets

What a root means that is used as a sheet of formulas, without any memoized value: names have integers, which were
written, or formulas, which were defined. A formula denotes the value that it expands to, with the height of the
expansion; it denotes at most one (`Denotes.unique`), and none if it needs a name that is not there or that depends on
itself (`not_denotes_of_needs`).
-/
namespace LazyFormula
namespace Sheet

/-- The operators of formulas. -/
inductive Operator where
  | plus
  | minus
  | times
deriving DecidableEq

namespace Operator

def name : Operator → String
  | .plus => "+"
  | .minus => "-"
  | .times => "*"

/-- The builtin behind an operator. -/
def primitive : Operator → Primitive
  | .plus => .add
  | .minus => .subtract
  | .times => .multiply

/-- The exact result. -/
def exact : Operator → Int → Int → Int
  | .plus, x, y => x + y
  | .minus, x, y => x - y
  | .times, x, y => x * y

end Operator

/-- **A formula**: an arithmetic tree over integers and names. -/
inductive Formula where
  | literal (i : Int64)
  | name (x : String)
  | apply (o : Operator) (left right : Formula)

/-- The expression of a formula. -/
def Formula.expr : Formula → Expr
  | .literal i => .number (.int i)
  | .name x => .symbol x
  | .apply o left right => .list [.symbol o.name, left.expr, right.expr]

end Sheet

/-- **A sheet**: what was written since the last definition, what is defined, and what is there from the start. -/
structure Sheet where
  values : String → Option Int64
  definitions : String → Option Sheet.Formula
  standard : String → Option Value

namespace Sheet

open Number (fits_toInt toInt_ofInt_of_fits)

variable {σ : Sheet} {t : Formula} {x : String} {v w : Value} {h k : Nat}

/-- A definition empties the values. -/
def define (σ : Sheet) (x : String) (t : Formula) : Sheet where
  values _ := none
  definitions y := if y = x then some t else σ.definitions y
  standard := σ.standard

/-- Values are written; the last one of a name counts. -/
def write (σ : Sheet) (values : List (String × Int64)) : Sheet where
  values y := (values.reverse.lookup y).or (σ.values y)
  definitions := σ.definitions
  standard := σ.standard

/-! ## Values of formulas -/

/-- **A formula denotes a value** by an expansion of at most some height, which counts one level for every
subexpression and one for every definition that is followed. -/
inductive Denotes (σ : Sheet) : Nat → Formula → Value → Prop
  | literal {h : Nat} (i : Int64) : Denotes σ (h + 1) (.literal i) (.int i)
  | value {h : Nat} {x : String} {i : Int64} (hv : σ.values x = some i) : Denotes σ (h + 1) (.name x) (.int i)
  | definition {h : Nat} {x : String} {t : Formula} {v : Value} (hv : σ.values x = none)
      (hd : σ.definitions x = some t) (ht : Denotes σ h t v) : Denotes σ (h + 1) (.name x) v
  | standard {h : Nat} {x : String} {v : Value} (hv : σ.values x = none) (hd : σ.definitions x = none)
      (hs : σ.standard x = some v) : Denotes σ (h + 1) (.name x) v
  | apply {h : Nat} {o : Operator} {left right : Formula} {u v w : Value} (hl : Denotes σ h left u)
      (hr : Denotes σ h right v) (hw : o.primitive.run [u, v] = .ok w) : Denotes σ (h + 1) (.apply o left right) w

theorem Denotes.succ (hd : Denotes σ h t v) : Denotes σ (h + 1) t v := by
  induction hd with
  | literal i => exact .literal i
  | value hv => exact .value hv
  | definition hv hd _ ih => exact .definition hv hd ih
  | standard hv hd hs => exact .standard hv hd hs
  | apply _ _ hw ihl ihr => exact .apply ihl ihr hw

theorem Denotes.mono (hd : Denotes σ h t v) (hk : h ≤ k) : Denotes σ k t v := by
  induction hk with
  | refl => exact hd
  | step _ ih => exact ih.succ

theorem Denotes.pos (hd : Denotes σ h t v) : 0 < h := by cases hd <;> exact Nat.succ_pos _

/-- A name without a written value denotes what its definition denotes, one level below. -/
theorem Denotes.of_definition (hd : Denotes σ h (.name x) v) (hv : σ.values x = none)
    (hdef : σ.definitions x = some t) : ∃ k, h = k + 1 ∧ Denotes σ k t v := by
  cases hd with
  | value hv' =>
    rw [hv] at hv'
    cases hv'
  | standard _ hdef' =>
    rw [hdef] at hdef'
    cases hdef'
  | definition _ hdef' ht =>
    cases Option.some.inj (hdef.symm.trans hdef')
    exact ⟨_, rfl, ht⟩

/-- **A formula denotes at most one value.** -/
theorem Denotes.unique (hv : Denotes σ h t v) (hw : Denotes σ k t w) : v = w := by
  induction hv generalizing k w with
  | literal i => cases hw; rfl
  | value hi =>
    cases hw with
    | value hj => rw [Option.some.inj (hi.symm.trans hj)]
    | definition hn | standard hn => rw [hn] at hi; cases hi
  | definition hn hd _ ih =>
    obtain ⟨k, -, ht⟩ := hw.of_definition hn hd
    exact ih ht
  | standard hn hd hs =>
    cases hw with
    | value hj => rw [hn] at hj; cases hj
    | definition _ hd' => rw [hd] at hd'; cases hd'
    | standard _ _ hs' => exact Option.some.inj (hs.symm.trans hs')
  | apply _ _ hw₁ ihl ihr =>
    cases hw with
    | apply hl hr hw₂ =>
      rw [ihl hl, ihr hr] at hw₁
      exact Except.ok.inj (hw₁.symm.trans hw₂)

/-! ## Standard sheets -/

/-- **A sheet keeps the operators**: no name of one was written or defined, and what is there from the start are the
builtins behind them and other values without procedures. -/
structure Standard (σ : Sheet) : Prop where
  values (o : Operator) : σ.values o.name = none
  definitions (o : Operator) : σ.definitions o.name = none
  operator (o : Operator) : ∃ id, σ.standard o.name = some (.builtin ⟨id, .primitive o.primitive⟩)
  procedures {x : String} {v : Value} : σ.standard x = some v → v.procedures = []

theorem Operator.not_isStructural (o : Operator) : o.primitive.isStructural = false := by cases o <;> rfl

/-- No formula denotes a procedure. -/
theorem Denotes.procedures (hσ : σ.Standard) (hd : Denotes σ h t v) : v.procedures = [] := by
  induction hd with
  | literal | value => rfl
  | definition _ _ _ ih => exact ih
  | standard _ _ hs => exact hσ.procedures hs
  | apply _ _ hw => exact (Primitive.scalar_run (Operator.not_isStructural _) _).procedures hw

theorem Standard.define (hσ : σ.Standard) {x : String} (hx : ∀ o : Operator, x ≠ o.name) (t : Formula) :
    (σ.define x t).Standard where
  values _ := rfl
  definitions o := (if_neg (hx o).symm).trans (hσ.definitions o)
  operator := hσ.operator
  procedures := hσ.procedures

theorem Standard.write (hσ : σ.Standard) {values : List (String × Int64)}
    (hx : ∀ y ∈ values, ∀ o : Operator, y.1 ≠ o.name) : (σ.write values).Standard where
  values o := by
    have hnone : values.reverse.lookup o.name = none := by
      rw [List.lookup_eq_none_iff]
      intro y hy
      simpa using fun h => hx y (List.mem_reverse.1 hy) o h.symm
    show (values.reverse.lookup o.name).or _ = none
    rw [hnone]
    exact hσ.values o
  definitions := hσ.definitions
  operator := hσ.operator
  procedures := hσ.procedures

/-! ## Exact values -/

/-- **A formula has an exact value** by an expansion of at most some height: no name is missing and the values of all
subexpressions fit. -/
inductive Exact (σ : Sheet) : Nat → Formula → Int → Prop
  | literal {h : Nat} (i : Int64) : Exact σ (h + 1) (.literal i) i.toInt
  | value {h : Nat} {x : String} {i : Int64} (hv : σ.values x = some i) : Exact σ (h + 1) (.name x) i.toInt
  | definition {h : Nat} {x : String} {t : Formula} {z : Int} (hv : σ.values x = none)
      (hd : σ.definitions x = some t) (ht : Exact σ h t z) : Exact σ (h + 1) (.name x) z
  | apply {h : Nat} {o : Operator} {left right : Formula} {y z : Int} (hl : Exact σ h left y) (hr : Exact σ h right z)
      (hf : Number.Fits (o.exact y z)) : Exact σ (h + 1) (.apply o left right) (o.exact y z)

theorem Exact.fits {z : Int} (he : Exact σ h t z) : Number.Fits z := by
  induction he with
  | literal i | value => exact fits_toInt _
  | definition _ _ _ ih => exact ih
  | apply _ _ hf => exact hf

/-- The builtin of an operator is exact where the result fits. -/
theorem Operator.run_exact (o : Operator) {y z : Int} (hy : Number.Fits y) (hz : Number.Fits z)
    (hf : Number.Fits (o.exact y z)) :
    o.primitive.run [.int (.ofInt y), .int (.ofInt z)] = .ok (.int (.ofInt (o.exact y z))) := by
  have hexact : ∀ {n : Int} (x : Float), Number.Fits n → Number.ofExact n x = .int (.ofInt n) :=
    fun _ hn => if_pos hn
  have hy' := toInt_ofInt_of_fits hy
  have hz' := toInt_ofInt_of_fits hz
  cases o with
  | plus =>
    have hzero : Number.add (.int 0) (.int (.ofInt y)) = .int (.ofInt y) := by
      rw [Number.add, hy', Int64.toInt_zero, Int.zero_add, hexact _ hy]
    have hsum : Number.add (.int (.ofInt y)) (.int (.ofInt z)) = .int (.ofInt (y + z)) := by
      rw [Number.add, hy', hz']
      exact hexact _ hf
    show Except.ok (Value.number (Number.add (Number.add (.int 0) (.int (.ofInt y))) (.int (.ofInt z)))) = _
    rw [hzero, hsum]
    rfl
  | minus =>
    have hdiff : Number.sub (.int (.ofInt y)) (.int (.ofInt z)) = .int (.ofInt (y - z)) := by
      rw [Number.sub, hy', hz']
      exact hexact _ hf
    show Except.ok (Value.number (Number.sub (.int (.ofInt y)) (.int (.ofInt z)))) = _
    rw [hdiff]
    rfl
  | times =>
    have hone : Number.mul (.int 1) (.int (.ofInt y)) = .int (.ofInt y) := by
      rw [Number.mul, hy', Int64.toInt_one, Int.one_mul, hexact _ hy]
    have hprod : Number.mul (.int (.ofInt y)) (.int (.ofInt z)) = .int (.ofInt (y * z)) := by
      rw [Number.mul, hy', hz']
      exact hexact _ hf
    show Except.ok (Value.number (Number.mul (Number.mul (.int 1) (.int (.ofInt y))) (.int (.ofInt z)))) = _
    rw [hone, hprod]
    rfl

theorem Exact.denotes {z : Int} (he : Exact σ h t z) : Denotes σ h t (.int (.ofInt z)) := by
  induction he with
  | literal i =>
    rw [Int64.ofInt_toInt]
    exact .literal i
  | value hv =>
    rw [Int64.ofInt_toInt]
    exact .value hv
  | definition hv hd _ ih => exact .definition hv hd ih
  | @apply _ o _ _ _ _ hl hr hf ihl ihr => exact .apply ihl ihr (o.run_exact hl.fits hr.fits hf)

/-! ## Formulas without a value -/

/-- **The names that the expansion of a formula reaches.** -/
inductive Needs (σ : Sheet) : Formula → String → Prop
  | name (x : String) : Needs σ (.name x) x
  | definition {x y : String} {t : Formula} (hv : σ.values x = none) (hd : σ.definitions x = some t)
      (ht : Needs σ t y) : Needs σ (.name x) y
  | left {o : Operator} {left right : Formula} {x : String} (h : Needs σ left x) : Needs σ (.apply o left right) x
  | right {o : Operator} {left right : Formula} {x : String} (h : Needs σ right x) : Needs σ (.apply o left right) x

/-- A name that is not there. -/
def Unresolved (σ : Sheet) (x : String) : Prop :=
  σ.values x = none ∧ σ.definitions x = none ∧ σ.standard x = none

/-- A name that depends on itself. -/
def Circular (σ : Sheet) (x : String) : Prop :=
  σ.values x = none ∧ ∃ t, σ.definitions x = some t ∧ Needs σ t x

theorem Needs.denotes (hn : Needs σ t x) (hd : Denotes σ h t v) : ∃ w, Denotes σ h (.name x) w := by
  induction hn generalizing h v with
  | name x => exact ⟨v, hd⟩
  | definition hv hdef _ ih =>
    obtain ⟨k, rfl, ht⟩ := hd.of_definition hv hdef
    obtain ⟨w, hw⟩ := ih ht
    exact ⟨w, hw.succ⟩
  | left _ ih =>
    cases hd with
    | apply hl hr hw =>
      obtain ⟨w, hw⟩ := ih hl
      exact ⟨w, hw.succ⟩
  | right _ ih =>
    cases hd with
    | apply hl hr hw =>
      obtain ⟨w, hw⟩ := ih hr
      exact ⟨w, hw.succ⟩

theorem Unresolved.not_denotes (hx : Unresolved σ x) : ¬ Denotes σ h (.name x) v := by
  obtain ⟨hv, hd, hs⟩ := hx
  intro hx
  cases hx with
  | value hv' => rw [hv] at hv'; cases hv'
  | definition _ hd' => rw [hd] at hd'; cases hd'
  | standard _ _ hs' => rw [hs] at hs'; cases hs'

/-- An expansion of a name that depends on itself would contain a smaller one. -/
theorem Circular.not_denotes (hx : Circular σ x) : ¬ Denotes σ h (.name x) v := by
  obtain ⟨hv, t, hd, hn⟩ := hx
  induction h generalizing v with
  | zero => exact nofun
  | succ h ih =>
    intro hx
    obtain ⟨k, hk, ht⟩ := hx.of_definition hv hd
    cases hk
    obtain ⟨w, hw⟩ := hn.denotes ht
    exact ih hw

/-- **A formula that needs a missing or a circular name denotes nothing.** -/
theorem not_denotes_of_needs (hn : Needs σ t x) (hx : Unresolved σ x ∨ Circular σ x) : ¬ Denotes σ h t v := by
  intro hd
  obtain ⟨w, hw⟩ := hn.denotes hd
  exact hx.elim (fun hx => hx.not_denotes hw) fun hx => hx.not_denotes hw

end Sheet
end LazyFormula
