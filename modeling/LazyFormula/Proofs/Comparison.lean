import LazyFormula.Primitive.Run
import LazyFormula.Proofs.FloatOrder
/-!
# Comparing numbers

Two integers are compared exactly, and so are two floats, infinities included. An integer and a float are compared
through the float nearest to the integer, so they count as equal where that is the float, whatever the integer
(`Number.compare?_eq`), and beyond `2 ^ 53` equality is not transitive. The order never contradicts the exact one, and
what is strictly before something else stays before it (`Number.compare?_trans`), which is all that a greatest or a
least number needs.
-/
namespace LazyFormula
namespace Number

open FloatBits (place place_mono)

/-! ## What numbers denote -/

/-- What a number denotes; all numbers denote something but NaN. -/
def value? : Number → Option (WithBot (WithTop ℚ))
  | .int i => some ((i.toInt : ℚ) : WithTop ℚ)
  | .float x => FloatBits.value? x

def isInt : Number → Bool
  | .int _ => true
  | .float _ => false

/-- **An integer and the float that it is rounded to.** They need not denote the same. -/
def Blurred (a b : Number) : Prop := a.isInt ≠ b.isInt ∧ (a.toFloat == b.toFloat) = true

instance (a b : Number) : Decidable (Blurred a b) := inferInstanceAs (Decidable (_ ∧ _))

theorem exists_value {n : Number} (h : n ≠ .float notANumber) : ∃ e, n.value? = some e := by
  cases n with
  | int i => exact ⟨_, rfl⟩
  | float x => exact FloatBits.exists_value fun hx => h (congrArg _ hx)

/-- The float of a number has the place of what the number denotes. -/
theorem toFloat_of_value {n : Number} {e : WithBot (WithTop ℚ)} (h : n.value? = some e) :
    n.toFloat ≠ notANumber ∧ FloatBits.rank n.toFloat = place e := by
  cases n with
  | int i =>
    cases h
    exact ⟨FloatBits.nearestInt_ne _, FloatBits.rank_nearestInt _⟩
  | float x =>
    obtain ⟨hne, -, hrank⟩ := FloatBits.denoted_of_value h
    exact ⟨hne, hrank⟩

section Compare

variable {a b c : Number} {x y z : WithBot (WithTop ℚ)}

theorem blurred_iff (ha : a.value? = some x) (hb : b.value? = some y) :
    Blurred a b ↔ a.isInt ≠ b.isInt ∧ place x = place y := by
  obtain ⟨hne, hrank⟩ := toFloat_of_value ha
  obtain ⟨hne', hrank'⟩ := toFloat_of_value hb
  rw [Blurred, FloatBits.beq_iff_rank hne hne', hrank, hrank']

/-- Where the places differ, they are in the order of what is denoted. -/
theorem cmp_place (h : place x ≠ place y) : cmp (place x) (place y) = cmp x y := by
  rcases h.lt_or_gt with hlt | hgt
  · rw [(cmp_eq_lt_iff _ _).2 hlt, (cmp_eq_lt_iff _ _).2 (place_mono.reflect_lt hlt)]
  · rw [(cmp_eq_gt_iff _ _).2 hgt, (cmp_eq_gt_iff _ _).2 (place_mono.reflect_lt hgt)]

theorem cmp_intCast (i j : Int) :
    cmp (((i : ℚ) : WithTop ℚ) : WithBot (WithTop ℚ)) ((j : ℚ) : WithTop ℚ) = compare i j := by
  have hmono : StrictMono fun i : Int => (((i : ℚ) : WithTop ℚ) : WithBot (WithTop ℚ)) :=
    WithBot.coe_strictMono.comp (WithTop.coe_strictMono.comp Int.cast_strictMono)
  rw [← cmp_eq_compare]
  exact hmono.cmp_map_eq i j

/-- Two numbers that are not both integers are compared by their places. -/
theorem compare?_eq_cmp_place (hint : ¬ (a.isInt = true ∧ b.isInt = true)) (ha : a.value? = some x)
    (hb : b.value? = some y) : a.compare? b = some (cmp (place x) (place y)) := by
  obtain ⟨hne, hrank⟩ := toFloat_of_value ha
  obtain ⟨hne', hrank'⟩ := toFloat_of_value hb
  have hfloats : a.compare? b = compareFloats a.toFloat b.toFloat := by
    cases a with
    | int i =>
      cases b with
      | int j => exact absurd ⟨rfl, rfl⟩ hint
      | float _ => rfl
    | float _ => rfl
  rw [hfloats, FloatBits.compareFloats_eq hne hne', hrank, hrank']

/-- **Numbers are compared by what they denote**, an integer and the float that it is rounded to apart. -/
theorem compare?_eq (ha : a.value? = some x) (hb : b.value? = some y) :
    a.compare? b = some (if Blurred a b then .eq else cmp x y) := by
  have hblurred := blurred_iff ha hb
  by_cases hint : a.isInt = b.isInt
  · rw [if_neg fun h => (hblurred.1 h).1 hint]
    cases a with
    | int i =>
      cases b with
      | int j =>
        cases ha
        cases hb
        rw [cmp_intCast]
        rfl
      | float _ => cases hint
    | float _ =>
      cases b with
      | int _ => cases hint
      | float _ =>
        rw [compare?_eq_cmp_place (fun h => Bool.noConfusion h.1) ha hb]
        by_cases hplace : place x = place y
        · obtain ⟨-, hx, -⟩ := FloatBits.denoted_of_value ha
          obtain ⟨-, hy, -⟩ := FloatBits.denoted_of_value hb
          rw [hx.eq_of_place_eq hy hplace, cmp_self_eq_eq, cmp_self_eq_eq]
        · rw [cmp_place hplace]
  · rw [compare?_eq_cmp_place (fun h => hint (h.1.trans h.2.symm)) ha hb]
    by_cases hplace : place x = place y
    · rw [if_pos (hblurred.2 ⟨hint, hplace⟩), (cmp_eq_eq_iff _ _).2 hplace]
    · rw [if_neg fun h => hplace (hblurred.1 h).2, cmp_place hplace]

/-- Equality is the middle of the order. -/
theorem same_iff (ha : a.value? = some x) (hb : b.value? = some y) : a.same b = true ↔ a.compare? b = some .eq := by
  obtain ⟨hne, hrank⟩ := toFloat_of_value ha
  obtain ⟨hne', hrank'⟩ := toFloat_of_value hb
  have hfloats : ¬ (a.isInt = true ∧ b.isInt = true) →
      ((a.toFloat == b.toFloat) = true ↔ a.compare? b = some .eq) := by
    intro hint
    rw [FloatBits.beq_iff_rank hne hne', hrank, hrank', compare?_eq_cmp_place hint ha hb, Option.some_inj,
      cmp_eq_eq_iff]
  cases a with
  | int i =>
    cases b with
    | int j =>
      show (i == j) = true ↔ some (compare i.toInt j.toInt) = some .eq
      rw [beq_iff_eq, Option.some_inj, compare_eq_iff_eq, Int64.toInt_inj]
    | float _ => exact hfloats fun h => Bool.noConfusion h.2
  | float _ => exact hfloats fun h => Bool.noConfusion h.1

/-- **An integer up to `2 ^ 53` is rounded to no other value.** -/
theorem eq_of_blurred (ha : a.value? = some x) (hb : b.value? = some y) (h : Blurred a b) :
    x = y ∨ ∃ i, (a = .int i ∨ b = .int i) ∧ 2 ^ 53 < |i.toInt| := by
  obtain ⟨hint, hplace⟩ := (blurred_iff ha hb).1 h
  cases a with
  | int i =>
    cases b with
    | int _ => exact absurd rfl hint
    | float _ =>
      cases ha
      refine (le_or_gt |i.toInt| (2 ^ 53)).imp (fun hle => ?_) fun hgt => ⟨i, .inl rfl, hgt⟩
      exact (FloatBits.denoted_int hle).eq_of_place_eq (FloatBits.denoted_of_value hb).2.1 hplace
  | float _ =>
    cases b with
    | int j =>
      cases hb
      refine (le_or_gt |j.toInt| (2 ^ 53)).imp (fun hle => ?_) fun hgt => ⟨j, .inr rfl, hgt⟩
      exact (FloatBits.denoted_of_value ha).2.1.eq_of_place_eq (FloatBits.denoted_int hle) hplace
    | float _ => exact absurd rfl hint

/-- What the order says strictly is so. -/
theorem of_compare?_eq {o : Ordering} (ho : o ≠ .eq) (ha : a.value? = some x) (hb : b.value? = some y)
    (h : a.compare? b = some o) : ¬ Blurred a b ∧ cmp x y = o := by
  rw [compare?_eq ha hb] at h
  split at h
  · exact absurd (Option.some.inj h).symm ho
  · rename_i hblurred
    exact ⟨hblurred, Option.some.inj h⟩

/-- **What is strictly before something else stays before it.** A value in between is rounded to one in between, so an
integer and a float around it would have been told apart from it by one of the two. -/
theorem compare?_trans {o : Ordering} (ho : o ≠ .eq) (ha : a.value? = some x) (hb : b.value? = some y)
    (hc : c.value? = some z) (hab : a.compare? b = some o) (hbc : b.compare? c = some o) : a.compare? c = some o := by
  obtain ⟨hab, hxy⟩ := of_compare?_eq ho ha hb hab
  obtain ⟨hbc, hyz⟩ := of_compare?_eq ho hb hc hbc
  rw [blurred_iff ha hb] at hab
  rw [blurred_iff hb hc] at hbc
  have hbetween : cmp x z = o ∧ (place x = place z → place x = place y ∧ place y = place z) := by
    cases o with
    | eq => exact absurd rfl ho
    | lt =>
      rw [cmp_eq_lt_iff] at hxy hyz ⊢
      refine ⟨hxy.trans hyz, fun h => ?_⟩
      have := place_mono hxy.le
      have := place_mono hyz.le
      omega
    | gt =>
      rw [cmp_eq_gt_iff] at hxy hyz ⊢
      refine ⟨hyz.trans hxy, fun h => ?_⟩
      have := place_mono hxy.le
      have := place_mono hyz.le
      omega
  rw [compare?_eq ha hc, if_neg, hbetween.1]
  rw [blurred_iff ha hc]
  rintro ⟨hint, hplace⟩
  obtain ⟨hxy, hyz⟩ := hbetween.2 hplace
  by_cases h : a.isInt = b.isInt
  · exact hbc ⟨fun h' => hint (h.trans h'), hyz⟩
  · exact hab ⟨h, hxy⟩

theorem compare?_self {o : Ordering} (ho : o ≠ .eq) (ha : a.value? = some x) : a.compare? a ≠ some o := by
  intro h
  obtain ⟨-, hself⟩ := of_compare?_eq ho ha ha h
  exact ho (hself ▸ cmp_self_eq_eq x)

end Compare

/-! ## The first that nothing is before -/

/-- The better one of the best number so far and the next one. -/
def keep (o : Ordering) (best n : Number) : Number := if n.compare? best = some o then n else best

/-- **No number beats the one that is kept.** The one that is kept is the first one or beats it, which carries what is
known of the first one over to it. -/
theorem foldl_keep {o : Ordering} (ho : o ≠ .eq) : ∀ (ns : List Number) (best : Number),
    (∀ n ∈ best :: ns, n ≠ .float notANumber) →
      ns.foldl (keep o) best ∈ best :: ns ∧
      (ns.foldl (keep o) best = best ∨ (ns.foldl (keep o) best).compare? best = some o) ∧
      ∀ n ∈ best :: ns, n.compare? (ns.foldl (keep o) best) ≠ some o
  | [], best, hvalue => by
    obtain ⟨_, hbest⟩ := exists_value (hvalue best List.mem_cons_self)
    refine ⟨List.mem_cons_self, .inl rfl, fun n hn => ?_⟩
    rw [List.mem_singleton.1 hn]
    exact compare?_self ho hbest
  | n :: ns, best, hvalue => by
    have hvalues : ∀ m ∈ best :: n :: ns, ∃ e, m.value? = some e := fun m hm => exists_value (hvalue m hm)
    obtain ⟨_, hbest⟩ := hvalues best List.mem_cons_self
    obtain ⟨_, hn⟩ := hvalues n (List.mem_cons_of_mem _ List.mem_cons_self)
    have hrest : n :: ns ⊆ best :: n :: ns := List.subset_cons_self ..
    have hskip : best :: ns ⊆ best :: n :: ns := List.cons_subset_cons _ (List.subset_cons_self ..)
    rw [List.foldl_cons, keep]
    split <;> rename_i hbeats
    · obtain ⟨hmem, hfirst, hall⟩ := foldl_keep ho ns n fun m hm => hvalue m (hrest hm)
      generalize ns.foldl (keep o) n = r at hmem hfirst hall ⊢
      obtain ⟨_, hr⟩ := hvalues r (hrest hmem)
      have hrbest : r.compare? best = some o := by
        rcases hfirst with rfl | hfirst
        · exact hbeats
        · exact compare?_trans ho hr hn hbest hfirst hbeats
      refine ⟨hrest hmem, .inr hrbest, List.forall_mem_cons.2 ⟨fun h => ?_, hall⟩⟩
      exact compare?_self ho hbest (compare?_trans ho hbest hr hbest h hrbest)
    · obtain ⟨hmem, hfirst, hall⟩ := foldl_keep ho ns best fun m hm => hvalue m (hskip hm)
      generalize ns.foldl (keep o) best = r at hmem hfirst hall ⊢
      obtain ⟨_, hr⟩ := hvalues r (hskip hmem)
      obtain ⟨hbestr, hall⟩ := List.forall_mem_cons.1 hall
      refine ⟨hskip hmem, hfirst,
        List.forall_mem_cons.2 ⟨hbestr, List.forall_mem_cons.2 ⟨fun h => hbeats ?_, hall⟩⟩⟩
      rcases hfirst with rfl | hfirst
      · exact h
      · exact compare?_trans ho hn hr hbest h hfirst

end Number

namespace Primitive

open Number (Blurred keep foldl_keep compare?_eq compare?_trans exists_value)

theorem foldlM_keep {o : Ordering} {f : Option Number → Value → Outcome (Option Number)}
    (hnone : ∀ n, f none (.number n) = .ok (some n))
    (hsome : ∀ best n, f (some best) (.number n) = .ok (some (keep o best n))) (n : Number) (ns : List Number) :
    ((n :: ns).map Value.number).foldlM f none = .ok (some (ns.foldl (keep o) n)) := by
  rw [List.map_cons, List.foldlM_cons, hnone]
  show (ns.map Value.number).foldlM f (some n) = _
  induction ns generalizing n with
  | nil => rfl
  | cons m ns ih =>
    rw [List.map_cons, List.foldlM_cons, hsome, List.foldl_cons]
    exact ih _

/-- A greatest or a least number is found by keeping the better one. -/
theorem extremum_eq {better : Comparison} {o : Ordering} (hbetter : ∀ c, better.holds c = (c == some o))
    (caller : Action) (n : Number) (ns : List Number) {args : List Value}
    (hargs : args = (n :: ns).map .number ∨ args = [.list ((n :: ns).map .number)]) :
    extremum caller better args = .ok (.number (ns.foldl (keep o) n)) := by
  have hsome : ∀ best n : Number, Except.ok (ε := EvalError)
      (some (if better.holds (n.compare? best) then n else best)) =
      .ok (some (keep o best n)) := by
    intro best n
    rw [hbetter]
    simp only [beq_iff_eq, keep]
  unfold extremum
  dsimp only
  split
  · rename_i vs
    obtain rfl : vs = (n :: ns).map .number := by
      rcases hargs with h | h
      · cases h
      · exact Value.list.inj (List.cons.inj h).1
    rw [foldlM_keep (fun _ => rfl) hsome]
    rfl
  · rename_i hlist
    obtain rfl : args = (n :: ns).map .number := hargs.resolve_right (hlist _)
    rw [foldlM_keep (fun _ => rfl) hsome]
    rfl

/-- **Numbers are in the order of what they denote**, an integer and the float that it is rounded to apart: these are
equal, and denote different values only where the integer is beyond `2 ^ 53`. Before and after are transitive, so the
greatest and the least of some numbers are among them and beaten by none, in whatever order the numbers are given. -/
theorem extremum_unbeaten (ns : List Number) (hne : ns ≠ []) (hnan : ∀ n ∈ ns, n ≠ .float notANumber) :
    (∀ a ∈ ns, ∀ b ∈ ns, ∃ x y, a.value? = some x ∧ b.value? = some y ∧
      a.compare? b = some (if Blurred a b then .eq else cmp x y) ∧ (a.same b = true ↔ a.compare? b = some .eq) ∧
      (Blurred a b → x = y ∨ ∃ i, (a = .int i ∨ b = .int i) ∧ 2 ^ 53 < |i.toInt|)) ∧
    (∀ a ∈ ns, ∀ b ∈ ns, ∀ c ∈ ns, ∀ o ≠ .eq, a.compare? b = some o → b.compare? c = some o →
      a.compare? c = some o) ∧
    ∀ args, args = ns.map .number ∨ args = [.list (ns.map .number)] →
      (∃ m ∈ ns, Primitive.max.run args = .ok (.number m) ∧ ∀ n ∈ ns, n.compare? m ≠ some .gt) ∧
      ∃ m ∈ ns, Primitive.min.run args = .ok (.number m) ∧ ∀ n ∈ ns, n.compare? m ≠ some .lt := by
  have hvalue : ∀ n ∈ ns, ∃ e, n.value? = some e := fun n hn => exists_value (hnan n hn)
  refine ⟨fun a ha b hb => ?_, fun a ha b hb c hc o ho => ?_, fun args hargs => ?_⟩
  · obtain ⟨x, hx⟩ := hvalue a ha
    obtain ⟨y, hy⟩ := hvalue b hb
    exact ⟨x, y, hx, hy, compare?_eq hx hy, Number.same_iff hx hy, Number.eq_of_blurred hx hy⟩
  · obtain ⟨_, hx⟩ := hvalue a ha
    obtain ⟨_, hy⟩ := hvalue b hb
    obtain ⟨_, hz⟩ := hvalue c hc
    exact compare?_trans ho hx hy hz
  · obtain ⟨n, ns, rfl⟩ := List.exists_cons_of_ne_nil hne
    obtain ⟨hmax, -, hgreatest⟩ := foldl_keep (o := .gt) (by decide) ns n hnan
    obtain ⟨hmin, -, hleast⟩ := foldl_keep (o := .lt) (by decide) ns n hnan
    exact ⟨⟨_, hmax, extremum_eq (fun _ => rfl) _ n ns hargs, hgreatest⟩,
      ⟨_, hmin, extremum_eq (fun _ => rfl) _ n ns hargs, hleast⟩⟩

/-- An integer that no float denotes, beside the one below it as a float and as an integer. -/
theorem greatest_beyond_floats :
    let ns : List Number := [.int 9007199254740993, .float 9007199254740992.0, .int 9007199254740992]
    ns ≠ [] ∧ (∀ n ∈ ns, n ≠ .float notANumber) ∧
    ∃ m ∈ ns, Primitive.max.run (ns.map .number) = .ok (.number m) ∧ ∀ n ∈ ns, n.compare? m ≠ some .gt :=
  ⟨by decide, by decide, ((extremum_unbeaten _ (by decide) (by decide)).2.2 _ (.inl rfl)).1⟩

/-- Equality is not transitive: two integers that differ are rounded to one float. -/
theorem equality_not_transitive :
    let a : Number := .int 9007199254740993
    let b : Number := .float 9007199254740992.0
    let c : Number := .int 9007199254740992
    a.same b = true ∧ b.same c = true ∧ a.same c = false ∧ a.compare? b = some .eq := by
  decide

end Primitive
end LazyFormula
