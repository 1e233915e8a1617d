import LazyFormula.Proofs.Atlas
import LazyFormula.Proofs.Roots
/-!
# Stores that mirror a world

A store in which an evaluation goes on mirrors the world of the memoryless evaluation: an atlas tells which scope goes
by which one there, what is bound in one is bound in the other, and what is memoized is what the memoryless evaluation
would find (`Mirrors`). Each change that an evaluation makes keeps this, with the same change made in the world.
-/
namespace LazyFormula
namespace Memoryless

/-! ## Values and scopes of evaluations that are over -/

/-- A value made by nothing but evaluations that are over. -/
def Settled (v : Value) : Prop :=
  ∀ p ∈ v.procedures, p.hold = .strong ∧ (∃ o, o.isOwn = false ∧ p.scope = Origin.code o) ∧
  ∃ o, o.isOwn = false ∧ p.lambda.id = Origin.code o

theorem settled_of_procedures_eq_nil {v : Value} (h : v.procedures = []) : Settled v := by simp [Settled, h]

theorem settled_rename (v : Value) (name : String) : Settled (v.rename (settling name)) := by
  have hnumber : ∀ n, ∃ o : Origin, o.isOwn = false ∧ Origin.settleCode name n = o.code := by
    intro n
    refine ⟨_, ?_, rfl⟩
    cases Origin.ofCode? n with
    | none => rfl
    | some o => exact Origin.isOwn_settle o name
  intro p hp
  rw [Value.procedures_rename] at hp
  obtain ⟨q, -, rfl⟩ := List.mem_map.1 hp
  exact ⟨rfl, hnumber _, hnumber _⟩

/-- What is settled is settled for good. -/
theorem Settled.rename_eq {v : Value} (h : Settled v) (name : String) : v.rename (settling name) = v := by
  refine Value.mapProcedures_eq_self fun p hp => ?_
  obtain ⟨hh, ⟨o, ho, hs⟩, o', ho', hl⟩ := h p hp
  have hscope : Origin.settleCode name p.scope = p.scope := by
    rw [hs, Origin.settleCode_code, Origin.settle_of_isOwn ho]
  have hlambda : Origin.settleCode name p.lambda.id = p.lambda.id := by
    rw [hl, Origin.settleCode_code, Origin.settle_of_isOwn ho']
  rw [Renaming.procedure, settling]
  dsimp only
  rw [hscope, hlambda, ← hh]

/-- A scope made by nothing but evaluations that are over. -/
structure Frame.Settled (f : Frame) : Prop where
  ancestors : ∀ o ∈ f.ancestors, o.isOwn = false
  bound : ∀ x ∈ f.bound, Memoryless.Settled x.2

theorem Frame.settled_settle (f : Frame) (name : String) : (f.settle name).Settled where
  ancestors o ho := by
    obtain ⟨o, -, rfl⟩ := List.mem_map.1 ho
    exact o.isOwn_settle name
  bound x hx := by
    obtain ⟨x, -, rfl⟩ := List.mem_map.1 hx
    exact settled_rename x.2 name

theorem Frame.Settled.settle_eq {f : Frame} (h : f.Settled) (name : String) : f.settle name = f := by
  have hanc : f.ancestors.map (·.settle name) = f.ancestors.map id :=
    List.map_congr_left fun o ho => Origin.settle_of_isOwn (h.ancestors o ho) name
  have hbound : (f.bound.map fun x => (x.1, x.2.rename (settling name))) = f.bound.map id :=
    List.map_congr_left fun x hx => Prod.ext rfl ((h.bound x hx).rename_eq name)
  rw [Frame.settle, hanc, hbound, List.map_id, List.map_id]

variable {K : Book} {L : Fragment} {A A₁ A' : Atlas} {st st₁ st' : Store} {w w₁ w' : World}
  {memo memo₁ memo' : List String}
  {room : Nat} {name : String} {v : Value} {o : Origin} {os : List Origin} {f : Frame} {s t : ScopeId}

/-- What is bound at first holds no procedures. -/
structure Book.Plain (K : Book) : Prop where
  given : ∀ x ∈ K.given, x.2.procedures = []
  standard : ∀ x ∈ K.standard, x.2.procedures = []

/-- What definitions leave behind is settled. -/
theorem settled_of_meaning {entry : Entry} (h : meaning K name = some (.ok entry)) :
    Settled entry.value ∧ ∀ f ∈ entry.frames, f.Settled := by
  obtain ⟨n, -, hn⟩ := exists_first_level h
  obtain ⟨e, -, hr⟩ := Option.bind_eq_some_iff.1 hn
  obtain ⟨v, w, -, -, rfl⟩ := judge_eq_ok hr
  refine ⟨settled_rename _ _, fun f hf => ?_⟩
  obtain ⟨f, -, rfl⟩ := List.mem_map.1 hf
  exact f.settled_settle name

theorem frame?_settled_origin {entry : Entry} (h : meaning K name = some (.ok entry)) (k : Nat) :
    frame? K (meaning K) w (.settled name k) = entry.frames[k]? := by
  rw [frame?, h]
  rfl

theorem settled_of_frame? (hK : K.Plain) (ho : o.isOwn = false) (hf : frame? K (meaning K) w o = some f) :
    f.Settled := by
  cases o with
  | builtins =>
    cases hf
    exact ⟨nofun, fun x hx => settled_of_procedures_eq_nil (hK.standard x hx)⟩
  | root =>
    cases hf
    refine ⟨fun o ho => ?_, fun x hx => settled_of_procedures_eq_nil (hK.given x hx)⟩
    rw [List.mem_singleton.1 ho]
    rfl
  | own k => cases ho
  | settled name k =>
    cases hr : meaning K name with
    | none =>
      rw [frame?, hr] at hf
      cases hf
    | some r =>
      cases r with
      | error error =>
        rw [frame?, hr] at hf
        cases hf
      | ok entry =>
        rw [frame?_settled_origin hr] at hf
        exact (settled_of_meaning hr).2 f (List.mem_of_getElem? hf)

/-- A scope does not depend on the world unless it was made there. -/
theorem frame?_of_isOwn {T : Table} (ho : o.isOwn = false) (w w' : World) : frame? K T w o = frame? K T w' o := by
  cases o with
  | own k => cases ho
  | builtins | root | settled name k => rfl

theorem frame?_congr {T : Table} (h : w'.frames = w.frames) (o : Origin) : frame? K T w' o = frame? K T w o := by
  cases o with
  | own k => rw [frame?, frame?, h]
  | builtins | root | settled name k => rfl

/-- **A scope is what it was when the evaluation that made it is over**, under another name. -/
theorem frame?_settle (hK : K.Plain) (h : meaning K name = some (.ok (conclude name v w₁)))
    (hf : frame? K (meaning K) w₁ o = some f) : frame? K (meaning K) w (o.settle name) = some (f.settle name) := by
  by_cases ho : o.isOwn = false
  · rw [Origin.settle_of_isOwn ho, (settled_of_frame? hK ho hf).settle_eq, frame?_of_isOwn ho w w₁, hf]
  · cases o with
    | own k =>
      rw [Origin.settle, frame?_settled_origin h, conclude, List.getElem?_map]
      exact congrArg (Option.map (Frame.settle name)) hf
    | builtins | root | settled name' k => exact absurd rfl ho

/-! ## What a look-up would find -/

/-- The value of a definition, if it has one. -/
noncomputable def value? (K : Book) (name : String) : Option Value :=
  match meaning K name with
  | some (.ok entry) => some entry.value
  | _ => none

theorem value?_eq {entry : Entry} (h : meaning K name = some (.ok entry)) : value? K name = some entry.value := by
  rw [value?, h]

/-- What is found for a name in scopes one after the other without forcing anything. -/
noncomputable def resolve? (K : Book) (w : World) (memo : List String) (name : String) : List Origin → Option Value
  | [] => none
  | o :: up => do
    let f ← frame? K (meaning K) w o
    match f.bound.lookup name with
    | some v => some v
    | none =>
      if o = .root ∧ (K.definitions.lookup name).isSome then
        if name ∈ memo then value? K name else none
      else resolve? K w memo name up

section
variable (hf : frame? K (meaning K) w o = some f)
include hf

theorem resolve?_bound (hb : f.bound.lookup name = some v) : resolve? K w memo name (o :: os) = some v := by
  rw [resolve?, hf]
  simp [hb]

theorem resolve?_root (hb : f.bound.lookup name = none) (ho : o = .root) {e : Expr}
    (he : K.definitions.lookup name = some e) :
    resolve? K w memo name (o :: os) = if name ∈ memo then value? K name else none := by
  rw [resolve?, hf]
  simp [hb, ho, he]

theorem resolve?_up (hb : f.bound.lookup name = none) (ho : ¬ (o = .root ∧ (K.definitions.lookup name).isSome)) :
    resolve? K w memo name (o :: os) = resolve? K w memo name os := by
  rw [resolve?, hf]
  simp only [Option.bind_eq_bind, Option.bind_some, hb, if_neg ho]

end

/-- Three ways to be found. -/
theorem resolve?_cases (h : resolve? K w memo name (o :: os) = some v) : ∃ f, frame? K (meaning K) w o = some f ∧
    (f.bound.lookup name = some v ∨
      (f.bound.lookup name = none ∧ o = .root ∧ (∃ e, K.definitions.lookup name = some e) ∧ name ∈ memo ∧
        value? K name = some v) ∨
      (f.bound.lookup name = none ∧ ¬ (o = .root ∧ (K.definitions.lookup name).isSome) ∧
        resolve? K w memo name os = some v)) := by
  cases hf : frame? K (meaning K) w o with
  | none =>
    rw [resolve?, hf] at h
    cases h
  | some f =>
    refine ⟨f, rfl, ?_⟩
    cases hb : f.bound.lookup name with
    | some v' =>
      rw [resolve?_bound hf hb] at h
      exact .inl h
    | none =>
      by_cases ho : o = .root ∧ (K.definitions.lookup name).isSome
      · obtain ⟨ho, hdef⟩ := ho
        obtain ⟨e, he⟩ := Option.isSome_iff_exists.1 hdef
        rw [resolve?_root hf hb ho he] at h
        split at h
        · rename_i hm
          exact .inr (.inl ⟨rfl, ho, ⟨e, he⟩, hm, h⟩)
        · cases h
      · rw [resolve?_up hf hb ho] at h
        exact .inr (.inr ⟨rfl, ho, h⟩)

/-- What is found is still found with more memoized and the same scopes. -/
theorem resolve?_mono (hmemo : ∀ n ∈ memo, n ∈ memo') : ∀ {os : List Origin},
    (∀ o ∈ os, ∀ f, frame? K (meaning K) w o = some f → frame? K (meaning K) w' o = some f) →
      resolve? K w memo name os = some v → resolve? K w' memo' name os = some v
  | [], _, h => nomatch h
  | o :: os, hframes, h => by
    obtain ⟨f, hf, hcases⟩ := resolve?_cases h
    have hf' := hframes o List.mem_cons_self f hf
    rcases hcases with hb | ⟨hb, ho, ⟨e, he⟩, hm, hv⟩ | ⟨hb, ho, hup⟩
    · exact resolve?_bound hf' hb
    · rw [resolve?_root hf' hb ho he, if_pos (hmemo name hm), hv]
    · rw [resolve?_up hf' hb ho]
      exact resolve?_mono hmemo (fun o ho => hframes o (List.mem_cons_of_mem _ ho)) hup

theorem value?_settled (h : value? K name = some v) : Settled v := by
  unfold value? at h
  split at h
  · rename_i entry hentry
    cases h
    exact (settled_of_meaning hentry).1
  · cases h

theorem settled_of_resolve? (hK : K.Plain) : ∀ {os : List Origin}, (∀ o ∈ os, o.isOwn = false) →
    resolve? K w memo name os = some v → Settled v
  | [], _, h => nomatch h
  | o :: os, hos, h => by
    obtain ⟨f, hf, hb | ⟨-, -, -, -, hv⟩ | ⟨-, -, hup⟩⟩ := resolve?_cases h
    · exact (settled_of_frame? hK (hos o List.mem_cons_self) hf).bound _ (mem_of_lookup hb)
    · exact value?_settled hv
    · exact settled_of_resolve? hK (fun o ho => hos o (List.mem_cons_of_mem _ ho)) hup

theorem lookup_settle (f : Frame) (name n : String) :
    (f.settle name).bound.lookup n = (f.bound.lookup n).map (Value.rename (settling name)) :=
  Bindings.lookup_map ..

/-- What is found is found when the evaluation is over. -/
theorem resolve?_settle (hK : K.Plain) {a : Value} (h : meaning K name = some (.ok (conclude name a w₁)))
    (hmemo : ∀ n ∈ memo₁, n ∈ memo) {n : String} :
    ∀ {os : List Origin}, resolve? K w₁ memo₁ n os = some v →
      resolve? K w memo n (os.map (·.settle name)) = some (v.rename (settling name))
  | [], h => nomatch h
  | o :: os, hres => by
    obtain ⟨f, hf, hcases⟩ := resolve?_cases hres
    have hf' := frame?_settle (w := w) hK h hf
    rw [List.map_cons]
    rcases hcases with hb | ⟨hb, ho, ⟨e, he⟩, hm, hv⟩ | ⟨hb, ho, hup⟩
    · exact resolve?_bound hf' (by rw [lookup_settle, hb]; rfl)
    · rw [resolve?_root hf' (by rw [lookup_settle, hb]; rfl) (Origin.settle_eq_root.2 ho) he, if_pos (hmemo n hm), hv,
        (value?_settled hv).rename_eq]
    · rw [resolve?_up hf' (by rw [lookup_settle, hb]; rfl) (by rwa [Origin.settle_eq_root])]
      exact resolve?_settle hK h hmemo hup

/-! ## Scopes that reflect each other -/

/-- **A scope of a store goes by a scope of a world.** -/
structure Reflects (K : Book) (w : World) (memo : List String) (A : Atlas) (o : Origin) (c : Scope)
    (f : Frame) : Prop where
  tree : c.tree = 0
  ancestors : f.ancestors = c.ancestors.map A.scopes.origin
  above : ∀ u ∈ c.ancestors, u ∈ A.scopes.ids
  definitions (name : String) : c.definitions.get? name = if o = .root then K.definitions.lookup name else none
  bound (name : String) : f.bound.lookup name = (c.bound? name).map (Value.rename A.codes)
  has {name : String} {slot : Slot} : c.slots.get? name = some slot → ∀ p ∈ slot.value.procedures, A.Has p
  /-- What is memoized is what is found. -/
  derived {name : String} {v : Value} : c.slots.get? name = some ⟨v, .derived⟩ →
    resolve? K w memo name (o :: f.ancestors) = some (v.rename A.codes)

theorem Reflects.has_bound {c : Scope} (h : Reflects K w memo A o c f) (hb : c.bound? name = some v) :
    ∀ p ∈ v.procedures, A.Has p := h.has (Scope.bound?_eq_some.1 hb)

/-- A scope that keeps its place and what is bound in it, and gains nothing. -/
theorem Reflects.mono {c c' : Scope} (h : Reflects K w memo A o c f) (hA : A.Le A') (htree : c'.tree = c.tree)
    (hanc : c'.ancestors = c.ancestors) (hdef : c'.definitions = c.definitions) (hb : ∀ n, c'.bound? n = c.bound? n)
    (hslots : ∀ {n slot}, c'.slots.get? n = some slot → c.slots.get? n = some slot)
    (hres : ∀ {n v}, resolve? K w memo n (o :: f.ancestors) = some v →
      resolve? K w' memo' n (o :: f.ancestors) = some v) :
    Reflects K w' memo' A' o c' f where
  tree := htree.trans h.tree
  ancestors := by
    rw [hanc, h.ancestors]
    exact List.map_congr_left fun u hu => (hA.scopes.origin (h.above u hu)).symm
  above u hu := hA.scopes.mem (h.above u (hanc ▸ hu))
  definitions n := by rw [hdef, h.definitions]
  bound n := by
    rw [hb, h.bound]
    cases hbn : c.bound? n with
    | none => rfl
    | some v => exact congrArg some (hA.rename (h.has_bound hbn)).symm
  has hslot p hp := hA.has (h.has (hslots hslot) p hp)
  derived hslot := by
    rw [hA.rename (h.has (hslots hslot))]
    exact hres (h.derived (hslots hslot))

/-- A value is memoized that is found. -/
theorem Reflects.memoize {c : Scope} (h : Reflects K w memo A o c f) (hb : c.bound? name = none)
    (hv : ∀ p ∈ v.procedures, A.Has p)
    (hres : resolve? K w memo name (o :: f.ancestors) = some (v.rename A.codes)) :
    Reflects K w memo A o (c.put name ⟨v, .derived⟩) f where
  tree := h.tree
  ancestors := h.ancestors
  above := h.above
  definitions := h.definitions
  bound n := by rw [Scope.bound?_put_derived v hb, h.bound]
  has {n slot} hslot := by
    rw [Scope.get?_put] at hslot
    split at hslot
    · cases hslot
      exact hv
    · exact h.has hslot
  derived {n v'} hslot := by
    rw [Scope.get?_put] at hslot
    split at hslot
    · rename_i hn
      cases hslot
      rw [hn]
      exact hres
    · exact h.derived hslot

/-! ## Stores that mirror a world -/

/-- **A store mirrors a world** in which some definitions are remembered, while so many more evaluations can be nested.
What the evaluation in progress made is numbered from a base on. -/
structure Mirrors (K : Book) (L : Fragment) (room base : Nat) (A : Atlas) (st : Store) (w : World)
    (memo : List String) : Prop where
  formed : st.Formed L
  trees : st.trees = #[⟨defaultMaxDepth, defaultMaxDepth - room⟩]
  room_le : room ≤ defaultMaxDepth
  base_le : base ≤ st.scopes.size
  closed : Closed K memo
  scopes : A.scopes.Distinct
  lambdas : A.lambdas.Distinct
  lambda_lt {l : Nat} : l ∈ A.lambdas.ids → l < st.fresh
  root_mem : 1 ∈ A.scopes.ids
  root : A.scopes.origin 1 = .root
  /-- What is remembered is memoized at the root. -/
  remembered {name : String} : name ∈ memo → ∃ v, (st.scope 1).slots.get? name = some ⟨v, .derived⟩
  settled_scope {s : ScopeId} {name : String} {k : Nat} :
    s ∈ A.scopes.ids → A.scopes.origin s = .settled name k → name ∈ memo
  settled_lambda {l : Nat} {name : String} {k : Nat} :
    l ∈ A.lambdas.ids → A.lambdas.origin l = .settled name k → name ∈ memo
  own_scope {s : ScopeId} {k : Nat} : s ∈ A.scopes.ids → A.scopes.origin s = .own k → base ≤ s
  own_lambda {l k : Nat} : l ∈ A.lambdas.ids → A.lambdas.origin l = .own k → k < w.lambdas
  scope {s : ScopeId} : s ∈ A.scopes.ids → ∃ c f, st.scope? s = some c ∧
    frame? K (meaning K) w (A.scopes.origin s) = some f ∧ Reflects K w memo A (A.scopes.origin s) c f

namespace Mirrors

variable {base : Nat} (h : Mirrors K L room base A st w memo)
include h

theorem alive (hs : s ∈ A.scopes.ids) : st.alive s = true := by
  obtain ⟨c, f, hc, -⟩ := h.scope hs
  exact Store.alive_of_scope? hc

theorem scope_lt (hs : s ∈ A.scopes.ids) : s < st.scopes.size := Store.lt_size_of_alive (h.alive hs)

theorem separates : A.codes.Separates A.Has := Atlas.separates h.scopes h.lambdas

theorem supports {a : Value} (hv : A.Names L v a) : st.Supports L v := hv.supports fun _ => h.alive

theorem treeOf (hs : s ∈ A.scopes.ids) : (st.scope s).tree = 0 ∧
    st.treeOf s = ⟨defaultMaxDepth, defaultMaxDepth - room⟩ := by
  obtain ⟨c, f, hc, -, hr⟩ := h.scope hs
  have htree : (st.scope s).tree = 0 := by rw [Store.scope_of_scope? hc, hr.tree]
  exact ⟨htree, by rw [Store.treeOf, htree, h.trees]; rfl⟩

/-- Nothing of it changes but the room. -/
theorem congr {room' : Nat} (hsize : st'.scopes.size = st.scopes.size) (hscope : ∀ t, st'.scope? t = st.scope? t)
    (hfresh : st'.fresh = st.fresh) (htrees : st'.trees = #[⟨defaultMaxDepth, defaultMaxDepth - room'⟩])
    (hroom : room' ≤ defaultMaxDepth) (hframes : w'.frames = w.frames) (hlambdas : w'.lambdas = w.lambdas) :
    Mirrors K L room' base A st' w' memo where
  formed := h.formed.congr hsize hscope
  trees := htrees
  room_le := hroom
  base_le := hsize ▸ h.base_le
  closed := h.closed
  scopes := h.scopes
  lambdas := h.lambdas
  lambda_lt hl := hfresh ▸ h.lambda_lt hl
  root_mem := h.root_mem
  root := h.root
  remembered hn := by
    rw [Store.scope, hscope]
    exact h.remembered hn
  settled_scope := h.settled_scope
  settled_lambda := h.settled_lambda
  own_scope := h.own_scope
  own_lambda hl ho := hlambdas ▸ h.own_lambda hl ho
  scope {s} hs := by
    obtain ⟨c, f, hc, hf, hr⟩ := h.scope hs
    have hframe : ∀ o, frame? K (meaning K) w' o = frame? K (meaning K) w o := frame?_congr hframes
    refine ⟨c, f, (hscope s).trans hc, (hframe _).trans hf, ?_⟩
    exact hr.mono (.refl A) rfl rfl rfl (fun _ => rfl) id
      (resolve?_mono (fun _ => id) fun o _ f hf => (hframe o).trans hf)

end Mirrors
end Memoryless
end LazyFormula
