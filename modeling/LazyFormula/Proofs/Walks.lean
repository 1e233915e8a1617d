import LazyFormula.Proofs.Lifetimes
import LazyFormula.Proofs.Moves
import Mathlib.Logic.Hydra
/-!
# The walk of an invalidation

Values are dropped one scope after the other: the walk takes the first pending scope, drops what it holds, and puts its
living listeners in front of what is pending. Scopes may die at every step, because what is dropped may have been all
that held them; the walk itself holds the scopes that are pending. It ends whatever dies on the way (`Walk.ends`), and
then the scopes at the written one and below it that are left have dropped their values and no other scope has changed
(`Walk.Stage.finish`). `Store.invalidate` is what the walk does when nothing dies (`Walk.invalidate`).
-/
namespace LazyFormula

variable {L : Fragment} {held : List ScopeId} {reach : Reach}

/-- **Where the walk stands**: the store and the scopes that it still goes to. -/
structure Walk where
  store : Store
  pending : List ScopeId

variable {w w₁ w' : Walk} {st : Store} {s t : ScopeId}

namespace Walk

/-- **One step of a walk** while some scopes are held from outside. Scopes die when values are dropped, before the
listeners are asked, and once more when the walk lets go of the scope that it was at. -/
inductive Step (held : List ScopeId) (reach : Reach) : Walk → Walk → Prop
  | visit {st st₁ st₂ : Store} {s : ScopeId} {rest next : List ScopeId}
      (hf : Store.Fades (s :: rest ++ held) (st.modify s (·.clear reach)) st₁)
      (hnext : next = (st₁.scope s).listeners.filter st₁.alive)
      (hf' : Store.Fades (next ++ rest ++ held) st₁ st₂) :
      Step held reach ⟨st, s :: rest⟩ ⟨st₂, next ++ rest⟩

/-- **Steps one after the other.** -/
inductive Steps (held : List ScopeId) (reach : Reach) : Walk → Walk → Prop
  | refl (w : Walk) : Steps held reach w w
  | head {w w₁ w' : Walk} (h : Step held reach w w₁) (rest : Steps held reach w₁ w') : Steps held reach w w'

theorem Steps.trans (h : Steps held reach w w₁) (h' : Steps held reach w₁ w') : Steps held reach w w' := by
  induction h with
  | refl => exact h'
  | head hs _ ih => exact .head hs (ih h')

/-- A walk goes on as long as a scope is pending. -/
theorem exists_step (held : List ScopeId) (reach : Reach) (h : w.pending ≠ []) : ∃ w', Step held reach w w' := by
  obtain ⟨st, pending⟩ := w
  cases pending with
  | nil => exact absurd rfl h
  | cons s rest =>
    exact ⟨_, .visit (Store.fades_of_scope? _ rfl fun _ => rfl) rfl (Store.fades_of_scope? _ rfl fun _ => rfl)⟩

end Walk

/-! ## Dropping the values of one scope -/

namespace Store

theorem listeners_of_dead (h : st.alive s = false) : (st.scope s).listeners = [] := by
  have hn : st.scope? s = none := by simpa [alive] using h
  rw [scope, hn]
  rfl

/-- The living listeners of a scope are its children. -/
theorem Formed.mem_live_listeners (h : st.Formed L) :
    t ∈ (st.scope s).listeners.filter st.alive ↔ st.alive t = true ∧ (st.scope t).parent? = some s := by
  rw [List.mem_filter]
  constructor
  · rintro ⟨hmem, ha⟩
    have hs : st.alive s = true := by
      by_contra hs
      rw [listeners_of_dead (by simpa using hs)] at hmem
      cases hmem
    exact ⟨ha, h.listened (scope?_eq_of_alive hs) hmem (scope?_eq_of_alive ha)⟩
  · rintro ⟨ha, hp⟩
    obtain ⟨up, hup⟩ := List.head?_eq_some_iff.1 hp
    exact ⟨h.listening (scope?_eq_of_alive ha) hup, ha⟩

theorem Formed.clear (h : st.Formed L) (s : ScopeId) (reach : Reach) : (st.modify s (·.clear reach)).Formed L := by
  refine h.relink (size_modify ..) (alive_modify st s _) fun {t c'} hc' => ?_
  rcases scope_of_modify hc' with ⟨c, hc, rfl, rfl⟩ | ⟨-, hc'⟩
  · refine ⟨c, hc, rfl, rfl, fun he => h.definitions hc he, fun {n slot} hslot => ?_⟩
    cases reach with
    | everything => cases hslot
    | derived =>
      rw [Scope.get?_clear_derived, Option.filter_eq_some_iff] at hslot
      exact h.slots hc hslot.1
  · exact ⟨c', hc', rfl, rfl, fun he => h.definitions hc' he, fun hslot => h.slots hc' hslot⟩

end Store

namespace Walk

/-- A scope that is left after values were dropped at one scope and scopes died. -/
theorem scope_of_fades_clear {st₁ : Store} {hold : List ScopeId} {c' : Scope}
    (hf : Store.Fades hold (st.modify s (·.clear reach)) st₁) (hc' : st₁.scope? t = some c') :
    ∃ c, st.scope? t = some c ∧ c'.ancestors = c.ancestors ∧ c'.definitions = c.definitions ∧
      c'.slots = (if t = s then c.clear reach else c).slots := by
  obtain ⟨c₀, l, hc₀, rfl, -⟩ := hf.scope hc'
  rcases Store.scope_of_modify hc₀ with ⟨c, hc, rfl, rfl⟩ | ⟨hts, hc₀⟩
  · exact ⟨c, hc, rfl, rfl, by rw [if_pos rfl]⟩
  · exact ⟨c₀, hc₀, rfl, rfl, by rw [if_neg hts]⟩

theorem Step.formed (hw : Step held reach w w') (h : w.store.Formed L) : w'.store.Formed L := by
  cases hw with
  | visit hf _ hf' => exact hf'.formed (hf.formed (h.clear _ _))

theorem Step.size (hw : Step held reach w w') : w'.store.scopes.size = w.store.scopes.size := by
  cases hw with
  | visit hf _ hf' => exact hf'.size.trans (hf.size.trans (Store.size_modify ..))

/-! ## The walk ends -/

/-- The scopes of a store, ordered from the youngest to the oldest. -/
def Younger (size t s : Nat) : Prop := s < t ∧ t < size

theorem wellFounded_younger (size : Nat) : WellFounded (Younger size) := by
  refine Subrelation.wf (r := InvImage (· < ·) fun s => size - s) ?_ (InvImage.wf _ Nat.lt_wfRel.wf)
  rintro t s ⟨hst, ht⟩
  show size - t < size - s
  omega

/-- A step replaces a pending scope by younger ones. -/
theorem Step.cutExpand (hw : Step held reach w w') (h : w.store.Formed L) :
    Relation.CutExpand (Younger w.store.scopes.size) (w'.pending : Multiset ScopeId) w.pending := by
  cases hw with
  | @visit st st₁ st₂ s rest next hf hnext hf' =>
    refine ⟨next, s, fun t ht => ?_, ?_⟩
    · have hst₁ := hf.formed (h.clear s reach)
      rw [hnext, Multiset.mem_coe, hst₁.mem_live_listeners] at ht
      obtain ⟨ha, hparent⟩ := ht
      obtain ⟨up, hup⟩ := List.head?_eq_some_iff.1 hparent
      refine ⟨(hst₁.parented (Store.scope?_eq_of_alive ha) hup).1, ?_⟩
      rw [← Store.size_modify st s (·.clear reach), ← hf.size]
      exact Store.lt_size_of_alive ha
    · show ((next ++ rest : List ScopeId) : Multiset ScopeId) + {s} =
          ((s :: rest : List ScopeId) : Multiset ScopeId) + next
      rw [← Multiset.coe_singleton, Multiset.coe_add, Multiset.coe_add, Multiset.coe_eq_coe]
      exact (List.perm_append_singleton s (next ++ rest)).trans (List.perm_append_comm.cons s)

/-- **A walk ends**, whatever dies on the way. -/
theorem ends (h : w.store.Formed L) : Acc (fun w' w => Step held reach w w') w := by
  have hwf := (wellFounded_younger w.store.scopes.size).cutExpand
  generalize hsize : w.store.scopes.size = size at hwf
  generalize hp : (w.pending : Multiset ScopeId) = pending
  induction pending using hwf.induction generalizing w with
  | _ pending ih =>
    refine ⟨w, fun w' hw => ?_⟩
    have hcut := hw.cutExpand h
    rw [hsize, hp] at hcut
    exact ih _ hcut (hw.formed h) (hw.size.trans hsize) rfl

/-! ## What the walk leaves -/

end Walk

/-- A scope that is properly below another one is below a child of it, or is one. -/
theorem Store.Formed.exists_child {u : ScopeId} (h : st.Formed L) (ht : st.alive t = true)
    (hu : u ∈ st.chain t) (hne : t ≠ u) : ∃ d ∈ st.chain t, (st.scope d).parent? = some u := by
  induction t using Nat.strongRecOn with
  | _ t ih =>
    obtain ⟨c, hc⟩ := Store.alive_iff.1 ht
    cases hp : c.ancestors with
    | nil =>
      rw [Store.chain_of_scope? hc, hp, List.mem_singleton] at hu
      exact absurd hu.symm hne
    | cons p up =>
      obtain ⟨hlt, hpa, -⟩ := h.parented hc hp
      rw [h.chain_eq hc hp] at hu ⊢
      by_cases hpu : p = u
      · refine ⟨t, List.mem_cons_self, ?_⟩
        rw [Store.scope_of_scope? hc, Scope.parent?, hp, hpu]
        rfl
      · have hup : u ∈ st.chain p := (List.mem_cons.1 hu).resolve_left fun h => hne h.symm
        obtain ⟨d, hd, hparent⟩ := ih p hlt hpa hup hpu
        exact ⟨d, List.mem_cons_of_mem _ hd, hparent⟩

theorem Scope.get?_clear_of_cleared {c c' : Scope} {name : String}
    (h : c'.slots.get? name = (c.clear reach).slots.get? name) :
    (c'.clear reach).slots.get? name = (c.clear reach).slots.get? name := by
  cases reach with
  | everything => rfl
  | derived =>
    rw [Scope.get?_clear_derived, h, Scope.get?_clear_derived, Option.filter_filter]
    simp only [Bool.and_self]

namespace Walk

/-- **What holds during a walk from a scope**: what is left was cleared if it is at the scope or below, or it is as it
was and, if it is to be cleared, below a pending scope. -/
structure Stage (L : Fragment) (reach : Reach) (st : Store) (s : ScopeId) (w : Walk) : Prop where
  formed : w.store.Formed L
  pending {p : ScopeId} : p ∈ w.pending → st.alive p = true ∧ s ∈ st.chain p
  scope {t : ScopeId} {c' : Scope} : w.store.scope? t = some c' → ∃ c, st.scope? t = some c ∧
    c'.ancestors = c.ancestors ∧ c'.definitions = c.definitions ∧
    (c'.slots = c.slots ∧ (s ∈ st.chain t → ∃ p ∈ w.pending, p ∈ st.chain t) ∨
      s ∈ st.chain t ∧ ∀ name, c'.slots.get? name = (c.clear reach).slots.get? name)

theorem stage_start (h : st.Formed L) (hs : st.alive s = true) : Stage L reach st s ⟨st, [s]⟩ where
  formed := h
  pending hp := by
    rw [List.mem_singleton.1 hp]
    exact ⟨hs, List.mem_cons_self⟩
  scope {_ c'} hc' := ⟨c', hc', rfl, rfl, .inl ⟨rfl, fun hm => ⟨s, List.mem_singleton_self s, hm⟩⟩⟩

/-- **A step of the walk keeps what holds during it.** -/
theorem Stage.step (hst : st.Formed L) (h : Stage L reach st s w) (hw : Step held reach w w') :
    Stage L reach st s w' := by
  have hformed := hw.formed h.formed
  cases hw with
  | @visit st₀ st₁ st₂ u rest next hf hnext hf' =>
    have hst₁ := hf.formed (h.formed.clear u reach)
    have hu := h.pending List.mem_cons_self
    -- before the listeners are asked, what is left has its old place
    have hplace : ∀ {t}, st₁.alive t = true → st.alive t = true ∧ st₁.chain t = st.chain t := by
      intro t ht
      obtain ⟨c₁, hc₁⟩ := Store.alive_iff.1 ht
      obtain ⟨c₀, hc₀, hanc, -⟩ := scope_of_fades_clear hf hc₁
      obtain ⟨c, hc, hanc', -⟩ := h.scope hc₀
      rw [Store.chain_of_scope? hc₁, Store.chain_of_scope? hc, hanc, hanc']
      exact ⟨Store.alive_of_scope? hc, rfl⟩
    refine ⟨hformed, fun {p} hp => ?_, fun {t c₂} hc₂ => ?_⟩
    · rcases List.mem_append.1 hp with hp | hp
      · rw [hnext, hst₁.mem_live_listeners] at hp
        obtain ⟨ha, hparent⟩ := hp
        obtain ⟨up, hup⟩ := List.head?_eq_some_iff.1 hparent
        obtain ⟨hpa, hchain⟩ := hplace ha
        have hpu : u ∈ st.chain p := by
          rw [← hchain, Store.chain, hup]
          exact List.mem_cons_of_mem _ List.mem_cons_self
        exact ⟨hpa, hst.mem_chain_trans hpa hpu hu.2⟩
      · exact h.pending (List.mem_cons_of_mem _ hp)
    · obtain ⟨c₁, l, hc₁, rfl, -⟩ := hf'.scope hc₂
      obtain ⟨c₀, hc₀, hanc₀, hdef₀, hslots₀⟩ := scope_of_fades_clear hf hc₁
      obtain ⟨c, hc, hanc, hdef, hslots⟩ := h.scope hc₀
      refine ⟨c, hc, hanc₀.trans hanc, hdef₀.trans hdef, ?_⟩
      show c₁.slots = c.slots ∧ _ ∨ _ ∧ ∀ name, c₁.slots.get? name = _
      by_cases htu : t = u
      · rw [if_pos htu] at hslots₀
        refine .inr ⟨htu ▸ hu.2, fun name => ?_⟩
        rw [hslots₀]
        rcases hslots with ⟨hsame, -⟩ | ⟨-, hcleared⟩
        · cases reach with
          | everything => rfl
          | derived => rw [Scope.get?_clear_derived, Scope.get?_clear_derived, hsame]
        · exact Scope.get?_clear_of_cleared (hcleared name)
      · rw [if_neg htu] at hslots₀
        rw [hslots₀]
        rcases hslots with ⟨hsame, hpending⟩ | hcleared
        case inr => exact .inr hcleared
        refine .inl ⟨hsame, fun hm => ?_⟩
        obtain ⟨p, hp, hpt⟩ := hpending hm
        rcases List.mem_cons.1 hp with rfl | hp
        · -- the scope is now below a child of the one that was visited
          have ht := Store.alive_of_scope? hc₁
          rw [← (hplace ht).2] at hpt ⊢
          obtain ⟨d, hd, hparent⟩ := hst₁.exists_child ht hpt htu
          refine ⟨d, List.mem_append_left _ ?_, hd⟩
          rw [hnext, hst₁.mem_live_listeners]
          exact ⟨(hst₁.alive_of_mem_chain ht hd).1, hparent⟩
        · exact ⟨p, List.mem_append_right _ hp, hpt⟩

theorem Stage.steps (hst : st.Formed L) (h : Stage L reach st s w) (hw : Steps held reach w w') :
    Stage L reach st s w' := by
  induction hw with
  | refl => exact h
  | head hstep _ ih => exact ih (h.step hst hstep)

/-- **What a walk from a scope leaves.** -/
theorem Stage.finish (h : Stage L reach st s w) (hw : w.pending = []) {c' : Scope} (hc' : w.store.scope? t = some c') :
    ∃ c, st.scope? t = some c ∧ c'.definitions = c.definitions ∧ (s ∉ st.chain t → c'.slots = c.slots) ∧
      (s ∈ st.chain t → ∀ name, c'.slots.get? name = (c.clear reach).slots.get? name) := by
  obtain ⟨c, hc, -, hdef, ⟨hsame, hpending⟩ | ⟨hm, hcleared⟩⟩ := h.scope hc'
  · refine ⟨c, hc, hdef, fun _ => hsame, fun hm => ?_⟩
    obtain ⟨p, hp, -⟩ := hpending hm
    rw [hw] at hp
    cases hp
  · exact ⟨c, hc, hdef, fun hn => absurd hm hn, fun _ => hcleared⟩

/-! ## The walk in which nothing dies -/

/-- Two stores in which the same scopes live and are listened to. -/
def SameShape (st st' : Store) : Prop :=
  ∀ t, st'.alive t = st.alive t ∧ (st'.scope t).listeners = (st.scope t).listeners

theorem SameShape.clear {st' : Store} (h : SameShape st st') (s : ScopeId) (reach : Reach) :
    SameShape st (st'.modify s (·.clear reach)) := by
  intro t
  obtain ⟨ha, hl⟩ := h t
  refine ⟨(Store.alive_modify ..).trans ha, ?_⟩
  rw [← hl, Store.scope, Store.scope?_modify, Store.scope]
  split
  · rename_i hts
    rw [hts]
    cases st'.scope? s <;> rfl
  · rfl

/-- Where nothing dies, the walk goes to a scope and all scopes below it before it goes on. -/
theorem steps_reachDown (hst : st.Formed L) : ∀ (levels : Nat) {s : ScopeId} {st' : Store} (rest : List ScopeId),
    st.alive s = true → st.scopes.size ≤ levels + s → SameShape st st' →
    Steps held reach ⟨st', s :: rest⟩
      ⟨(st.reachDown levels s).foldl (fun st t => st.modify t (·.clear reach)) st', rest⟩ ∧
      SameShape st ((st.reachDown levels s).foldl (fun st t => st.modify t (·.clear reach)) st')
  | 0, s, st', rest, hs, hlevels, _ => by
    exact absurd (Nat.zero_add s ▸ hlevels) (Nat.not_le.2 (Store.lt_size_of_alive hs))
  | levels + 1, s, st', rest, hs, hlevels, hshape => by
    have hforest : ∀ (ts : List ScopeId), (∀ t ∈ ts, st.alive t = true ∧ s < t) →
        ∀ {st' : Store}, SameShape st st' →
        Steps held reach ⟨st', ts ++ rest⟩
          ⟨(ts.flatMap (st.reachDown levels)).foldl (fun st t => st.modify t (·.clear reach)) st', rest⟩ ∧
        SameShape st ((ts.flatMap (st.reachDown levels)).foldl (fun st t => st.modify t (·.clear reach)) st') := by
      intro ts
      induction ts with
      | nil => exact fun _ _ h => ⟨.refl _, h⟩
      | cons t ts ih =>
        intro hts st' h
        obtain ⟨ha, hlt⟩ := hts t List.mem_cons_self
        have hsize : st.scopes.size ≤ levels + t := by
          rw [Nat.add_assoc, Nat.add_comm 1] at hlevels
          exact Nat.le_trans hlevels (Nat.add_le_add_left hlt levels)
        obtain ⟨hwalk, h'⟩ := steps_reachDown hst levels (ts ++ rest) ha hsize h
        obtain ⟨hwalk', h''⟩ := ih (fun u hu => hts u (List.mem_cons_of_mem _ hu)) h'
        rw [List.flatMap_cons, List.foldl_append]
        exact ⟨hwalk.trans hwalk', h''⟩
    have hclear := hshape.clear s reach
    have hnext : ((st'.modify s (·.clear reach)).scope s).listeners.filter (st'.modify s (·.clear reach)).alive =
        (st.scope s).listeners.filter st.alive := by
      rw [(hclear s).2, funext fun t => (hclear t).1]
    have hvisit : Step held reach ⟨st', s :: rest⟩
        ⟨st'.modify s (·.clear reach), (st.scope s).listeners.filter st.alive ++ rest⟩ :=
      .visit (Store.fades_of_scope? _ rfl fun _ => rfl) hnext.symm (Store.fades_of_scope? _ rfl fun _ => rfl)
    obtain ⟨hwalk, hshape'⟩ := hforest ((st.scope s).listeners.filter st.alive) (fun t ht => by
      obtain ⟨ha, hparent⟩ := hst.mem_live_listeners.1 ht
      obtain ⟨up, hup⟩ := List.head?_eq_some_iff.1 hparent
      exact ⟨ha, (hst.parented (Store.scope?_eq_of_alive ha) hup).1⟩) hclear
    exact ⟨.head hvisit hwalk, hshape'⟩

/-- **`Store.invalidate` walks**, and nothing dies. -/
theorem exists_invalidate (hst : st.Formed L) (hs : st.alive s = true) (held : List ScopeId) (reach : Reach)
    (written : List String) : ∃ st₁, Steps held reach ⟨st, [s]⟩ ⟨st₁, []⟩ ∧
      st.invalidate s reach written = st₁.record (.invalidation s reach written) :=
  ⟨_, (steps_reachDown hst st.scopes.size [] hs (Nat.le_add_right ..) fun _ => ⟨rfl, rfl⟩).1, rfl⟩

end Walk
end LazyFormula
