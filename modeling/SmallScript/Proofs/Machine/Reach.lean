import SmallScript.Proofs.Machine.Globals
import Mathlib.Logic.Relation

/-!
# What can be reached

An `Item` is a cell or a native function. The contents of a cell mention items, and what can be reached from
an item is found by following such mentions. From a cell that is paired, only paired cells and native
functions outside the guarded modules can be reached: `Bridge.not_reaches_guarded`.

Where two runs begin on the same machine with every cell paired with itself, they stay on the same machine:
`Bridge.left_eq_right`.
-/

namespace SmallScript.Machine

open Value (ScopeRef ObjectRef Native)
open Data (Table)

/-- A cell or a native function. -/
inductive Item where
  | cell (k : CellKind) (i : Nat)
  | native (f : Native)
deriving DecidableEq

/-- The item that a value refers to. -/
def valueItem? : Value → Option Item
  | .array i => some (.cell .array i)
  | .object (.record i) => some (.cell .record i)
  | .object (.scope i) => some (.cell .scope i)
  | .func i => some (.cell .closure i)
  | .native f => some (.native f)
  | .cls i => some (.cell .cls i)
  | .enum i => some (.cell .enum i)
  | .null | .bool _ | .num _ _ | .str _ | .bare => none

/-- The items that the contents of a cell mention. -/
def Content.items : Content → List Item
  | .scope s => s.vars.values.filterMap valueItem? ++ s.parent.toList.map (.cell .scope)
  | .array elements => elements.toList.filterMap valueItem?
  | .record r => r.fields.values.filterMap valueItem?
  | .closure c => [.cell .scope c.scope]
  | .cls c => c.members.values.filterMap valueItem?
  | .enum e => e.members.values.filterMap valueItem?
  | .stamp => []

/-- The first item is a cell that mentions the second one. -/
def Heap.Mentions (h : Heap) (a b : Item) : Prop :=
  ∃ k i c, a = .cell k i ∧ h.content? k i = some c ∧ b ∈ c.items

/-- The second item can be reached from the first one. -/
def Heap.Reaches (h : Heap) : Item → Item → Prop := Relation.ReflTransGen h.Mentions

/-- An item that a link pairs with something, or a native function outside the guarded modules. -/
def Item.IsLinked (ρ : Link) : Item → Prop
  | .cell k i => ∃ j, ρ k i j
  | .native f => f ∉ guardedNatives

variable {ρ : Link}

theorem ValueLink.isLinked_item {v v'} (h : ValueLink ρ v v') {a} (ha : valueItem? v = some a) : a.IsLinked ρ := by
  cases h with
  | array h | func h | cls h | enum h => cases ha; exact ⟨_, h⟩
  | object h =>
    cases h with
    | record h | scope h => cases ha; exact ⟨_, h⟩
  | native f h => cases ha; exact h
  | _ => cases ha

theorem ValuesLink.isLinked_items {vs vs'} (h : ValuesLink ρ vs vs') : ∀ a ∈ vs.filterMap valueItem?, a.IsLinked ρ := by
  intro a ha
  obtain ⟨v, hv, hva⟩ := List.mem_filterMap.1 ha
  obtain ⟨i, hi, rfl⟩ := List.mem_iff_getElem.1 hv
  have hi' : i < vs'.length := h.length_eq ▸ hi
  exact (h.get hi hi').isLinked_item hva

theorem ContentLink.isLinked_items {i j c c'} (h : ContentLink ρ i j c c') : ∀ a ∈ c.items, a.IsLinked ρ := by
  cases h with
  | @scope a b parent vars constants left right =>
    intro item hi
    rcases List.mem_append.1 hi with hi | hi
    · exact vars.values.isLinked_items item hi
    · revert parent hi
      generalize a.parent = p
      generalize b.parent = q
      intro parent hi
      cases parent with
      | none => cases hi
      | some hp =>
        have he : item = .cell .scope _ := List.mem_singleton.1 hi
        subst he
        exact ⟨_, hp⟩
  | array elements => exact elements.isLinked_items
  | record fields => exact fields.values.isLinked_items
  | closure _ _ scope =>
    intro item hi
    have he : item = .cell .scope _ := List.mem_singleton.1 hi
    subst he
    exact ⟨_, scope⟩
  | cls _ members | enum _ members => exact members.values.isLinked_items
  | stamp => exact fun _ hi => nomatch hi

namespace Bridge

variable {β : Base} (b : Bridge β)

/-- A mention leads from a paired cell to paired cells. -/
theorem isLinked_of_mentions {a c} (ha : a.IsLinked b.link) (h : b.left.heap.Mentions a c) : c.IsLinked b.link := by
  obtain ⟨k, i, d, rfl, hd, hc⟩ := h
  obtain ⟨j, hj⟩ := ha
  obtain ⟨e, e', he, -, hl⟩ := b.linked.content hj
  rw [hd] at he
  cases he
  exact hl.isLinked_items c hc

theorem isLinked_of_reaches {a c} (ha : a.IsLinked b.link) (h : b.left.heap.Reaches a c) : c.IsLinked b.link := by
  induction h with
  | refl => exact ha
  | tail _ hm ih => exact b.isLinked_of_mentions ih hm

/-- No native function of a guarded module can be reached from what is paired. -/
theorem not_reaches_guarded {a} (ha : a.IsLinked b.link) {f} (hf : f ∈ guardedNatives) :
    ¬ b.left.heap.Reaches a (.native f) :=
  fun h => b.isLinked_of_reaches ha h hf

end Bridge

/-! ## Cells paired with themselves -/

/-- The link pairs cells only with themselves. -/
def Link.IsDiagonal (ρ : Link) : Prop := ∀ ⦃k : CellKind⦄ ⦃i j : Nat⦄, ρ k i j → i = j

section

variable (hρ : Link.IsDiagonal ρ)
include hρ

theorem ValueLink.eq_of_diagonal {v v'} (h : ValueLink ρ v v') : v = v' := by
  cases h with
  | num n h | array h | func h | cls h | enum h => rw [hρ h]
  | object h =>
    cases h with
    | record h | scope h => rw [hρ h]
  | _ => rfl

theorem ValuesLink.eq_of_diagonal {vs vs'} (h : ValuesLink ρ vs vs') : vs = vs' :=
  List.forall₂_eq_eq_eq ▸ h.imp fun _ _ hv => hv.eq_of_diagonal hρ

theorem TableLink.eq_of_diagonal {t t'} (h : TableLink ρ t t') : t = t' := by
  have he : t.entries = t'.entries := List.forall₂_eq_eq_eq ▸ .imp
    (fun _ _ he => Prod.ext he.1 (he.2.eq_of_diagonal hρ)) h
  cases t
  cases t'
  exact congrArg _ he

theorem ContentLink.eq_of_diagonal {i j c c'} (h : ContentLink ρ i j c c') : c = c' := by
  cases h with
  | @scope a b parent vars constants left right =>
    have hp : a.parent = b.parent := by
      revert parent
      generalize a.parent = p
      generalize b.parent = q
      intro parent
      cases parent with
      | none => rfl
      | some hp => rw [hρ hp]
    have hv := vars.eq_of_diagonal hρ
    obtain ⟨p, v, cs, g⟩ := a
    obtain ⟨p', v', cs', g'⟩ := b
    cases hp
    cases hv
    cases constants
    cases left
    cases right
    rfl
  | array elements => rw [Array.toList_inj.1 (elements.eq_of_diagonal hρ)]
  | @record a b fields frozen left right =>
    have hf := fields.eq_of_diagonal hρ
    obtain ⟨f, z⟩ := a
    obtain ⟨f', z'⟩ := b
    cases hf
    cases frozen
    rfl
  | @closure a b name params scope body =>
    have hs := hρ scope
    obtain ⟨n, ps, s, bd⟩ := a
    cases name
    cases params
    cases hs
    cases body
    rfl
  | @cls a b name members params =>
    have hm := members.eq_of_diagonal hρ
    obtain ⟨n, ms, ps⟩ := a
    obtain ⟨n', ms', ps'⟩ := b
    cases name
    cases hm
    cases params
    rfl
  | @enum a b name members =>
    have hm := members.eq_of_diagonal hρ
    obtain ⟨n, ms⟩ := a
    obtain ⟨n', ms'⟩ := b
    cases name
    cases hm
    rfl
  | stamp => rfl

end

namespace Bridge

variable {β : Base} (b : Bridge β)

theorem link_diagonal (hb : β.left = β.right) (hd : Link.IsDiagonal β.known) : Link.IsDiagonal b.link := by
  rintro k i j ⟨hk | ⟨t, rfl, rfl⟩, -⟩
  · exact hd hk
  · rw [hb]

/-- Two runs that begin on one machine with cells paired with themselves stay on one machine. -/
theorem left_eq_right (hb : β.left = β.right) (hd : Link.IsDiagonal β.known) : b.left = b.right := by
  have hdiag := b.link_diagonal hb hd
  have hcount : ∀ k, b.left.heap.count k = b.right.heap.count k := by
    intro k
    obtain ⟨n, hl, hr⟩ := b.linked.counts k
    rw [hl, hr, hb]
  have hcontent : ∀ k i, b.left.heap.content? k i = b.right.heap.content? k i := by
    intro k i
    by_cases hp : ∃ j, b.link k i j
    · obtain ⟨j, hj⟩ := hp
      obtain ⟨c, c', hc, hc', hl⟩ := b.linked.content hj
      have hij := hdiag hj
      subst hij
      rw [hc, hc', hl.eq_of_diagonal hdiag]
    · by_cases hi : i < β.left.heap.count k
      · -- a cell of the beginning without a partner
        have hk : ∀ j, ¬ β.known k i j := fun j hj => hp ⟨j, b.known_le k i j hj⟩
        have hk' : ∀ j, ¬ β.known k j i := fun j hj => hk i (by have hji := hd hj; subst hji; exact hj)
        have hi' : i < β.right.heap.count k := by rw [← hb]; exact hi
        rw [b.linked.frameLeft k i hi hk, b.linked.frameRight k i hi' hk', hb]
      · -- a cell that is not there, as all others are paired
        have hge : b.left.heap.count k ≤ i := by
          refine Nat.le_of_not_lt fun hlt => hp ⟨i, .inr ⟨i - β.left.heap.count k, ?_, ?_⟩, hlt⟩
          · omega
          · rw [← hb]
            omega
        rw [Heap.content?_eq_none.2 hge, Heap.content?_eq_none.2 (by rw [← hcount]; exact hge)]
  have hheap := Heap.ext_of_content? hcount hcontent
  obtain ⟨e, hl, hr⟩ := b.linked.effects
  have hworld : b.left.world = b.right.world := by rw [hl, hr, hb]
  have hpending : b.left.pending = b.right.pending := by
    rw [b.linked.pendingLeft, b.linked.pendingRight, hb]
  calc b.left = ⟨b.left.heap, b.left.world, b.left.pending⟩ := rfl
    _ = ⟨b.right.heap, b.right.world, b.right.pending⟩ := by rw [hheap, hworld, hpending]

end Bridge

end SmallScript.Machine
